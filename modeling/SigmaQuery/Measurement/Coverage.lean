import SigmaQuery.Command.Files
import SigmaQuery.Data.Binary
import SigmaQuery.Data.Merge
import SigmaQuery.Text.Fraction
import SigmaQuery.Text.Padding

/-!
# Coverage

Which statements of the files the workloads reach. The table of files begins with those that are
reached least.
-/

namespace SigmaQuery

namespace Path

def relative (directory path : String) : String :=
  let base := steps directory
  let names := if path.startsWith "/" then steps path else steps (directory ++ "/" ++ path)
  let shared := (base.zip names).takeWhile fun p => p.1 == p.2
  match List.replicate (base.length - shared.length) ".." ++ names.drop shared.length with
  | [] => "."
  | ns => "/".intercalate ns

end Path

namespace Measurement

/-- An entry of a map, or a default where there is none or it is empty. A value that is no map has
no entries to ask for. -/
def entry (k : String) (default : Value) : Value → Except Fault Value
  | .map entries => .ok (((lookup (.text k) entries).filter Value.truthy).getD default)
  | _ => .error .noPart

def entriesOf : Value → Except Fault Entries
  | .map entries => .ok entries
  | _ => .error .noPart

/-- The number that a value is or that its text reads as. -/
def number : Value → Except Fault Decimal
  | .text s => match Text.decimal? s with
    | some d => .ok d
    | none => .error .noValue
  | v => match v.number? with
    | some d => .ok d
    | none => .error .wrongType

/-- The whole number that a value is, or is after its places are cut off, or that its text reads
as. -/
def wholeNumber : Value → Except Fault Int
  | .text s => match Text.integer? s with
    | some n => .ok n
    | none => .error .noValue
  | v => match v.number? with
    | some d => .ok d.truncate
    | none => .error .wrongType

def strictNumber (v : Value) : Except Fault Decimal :=
  match v.number? with
  | some d => .ok d
  | none => .error .wrongType

/-- A row of text that shows a whole number. -/
def count (n : Nat) : String := toString n

/-- A number as a table shows it; a truth value is shown as zero or one. -/
def cell : Value → String
  | .bool b => if b then "1" else "0"
  | v => v.display

/-- How much of a file is reached. -/
structure FileCoverage where
  name : String
  statements : Value
  missing : Value
  percent : Decimal
  /-- The lines that are not reached. -/
  lines : List Value
  size : Decimal
deriving Inhabited

/-- How much is reached in all. -/
structure Coverage where
  files : List FileCoverage
  percent : Decimal
  covered : Int
  statements : Int
  /-- The workloads that ended in a fault. -/
  faults : Entries
deriving Inhabited

namespace FileCoverage

/-- The directory from which file names are seen. -/
def home : String := "/repo"

/-- The lines that a list names. A text counts as a list of its characters. -/
def linesOfFile : Value → Except Fault (List Value)
  | .map _ => .error .wrongType
  | v => v.elements

def read (path : String) (v : Value) : Except Fault FileCoverage := do
  let summary ← entry "summary" (.map []) v
  let statements ← entry "num_statements" (.int 0) summary
  let missing ← entry "missing_lines" (.int 0) summary
  let percent ← strictNumber (← entry "percent_covered" (.int 0) summary)
  let lines ← linesOfFile (← entry "missing_lines" (.list []) v)
  let size ← strictNumber statements
  return { name := Path.relative home path, statements, missing, percent, lines, size }

/-- One file comes before another: it is reached less, or is larger. -/
def before (a b : FileCoverage) : Bool :=
  a.percent.less b.percent || !b.percent.less a.percent && !a.size.less b.size

def lineText (f : FileCoverage) : String :=
  ",".intercalate ((f.lines.take 12).map Value.display) ++ if 12 < f.lines.length then "…" else ""

end FileCoverage

namespace Coverage

def read (v : Value) : Except Fault Coverage := do
  let files ← entriesOf (← entry "files" (.map []) v)
  let totals ← entry "totals" (.map []) v
  let errors ← entry "_pti_bench_errors" (.map []) (← entry "meta" (.map []) v)
  let percent ← number (← entry "percent_covered" (.int 0) totals)
  let covered ← wholeNumber (← entry "covered_lines" (.int 0) totals)
  let statements ← wholeNumber (← entry "num_statements" (.int 0) totals)
  let read ← files.mapM fun (k, f) => FileCoverage.read k.name f
  return {
    files := read.mergeSort FileCoverage.before
    percent, covered, statements
    faults := ← entriesOf errors }

/-- The number of statements that are not reached. -/
def missing (c : Coverage) : Int :=
  c.statements - c.covered

def maxWidth : Nat := 60

def maxRows : Nat := 120

def width (c : Coverage) : Nat :=
  c.files.foldl (fun w f => max w (min maxWidth f.name.length)) 4

def row (width : Nat) (name statements missing percent : String) : String :=
  Text.padEnd width (String.ofList (name.toList.take maxWidth)) ++ "  " ++
    Text.padStart 5 statements ++ "  " ++ Text.padStart 4 missing ++ "  " ++
    Text.padStart 5 percent

def percentText (d : Decimal) : String :=
  d.fixed 0 ++ "%"

def table (c : Coverage) : List String :=
  let w := c.width
  let rule := String.ofList (List.replicate (w + 42) '-')
  [row w "Name" "Stmts" "Miss" "Cover" ++ "  Missing", rule] ++
    ((c.files.take maxRows).map fun f =>
      row w f.name (cell f.statements) (cell f.missing) (percentText f.percent) ++ "  " ++
        f.lineText) ++
    [rule, row w "TOTAL" (toString c.statements) (toString c.missing) (percentText c.percent)]

/-- The first workloads that ended in a fault. -/
def faultLines (c : Coverage) : List String :=
  if c.faults.isEmpty then []
  else ["", count c.faults.length ++ " bench error(s):"] ++
    (c.faults.take 8).map fun (k, v) => "  " ++ k.name ++ ": " ++ v.display

end Coverage

end Measurement

end SigmaQuery
