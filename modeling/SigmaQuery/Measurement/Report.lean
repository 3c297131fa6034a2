import SigmaQuery.Json.Writer
import SigmaQuery.Measurement.SelfCheck
import SigmaQuery.Measurement.TimeShare
import SigmaQuery.Text.Alphanumeric

/-!
# The report on a round of measurements

A round measures the workloads with several tools and reports what they found. Rounds are recorded one
to a line, and the records say when more rounds make nothing better. Rounds that cover too little of the
code do not count for that.
-/

namespace SigmaQuery.Measurement

/-- What a tool leaves. -/
inductive ToolResult where
  | finished (exit : Int) (out err : String)
  | failed (reason : String)
deriving Repr, Inhabited

/-- All that a round works on. -/
structure Round where
  runner : ToolResult
  /-- The tool that measures shares of time, if it is installed. -/
  timer : Option ToolResult
  /-- The tool that checks the workloads, if it is installed. -/
  checker : Option ToolResult
  /-- The tool that lists changed files. -/
  changes : ToolResult
  coverage : Option Value
  /-- The text that defines the workloads. -/
  workloads : Option String
  /-- The records of the rounds before. -/
  history : Option String
  seconds : Decimal
  now : Decimal
deriving Inhabited

/-- What a round leaves. -/
structure RoundResult where
  exit : Int
  out : String
  err : String := ""
  /-- What is added to the records. -/
  recorded : String := ""
deriving Repr, Inhabited

/-! ## Reading what tools leave -/

def linesOf (text : String) : List String :=
  text.splitOn "\n"

/-- The last line of a text that is not blank all over. -/
def lastLine (text : String) : String :=
  (linesOf (String.ofList (Text.trimBlanks text.toList))).getLastD ""

/-- Reads the data on the last line of a tool's output, if there are any. -/
def readTool {α : Type} (read : Value → Except Fault α) : Option ToolResult → Option α
  | some (.finished _ out _) => do (read (← Json.parse? (lastLine out))).toOption
  | _ => none

def ToolResult.complaints : ToolResult → String
  | .finished _ _ err => err
  | .failed _ => ""

/-- The files that a list of changes names; each line begins with a mark. -/
def changedFiles : ToolResult → List String
  | .finished _ out _ =>
    (((linesOf out).filter fun l => !(Text.trimBlanks l.toList).isEmpty).map fun l =>
      String.ofList (l.toList.drop 3)).filter fun f =>
        !(f == "microbench.py" || f.startsWith "_pti_" || f.startsWith ".pti_")
  | .failed _ => []

/-- A line begins the definition of a workload. -/
def definesWorkload (line : String) : Bool :=
  match line.toList with
  | 'd' :: 'e' :: 'f' :: rest =>
    let name := rest.dropWhile Text.isBlank
    let word := name.takeWhile Text.isWordChar
    let after := (name.dropWhile Text.isWordChar).dropWhile Text.isBlank
    name.length < rest.length && "bench_".toList.isPrefixOf word && 6 < word.length &&
      after.head? == some '('
  | _ => false

/-- The number of workloads that a text defines. -/
def workloadCount (text : Option String) : Nat :=
  (linesOf (text.getD "")).countP definesWorkload

/-! ## Records -/

/-- Reads records up to the first line that is none; all were read if there is no such line. -/
def readRecords : List String → List Value × Bool
  | [] => ([], true)
  | line :: rest =>
    if (Text.trimBlanks line.toList).isEmpty then readRecords rest
    else match Json.parse? line with
      | none => ([], false)
      | some v =>
        let (records, whole) := readRecords rest
        (v :: records, whole)

/-- The time since the round before, for records that say when it was. -/
def sinceLast (now : Decimal) (records : List Value) : Option Decimal :=
  match records.getLast? with
  | none => some (.ofInt 0)
  | some last => do
    let time ← (← last.get? (.text "ts")).number?
    return ((Binary.ofDecimal now).sub (Binary.ofDecimal time)).rounded 2

/-- The coverage from which on a round counts. -/
def coverageFloor : Decimal := .ofInt 60

/-- The number of low shares of a round that counts: it covers enough, and shares were measured. -/
def counted? (coverage below : Option Decimal) : Option Decimal := do
  if (← coverage).less coverageFloor then none else below

/-- The numbers of low shares in the recorded rounds that count. -/
def belowBefore (records : List Value) : List Decimal :=
  records.filterMap fun r =>
    counted? ((r.get? (.text "coverage_pct")).bind Value.number?)
      ((r.get? (.text "n_below_repo_time")).bind Value.number?)

def leastDecimal : List Decimal → Decimal
  | [] => .ofInt 0
  | d :: rest => rest.foldl (fun m x => if x.less m then x else m) d

/-- The number of rounds without an improvement after which no more are made. -/
def patience : Nat := 3

/-- Why no more rounds are needed, by the numbers of low shares in the rounds that count. -/
def stopReason (below : List Decimal) : Option String :=
  match below.getLast? with
  | none => none
  | some last =>
    if last.mantissa = 0 then some "0 below"
    else
      let settled := below.take (below.length - patience)
      let recent := below.drop (below.length - patience)
      if settled.isEmpty || (leastDecimal recent).less (leastDecimal settled) then none
      else some ("no improvement in " ++ count patience ++ " rounds; best " ++
        (leastDecimal below).fixed 0 ++ " below")

/-! ## The report -/

/-- What the tools found. -/
structure Findings where
  coverage : Coverage
  shares : TimeShares
  checks : List SelfCheck
  changed : List String
deriving Inhabited

/-- The number of low shares, if the round counts. -/
def Findings.below? (f : Findings) : Option Decimal :=
  counted? (some f.coverage.percent) (f.shares.below?.map fun n => .ofInt n)

/-- The changed files, the first ones only. -/
def changeLines (changed : List String) : List String :=
  if changed.isEmpty then []
  else ["", "** repo modified (" ++ count changed.length ++
      " file(s)) — revert these; only microbench.py is yours to edit:"] ++
    (changed.take 10).map fun f => "   " ++ f

def record (r : Round) (f : Findings) (number : Nat) (since : Decimal) : Value :=
  let c := f.coverage
  .map ([("round", .int number), ("ts", .decimal r.now), ("wall_since_prev_s", .decimal since),
    ("coverage_pct", .decimal c.percent), ("covered_lines", .int c.covered),
    ("num_statements", .int c.statements), ("n_bench_fns", .int (workloadCount r.workloads)),
    ("n_bench_errors", .int c.faults.length),
    ("cov_measure_s", .decimal ((Binary.ofDecimal r.seconds).rounded 3)),
    ("repo_time_pct", f.shares.toValue),
    ("n_below_repo_time", (f.shares.below?.map fun n => Value.int n).getD .null),
    ("semcheck", SelfCheck.toValue f.checks),
    ("n_not_self_checking", .int (SelfCheck.unfinished f.checks))].map fun (k, v) => (.text k, v))

def closing (r : Round) (f : Findings) (records : List Value) : List String :=
  ["", "[round " ++ count (records.length + 1) ++ ": " ++ count (workloadCount r.workloads) ++
      " benches, " ++ f.coverage.percent.fixed 1 ++ "% covered" ++ f.shares.summary ++
      SelfCheck.summary f.checks ++ ", measured in " ++ r.seconds.fixed 1 ++ "s]"] ++
    match stopReason (belowBefore records ++ f.below?.toList) with
    | none => []
    | some reason => ["", ">>> STOP: repo_time converged (" ++ reason ++
        "). Finalize microbench.py now. <<<"]

/-- What the measuring tools complain of, passed on whether or not they succeed. -/
def Round.complaints (r : Round) : String :=
  String.join ((r.runner :: r.timer.toList ++ r.checker.toList).map ToolResult.complaints)

/-- Reports on findings, and records them if the records before can be read. -/
def report (r : Round) (f : Findings) : RoundResult :=
  let (records, whole) := readRecords (linesOf (r.history.getD ""))
  let recorded := match whole, sinceLast r.now records with
    | true, some since => Json.compact (record r f (records.length + 1) since) ++ "\n"
    | _, _ => ""
  let lines := f.coverage.table ++ f.coverage.faultLines ++ f.shares.lines ++
    changeLines f.changed ++ SelfCheck.lines f.checks ++ closing r f records
  { exit := 0, out := String.join (lines.map (· ++ "\n")), err := r.complaints, recorded }

/-- The report on a runner that failed or left no coverage. Without an exit code of its own the round
ends with one. -/
def failedRunner (exit : Int) (out err : String) : RoundResult where
  exit := if exit = 0 then 1 else exit
  out := "coverage measurement failed (exit " ++ toString exit ++ ")\n" ++ out ++ "\n"
  err

/-- The report on a round whose coverage was measured. -/
def Round.measured (r : Round) (document : Value) : Except Fault RoundResult := do
  let coverage ← Coverage.read document
  let changed := changedFiles r.changes
  let shares := (readTool TimeShares.read r.timer).getD {}
  let checks := (readTool (SelfCheck.readEach (!changed.isEmpty)) r.checker).getD []
  return report r { coverage, shares, checks, changed }

def Round.run (r : Round) : Except Fault RoundResult :=
  match r.runner, r.coverage with
  | .failed _, _ => .error .toolFailed
  | .finished 0 _ _, some document => r.measured document
  | .finished exit out err, _ => .ok (failedRunner exit out err)

end SigmaQuery.Measurement
