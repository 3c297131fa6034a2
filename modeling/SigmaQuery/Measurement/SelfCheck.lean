import SigmaQuery.Measurement.Coverage

/-!
# Self-checks

A workload should give a result that depends on its work and on nothing else. Each workload is run
several times, and the prints of its results are compared.
-/

namespace SigmaQuery.Measurement

/-- What the self-check of a workload says. -/
inductive CheckStatus where
  | error
  | returnsNothing
  | unstable
  | returnsInput
  | lowTime
  | tooFast
  | unchangeable
  | invariant
  | modified
  | fine
deriving DecidableEq, Repr, Inhabited

namespace CheckStatus

def name : CheckStatus → String
  | .error => "error"
  | .returnsNothing => "returns-none"
  | .unstable => "unstable"
  | .returnsInput => "returns-input"
  | .lowTime => "low-repo-time"
  | .tooFast => "too-fast"
  | .unchangeable => "ok-unparam"
  | .invariant => "param-invariant"
  | .modified => "repo-modified"
  | .fine => "ok"

def isFine : CheckStatus → Bool
  | .fine => true
  | .unchangeable => true
  | _ => false

end CheckStatus

structure SelfCheck where
  name : Key
  /-- The type of the result. -/
  type : String
  status : CheckStatus
  /-- The least share of time in the measured code. -/
  share : Binary
  /-- The time in the measured code. -/
  time : Binary
deriving Inhabited

namespace SelfCheck

def numbers (v : Value) : List Binary :=
  match v with
  | .map entries => entries.filterMap fun e => e.2.number?.map Binary.ofDecimal
  | _ => []

def least : List Binary → Binary
  | [] => ⟨0, 0⟩
  | b :: rest => rest.foldl (fun m x => if x.less m then x else m) b

/-- The middle one of some numbers; of two in the middle, the number half-way. -/
def median (numbers : List Binary) : Binary :=
  let sorted := numbers.mergeSort fun a b => !b.less a
  let i := sorted.length / 2
  if sorted.length % 2 = 1 then sorted.getD i ⟨0, 0⟩
  else match sorted[i - 1]?, sorted[i]? with
    | some a, some b => (a.add b).half
    | _, _ => ⟨0, 0⟩

/-- All items are equal as data, and there is one. -/
def allSame : List Value → Bool
  | [] => false
  | v :: rest => rest.all v.same

def itemsOf : Value → List Value
  | .list items => items
  | _ => []

def valuesOf : Value → List Value
  | .map entries => entries.map Prod.snd
  | _ => []

/-- The status of a workload whose result has a type. -/
def statusOf (type : String) (data : Entries) (share time : Binary) : CheckStatus :=
  let part := fun k => (lookup (.text k) data).getD .null
  let prints := itemsOf (part "fp_stable")
  let byInput := valuesOf (part "fp_by_param")
  if type == "" || type.startsWith "<" then .error
  else if type == "NoneType" then .returnsNothing
  else if !allSame prints then .unstable
  else if prints.head?.any fun p => (itemsOf (part "param_fps")).any p.same then .returnsInput
  else if share.less (Binary.ofDecimal ⟨5, 1⟩) then .lowTime
  else if time.less (Binary.ofDecimal ⟨1, 0⟩) then .tooFast
  else if byInput.length < 2 then .unchangeable
  else if allSame byInput then .invariant
  else .fine

/-- Reads the self-check of a workload. A change to the measured code spoils every workload. -/
def read (modified : Bool) (name : Key) (data : Entries) : SelfCheck :=
  let part := fun k => (lookup (.text k) data).getD .null
  let type := (part "ret_type").text?.getD ""
  let share := least (numbers (part "repo_frac"))
  let time := median (numbers (part "repo_tt_ms"))
  let status := if modified then .modified else statusOf type data share time
  { name, type, status, share, time }

/-- Reads the self-checks of workloads. A workload without data is left out. -/
def readEach (modified : Bool) (v : Value) : Except Fault (List SelfCheck) := do
  let checks ← entriesOf (← entry "semcheck" (.map []) v)
  return checks.filterMap fun (name, data) => match data with
    | .map data => some (read modified name data)
    | _ => none

def line (c : SelfCheck) : String :=
  (if c.status.isFine then "    " else "  * ") ++ Text.padEnd 32 c.name.name ++ " " ++
    Text.padEnd 16 c.status.name ++ " (" ++ (if c.type == "" then "?" else c.type) ++ ", repo " ++
    (c.share.mul (Binary.ofDecimal ⟨100, 0⟩)).fixed 0 ++ "%) " ++ c.time.fixed 1 ++ "ms"

def advice : List String :=
  ["  returns-none: run() has no return — collect and return the call results",
   "  unstable: seed RNG in setup; avoid time/uuid/id in the return",
   "  returns-input: return repo output, not the parameter value",
   "  low-repo-time: <50% of run() time is in repo code — move glue to setup",
   "  param-invariant: return something derived from run()'s work, not setup",
   "  repo-modified: revert edits to repo files (git checkout -- <path>)"]

/-- All workloads, those that need work first. -/
def lines (checks : List SelfCheck) : List String :=
  if checks.isEmpty then []
  else ["", "self-check (* = fix needed):"] ++ advice ++
    (checks.filter fun c => !c.status.isFine).map line ++
    (checks.filter fun c => c.status.isFine).map line

/-- The number of workloads that need work. -/
def unfinished (checks : List SelfCheck) : Nat :=
  checks.countP fun c => !c.status.isFine

/-- How many workloads need work, for the last line of the report. -/
def summary (checks : List SelfCheck) : String :=
  if checks.isEmpty then ""
  else ", " ++ count (unfinished checks) ++ "/" ++ count checks.length ++ " not self-checking"

def toValue (checks : List SelfCheck) : Value :=
  .map (checks.map fun c => (c.name, .text c.status.name))

end SelfCheck

end SigmaQuery.Measurement
