import SigmaQuery.Measurement.Coverage

/-!
# Shares of time

The share of its time that a workload spends in the measured code. A negative share says that the
workload failed.
-/

namespace SigmaQuery.Measurement

/-- Workloads with their shares, and what else took their time. -/
structure TimeShares where
  shares : List (Key × Decimal) := []
  /-- The costliest other code of each workload. -/
  others : Entries := []
deriving Inhabited

namespace TimeShares

def limit : Decimal := .ofInt 45

def read (v : Value) : Except Fault TimeShares := do
  let shares ← entriesOf (← entry "repo_time_pct" (.map []) v)
  let shares ← shares.mapM fun (k, share) => return (k, ← number share)
  return { shares, others := ← entriesOf (← entry "hot_ext" (.map []) v) }

def isFailed (share : Decimal) : Bool :=
  share.mantissa < 0

/-- The workload spends too little time in the measured code. -/
def isLow (share : Decimal) : Bool :=
  !isFailed share && share.less limit

/-- The shares of workloads that did not fail. -/
def measured (t : TimeShares) : List Decimal :=
  (t.shares.map Prod.snd).filter fun s => !isFailed s

/-- The number of low shares; none if no workload was measured. -/
def below? (t : TimeShares) : Option Nat :=
  if t.measured.isEmpty then none else some (t.measured.countP isLow)

/-- The costliest other code of a workload. -/
def otherText (t : TimeShares) (name : Key) : String :=
  let items := match lookup name t.others with
    | some (.list items) => items
    | _ => []
  let parts := items.filterMap fun item => match item with
    | .list [share, code] => share.number?.map fun d => code.display ++ " " ++ d.fixed 0 ++ "%"
    | _ => none
  if parts.isEmpty then "" else " (hot: " ++ " ".intercalate parts ++ ")"

def line (t : TimeShares) (name : Key) (share : Decimal) : String :=
  let shown := if isFailed share then .ofInt 0 else share
  (if isLow share then "  * " else "    ") ++ Text.padEnd 32 name.name ++ " " ++
    Text.padStart 5 (shown.fixed 1) ++ "%" ++
    (if isFailed share then "  <error>" else if isLow share then t.otherText name else "")

/-- All workloads, the lowest share first. -/
def lines (t : TimeShares) : List String :=
  if t.shares.isEmpty then []
  else ["", "repo_time (target 50%; * = below 45%):"] ++
    (t.shares.mergeSort fun a b => !b.2.less a.2).map fun (name, share) => t.line name share

/-- How many shares are low, for the last line of the report. -/
def summary (t : TimeShares) : String :=
  if t.shares.isEmpty then ""
  else ", " ++ count (t.measured.countP isLow) ++ "/" ++ count t.measured.length ++
    " below repo_time 45%"

def toValue (t : TimeShares) : Value :=
  .map (t.shares.map fun (k, d) => (k, .decimal d))

end TimeShares

end SigmaQuery.Measurement
