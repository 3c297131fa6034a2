import SigmaQuery.Data.Display

/-!
# Log

Messages are logged with a severity. Those below the level of the log are dropped. The log is kept in
a file, which is renamed when it is full.
-/

namespace SigmaQuery

/-- How severe a message is. -/
inductive Severity where
  | debug | info | warning | error | critical
deriving DecidableEq, Repr, Inhabited

namespace Severity

def number : Severity → Nat
  | .debug => 10
  | .info => 20
  | .warning => 30
  | .error => 40
  | .critical => 50

def name : Severity → String
  | .debug => "DEBUG"
  | .info => "INFO"
  | .warning => "WARNING"
  | .error => "ERROR"
  | .critical => "CRITICAL"

end Severity

/-- Where a log file stands. -/
inductive LogFolder where
  /-- The folder for logs of the whole system. -/
  | system
  /-- The folder of the program itself. -/
  | program
deriving DecidableEq, Repr, Inhabited

/-- The file of a log. -/
structure LogFile where
  folder : LogFolder
  file : String
  maxBytes : Nat := 5242880
  backups : Nat := 10
  level : Severity := .info
  format : String := "[%(asctime)s][%(name)s][%(levelname)s] %(message)s"
deriving Repr, Inhabited

namespace LogFile

/-- The file of the log with a name. The folder of the system is used where it is there. -/
def ofName (name : String) (systemFolder : Bool) : LogFile where
  folder := if systemFolder then .system else .program
  file := ((name ++ ".log").splitOn "/").getLastD ""

end LogFile

namespace Log

/-- The text that is logged for a value. Percent signs are left out, and a blank ends it. -/
def message (v : Value) : String :=
  String.ofList (v.display.toList.filter (· != '%')) ++ " "

def level : Severity := .info

/-- The messages that are logged, with their severities. -/
def records (messages : List (Severity × Value)) : List (Severity × String) :=
  (messages.filter fun m => level.number ≤ m.1.number).map fun m => (m.1, message m.2)

end Log

end SigmaQuery
