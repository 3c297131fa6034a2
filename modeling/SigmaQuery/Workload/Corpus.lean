import SigmaQuery.Data.Value

/-!
# A corpus of rules

Rules of four sorts, in any number, on which the conversion can be exercised. Of the rules that
search for processes there is one for every number; the others come at every third, fifth and seventh
number.
-/

namespace SigmaQuery.Corpus

def map (fields : List (String × Value)) : Value :=
  .map (fields.map fun (k, v) => (.text k, v))

def texts (items : List String) : Value :=
  .list (items.map .text)

def source (fields : List (String × String)) : Value :=
  map (fields.map fun (k, v) => (k, .text v))

/-- A rule that searches for a process, in three ways. -/
def processRule (n : Nat) : Value :=
  map [("title", .text ("Suspicious Process " ++ toString n)),
    ("description", .text "Detects suspicious process creation"),
    ("status", .text "stable"),
    ("references", texts ["https://example.com/ref"]),
    ("tags", texts ["attack.execution", "attack.t1059"]),
    ("logsource", source [("product", "windows"), ("service", "sysmon")]),
    ("detection", map
      [("selection", map
        [("EventID", .int 1),
         ("CommandLine", .text ("*\\proc" ++ toString n ++ ".exe -enc *")),
         ("ParentImage", texts ["*\\cmd.exe", "*\\wscript.exe"]),
         ("Image", .text "*\\rundll32.exe"),
         ("User", .text "NT AUTHORITY\\SYSTEM")]),
       ("selection2", map
        [("EventID", .int 1),
         ("CommandLine", texts ["*mimikatz*", "*sekurlsa*", "plain"]),
         ("LogonType", .int 2),
         ("AccountName", .text "admin"),
         ("DestinationIsIpv6", .text "true")]),
       ("falsepos", map
        [("Image", .text "C:\\Windows\\explorer.exe"), ("Description", .null)]),
       ("keywords", .list [.text "wmic process", .text "certutil -decode", .int 42]),
       ("listsel", .list
        [map [("EventID", .int 7), ("ImageLoaded", .text "*.dll")],
         map [("EventID", .int 3), ("DestinationPort", .int 4444)]]),
       ("nested", .list
        [map [("TargetImage", .text "*evil*")], map [("TargetObject", .text "HKLM\\*")], .int 5]),
       ("condition", texts
        ["(1 of selection*) and not falsepos", "all of listsel and keywords",
         "listsel or (nested and not 1 of them)"])]),
    ("fields", texts ["CommandLine", "ParentImage"]),
    ("level", .text "high")]

/-- The times within which failed logons are counted. -/
def timeframes : List String := ["30s", "5m", "2h", "1d", "3M"]

/-- A rule that counts failed logons; every other one counts them for each computer. -/
def logonRule (n : Nat) : Value :=
  map [("title", .text ("Brute Force " ++ toString n)),
    ("status", .text "stable"),
    ("tags", texts ["attack.credential_access"]),
    ("logsource", source [("product", "windows"), ("service", "security")]),
    ("detection", map
      [("selection", map [("EventID", .int 4625), ("AccountName", .text "admin*")]),
       ("timeframe", .text (timeframes.getD (n % timeframes.length) "")),
       ("condition", .text (if n % 2 = 0
          then "selection | count(AccountName) by ComputerName > 5"
          else "selection | count() > 5"))]),
    ("level", .text "high")]

/-- A rule that searches for connections to ports. -/
def portRule : Value :=
  map [("title", .text "Port Scan"),
    ("logsource", source [("category", "flow"), ("product", "netflow")]),
    ("detection", map
      [("selection", map
        [("dst_ip", .text "10.0.0.1"),
         ("src_ip", texts ["192.168.0.1", "192.168.0.2"]),
         ("DestinationPort", .list [.int 22, .int 80, .int 443])]),
       ("filter", map [("src_ip", .null)]),
       ("condition", .text "selection and not filter")]),
    ("level", .text "medium")]

def wordRule : Value :=
  map [("title", .text "Webshell"),
    ("logsource", source [("product", "apache")]),
    ("detection", map
      [("selection", .list [.text "cmd.exe", .text "/bin/sh", .text "eval(base64", .int 7]),
       ("condition", .text "selection")]),
    ("level", .text "high")]

def rulesAt (n : Nat) : List Value :=
  [processRule n] ++ (if n % 3 = 0 then [logonRule n] else []) ++
    (if n % 5 = 0 then [portRule] else []) ++ (if n % 7 = 0 then [wordRule] else [])

/-- The rules of all numbers below a bound. -/
def rules (bound : Nat) : List Value :=
  (List.range bound).flatMap rulesAt

end SigmaQuery.Corpus
