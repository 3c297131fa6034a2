import SigmaQuery.Target.TextQuery
import SigmaQuery.Text.Numeral

/-!
# Windows Defender ATP

Hunting queries. An event number is not searched for: it selects the table of the query. Every other
field needs a rule that says under which name and with which operator its value is searched for.
-/

namespace SigmaQuery

/-- A part of the rule of a field. -/
inductive FieldPart where
  /-- A text that stands as it is. -/
  | literal (s : String)
  /-- The name of the field. -/
  | sameName
  /-- The operator and the text that a value with wildcards asks for. -/
  | valuePattern
  /-- The name of a logon type. -/
  | logonType
  /-- A domain and a user. -/
  | account
  /-- Nothing. -/
  | inert
deriving DecidableEq, Repr, Inhabited

/-- A target for Windows Defender ATP. What is not yet known is none. -/
structure DefenderAtp where
  query : TextQuery
  rules : List (Key × List FieldPart)
  table : Option Value := none
  product : Option Value := none
  service : Option Value := none
deriving Repr, Inhabited

namespace DefenderAtp

def dialect : Dialect :=
  { conjunction := some " and "
    disjunction := some " or "
    negation := some "not "
    listSeparator := some ", "
    group := some (.around "(" ")")
    list := some (.around "(" ")")
    value := some (.around "\"" "\"")
    isNull := some (.around "isnull(" ")")
    notNull := some (.around "isnotnull(" ")")
    item := some (.between " == ")
    itemList := some (.between " in ")
    listHandling := .apart }

def renamed (name : String) : List FieldPart := [.literal name, .valuePattern]

def kept : List FieldPart := [.sameName, .valuePattern]

def fieldRules : List (Key × List FieldPart) :=
  [("AccountName", kept),
   ("CommandLine", renamed "ProcessCommandLine"),
   ("ComputerName", kept),
   ("DestinationHostname", renamed "RemoteUrl"),
   ("DestinationIp", renamed "RemoteIP"),
   ("DestinationIsIpv6", [.literal "RemoteIP has \":\""]),
   ("DestinationPort", renamed "RemotePort"),
   ("Details", renamed "RegistryValueData"),
   ("EventType", renamed "ActionType"),
   ("Image", renamed "FolderPath"),
   ("ImageLoaded", renamed "FolderPath"),
   ("LogonType", [.sameName, .logonType]),
   ("NewProcessName", renamed "FolderPath"),
   ("ObjectValueName", renamed "RegistryValueName"),
   ("ParentImage", renamed "InitiatingProcessFolderPath"),
   ("SourceImage", renamed "InitiatingProcessFolderPath"),
   ("TargetFilename", renamed "FolderPath"),
   ("TargetImage", renamed "FolderPath"),
   ("TargetObject", renamed "RegistryKey"),
   ("User", [.account])]

def new (options : Options) : DefenderAtp :=
  { query := ⟨options, dialect⟩, rules := fieldRules }

/-! ## Values -/

def clean : String → String := Text.quoteEscape.text

/-- The text without its first and its last character. -/
def inner (s : String) : String :=
  String.ofList (s.toList.drop 1).dropLast

/-- The operator for a text with wildcards, and the operand. -/
def patternOf (s : String) : String × String :=
  if Text.hasInnerStar s then ("matches regex", Text.regexOf s)
  else if Text.endsWithStar s && Text.startsWithStar s then ("contains", clean (inner s))
  else if Text.endsWithStar s then ("startswith", clean (String.ofList s.toList.dropLast))
  else if Text.startsWithStar s then ("endswith", clean (String.ofList (s.toList.drop 1)))
  else ("==", s)

/-- A comparison with a text with wildcards. -/
def patternText (s : String) : String :=
  let (operator, operand) := patternOf s
  operator ++ " \"" ++ operand ++ "\""

/-- A comparison with a value, which must be a text. -/
def valuePattern : Value → Except Fault String
  | .text s => .ok (patternText s)
  | .list vs =>
    .error (if (Value.text "*").memberOf (vs.drop 1).dropLast then .wrongType else .noPart)
  | _ => .error .wrongType

def logonTypes : List (Int × String) :=
  [(2, "Interactive"), (3, "Network"), (4, "Batch"), (5, "Service"), (7, "Interactive"),
   (8, "Network"), (9, "Interactive"), (10, "Remote interactive (RDP) logons"),
   (11, "Interactive")]

/-- The name of the logon type with a number. -/
def logonType? (n : Int) : Option String :=
  (logonTypes.find? fun t => t.1 == n).map (·.2)

/-- The name of a logon type. An unknown one that is a number is reported as such. -/
def logonType (v : Value) : Except Fault String :=
  match v with
  | .text s => match Text.integer? s with
    | none => .error .noValue
    | some n => match logonType? n with
      | some t => .ok t
      | none => .error .wrongType
  | _ => match v.number? with
    | none => .error .wrongType
    | some d => match logonType? d.truncate with
      | some t => .ok t
      | none => .error (.unsupported (.logonType (toString d.truncate)))

/-- The lines of a text up to a final line break; none if another line follows. -/
def singleLine? (cs : List Char) : Option (List Char) :=
  if !cs.contains '\n' then some cs
  else if cs.getLast? == some '\n' && !cs.dropLast.contains '\n' then some cs.dropLast
  else none

/-- The domain and the user of an account. -/
def domainAndUser? (s : String) : Option (String × String) :=
  let domain := s.toList.takeWhile (· != '\\')
  match s.toList.drop domain.length with
  | _ :: user =>
    if domain.contains '\n' then none
    else (singleLine? user).map fun user => (String.ofList domain, String.ofList user)
  | [] => none

/-- The fields that an account is searched for in, with their values. -/
def accountFields (v : Value) : Except Fault (List (String × String)) :=
  match v with
  | .text s => match domainAndUser? s with
    | some (domain, user) =>
      .ok [("InitiatingProcessAccountDomain", domain), ("InititatingProcessAccountName", user)]
    | none => .ok [("InititatingProcessAccountName", s)]
  | _ => .error .wrongType

/-! ## Fields -/

def ruleOf (rules : List (Key × List FieldPart)) (field : Value) :
    Except Fault (List FieldPart) :=
  match field.keyUse with
  | .unusable => .error .wrongType
  | .unmatched => .error (.unsupported (.noFieldRule field.display))
  | .key k => match lookup k rules with
    | some rule => .ok rule
    | none => .error (.unsupported (.noFieldRule field.display))

/-- The text of a part for the field name or the value that it stands for; none if it gives none. -/
def partText (v : Value) : FieldPart → Except Fault (Option String)
  | .literal s => .ok (some s)
  | .sameName => .ok (some v.display)
  | .valuePattern => (valuePattern v).map some
  | .logonType => (logonType v).map some
  | .account => .error .wrongType
  | .inert => .ok none

/-- An account cannot be searched for: the fields of its parts have no rule, and a text has no
parts to put in brackets. -/
def accountFault (rules : List (Key × List FieldPart)) (v : Value) : Fault :=
  match accountFields v with
  | .error e => e
  | .ok fields => match fields.find? fun f => (lookup (.text f.1) rules).isNone with
    | some f => .unsupported (.noFieldRule f.1)
    | none => .noPart

/-- The usual text of a field with its value. -/
def usualItem (d : Dialect) (field v : Value) : FaultM DefenderAtp (Option String) :=
  (Renderer.standard d clean).item field v

def ruledItem (d : Dialect) (field v : Value) : FaultM DefenderAtp (Option String) := do
  let rules := (← get).rules
  match ← FaultM.ofExcept (ruleOf rules field) with
  | [.literal s] => return some s
  | [.account] => throw (accountFault rules v)
  | [.inert] => usualItem d field v
  | [_] => throw .wrongType
  | [a, b] =>
    let first ← FaultM.ofExcept (partText field a)
    let second ← FaultM.ofExcept (partText v b)
    match first, second with
    | some s, some t => return some (s ++ " " ++ t)
    | _, _ => throw .noItem
  | _ => throw (.type (.mapValue v.typeText))

/-! ## Tables -/

/-- The table that an event number of a service selects, and what is searched for instead. -/
structure TableRule where
  service : String
  event : Int
  table : String
  condition : Option String := none

def tableRules : List TableRule :=
  [{ service := "sysmon", event := 1, table := "ProcessCreationEvents" },
   { service := "security", event := 4688, table := "ProcessCreationEvents" },
   { service := "sysmon", event := 3, table := "NetworkCommunicationEvents" },
   { service := "sysmon", event := 7, table := "ImageLoadEvents" },
   { service := "sysmon", event := 8, table := "MiscEvents"
     condition := some "ActionType == \"CreateRemoteThreadApiCall\"" },
   { service := "sysmon", event := 11, table := "FileCreationEvents" },
   { service := "sysmon", event := 13, table := "RegistryEvents"
     condition := some "ActionType == \"RegistryValueSet\"" },
   { service := "security", event := 4657, table := "RegistryEvents"
     condition := some "ActionType == \"RegistryValueSet\"" },
   { service := "security", event := 4624, table := "LogonEvents" }]

/-- The rule for an event number of a service. -/
def tableRule? (service event : Value) : Option TableRule :=
  tableRules.find? fun r => service.same (.text r.service) && event.same (.int r.event)

def known (v : Option Value) : Except Fault Value :=
  match v with
  | some v => .ok v
  | none => .error .noPart

/-- An event number. One that selects no table is a field like others. -/
def eventItem (d : Dialect) (field v : Value) : FaultM DefenderAtp (Option String) := do
  let product ← FaultM.ofExcept (known (← get).product)
  if product.same (.text "windows") then
    let service ← FaultM.ofExcept (known (← get).service)
    match tableRule? service v with
    | some r =>
      modify fun t => { t with table := some (.text r.table) }
      return r.condition
    | none => usualItem d field v
  else usualItem d field v

mutual

/-- A field with its value. A list is a disjunction. -/
def item (d : Dialect) (field : Value) : Value → FaultM DefenderAtp (Option String)
  | .list vs => do FaultM.ofExcept (d.join .disj (← itemEach d field vs))
  | v =>
    if field.same (.text "EventID") then eventItem d field v
    else if v.isPlain then ruledItem d field v
    else usualItem d field v

def itemEach (d : Dialect) (field : Value) : List Value → FaultM DefenderAtp (List (Option String))
  | [] => pure []
  | v :: rest => do
    let t ← item d field v
    return t :: (← itemEach d field rest)

end

def renderer (d : Dialect) : Renderer DefenderAtp :=
  { Renderer.standard d clean with item := item d }

def search (c : Cond) : GenerateM DefenderAtp (Option String) := do
  GenerateM.target ((renderer (← get).target.query.dialect).render c)

/-! ## Generation -/

/-- The product and the service of a rule; null for both if one is not given. -/
def sourceOf (document : Entries) : Except Fault (Value × Value) :=
  match lookup (.text "logsource") document with
  | none => .ok (.null, .null)
  | some (.map source) => match lookup (.text "product") source, lookup (.text "service") source with
    | some p, some s => .ok (p, s)
    | _, _ => .ok (.null, .null)
  | some _ => .error .wrongType

/-- The table of the query, which must be known. -/
def tableText : GenerateM DefenderAtp (Option String) := do
  match (← get).target.table with
  | some (.text t) => return some (t ++ " | where ")
  | some .null => throw (.unsupported .noTable)
  | some v => return some (v.display ++ " | where ")
  | none => throw .noPart

def generate : GenerateM DefenderAtp (Option String) := do
  modify fun w => { w with target := { w.target with table := some .null } }
  let (product, service) ← FaultM.ofExcept (sourceOf (← GenerateM.entries))
  modify fun w => { w with target :=
    { w.target with product := some product, service := some service } }
  let o := (← get).target.query.options
  GenerateM.first (GenerateM.query search GenerateM.noAggregation) (fun _ => tableText)
    (fun _ => pure (GenerateM.commentEnd o))

end DefenderAtp

end SigmaQuery
