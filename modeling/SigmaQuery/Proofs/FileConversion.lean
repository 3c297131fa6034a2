import Mathlib.Data.List.Flatten
import SigmaQuery.Command.Convert
import SigmaQuery.Proofs.RulesInTurn

/-!
# Conversion without abort

A conversion that goes on after faults goes on with the next file. What it tells is given file by file:
a message if it is to be verbose, the queries of the file or a complaint about it, and the exit code
that the complaint sets. The files hold rules without actions that leave the configuration as it is
(`Convertible`), and the target gives each rule the same result whatever rules came before.

The queries of a file stand or fall together. A rule that has a query on its own has none in a file
with a fault, wherever in the file the fault is.
-/

namespace SigmaQuery

open FaultM List Target Collection

/-! ## New configurations -/

namespace Config

/-- The log sources of the configuration have lost nothing. -/
def Fresh (c : Config) : Prop := c.losses = []

theorem fresh_of_ofDocument {document : Value} {c : Config} (read : ofDocument document = .ok c) :
    c.Fresh := by
  unfold ofDocument at read
  split at read
  · obtain ⟨mappings, -, rfl⟩ := Cond.map_eq_ok read
    rfl
  · cases read

end Config

theorem Target.stays_new (k : TargetKind) (o : Options) : Stays Config.Fresh (new k o) := by
  unfold new
  apply Stays.bind (Config.stays_chooseTarget (fun fresh _ => fresh) (fun fresh => fresh))
  intro _
  apply Stays.bind stays_get
  intro c
  exact stays_ofExcept _

namespace Convert

/-! ## The beginning of a conversion -/

/-- The configuration that is asked for. -/
def IsConfigured (a : Arguments) (files : FileTree) (c : Config) : Prop :=
  match given a.config with
  | none => c = .empty
  | some path => readConfig files path = .ok (.ok c)

/-- The console at the beginning; an output file has to be opened. -/
def IsOpened (a : Arguments) (files : FileTree) (console : Console) : Prop :=
  match given a.output with
  | none => console = {}
  | some path => files.write path = .ok () ∧ console = { file := some "" }

/-- The arguments lead to a conversion of files, with no filter, that begins in a state. -/
structure Begins (a : Arguments) (files : FileTree) (paths : List String) (s : State) : Prop where
  converts : a.listTargets = false
  hasInput : a.inputs.isEmpty = false
  unfiltered : given a.filter = none
  made : ∃ c options, IsConfigured a files c ∧
    Options.readEach [] (a.options.map .text) = .ok options ∧
      (new a.target options).start c = (.ok s.target, s.config)
  opened : IsOpened a files s.console
  inputs : inputPaths a files a.inputs = .ok paths
  exit : s.exit = 0

variable {a : Arguments} {files : FileTree} {paths : List String} {s : State} {path : String}
  {c : Config}

theorem Begins.runArguments_eq (begins : Begins a files paths s) {s' : State}
    (converted : convertEach a files none paths s = .ok (s', true)) :
    runArguments a files = finish s' := by
  obtain ⟨converts, hasInput, unfiltered, ⟨c, options, configured, read, made⟩, opened, inputs, exit⟩ :=
    begins
  obtain ⟨config, target, console, exit'⟩ := s
  obtain rfl : exit' = 0 := exit
  have run : runWith a files none c = finish s' := by
    unfold runWith
    rw [read]
    unfold IsOpened at opened
    cases output : given a.output with
    | none =>
      rw [output] at opened
      obtain rfl : console = {} := opened
      simp only [bind, Except.bind, made, inputs, converted]
      rfl
    | some path =>
      rw [output] at opened
      obtain ⟨writable, rfl⟩ := opened
      simp only [bind, Except.bind, made, inputs, writable, converted]
      rfl
  unfold runArguments
  rw [converts, hasInput, unfiltered]
  unfold IsConfigured at configured
  cases config : given a.config with
  | none =>
    rw [config] at configured
    subst configured
    exact run
  | some path =>
    rw [config] at configured
    simp only [bind, Except.bind, configured]
    exact run

theorem fresh_of_readConfig (read : readConfig files path = .ok (.ok c)) : c.Fresh := by
  unfold readConfig at read
  split at read
  · cases read
  · cases read
  · split at read
    · rename_i document
      cases read
      exact Config.fresh_of_ofDocument document
    · cases read
    · cases read

theorem Begins.fresh (begins : Begins a files paths s) : s.config.Fresh := by
  obtain ⟨c, options, configured, -, made⟩ := begins.made
  have before : c.Fresh := by
    unfold IsConfigured at configured
    split at configured
    · subst configured
      rfl
    · exact fresh_of_readConfig configured
  have after := (stays_new a.target options c before).1
  rwa [made] at after

/-! ## What a conversion tells -/

/-- A line that is told: a message, a query, or a complaint. -/
inductive Line where
  | message (text : String)
  | query (text : String)
  | complaint (text : String)
deriving DecidableEq, Repr

/-- The console after a further line. -/
def record (c : Console) : Line → Console
  | .message text => c.say text
  | .query text => c.print text
  | .complaint text => c.complain text

/-- The documents of a file; none if it cannot be read. -/
def documentsOf (files : FileTree) (path : String) : List Value :=
  match files.read path with
  | .ok (.document v) => match v.elements with
    | .ok documents => documents
    | .error _ => []
  | _ => []

/-- The file holds a list of documents. -/
def IsReadable (files : FileTree) (path : String) : Prop :=
  ∃ v documents, files.read path = .ok (.document v) ∧ v.elements = .ok documents

section Reports

variable (a : Arguments) (files : FileTree) (c : Config) (t : Target) (path : String)

/-- The complaint about a file, if there is one. -/
def complaintOf? : Option Complaint :=
  (t.firstFault? c (documentsOf files path)).bind fun e =>
    ((InputFault.rule e).complaint? path).toOption

/-- The queries of the rules of a file, each on its own. -/
def ownQueries : List String :=
  (documentsOf files path).filterMap fun d => query? (t.alone c d)

/-- The queries of a file: those of all of its rules, or none if there is a fault. -/
def keptQueries : List String :=
  match t.firstFault? c (documentsOf files path) with
  | some _ => []
  | none => ownQueries files c t path

/-- What is told about a file. -/
def linesOf : List Line :=
  (if a.verbose || a.debug then [.message ("* Processing Sigma input " ++ path)] else []) ++
    (keptQueries files c t path).map .query ++
    ((complaintOf? files c t path).elim [] Complaint.lines).map .complaint

/-- The exit code of a file, if its fault counts. -/
def codeOf? : Option Nat :=
  (complaintOf? files c t path).bind fun p =>
    if p.ofTarget && a.ignoreTargetFaults then none else some p.code

/-- The rules of a file that are given to the target. -/
def triedRules : List (Config × Rule) :=
  match Rule.parseAll c (documentsOf files path) with
  | .error _ => []
  | .ok rules => (t.tried c rules).map (c, ·)

end Reports

/-- The file holds rules that leave the configuration as it is, and each fault of a rule is one that
is complained about. -/
structure Convertible (files : FileTree) (c : Config) (t : Target) (path : String) : Prop where
  readable : IsReadable files path
  rules : ∀ d ∈ documentsOf files path, d.isRule = true
  kept : ∀ d ∈ documentsOf files path, ((Rule.parse d).start c).2 = c
  reported : ∀ d ∈ documentsOf files path, ∀ e, t.alone c d = .error e →
    ∃ p, (InputFault.rule e).complaint? path = .ok p

theorem queriesOf_eq {t : Target} (convertible : Convertible files c t path) (fresh : c.Fresh)
    (independent : t.Independent c) (history : List (Config × Rule)) :
    queriesOf files none path c (t.after history) =
      ((t.queriesOf c (documentsOf files path)).mapError .rule, c,
        t.after (history ++ triedRules files c t path)) := by
  obtain ⟨⟨v, documents, read, elements⟩, rules, kept, -⟩ := convertible
  have content : documentsOf files path = documents := by
    rw [documentsOf, read]
    dsimp only
    rw [elements]
  rw [content] at rules kept
  have parsed := start_parse_rules rules kept fresh
  rw [triedRules, content, Target.queriesOf_eq, queriesOf, read]
  dsimp only
  rw [elements]
  dsimp only
  rw [parsed]
  cases all : Rule.parseAll c documents with
  | error e =>
    dsimp only [Except.map]
    rw [append_nil]
    rfl
  | ok rs =>
    dsimp only [Except.map]
    rw [generate_numberedEach independent (parsed_of_parseAll kept all)]
    rfl

theorem foldl_record_query (queries : List String) (console : Console) :
    (queries.map Line.query).foldl record console = queries.foldl (fun c q => c.print q) console := by
  rw [foldl_map]
  rfl

theorem foldl_record_complaint (lines : List String) (console : Console) :
    (lines.map Line.complaint).foldl record console =
      lines.foldl (fun c line => c.complain line) console := by
  rw [foldl_map]
  rfl

section Runs

variable {a : Arguments} {files : FileTree} {c : Config} {t : Target} {paths : List String}

theorem convertFile_eq (defer : a.deferAbort = true) (fresh : c.Fresh)
    (independent : t.Independent c) {path : String} (convertible : Convertible files c t path)
    (history : List (Config × Rule)) (console : Console) (exit : Nat) :
    convertFile a files none path ⟨c, t.after history, console, exit⟩ =
      .ok (⟨c, t.after (history ++ triedRules files c t path),
        (linesOf a files c t path).foldl record console,
        (codeOf? a files c t path).getD exit⟩, true) := by
  have announced : (if a.verbose || a.debug then [Line.message ("* Processing Sigma input " ++ path)]
      else []).foldl record console =
        if a.verbose || a.debug then console.say ("* Processing Sigma input " ++ path)
        else console := by
    split <;> rfl
  rw [convertFile, queriesOf_eq convertible fresh independent, Target.queriesOf, linesOf,
    foldl_append, foldl_append, announced, foldl_record_query, foldl_record_complaint,
    keptQueries, codeOf?]
  cases first : t.firstFault? c (documentsOf files path) with
  | none =>
    have none : complaintOf? files c t path = none := by
      rw [complaintOf?, first]
      rfl
    rw [none]
    rfl
  | some e =>
    obtain ⟨d, member, fault⟩ := exists_of_firstFault? first
    obtain ⟨p, told⟩ := convertible.reported d member e fault
    have complained : complaintOf? files c t path = some p := by
      rw [complaintOf?, first, Option.bind_some, told]
      rfl
    rw [complained]
    change ((InputFault.rule e).complaint? path).map _ = _
    rw [told]
    dsimp only [Except.map, complain]
    rw [defer, Bool.or_true]
    by_cases ignored : (p.ofTarget && a.ignoreTargetFaults) = true
    · rw [if_pos ignored, Option.bind_some, if_pos ignored]
      rfl
    · rw [if_neg ignored, Option.bind_some, if_neg ignored]
      rfl

theorem foldl_getD {α β : Type} (f : α → Option β) (items : List α) (x : β) :
    items.foldl (fun x a => (f a).getD x) x = (items.filterMap f).getLast?.getD x := by
  induction items generalizing x with
  | nil => rfl
  | cons a rest ih =>
    rw [foldl_cons, ih, filterMap_cons]
    cases f a with
    | none => rfl
    | some y =>
      dsimp only
      rw [getLast?_cons]
      rfl

theorem convertEach_eq (defer : a.deferAbort = true) (fresh : c.Fresh)
    (independent : t.Independent c)
    (convertible : ∀ path ∈ paths, Convertible files c t path) (history : List (Config × Rule))
    (console : Console) (exit : Nat) :
    convertEach a files none paths ⟨c, t.after history, console, exit⟩ =
      .ok (⟨c, t.after (history ++ paths.flatMap (triedRules files c t)),
        (paths.flatMap (linesOf a files c t)).foldl record console,
        ((paths.filterMap (codeOf? a files c t)).getLast?).getD exit⟩, true) := by
  -- the exit code as a fold, so that it goes along with the console
  rw [← foldl_getD]
  induction paths generalizing history console exit with
  | nil =>
    rw [convertEach, flatMap_nil, append_nil]
    rfl
  | cons path rest ih =>
    rw [forall_mem_cons] at convertible
    rw [convertEach, convertFile_eq defer fresh independent convertible.1]
    dsimp only
    rw [ih convertible.2, flatMap_cons, flatMap_cons, foldl_append, append_assoc, foldl_cons]

theorem runArguments_eq {s : State} (begins : Begins a files paths s)
    (defer : a.deferAbort = true) (independent : s.target.Independent s.config)
    (convertible : ∀ path ∈ paths, Convertible files s.config s.target path) :
    runArguments a files = finish
      { config := s.config
        target := s.target.after (paths.flatMap (triedRules files s.config s.target))
        console := (paths.flatMap (linesOf a files s.config s.target)).foldl record s.console
        exit := (paths.filterMap (codeOf? a files s.config s.target)).getLast?.getD 0 } := by
  apply begins.runArguments_eq
  have converted := convertEach_eq defer begins.fresh independent convertible [] s.console s.exit
  rw [begins.exit] at converted
  obtain ⟨config, target, console, exit⟩ := s
  obtain rfl : exit = 0 := begins.exit
  exact converted

theorem keptQueries_sublist (path : String) :
    (keptQueries files c t path).Sublist (ownQueries files c t path) := by
  unfold keptQueries
  split
  · exact nil_sublist _
  · exact List.Sublist.refl _

theorem flatMap_keptQueries_iff (paths : List String) :
    paths.flatMap (keptQueries files c t) = paths.flatMap (ownQueries files c t) ↔
      ∀ path ∈ paths, (t.firstFault? c (documentsOf files path)).isSome = true →
        ownQueries files c t path = [] := by
  induction paths with
  | nil => simp
  | cons path rest ih =>
    have shorter : (rest.flatMap (keptQueries files c t)).length ≤
        (rest.flatMap (ownQueries files c t)).length :=
      (List.Sublist.flatMap_right rest fun p _ => keptQueries_sublist p).length_le
    rw [forall_mem_cons, ← ih, flatMap_cons, flatMap_cons, keptQueries]
    cases t.firstFault? c (documentsOf files path) with
    | none =>
      dsimp only
      rw [append_cancel_left_eq]
      simp
    | some e =>
      dsimp only
      constructor
      · -- the other files cannot make up for a query that is lost here
        intro same
        have none : ownQueries files c t path = [] := by
          rw [nil_append] at same
          rw [same, length_append] at shorter
          exact length_eq_zero_iff.mp (by omega)
        rw [none, nil_append, nil_append] at same
        exact ⟨fun _ => none, same⟩
      · rintro ⟨none, same⟩
        rw [none rfl, same]

end Runs

/-- **Conversion without abort**: let a conversion be asked to go on after faults, and let its files
hold rules without actions that leave the configuration as it is and whose faults are complained
about, for a target that gives each rule the same result whatever rules came before. Then it goes
through all files. Of a file none of whose rules has a fault it prints the queries of all rules, each
as the rule has it on its own. Of any other file it prints none; it tells the first fault in parsing,
and if there is none the first in conversion. The exit code is that of the last fault that counts.

So the query of every rule that has one on its own is printed exactly if no file with a fault has a
rule with a query. -/
theorem runArguments_deferAbort {a : Arguments} {files : FileTree} {paths : List String} {s : State}
    (begins : Begins a files paths s) (defer : a.deferAbort = true)
    (independent : s.target.Independent s.config)
    (convertible : ∀ path ∈ paths, Convertible files s.config s.target path) :
    runArguments a files = finish
      { config := s.config
        target := s.target.after (paths.flatMap (triedRules files s.config s.target))
        console := (paths.flatMap (linesOf a files s.config s.target)).foldl record s.console
        exit := (paths.filterMap (codeOf? a files s.config s.target)).getLast?.getD 0 } ∧
    (paths.flatMap (keptQueries files s.config s.target) =
        paths.flatMap (ownQueries files s.config s.target) ↔
      ∀ path ∈ paths, (s.target.firstFault? s.config (documentsOf files path)).isSome = true →
        ownQueries files s.config s.target path = []) :=
  ⟨runArguments_eq begins defer independent convertible, flatMap_keptQueries_iff paths⟩

/-! ### Samples -/

/-- Regular expressions, without abort. -/
def grepArguments (inputs : List String) : Arguments :=
  { target := .grep, deferAbort := true, inputs }

/-- The target of such a conversion. -/
def grepTarget : Target := .grep ⟨[]⟩

theorem generate_grepTarget (c : Config) (r : Rule) :
    (grepTarget.generate c r).target = grepTarget := by
  have kept : Keeps Work.target Grep.generate := by
    apply Keeps.bind (keeps_get.bind fun _ => keeps_pure _)
    intro conditions
    cases conditions with
    | nil => exact keeps_pure none
    | cons p rest =>
      exact ((keeps_ofExcept _).bind fun _ => keeps_pure _).bind fun _ =>
        (keeps_pure _).bind fun _ => (keeps_pure _).bind fun _ => keeps_pure _
  exact congrArg grep (kept ⟨⟨[]⟩, r⟩)

theorem finish_grepTarget (history : List (Config × Rule)) (console : Console) (exit : Nat) :
    finish ⟨.empty, grepTarget.after history, console, exit⟩ = .ok ⟨exit, console⟩ := by
  rw [after_of_target generate_grepTarget]
  rfl

/-- A rule without a detection part. -/
def bareRule : Value := .map []

/-- Files with lists of documents. -/
def ruleFiles (files : List (String × List Value)) : FileTree :=
  .ofFiles (files.map fun f => (f.1, .document (.list f.2)))

theorem alone_fieldRule :
    (Rule.parse (fieldRule "v")).start .empty = (.ok (fieldParsed "v"), .empty) ∧
      grepTarget.alone .empty (fieldRule "v") = .ok (some "grep -P '^v'") := by
  decide +kernel

theorem convertible_sample {documents : List Value}
    (read : files.read path = .ok (.document (.list documents)))
    (known : ∀ d ∈ documents, d = fieldRule "v" ∨ d = bareRule) :
    Convertible files .empty grepTarget path := by
  have content : documentsOf files path = documents := by
    rw [documentsOf, read]
    rfl
  refine ⟨⟨.list documents, documents, read, rfl⟩, fun d given => ?_, fun d given => ?_,
    fun d given e fault => ?_⟩ <;> rw [content] at given <;> rcases known d given with rfl | rfl
  · rfl
  · rfl
  · rw [alone_fieldRule.1]
  · rfl
  · rw [alone_fieldRule.2] at fault
    cases fault
  · cases fault
    exact ⟨_, rfl⟩

theorem begins_grep (nonempty : paths.isEmpty = false)
    (inputs : inputPaths (grepArguments paths) files paths = .ok paths) :
    Begins (grepArguments paths) files paths { config := .empty, target := grepTarget } where
  converts := rfl
  hasInput := nonempty
  unfiltered := rfl
  made := ⟨.empty, [], rfl, rfl, rfl⟩
  opened := rfl
  inputs := inputs
  exit := rfl

section

variable {files : FileTree} {path : String}

theorem report_of_fieldRule (paths : List String)
    (read : files.read path = .ok (.document (.list [fieldRule "v"]))) :
    linesOf (grepArguments paths) files .empty grepTarget path = [.query "grep -P '^v'"] ∧
      codeOf? (grepArguments paths) files .empty grepTarget path = none := by
  have content : documentsOf files path = [fieldRule "v"] := by
    rw [documentsOf, read]
    rfl
  have faultless : grepTarget.firstFault? .empty (documentsOf files path) = none := by
    rw [content, firstFault?, findSome?_singleton, findSome?_singleton,
      alone_fieldRule.1, alone_fieldRule.2]
    rfl
  have own : ownQueries files .empty grepTarget path = ["grep -P '^v'"] := by
    rw [ownQueries, content, filterMap_cons, alone_fieldRule.2]
    rfl
  rw [linesOf, codeOf?, complaintOf?, keptQueries, faultless, own]
  exact ⟨rfl, rfl⟩

theorem report_of_bareRule (paths : List String) (read : files.read path =
      .ok (.document (.list [fieldRule "v", bareRule]))) :
    linesOf (grepArguments paths) files .empty grepTarget path =
        [.complaint ("Sigma parse error in " ++ path ++ ": " ++ ParseFault.message .noDetection)] ∧
      codeOf? (grepArguments paths) files .empty grepTarget path = some 4 := by
  have content : documentsOf files path = [fieldRule "v", bareRule] := by
    rw [documentsOf, read]
    rfl
  have fault : grepTarget.firstFault? .empty (documentsOf files path) =
      some (.parse .noDetection) := by
    rw [content, firstFault?, findSome?_cons, alone_fieldRule.1]
    rfl
  rw [linesOf, codeOf?, complaintOf?, keptQueries, fault]
  exact ⟨rfl, rfl⟩

end

/-- Two files, with a rule, and with the rule and a bare one. -/
def twoFiles : FileTree :=
  ruleFiles [("a", [fieldRule "v"]), ("b", [fieldRule "v", bareRule])]

theorem read_twoFiles :
    twoFiles.read "a" = .ok (.document (.list [fieldRule "v"])) ∧
      twoFiles.read "b" = .ok (.document (.list [fieldRule "v", bareRule])) := by
  constructor <;> cbv

theorem begins_twoFiles (known : paths ∈ [["a", "b"], ["b"]]) :
    Begins (grepArguments paths) twoFiles paths { config := .empty, target := grepTarget } := by
  rw [mem_cons, mem_singleton] at known
  rcases known with rfl | rfl <;> exact begins_grep rfl (by cbv)

theorem convertible_twoFiles :
    ∀ path ∈ ["a", "b"], Convertible twoFiles .empty grepTarget path := by
  intro path member
  rw [mem_cons, mem_singleton] at member
  rcases member with rfl | rfl
  · exact convertible_sample read_twoFiles.1 (by simp)
  · exact convertible_sample read_twoFiles.2 (by simp)

theorem runArguments_deferAbort_sample :
    runArguments (grepArguments ["a", "b"]) twoFiles =
      .ok ⟨4, "grep -P '^v'\n", "Sigma parse error in b: No detection definitions found\n", none⟩ := by
  rw [(runArguments_deferAbort (begins_twoFiles mem_cons_self) rfl
    (Target.independent_of_target generate_grepTarget _) convertible_twoFiles).1, finish_grepTarget,
    List.flatMap_cons, List.flatMap_cons, List.filterMap_cons, List.filterMap_cons,
    (report_of_fieldRule _ read_twoFiles.1).1, (report_of_fieldRule _ read_twoFiles.1).2,
    (report_of_bareRule _ read_twoFiles.2).1, (report_of_bareRule _ read_twoFiles.2).2]
  rfl

/-- A rule that has a query on its own loses it to another rule of its file. -/
theorem runArguments_deferAbort_loses_query :
    Target.query? (grepTarget.alone .empty (Collection.fieldRule "v")) = some "grep -P '^v'" ∧
    runArguments (grepArguments ["b"]) twoFiles =
      .ok ⟨4, "", "Sigma parse error in b: No detection definitions found\n", none⟩ := by
  constructor
  · rw [alone_fieldRule.2]
    rfl
  · rw [runArguments_eq (begins_twoFiles (by simp)) rfl (Target.independent_of_target generate_grepTarget _)
      fun path member => convertible_twoFiles path (List.mem_cons_of_mem _ member), finish_grepTarget,
      List.flatMap_cons, List.filterMap_cons,
      (report_of_bareRule _ read_twoFiles.2).1, (report_of_bareRule _ read_twoFiles.2).2]
    rfl

end Convert

end SigmaQuery
