import SigmaQuery.Proofs.CollectionValues
import SigmaQuery.Proofs.RuleHistory

/-!
# Rules in turn

The rules of a collection of documents without actions. Nothing is shared between such documents: each
map comes from a document of its own, so no change in one is seen in another, neither while the
documents are read nor while a target fills something in. The rules are then parsed one by one, and
converted one by one.

What becomes of the documents together is compared with what each of them gives on its own, for a
target whose results do not depend on the rules before (`Target.Independent`). The documents are all
parsed before the first rule is converted, and all rules are converted before there is a query, so a
single fault, be it the last rule's, leaves no query at all.
-/

namespace SigmaQuery

open FaultM List Section

/-! ## Documents that share nothing -/

namespace Section

mutual

/-- All maps come from documents with numbers below a bound, those behind a repeated key included. -/
def isBelow (bound : Nat) : Section → Bool
  | .value _ => true
  | .map origin entries => decide (origin < bound) && areBelow bound entries

def areBelow (bound : Nat) : Sections → Bool
  | [] => true
  | (_, s) :: rest => isBelow bound s && areBelow bound rest

end

section Below

variable {bound number : Nat} {sections : Sections} {s : Section}

theorem isBelow_of_lookup (below : areBelow bound sections = true) {k : Key}
    (found : lookup k sections = some s) : isBelow bound s = true := by
  induction sections with
  | nil => cases found
  | cons e rest ih =>
    obtain ⟨k', s'⟩ := e
    obtain ⟨here, others⟩ := Bool.and_eq_true_iff.mp below
    rw [lookup] at found
    split at found
    · cases found
      exact here
    · exact ih others found

theorem areBelow_put (below : areBelow bound sections = true) (k : Key)
    (belowNew : isBelow bound s = true) : areBelow bound (put k s sections) = true := by
  induction sections with
  | nil => exact Bool.and_eq_true_iff.mpr ⟨belowNew, rfl⟩
  | cons e rest ih =>
    obtain ⟨here, others⟩ := Bool.and_eq_true_iff.mp below
    rw [put]
    split
    · exact Bool.and_eq_true_iff.mpr ⟨belowNew, others⟩
    · exact Bool.and_eq_true_iff.mpr ⟨here, ih others⟩

mutual

theorem areBelow_mergeAll {dest source : Sections} (below : areBelow bound dest = true)
    (belowSource : areBelow bound source = true) :
    areBelow bound (mergeAll dest source) = true := by
  match source with
  | [] => rwa [mergeAll]
  | (k, s) :: rest =>
    rw [areBelow, Bool.and_eq_true] at belowSource
    rw [mergeAll]
    have merged : isBelow bound (mergeOver (lookup k dest) s) = true :=
      isBelow_mergeOver (fun t found => isBelow_of_lookup below found) belowSource.1
    exact areBelow_mergeAll (areBelow_put below k merged) belowSource.2

theorem isBelow_mergeOver {old : Option Section} {s : Section}
    (below : ∀ t, old = some t → isBelow bound t = true) (belowNew : isBelow bound s = true) :
    isBelow bound (mergeOver old s) = true := by
  match s with
  | .value v => rfl
  | .map origin new =>
    rcases old with - | v | ⟨kept, entries⟩
    · exact belowNew
    · exact belowNew
    · have here := below _ rfl
      rw [isBelow, Bool.and_eq_true] at here belowNew
      rw [mergeOver, isBelow, here.1, areBelow_mergeAll here.2 belowNew.2, Bool.and_true]

end

mutual

theorem isBelow_ofValue (early : number < bound) (v : Value) :
    isBelow bound (ofValue number v) = true := by
  match v with
  | .map entries =>
    rw [ofValue, isBelow, areBelow_ofEntries early entries, Bool.and_true, decide_eq_true early]
  | .null | .bool _ | .int _ | .decimal _ | .text _ | .list _ => rfl

theorem areBelow_ofEntries (early : number < bound) (entries : Entries) :
    areBelow bound (ofEntries number entries) = true := by
  match entries with
  | [] => rfl
  | (k, v) :: rest =>
    rw [ofEntries, areBelow, isBelow_ofValue early v, areBelow_ofEntries early rest, Bool.and_true]

end

mutual

theorem refresh_ofValue {changed : Option Section}
    (below : ∀ t, changed = some t → isBelow number t = true) (v : Value) :
    refresh changed (ofValue number v) = ofValue number v := by
  match v with
  | .map entries =>
    rcases changed with - | w | ⟨other, new⟩
    · rw [ofValue, refresh]
      nofun
    · rw [ofValue, refresh]
      nofun
    · have here := below _ rfl
      rw [isBelow, Bool.and_eq_true, decide_eq_true_iff] at here
      rw [ofValue, refresh, if_neg (Nat.ne_of_gt here.1), refreshAll_ofEntries here.2 entries]
  | .null | .bool _ | .int _ | .decimal _ | .text _ | .list _ => rfl

/-- A document does not see a change in documents with smaller numbers. -/
theorem refreshAll_ofEntries {changed : Sections} (below : areBelow number changed = true)
    (entries : Entries) : refreshAll changed (ofEntries number entries) = ofEntries number entries := by
  match entries with
  | [] => rfl
  | (k, v) :: rest =>
    rw [ofEntries, refreshAll, refresh_ofValue (fun t found => isBelow_of_lookup below found) v,
      refreshAll_ofEntries below rest]

end

end Below

theorem remove_ofEntries (k : Key) (number : Nat) (entries : Entries) :
    remove k (ofEntries number entries) = ofEntries number (remove k entries) := by
  rw [ofEntries_eq_map, ofEntries_eq_map, remove, remove, filter_map]
  rfl

/-- The entries of a document at a key, as values. -/
def valuesAt (k : Key) (entries : Entries) : Entries :=
  match lookup k entries with
  | some (.map es) => es
  | _ => []

theorem entriesAt_ofEntries (k : Key) (number : Nat) (entries : Entries) :
    entriesAt k (ofEntries number entries) = ofEntries number (valuesAt k entries) := by
  rw [entriesAt, valuesAt, lookup_ofEntries]
  rcases lookup k entries with - | v
  · rfl
  · cases v <;> rfl

theorem areBelow_entriesAt {bound : Nat} {sections : Sections}
    (below : areBelow bound sections = true) (k : Key) :
    areBelow bound (entriesAt k sections) = true := by
  unfold entriesAt
  split
  · rename_i found
    have here := isBelow_of_lookup below found
    rw [isBelow, Bool.and_eq_true] at here
    exact here.2
  · rfl

theorem refreshBelow_ofEntries {number : Nat} {changed : Sections}
    (below : areBelow number changed = true) (entries : Entries) :
    refreshBelow changed (ofEntries number entries) = ofEntries number entries := by
  induction entries with
  | nil => rfl
  | cons e rest ih =>
    obtain ⟨k, v⟩ := e
    rw [ofEntries]
    cases v with
    | map es => rw [ofValue, refreshBelow, refreshAll_ofEntries (areBelow_entriesAt below k), ih]
    | _ => exact congrArg (List.cons _) ih

end Section

/-! ## Rules that are read one by one -/

namespace Rule

/-- The entries of the document of a rule. -/
def entries (r : Rule) : Entries :=
  match r.document with
  | .map entries => entries
  | _ => []

/-- A rule as the document with a number in a collection. -/
def numbered (c : Config) (number : Nat) (r : Rule) : CollectedRule :=
  .made (ofEntries number r.entries) r c

/-- The rules of a collection, numbered from a first number on. -/
def numberedEach (c : Config) : Nat → List Rule → List CollectedRule
  | _, [] => []
  | number, r :: rest => r.numbered c number :: numberedEach c (number + 1) rest

theorem length_numberedEach (c : Config) (number : Nat) (rules : List Rule) :
    (numberedEach c number rules).length = rules.length := by
  induction rules generalizing number with
  | nil => rfl
  | cons r rest ih => rw [numberedEach, length_cons, ih, length_cons]

/-- The rule was parsed from its document, with a configuration that stayed as it is. -/
def Parsed (c : Config) (r : Rule) : Prop :=
  (Rule.parse r.document).start c = (.ok r, c)

variable {c : Config} {number : Nat} {r : Rule} {changed : Sections}

theorem document_of_detectionEntries {document : Value} {detection : Entries}
    (found : detectionEntries document = .ok detection) :
    ∃ es, document = .map es ∧ lookup (.text "detection") es = some (.map detection) := by
  cases document with
  | map es =>
    refine ⟨es, rfl, ?_⟩
    simp only [detectionEntries] at found
    split at found
    · cases found
    · rename_i there
      cases found
      exact there
    · cases found
  | _ => cases found

theorem Parsed.exists_detection (parsed : r.Parsed c) : ∃ detection,
    r.document = .map r.entries ∧ lookup (.text "detection") r.entries = some (.map detection) ∧
      (Rule.parseOver r.document (Detection.ofEntries detection)).start c = (.ok r, c) := by
  unfold Parsed Rule.parse at parsed
  obtain ⟨detection, s, start, rest⟩ := start_bind_eq_ok.mp parsed
  obtain ⟨found, rfl⟩ := Prod.mk.inj start
  obtain ⟨es, document, there⟩ := document_of_detectionEntries found
  refine ⟨detection, ?_, ?_, rest⟩
  · rw [entries, document]
  · rw [entries, document]
    exact there

theorem numbered_current (parsed : r.Parsed c) : (r.numbered c number).current = r := by
  obtain ⟨-, document, -⟩ := parsed.exists_detection
  unfold numbered CollectedRule.current CollectedRule.document CollectedRule.made
  rw [toEntries_ofEntries, ← document]

theorem numbered_refresh (below : areBelow number changed = true) :
    (r.numbered c number).refresh changed = r.numbered c number := by
  unfold numbered CollectedRule.made CollectedRule.refresh
  rw [refreshAll_ofEntries below, entriesAt_ofEntries, remove_ofEntries,
    refreshBelow_ofEntries (areBelow_entriesAt below _)]

theorem numbered_withSearches (parsed : r.Parsed c) (fresh : c.losses = []) :
    (r.numbered c number).withSearches c = r.numbered c number := by
  obtain ⟨detection, -, there, rest⟩ := parsed.exists_detection
  -- the definitions that the collection keeps are those that the rule was parsed from
  have same : { r.detection with
      definitions := toEntries (r.numbered c number).definitions } =
        Detection.ofEntries detection := by
    unfold numbered CollectedRule.made
    rw [entriesAt_ofEntries, remove_ofEntries, toEntries_ofEntries,
      valuesAt, there, (Rule.eq_of_parseOver rest).2]
    rfl
  have again : (Rule.parseOver (r.numbered c number).rule.document
      { (r.numbered c number).rule.detection with
        definitions := toEntries (r.numbered c number).definitions }).start
        (r.numbered c number).start = (.ok r, c) := by
    have := rest
    rwa [← same] at this
  unfold CollectedRule.withSearches
  simp only [again, Rule.current_of_fresh fresh]
  split <;> rfl

/-- Parses documents one by one, each with the same configuration, up to the first fault. -/
def parseAll (c : Config) : List Value → Except Fault (List Rule)
  | [] => .ok []
  | d :: rest => match ((Rule.parse d).start c).1 with
    | .error e => .error e
    | .ok r => (parseAll c rest).map (r :: ·)

theorem numberedEach_withSearches {rules : List Rule} (parsed : ∀ r ∈ rules, r.Parsed c)
    (fresh : c.losses = []) (number : Nat) :
    (numberedEach c number rules).map (·.withSearches c) = numberedEach c number rules := by
  induction rules generalizing number with
  | nil => rfl
  | cons r rest ih =>
    rw [forall_mem_cons] at parsed
    rw [numberedEach, map_cons, numbered_withSearches parsed.1 fresh, ih parsed.2]

theorem numberedEach_refresh (rules : List Rule) {number : Nat}
    (below : ∀ m, number ≤ m → areBelow m changed = true) :
    (numberedEach c number rules).map (·.refresh changed) = numberedEach c number rules := by
  induction rules generalizing number with
  | nil => rfl
  | cons r rest ih =>
    rw [numberedEach, map_cons, numbered_refresh (below number (Nat.le_refl number)),
      ih fun m after => below m (Nat.le_of_succ_le after)]

end Rule

open Rule

/-- The document is a rule: a map that names no action. -/
def Value.isRule : Value → Bool
  | .map entries => (lookup (.text "action") entries).isNone
  | _ => false

theorem remove_of_lookup_none {k : Key} {entries : Entries} (absent : lookup k entries = none) :
    remove k entries = entries := by
  induction entries with
  | nil => rfl
  | cons e rest ih =>
    obtain ⟨k', v⟩ := e
    rw [lookup] at absent
    split at absent
    · cases absent
    · rename_i other
      rw [remove, filter_cons_of_pos (by simpa using other)]
      exact congrArg _ (ih absent)

namespace Collection

variable {c : Config}

theorem start_add_rule (number : Nat) {d : Value} (rule : d.isRule = true)
    (kept : ((Rule.parse d).start c).2 = c) (before : List CollectedRule) :
    (Collection.add none number d { rules := before }).start c =
      (((Rule.parse d).start c).1.map fun r => { rules := before ++ [r.numbered c number] }, c) := by
  cases d with
  | map entries =>
    have absent : lookup (.text "action") entries = none := Option.isNone_iff_eq_none.mp rule
    have split : DocumentAction.split (.map entries) = .ok (.rule, entries) := by
      rw [DocumentAction.split, absent, remove_of_lookup_none absent]
      rfl
    have prepared : prepare number (.map entries) { rules := before } =
        .ok ({ rules := before }, some (true, ofEntries number entries)) := by
      rw [prepare, split]
      rfl
    rw [add_eq, prepared]
    change (addRule (ofEntries number entries) { rules := before }).start c = _
    rw [start_addRule, toEntries_ofEntries]
    rcases run : (Rule.parse (.map entries)).start c with ⟨e | r, s⟩
    · rw [run] at kept
      obtain rfl : s = c := kept
      rfl
    · rw [run] at kept
      obtain rfl : s = c := kept
      have same : r.numbered s number = .made (ofEntries number entries) r s := by
        rw [Rule.numbered, Rule.entries, Rule.document_of_parse run]
      have told : (Except.ok { rules := before ++ [r.numbered s number] } : Except Fault Collection) =
          .ok { rules := before ++ [.made (ofEntries number entries) r s] } := by rw [same]
      exact congrArg (·, s) told.symm
  | _ => cases rule

variable {documents : List Value} {rs : List Rule}

theorem start_addEach_rules (number : Nat) (rules : ∀ d ∈ documents, d.isRule = true)
    (kept : ∀ d ∈ documents, ((Rule.parse d).start c).2 = c) (before : List CollectedRule) :
    (addEach none number documents { rules := before }).start c =
      ((parseAll c documents).map fun rs =>
        { rules := before ++ numberedEach c number rs }, c) := by
  induction documents generalizing number before with
  | nil =>
    rw [addEach, start_pure, parseAll, Except.map, numberedEach, append_nil]
  | cons d rest ih =>
    rw [forall_mem_cons] at rules kept
    have step := start_add_rule number rules.1 kept.1 before
    rw [addEach, Rule.parseAll]
    cases parsed : ((Rule.parse d).start c).1 with
    | error e =>
      rw [parsed] at step
      exact start_bind_of_error step
    | ok r =>
      rw [parsed] at step
      rw [start_bind_of_ok step, ih (number + 1) rules.2 kept.2]
      cases parseAll c rest with
      | error e => rfl
      | ok rs =>
        have appended : before ++ [r.numbered c number] ++ numberedEach c (number + 1) rs =
            before ++ numberedEach c number (r :: rs) :=
          append_assoc before [r.numbered c number] _
        exact congrArg (fun rules => ((.ok { rules } : Except Fault Collection), c)) appended

theorem forall₂_of_parseAll (parsed : Rule.parseAll c documents = .ok rs) :
    Forall₂ (fun d r => ((Rule.parse d).start c).1 = .ok r) documents rs := by
  induction documents generalizing rs with
  | nil =>
    cases parsed
    exact .nil
  | cons d rest ih =>
    rw [Rule.parseAll] at parsed
    cases run : ((Rule.parse d).start c).1 with
    | error e =>
      rw [run] at parsed
      cases parsed
    | ok r =>
      rw [run] at parsed
      obtain ⟨others, there, rfl⟩ := Cond.map_eq_ok parsed
      exact .cons run (ih there)

theorem parsed_of_parseAll (kept : ∀ d ∈ documents, ((Rule.parse d).start c).2 = c)
    (parsed : Rule.parseAll c documents = .ok rs) : ∀ r ∈ rs, r.Parsed c := by
  have each := forall₂_of_parseAll parsed
  clear parsed
  induction each with
  | nil => nofun
  | @cons d r rest others here _ ih =>
    rw [forall_mem_cons] at kept ⊢
    refine ⟨?_, ih kept.2⟩
    have run : (Rule.parse d).start c = (.ok r, c) := Prod.ext here kept.1
    rw [Rule.Parsed, Rule.document_of_parse run, run]

theorem start_parse_rules (rules : ∀ d ∈ documents, d.isRule = true)
    (kept : ∀ d ∈ documents, ((Rule.parse d).start c).2 = c) (fresh : c.losses = []) :
    (parse none documents).start c =
      ((parseAll c documents).map fun rs => { rules := numberedEach c 0 rs }, c) := by
  have read := start_addEach_rules 0 rules kept []
  rw [parse]
  cases parsed : parseAll c documents with
  | error e =>
    rw [parsed] at read
    exact start_bind_of_error read
  | ok rs =>
    rw [parsed] at read
    rw [start_bind_of_ok read, start_bind_of_ok (start_get c)]
    change (Except.ok (current c { rules := numberedEach c 0 rs }), c) = _
    rw [current, numberedEach_withSearches (parsed_of_parseAll kept parsed) fresh]
    rfl

end Collection

/-! ## Queries in turn -/

namespace Target

/-- Makes the queries of rules, one after another, up to the first fault. -/
def generateInTurn (c : Config) : List Rule → Target → Except Fault (List (Option String)) × Target
  | [], t => (.ok [], t)
  | r :: rest, t => match (t.generate c r).result with
    | .error e => (.error e, (t.generate c r).target)
    | .ok q =>
      let (result, t) := generateInTurn c rest (t.generate c r).target
      (result.map (q :: ·), t)

variable {c : Config} {rules : List Rule} {t : Target} {α : Type} {e : Fault}

theorem generateEach_numberedEach (parsed : ∀ r ∈ rules, r.Parsed c) (number : Nat) (t : Target) :
    Collection.generateEach c rules.length (numberedEach c number rules) t =
      generateInTurn c rules t := by
  induction rules generalizing number t with
  | nil => rfl
  | cons r rest ih =>
    rw [forall_mem_cons] at parsed
    rw [length_cons, numberedEach, Collection.generateEach, generateInTurn,
      numbered_current parsed.1]
    cases (t.generate c r).result with
    | error e => rfl
    | ok q =>
      dsimp only
      rw [numberedEach_refresh rest, ih parsed.2]
      -- what the target fills in comes from this document, or from none before the first
      intro m after
      have own : areBelow m (r.numbered c number).sections = true :=
        areBelow_ofEntries after r.entries
      split
      · exact areBelow_mergeAll own
          (areBelow_ofEntries (Nat.lt_of_lt_of_le (Nat.succ_pos number) after) _)
      · exact own

/-- The results for rules do not depend on the rules before. -/
def Independent (c : Config) (t : Target) : Prop :=
  ∀ history r, ((t.after history).generate c r).result = (t.generate c r).result

theorem after_of_target (same : ∀ c r, (t.generate c r).target = t) (history : List (Config × Rule)) :
    t.after history = t := by
  induction history with
  | nil => rfl
  | cons x rest ih =>
    rw [after, foldl_cons, same]
    exact ih

theorem independent_of_target (same : ∀ c r, (t.generate c r).target = t) (c : Config) :
    t.Independent c := by
  intro history r
  rw [after_of_target same]

/-- The results for rules, each on its own, up to the first fault. -/
def resultsOf (c : Config) (t : Target) : List Rule → Except Fault (List (Option String))
  | [] => .ok []
  | r :: rest => match (t.generate c r).result with
    | .error e => .error e
    | .ok q => (resultsOf c t rest).map (q :: ·)

/-- The rules up to the first fault, and with the one that has it. -/
def tried (c : Config) (t : Target) : List Rule → List Rule
  | [] => []
  | r :: rest => match (t.generate c r).result with
    | .error _ => [r]
    | .ok _ => r :: tried c t rest

theorem after_concat (t : Target) (history : List (Config × Rule)) (c : Config) (r : Rule) :
    ((t.after history).generate c r).target = t.after (history ++ [(c, r)]) := by
  rw [after, after, foldl_append]
  rfl

theorem generateInTurn_of_independent (independent : t.Independent c) (rules : List Rule)
    (history : List (Config × Rule)) : generateInTurn c rules (t.after history) =
      (t.resultsOf c rules, t.after (history ++ (t.tried c rules).map (c, ·))) := by
  induction rules generalizing history with
  | nil => rw [generateInTurn, resultsOf, tried, map_nil, append_nil]
  | cons r rest ih =>
    rw [generateInTurn, independent history r, after_concat, ih, resultsOf, tried]
    cases (t.generate c r).result with
    | error e => rfl
    | ok q => rw [append_assoc, map_cons, singleton_append]

/-- The queries of the rules of a collection whose documents share nothing. -/
theorem generate_numberedEach (independent : t.Independent c) (parsed : ∀ r ∈ rules, r.Parsed c)
    (history : List (Config × Rule)) :
    Collection.generate c (t.after history) { rules := numberedEach c 0 rules } =
      ((t.resultsOf c rules).map fun qs => qs.filterMap fun q => q.filter (· != ""),
        t.after (history ++ (t.tried c rules).map (c, ·))) := by
  rw [Collection.generate, length_numberedEach, generateEach_numberedEach parsed,
    generateInTurn_of_independent independent]

/-! ## Rules on their own -/

/-- The result for a document on its own. -/
def alone (c : Config) (t : Target) (d : Value) : Except Fault (Option String) :=
  match ((Rule.parse d).start c).1 with
  | .error e => .error e
  | .ok r => (t.generate c r).result

theorem alone_of_parse {d : Value} {r : Rule} (parsed : ((parse d).start c).1 = .ok r) :
    t.alone c d = (t.generate c r).result := by
  rw [alone, parsed]

/-- A result that is a query, and not an empty one. -/
def query? : Except Fault (Option String) → Option String
  | .ok q => q.filter (· != "")
  | .error _ => none

/-- The fault of a result. -/
def fault? {α : Type} : Except Fault α → Option Fault
  | .ok _ => none
  | .error e => some e

/-- The fault of documents that are converted together: the first one in parsing, and if there is none
the first one in conversion. -/
def firstFault? (c : Config) (t : Target) (documents : List Value) : Option Fault :=
  (documents.findSome? fun d => fault? ((Rule.parse d).start c).1).or
    (documents.findSome? fun d => fault? (t.alone c d))

/-- The queries of documents that are converted together. -/
def queriesOf (c : Config) (t : Target) (documents : List Value) : Except Fault (List String) :=
  match t.firstFault? c documents with
  | some e => .error e
  | none => .ok (documents.filterMap fun d => query? (t.alone c d))

theorem fault?_eq_some {x : Except Fault α} (h : fault? x = some e) : x = .error e := by
  cases x with
  | error e' => rw [Option.some.inj h]
  | ok a => cases h

/-- A fault of documents that are converted together is one of a document on its own. -/
theorem exists_of_firstFault? {documents : List Value} (first : t.firstFault? c documents = some e) :
    ∃ d ∈ documents, t.alone c d = .error e := by
  rw [firstFault?, Option.or_eq_some_iff] at first
  rcases first with found | ⟨-, found⟩
  · obtain ⟨d, member, fault⟩ := exists_of_findSome?_eq_some found
    refine ⟨d, member, ?_⟩
    rw [alone, fault?_eq_some fault]
  · obtain ⟨d, member, fault⟩ := exists_of_findSome?_eq_some found
    exact ⟨d, member, fault?_eq_some fault⟩

theorem fault?_map {β : Type} (x : Except Fault α) (f : α → β) : fault? (x.map f) = fault? x := by
  cases x <;> rfl

theorem findSome?_parse (c : Config) (documents : List Value) :
    (documents.findSome? fun d => fault? ((parse d).start c).1) =
      fault? (parseAll c documents) := by
  induction documents with
  | nil => rfl
  | cons d rest ih =>
    rw [findSome?_cons, parseAll]
    cases ((parse d).start c).1 with
    | error e => rfl
    | ok r =>
      rw [fault?_map, ← ih]
      rfl

section

variable {c : Config} {t : Target} {documents : List Value} {rules : List Rule}
  (each : Forall₂ (fun d r => ((parse d).start c).1 = .ok r) documents rules)
include each

theorem findSome?_alone :
    (documents.findSome? fun d => fault? (t.alone c d)) = fault? (t.resultsOf c rules) := by
  induction each with
  | nil => rfl
  | @cons d r rest others here _ ih =>
    rw [findSome?_cons, alone_of_parse here, resultsOf]
    cases (t.generate c r).result with
    | error e => rfl
    | ok q =>
      rw [fault?_map, ← ih]
      rfl

theorem filterMap_alone {results : List (Option String)} (made : t.resultsOf c rules = .ok results) :
    (documents.filterMap fun d => query? (t.alone c d)) =
      results.filterMap fun q => q.filter (· != "") := by
  induction each generalizing results with
  | nil =>
    cases made
    rfl
  | @cons d r rest others here _ ih =>
    rw [resultsOf] at made
    rw [filterMap_cons, alone_of_parse here]
    cases result : (t.generate c r).result with
    | error e =>
      rw [result] at made
      cases made
    | ok q =>
      rw [result] at made
      obtain ⟨queries, left, rfl⟩ := Cond.map_eq_ok made
      rw [ih left, filterMap_cons]
      rfl

end

/-- Documents that are converted together have queries only if each of them has a result on its own. -/
theorem queriesOf_eq (c : Config) (t : Target) (documents : List Value) :
    t.queriesOf c documents = match parseAll c documents with
      | .error e => .error e
      | .ok rules => (t.resultsOf c rules).map fun qs => qs.filterMap fun q => q.filter (· != "") := by
  rw [queriesOf, firstFault?, findSome?_parse]
  cases parsed : parseAll c documents with
  | error e => rfl
  | ok rules =>
    have each := Collection.forall₂_of_parseAll parsed
    rw [findSome?_alone each]
    dsimp only
    cases made : t.resultsOf c rules with
    | error e => rfl
    | ok results => exact congrArg Except.ok (filterMap_alone each made)

end Target

end SigmaQuery
