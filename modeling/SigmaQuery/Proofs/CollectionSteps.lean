import Mathlib.Data.List.Induction
import SigmaQuery.Collection.Basic
import SigmaQuery.Proofs.Computation

/-!
# Steps of a collection

A document is read in two steps. The first carries out what the document does to the documents before
it and finds the document of the rule to make, if any; it asks neither the filter nor the
configuration. The second makes the rule. The runs of a collection are taken apart into these steps
here, the last document first.
-/

namespace SigmaQuery

open FaultM Section

/-! ## Parsed rules -/

theorem Rule.eq_of_parseOver {document : Value} {detection : Detection} {r : Rule}
    {c c' : Config} (run : (Rule.parseOver document detection).start c = (.ok r, c')) :
    r.document = document ∧ r.detection = detection := by
  unfold Rule.parseOver at run
  obtain ⟨entries, s₁, -, run⟩ := start_bind_eq_ok.mp run
  obtain ⟨elements, s₂, -, run⟩ := start_bind_eq_ok.mp run
  obtain ⟨before, s₃, -, run⟩ := start_bind_eq_ok.mp run
  obtain ⟨conditions, s₄, -, run⟩ := start_bind_eq_ok.mp run
  obtain ⟨after, s₅, -, run⟩ := start_bind_eq_ok.mp run
  cases run
  exact ⟨rfl, rfl⟩

theorem Rule.document_of_parse {document : Value} {r : Rule} {c c' : Config}
    (run : (Rule.parse document).start c = (.ok r, c')) : r.document = document := by
  unfold Rule.parse at run
  obtain ⟨entries, s, -, run⟩ := start_bind_eq_ok.mp run
  exact (Rule.eq_of_parseOver run).1

/-! ## What later documents leave of a rule -/

theorem Section.refreshAll_nil (sections : Sections) : refreshAll [] sections = sections := by
  induction sections with
  | nil => rw [refreshAll]
  | cons e rest ih =>
    obtain ⟨k, s⟩ := e
    rw [refreshAll, ih]
    cases s <;> rfl

theorem Section.refreshBelow_nil (sections : Sections) : refreshBelow [] sections = sections := by
  induction sections with
  | nil => rfl
  | cons e rest ih =>
    obtain ⟨k, v | ⟨origin, entries⟩⟩ := e
    · rw [refreshBelow, ih]
      nofun
    · rw [refreshBelow, ih, show entriesAt k [] = [] from rfl, refreshAll_nil]

/-- The rule that a document makes, parsed with a configuration. -/
def CollectedRule.made (document : Sections) (rule : Rule) (start : Config) : CollectedRule where
  sections := document
  rule
  start
  definitions := remove (.text "condition") (entriesAt "detection" document)

namespace CollectedRule

variable (changed : Sections) (config : Config) (r : CollectedRule)

theorem refresh_nil : r.refresh [] = r := by
  unfold refresh
  rw [refreshAll_nil, show entriesAt "detection" [] = [] from rfl, refreshBelow_nil]

theorem refresh_document : (r.refresh changed).rule.document = r.rule.document := rfl

theorem refresh_start : (r.refresh changed).start = r.start := rfl

@[simp] theorem withSearches_sections : (r.withSearches config).sections = r.sections := by
  unfold withSearches
  split
  · simp only
    split <;> rfl
  · rfl

@[simp] theorem withSearches_start : (r.withSearches config).start = r.start := by
  unfold withSearches
  split
  · simp only
    split <;> rfl
  · rfl

@[simp] theorem withSearches_rule_document :
    (r.withSearches config).rule.document = r.rule.document := by
  unfold withSearches
  split
  · simp only
    split
    · rename_i rule parsed
      show rule.document = r.rule.document
      exact (Rule.eq_of_parseOver (Prod.ext parsed rfl)).1
    · rfl
  · rfl

end CollectedRule

namespace Collection

/-! ## One document -/

/-- The first step: the collection after what the document with a number does to the documents before
it, and the document of the rule to make, if any. With it stands whether the rule is new, and not a
repeated one. -/
def prepare (number : Nat) (document : Value) (c : Collection) :
    Except Fault (Collection × Option (Bool × Sections)) :=
  match DocumentAction.split document with
  | .error e => .error e
  | .ok (.global, entries) => .ok (c.addGlobals (ofEntries number entries), none)
  | .ok (.reset, _) => .ok ({ c with globals := [] }, none)
  | .ok (.again, entries) => match c.repeated? (ofEntries number entries) with
    | none => .error .noName
    | some document => .ok (c.refresh document, some (false, document))
  | .ok (.rule, entries) =>
    .ok (c, some (true, mergeAll (ofEntries number entries) c.globals))

/-- The second step: the rule is made if the filter says what it must say. -/
def make (f : Option RuleFilter) (c : Collection) : Option (Bool × Sections) → ConfigM Collection
  | none => pure c
  | some (new, document) => do
    if ← FaultM.ofExcept (passes f new document) then c.addRule document else return c

variable {f : Option RuleFilter} {number : Nat} {document : Value} {c c' : Collection}
  {config config' : Config}

theorem add_eq (f : Option RuleFilter) (number : Nat) (document : Value) (c : Collection) :
    c.add f number document =
      FaultM.ofExcept (c.prepare number document) >>= fun p => p.1.make f p.2 := by
  unfold add prepare
  cases DocumentAction.split document with
  | error e => rfl
  | ok split =>
    obtain ⟨action, entries⟩ := split
    cases action with
    | rule | global | reset => rfl
    | again =>
      simp only [ofExcept_ok, pure_bind]
      cases c.repeated? (ofEntries number entries) <;> rfl

/-- What the first step does when it returns, by the action of the document. -/
theorem prepare_eq_ok {c₁ : Collection} {rule : Option (Bool × Sections)} :
    c.prepare number document = .ok (c₁, rule) ↔
      ∃ action entries, DocumentAction.split document = .ok (action, entries) ∧ match action with
        | .global => c₁ = c.addGlobals (ofEntries number entries) ∧ rule = none
        | .reset => c₁ = { c with globals := [] } ∧ rule = none
        | .again => ∃ last, c.rules.getLast? = some last ∧
          c₁ = c.refresh (mergeAll last.sections (ofEntries number entries)) ∧
            rule = some (false, mergeAll last.sections (ofEntries number entries))
        | .rule => c₁ = c ∧ rule = some (true, mergeAll (ofEntries number entries) c.globals) := by
  unfold prepare
  rcases DocumentAction.split document with e | ⟨action, entries⟩
  · simp
  cases action with
  | again =>
    unfold repeated?
    cases c.rules.getLast? <;> simp [eq_comm]
  | _ => simp [eq_comm]

theorem start_add_eq_ok : (c.add f number document).start config = (.ok c', config') ↔
    ∃ c₁ rule, c.prepare number document = .ok (c₁, rule) ∧
      (c₁.make f rule).start config = (.ok c', config') := by
  rw [add_eq]
  rcases c.prepare number document with e | ⟨c₁, rule⟩
  · simp
  · simp

theorem start_addRule (sections : Sections) (c : Collection) (config : Config) :
    (c.addRule sections).start config =
      match (Rule.parse (.map (toEntries sections))).start config with
      | (.ok rule, config') =>
        (.ok { c with rules := c.rules ++ [.made sections rule config] }, config')
      | (.error e, config') => (.error e, config') := by
  unfold addRule
  rw [start_bind_of_ok (start_get config)]
  rcases run : (Rule.parse (.map (toEntries sections))).start config with ⟨e | rule, s⟩
  · exact start_bind_of_error run
  · exact start_bind_of_ok run

theorem start_addRule_eq_ok {sections : Sections} :
    (c.addRule sections).start config = (.ok c', config') ↔
      ∃ rule, (Rule.parse (.map (toEntries sections))).start config = (.ok rule, config') ∧
        c' = { c with rules := c.rules ++ [.made sections rule config] } := by
  rw [start_addRule]
  rcases (Rule.parse (.map (toEntries sections))).start config with ⟨e | rule, s⟩
  · simp
  · constructor
    · intro added
      cases added
      exact ⟨rule, rfl, rfl⟩
    · rintro ⟨rule', parsed, rfl⟩
      cases parsed
      rfl

/-! ## All documents -/

theorem addEach_append (f : Option RuleFilter) (number : Nat) (documents more : List Value)
    (c : Collection) :
    addEach f number (documents ++ more) c =
      addEach f number documents c >>= addEach f (number + documents.length) more := by
  induction documents generalizing number c with
  | nil => simp [addEach]
  | cons d rest ih =>
    simp only [List.cons_append, addEach, bind_assoc, List.length_cons]
    congr 1
    funext c₁
    rw [ih, Nat.add_right_comm, Nat.add_assoc]

theorem addEach_concat (f : Option RuleFilter) (number : Nat) (documents : List Value)
    (last : Value) (c : Collection) :
    addEach f number (documents ++ [last]) c =
      addEach f number documents c >>= add f (number + documents.length) last := by
  rw [addEach_append]
  congr 1
  funext c₁
  simp [addEach]

theorem start_addEach_concat_eq_ok {documents : List Value} :
    (addEach f number (documents ++ [document]) c).start config = (.ok c', config') ↔
      ∃ b s, (addEach f number documents c).start config = (.ok b, s) ∧
        (b.add f (number + documents.length) document).start s = (.ok c', config') := by
  rw [addEach_concat, start_bind_eq_ok]

theorem start_parse_eq_ok {documents : List Value} :
    (parse f documents).start config = (.ok c, config') ↔
      ∃ b, (addEach f 0 documents {}).start config = (.ok b, config') ∧ c = b.current config' := by
  unfold parse
  rw [start_bind_eq_ok]
  constructor
  · rintro ⟨b, s, run, rest⟩
    cases rest
    exact ⟨b, run, rfl⟩
  · rintro ⟨b, run, rfl⟩
    exact ⟨b, config', run, rfl⟩

end Collection

end SigmaQuery
