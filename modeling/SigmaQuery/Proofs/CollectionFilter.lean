import Mathlib.Data.List.Chain
import Mathlib.Data.List.Forall2
import SigmaQuery.Proofs.CollectionSteps
import SigmaQuery.Proofs.ConfigFootprint

/-!
# Filtered collections

A filter is asked for every rule that the documents of a collection make. A new rule is kept if the
filter accepts its document, but a repeated rule is kept if the filter rejects it. A rule that is not
kept is not repeated either: a document that repeats takes the last rule that was kept.

The collection read with a filter is compared with the one read without. Main statement: where every
repeated rule repeats one that is kept, and the rules that are left out would not have changed the
configuration, the filtered collection holds exactly the kept rules of the other one, in their order
(`Collection.parse_filtered`).
-/

namespace SigmaQuery

open FaultM List Section DocumentAction CollectedRule

/-- The filter says what it must say for a rule to be kept. -/
def RuleFilter.keeps (f : RuleFilter) (new : Bool) (document : Value) : Bool :=
  (f.accepts document).toOption == some new

theorem RuleFilter.keeps_iff {f : RuleFilter} {new : Bool} {document : Value} :
    f.keeps new document = true ↔ f.accepts document = .ok new := by
  unfold RuleFilter.keeps
  cases f.accepts document with
  | error e | ok b => simp [Except.toOption]

/-- Whether a document makes a new rule or a repeated one; none if it makes no rule. -/
def DocumentAction.new? (document : Value) : Option Bool :=
  match split document with
  | .ok (.rule, _) => some true
  | .ok (.again, _) => some false
  | _ => none

namespace Collection

/-- For each rule that documents make, whether it is new. -/
def newRules (documents : List Value) : List Bool :=
  documents.filterMap new?

/-- The rules of a collection, each with whether it is new. -/
def rulesBy (documents : List Value) (c : Collection) : List (Bool × CollectedRule) :=
  (newRules documents).zip c.rules

/-- The filter gives a verdict on every rule. -/
def Judged (f : RuleFilter) (rules : List (Bool × CollectedRule)) : Prop :=
  ∀ x ∈ rules, ∃ b, f.accepts x.2.rule.document = .ok b

/-- The rules that the filter keeps. -/
def kept (f : RuleFilter) (rules : List (Bool × CollectedRule)) : List CollectedRule :=
  (rules.filter fun x => f.keeps x.1 x.2.rule.document).map (·.2)

/-- Every repeated rule stands after one that is kept. -/
def RepeatsKept (f : RuleFilter) (rules : List (Bool × CollectedRule)) : Prop :=
  rules.IsChain fun before x => x.1 = false → f.keeps before.1 before.2.rule.document = true

/-- Parsing a rule that the filter leaves out does not change the configuration. -/
def LeftOutSteady (f : RuleFilter) (rules : List (Bool × CollectedRule)) : Prop :=
  ∀ x ∈ rules, f.keeps x.1 x.2.rule.document = false →
    ((Rule.parse x.2.rule.document).start x.2.start).2 = x.2.start

/-! ## What later documents leave of the rules -/

section Later

variable {f : RuleFilter} {rules : List (Bool × CollectedRule)} {x : Bool × CollectedRule}
  {g : CollectedRule → CollectedRule} {r : CollectedRule}

theorem kept_concat_keeps {new : Bool} (verdict : f.accepts r.rule.document = .ok new) :
    kept f (rules ++ [(new, r)]) = kept f rules ++ [r] := by
  have taken : f.keeps new r.rule.document = true := RuleFilter.keeps_iff.mpr verdict
  simp [kept, taken]

theorem kept_concat_leavesOut {new : Bool} (verdict : f.accepts r.rule.document = .ok (!new)) :
    kept f (rules ++ [(new, r)]) = kept f rules := by
  have leftOut : f.keeps new r.rule.document = false := by
    simp [RuleFilter.keeps, verdict, Except.toOption]
  simp [kept, leftOut]

theorem kept_map (same : ∀ r, (g r).rule.document = r.rule.document) :
    kept f (rules.map (Prod.map id g)) = (kept f rules).map g := by
  unfold kept
  simp [filter_map, Function.comp_def, same]

theorem judged_map (same : ∀ r, (g r).rule.document = r.rule.document) :
    Judged f (rules.map (Prod.map id g)) ↔ Judged f rules := by
  simp [Judged, same]

theorem judged_concat : Judged f (rules ++ [x]) ↔
    Judged f rules ∧ ∃ b, f.accepts x.2.rule.document = .ok b := by
  simp [Judged, or_imp, forall_and]

theorem repeatsKept_map (same : ∀ r, (g r).rule.document = r.rule.document) :
    RepeatsKept f (rules.map (Prod.map id g)) ↔ RepeatsKept f rules := by
  unfold RepeatsKept
  rw [isChain_map]
  simp [same]

theorem leftOutSteady_map (same : ∀ r, (g r).rule.document = r.rule.document)
    (started : ∀ r, (g r).start = r.start) :
    LeftOutSteady f (rules.map (Prod.map id g)) ↔ LeftOutSteady f rules := by
  simp [LeftOutSteady, same, started]

theorem leftOutSteady_concat : LeftOutSteady f (rules ++ [x]) ↔
    LeftOutSteady f rules ∧ (f.keeps x.1 x.2.rule.document = false →
      ((Rule.parse x.2.rule.document).start x.2.start).2 = x.2.start) := by
  simp [LeftOutSteady, or_imp, forall_and]

theorem getLast?_kept (last : ∀ y ∈ rules.getLast?, f.keeps y.1 y.2.rule.document = true) :
    (kept f rules).getLast? = (rules.map (·.2)).getLast? := by
  rcases eq_nil_or_concat rules with rfl | ⟨before, y, rfl⟩
  · rfl
  · rw [concat_eq_append] at last ⊢
    rw [kept_concat_keeps (RuleFilter.keeps_iff.mp (last y (by simp)))]
    simp

theorem repeatsKept_concat (same : ∀ r, (g r).rule.document = r.rule.document)
    (repeats : RepeatsKept f (rules.map (Prod.map id g) ++ [x])) :
    RepeatsKept f rules ∧ (x.1 = false → (kept f rules).getLast? = (rules.map (·.2)).getLast?) := by
  obtain ⟨before, -, joint⟩ := isChain_append.mp repeats
  refine ⟨(repeatsKept_map same).mp before, fun again => getLast?_kept fun y isLast => ?_⟩
  have found : Prod.map id g y ∈ (rules.map (Prod.map id g)).getLast? := by
    rw [getLast?_map]
    exact Option.mem_map_of_mem _ isLast
  have taken := joint _ found x rfl again
  simpa [same] using taken

end Later

/-! ## One document with and without a filter -/

section Steps

variable {f : RuleFilter} {number : Nat} {documents : List Value} {document : Value}
  {b b₁ all : Collection} {rule : Option (Bool × Sections)} {c c' : Config}

/-- The first step refreshes the rules. It does the same in another collection that has the same
entries for the rules that follow and, if a rule is repeated, the same document to repeat. -/
theorem prepare_cases (prepared : b.prepare number document = .ok (b₁, rule)) :
    rule.map (·.1) = new? document ∧ ∃ changed,
      b₁.rules = b.rules.map (·.refresh changed) ∧
      ∀ other : Collection, other.globals = b.globals → (new? document = some false →
          other.rules.getLast?.map (·.sections) = b.rules.getLast?.map (·.sections)) →
        other.prepare number document =
          .ok (⟨b₁.globals, other.rules.map (·.refresh changed)⟩, rule) := by
  -- a document that changes no other one counts as a change that leaves nothing
  have unchanged : ∀ rules : List CollectedRule, rules.map (·.refresh []) = rules := by
    simp [refresh_nil]
  obtain ⟨action, entries, split, prepared⟩ := prepare_eq_ok.mp prepared
  unfold new?
  rw [split]
  cases action with
  | global =>
    obtain ⟨rfl, rfl⟩ := prepared
    refine ⟨rfl, _, rfl, fun other same _ => ?_⟩
    refine prepare_eq_ok.mpr ⟨_, _, split, ?_, rfl⟩
    unfold addGlobals refresh
    rw [same]
  | reset =>
    obtain ⟨rfl, rfl⟩ := prepared
    refine ⟨rfl, [], (unchanged _).symm, fun other _ _ => ?_⟩
    refine prepare_eq_ok.mpr ⟨_, _, split, ?_, rfl⟩
    rw [unchanged]
  | rule =>
    obtain ⟨rfl, rfl⟩ := prepared
    refine ⟨rfl, [], (unchanged _).symm, fun other same _ => ?_⟩
    refine prepare_eq_ok.mpr ⟨_, _, split, ?_, ?_⟩
    · rw [unchanged, ← same]
    · rw [same]
  | again =>
    obtain ⟨r, last, rfl, rfl⟩ := prepared
    refine ⟨rfl, _, rfl, fun other same lastToo => ?_⟩
    have lastSections := lastToo rfl
    rw [last] at lastSections
    obtain ⟨r', last', sections⟩ := Option.map_eq_some_iff.mp lastSections
    refine prepare_eq_ok.mpr ⟨_, _, split, r', last', ?_, ?_⟩
    · unfold refresh
      rw [sections, same]
    · rw [sections]

theorem newRules_concat (documents : List Value) (document : Value) :
    newRules (documents ++ [document]) = newRules documents ++ (new? document).toList := by
  unfold newRules
  rw [filterMap_append]
  cases h : new? document <;> simp [h]

theorem length_newRules (run : (addEach none number documents {}).start c = (.ok all, c')) :
    (newRules documents).length = all.rules.length := by
  induction documents using List.reverseRecOn generalizing all c' with
  | nil =>
    cases run
    rfl
  | append_singleton documents document ih =>
    obtain ⟨b, s, before, step⟩ := start_addEach_concat_eq_ok.mp run
    obtain ⟨b₁, rule, prepared, making⟩ := start_add_eq_ok.mp step
    obtain ⟨kind, changed, refreshed, -⟩ := prepare_cases prepared
    have count : (newRules documents).length = b₁.rules.length := by
      rw [ih before, refreshed, length_map]
    rw [newRules_concat, ← kind, length_append, count]
    rcases rule with - | ⟨new, sections⟩
    · cases making
      rfl
    · obtain ⟨r, -, rfl⟩ := start_addRule_eq_ok.mp making
      simp

/-- What the last document does without a filter: it makes no rule, or it makes one that follows all
others. The other rules are refreshed. -/
theorem rulesBy_cases
    (run : (addEach none 0 (documents ++ [document]) {}).start c = (.ok all, c')) :
    ∃ b s rule changed, (addEach none 0 documents {}).start c = (.ok b, s) ∧
      (∀ other : Collection, other.globals = b.globals → (rule.map (·.1) = some false →
          other.rules.getLast?.map (·.sections) = b.rules.getLast?.map (·.sections)) →
        other.prepare documents.length document =
          .ok (⟨all.globals, other.rules.map (·.refresh changed)⟩, rule)) ∧
      ((rule = none ∧ c' = s ∧ all.rulesBy (documents ++ [document]) =
          (b.rulesBy documents).map (Prod.map id (·.refresh changed))) ∨
        ∃ new sections r, rule = some (new, sections) ∧
          (Rule.parse (.map (toEntries sections))).start s = (.ok r, c') ∧
          all.rulesBy (documents ++ [document]) =
            (b.rulesBy documents).map (Prod.map id (·.refresh changed)) ++
              [(new, .made sections r s)]) := by
  obtain ⟨b, s, before, step⟩ := start_addEach_concat_eq_ok.mp run
  rw [Nat.zero_add] at step
  obtain ⟨b₁, rule, prepared, making⟩ := start_add_eq_ok.mp step
  obtain ⟨kind, changed, refreshed, also⟩ := prepare_cases prepared
  have zipped : (newRules documents).zip b₁.rules =
      (b.rulesBy documents).map (Prod.map id (·.refresh changed)) := by
    rw [refreshed, rulesBy, zip_map_right]
  rcases rule with - | ⟨new, sections⟩
  · cases making
    refine ⟨b, c', none, changed, before, kind ▸ also, .inl ⟨rfl, rfl, ?_⟩⟩
    rw [rulesBy, newRules_concat, ← kind, ← zipped]
    simp
  · obtain ⟨r, parsed, rfl⟩ := start_addRule_eq_ok.mp making
    refine ⟨b, s, some (new, sections), changed, before, kind ▸ also,
      .inr ⟨new, sections, r, rfl, parsed, ?_⟩⟩
    have count : (newRules documents).length = b₁.rules.length := by
      rw [length_newRules before, refreshed, length_map]
    rw [rulesBy, newRules_concat, ← kind, ← zipped]
    exact zip_append count

end Steps

/-! ## All documents with and without a filter -/

section Runs

variable {f : RuleFilter} {number : Nat} {documents : List Value} {all chosen : Collection}
  {c c' s : Config}

/-- With a filter a rule is made if the filter says what it must say. -/
theorem start_make_eq_ok {b b' : Collection} {new : Bool} {sections : Sections} :
    (b.make (some f) (some (new, sections))).start s = (.ok b', c') ↔
      f.accepts (.map (toEntries sections)) = .ok new ∧
        (b.addRule sections).start s = (.ok b', c') ∨
      f.accepts (.map (toEntries sections)) = .ok (!new) ∧ b' = b ∧ c' = s := by
  unfold make
  simp only
  rw [show passes (some f) new sections =
    (f.accepts (.map (toEntries sections))).map (· == new) from rfl]
  cases f.accepts (.map (toEntries sections)) with
  | error e => simp [Except.map]
  | ok verdict =>
    by_cases same : verdict = new
    · simp [Except.map, same]
    · simp [Except.map, Bool.eq_not_of_ne same, eq_comm]

theorem rulesBy_snd (run : (addEach none number documents {}).start c = (.ok all, c')) :
    (all.rulesBy documents).map (·.2) = all.rules :=
  map_snd_zip (Nat.le_of_eq (length_newRules run).symm)

/-- With a filter, every rule that is kept has the verdict it must have. -/
theorem forall₂_accepts (run : (addEach (some f) number documents {}).start c = (.ok all, c')) :
    ∃ verdicts, verdicts.Sublist (newRules documents) ∧
      Forall₂ (fun new r => f.accepts r.rule.document = .ok new) verdicts all.rules := by
  induction documents using List.reverseRecOn generalizing all c' with
  | nil =>
    cases run
    exact ⟨[], List.Sublist.slnil, .nil⟩
  | append_singleton documents document ih =>
    obtain ⟨b, s, before, step⟩ := start_addEach_concat_eq_ok.mp run
    obtain ⟨b₁, rule, prepared, making⟩ := start_add_eq_ok.mp step
    obtain ⟨kind, changed, refreshed, -⟩ := prepare_cases prepared
    obtain ⟨verdicts, fewer, judged⟩ := ih before
    have refreshedToo : Forall₂ (fun new r => f.accepts r.rule.document = .ok new)
        verdicts b₁.rules := by
      rw [refreshed, forall₂_map_right_iff]
      exact judged
    rw [newRules_concat, ← kind]
    rcases rule with - | ⟨new, sections⟩
    · cases making
      exact ⟨verdicts, by simpa using fewer, refreshedToo⟩
    · rcases start_make_eq_ok.mp making with ⟨verdict, added⟩ | ⟨-, rfl, rfl⟩
      · obtain ⟨r, parsed, rfl⟩ := start_addRule_eq_ok.mp added
        refine ⟨verdicts ++ [new], fewer.append (List.Sublist.refl _), ?_⟩
        refine rel_append refreshedToo (.cons ?_ .nil)
        show f.accepts r.document = .ok new
        rw [Rule.document_of_parse parsed, verdict]
      · exact ⟨verdicts, fewer.trans (sublist_append_left _ _), refreshedToo⟩

/-- If a filtered run returns, the filter gives a verdict on every rule, and the documents are those
of the kept rules. -/
theorem sections_of_filtered (run : (addEach none 0 documents {}).start c = (.ok all, c'))
    (repeats : RepeatsKept f (all.rulesBy documents))
    (filtered : (addEach (some f) 0 documents {}).start c = (.ok chosen, s)) :
    chosen.globals = all.globals ∧ Judged f (all.rulesBy documents) ∧
      chosen.rules.map (·.sections) = (kept f (all.rulesBy documents)).map (·.sections) := by
  induction documents using List.reverseRecOn generalizing all chosen c' s with
  | nil =>
    cases run
    cases filtered
    exact ⟨rfl, by simp [Judged, rulesBy], rfl⟩
  | append_singleton documents document ih =>
    obtain ⟨b, s₁, rule, changed, before, also, cases⟩ := rulesBy_cases run
    obtain ⟨d, s₂, beforeToo, step⟩ := start_addEach_concat_eq_ok.mp filtered
    rw [Nat.zero_add] at step
    obtain ⟨d₁, rule', prepared, making⟩ := start_add_eq_ok.mp step
    have refreshedSections : ∀ rules : List CollectedRule,
        (rules.map (·.refresh changed)).map (·.sections) =
          (rules.map (·.sections)).map (refreshAll changed) := by
      simp [Function.comp_def, CollectedRule.refresh]
    have sameRule := refresh_document changed
    rcases cases with ⟨rfl, rfl, made⟩ | ⟨new, sections, r, rfl, parsed, made⟩
    -- no rule is made: both runs refresh their rules in the same way
    · rw [made, repeatsKept_map sameRule] at repeats
      obtain ⟨sameGlobals, judged, same⟩ := ih before repeats beforeToo
      rw [also d sameGlobals nofun] at prepared
      cases prepared
      cases making
      refine ⟨rfl, ?_, ?_⟩
      · rw [made, judged_map sameRule]
        exact judged
      · rw [made, kept_map sameRule, refreshedSections, refreshedSections, same]
    -- a rule is made: if it is a repeated one, the last rule was kept and both runs repeat it
    · rw [made] at repeats
      obtain ⟨repeats, lastKept⟩ := repeatsKept_concat sameRule repeats
      obtain ⟨sameGlobals, judged, same⟩ := ih before repeats beforeToo
      have lastSections : new = false →
          d.rules.getLast?.map (·.sections) = b.rules.getLast?.map (·.sections) := by
        intro again
        rw [← getLast?_map, same, getLast?_map, lastKept again, rulesBy_snd before]
      rw [also d sameGlobals fun again => lastSections (Option.some.inj again)] at prepared
      cases prepared
      have document : r.document = .map (toEntries sections) := Rule.document_of_parse parsed
      have refreshedSame : (d.rules.map (·.refresh changed)).map (·.sections) =
          ((kept f (b.rulesBy documents)).map (·.refresh changed)).map (·.sections) := by
        rw [refreshedSections, refreshedSections, same]
      rw [made, judged_concat, judged_map sameRule]
      rcases start_make_eq_ok.mp making with ⟨verdict, added⟩ | ⟨verdict, rfl, rfl⟩
      all_goals rw [← document] at verdict
      · obtain ⟨r', -, rfl⟩ := start_addRule_eq_ok.mp added
        refine ⟨rfl, ⟨judged, new, verdict⟩, ?_⟩
        rw [kept_concat_keeps verdict, kept_map sameRule, map_append, map_append, refreshedSame]
        rfl
      · refine ⟨rfl, ⟨judged, _, verdict⟩, ?_⟩
        rw [kept_concat_leavesOut verdict, kept_map sameRule, refreshedSame]

/-- If the rules that are left out do not change the configuration, the filtered run returns and has
the kept rules. -/
theorem start_filtered (run : (addEach none 0 documents {}).start c = (.ok all, c'))
    (repeats : RepeatsKept f (all.rulesBy documents)) (judged : Judged f (all.rulesBy documents))
    (steady : LeftOutSteady f (all.rulesBy documents)) :
    (addEach (some f) 0 documents {}).start c =
      (.ok ⟨all.globals, kept f (all.rulesBy documents)⟩, c') := by
  induction documents using List.reverseRecOn generalizing all c' with
  | nil =>
    cases run
    rfl
  | append_singleton documents document ih =>
    obtain ⟨b, s, rule, changed, before, also, cases⟩ := rulesBy_cases run
    rw [addEach_concat, Nat.zero_add]
    have sameRule := refresh_document changed
    have sameStart := refresh_start changed
    rcases cases with ⟨rfl, rfl, made⟩ | ⟨new, sections, r, rfl, parsed, made⟩
    · rw [made] at repeats judged steady
      rw [start_bind_of_ok (ih before ((repeatsKept_map sameRule).mp repeats)
        ((judged_map sameRule).mp judged) ((leftOutSteady_map sameRule sameStart).mp steady))]
      refine start_add_eq_ok.mpr ⟨_, _, also _ rfl nofun, ?_⟩
      rw [made, kept_map sameRule]
      rfl
    · rw [made] at repeats judged steady
      obtain ⟨repeats, lastKept⟩ := repeatsKept_concat sameRule repeats
      obtain ⟨judged, verdict, judgedLast⟩ := judged_concat.mp judged
      obtain ⟨steady, steadyLast⟩ := leftOutSteady_concat.mp steady
      rw [start_bind_of_ok (ih before repeats ((judged_map sameRule).mp judged)
        ((leftOutSteady_map sameRule sameStart).mp steady))]
      have lastSections : new = false → (kept f (b.rulesBy documents)).getLast?.map (·.sections) =
            b.rules.getLast?.map (·.sections) := by
        intro again
        rw [lastKept again, rulesBy_snd before]
      have document : r.document = .map (toEntries sections) := Rule.document_of_parse parsed
      have accepted : f.accepts r.document = .ok verdict := judgedLast
      refine start_add_eq_ok.mpr
        ⟨_, _, also _ rfl fun again => lastSections (Option.some.inj again), ?_⟩
      rw [made, start_make_eq_ok, ← document]
      by_cases same : verdict = new
      · subst same
        refine .inl ⟨accepted, start_addRule_eq_ok.mpr ⟨r, parsed, ?_⟩⟩
        rw [kept_concat_keeps judgedLast, kept_map sameRule]
      · rw [Bool.eq_not_of_ne same] at accepted judgedLast
        -- the rule is not parsed, and parsing it would have left the configuration as it was
        have leftOut : f.keeps new r.document = false := by
          simp [RuleFilter.keeps, accepted, Except.toOption]
        have unchanged : ((Rule.parse r.document).start s).2 = s := steadyLast leftOut
        rw [document, parsed] at unchanged
        refine .inr ⟨accepted, ?_, unchanged⟩
        rw [kept_concat_leavesOut judgedLast, kept_map sameRule]

end Runs

/-! ## Collections with and without a filter -/

section Parse

variable {f : RuleFilter} {documents : List Value} {all chosen : Collection} {c c' s : Config}

theorem rulesBy_current (documents : List Value) (b : Collection) (config : Config) :
    (b.current config).rulesBy documents =
      (b.rulesBy documents).map (Prod.map id (·.withSearches config)) := by
  unfold rulesBy current
  rw [zip_map_right]

theorem map_document_withSearches (rules : List CollectedRule) (config : Config) :
    (rules.map (·.withSearches config)).map (·.document) =
      (rules.map (·.sections)).map fun sections => .map (toEntries sections) := by
  simp [document, Function.comp_def]

/-- Without repeated rules the filter keeps the rules that it accepts. -/
theorem kept_of_new (snd : (all.rulesBy documents).map (·.2) = all.rules)
    (new : ∀ b ∈ newRules documents, b = true) :
    RepeatsKept f (all.rulesBy documents) ∧
      kept f (all.rulesBy documents) = all.rules.filter fun r => f.keeps true r.rule.document := by
  have allNew : ∀ x ∈ all.rulesBy documents, x.1 = true := fun x member =>
    new x.1 (of_mem_zip member).1
  constructor
  · refine List.Pairwise.isChain (pairwise_of_forall_mem_list fun x _ y member again => ?_)
    rw [allNew y member] at again
    cases again
  · have agree : ∀ x ∈ all.rulesBy documents,
        f.keeps x.1 x.2.rule.document = f.keeps true x.2.rule.document := fun x member => by
      rw [allNew x member]
    rw [kept, filter_congr agree]
    conv_rhs => rw [← snd, filter_map]
    rfl

end Parse

/-- **Filtering a collection**: of the rules that a filtered collection holds, the new ones have
documents that the filter accepts and the repeated ones have documents that it rejects.

Compared with the same documents read without a filter: where no rule is repeated, the filter keeps
exactly the rules that it accepts. In general, where every repeated rule stands after one that is
kept, the filtered collection has the documents of the kept rules, in their order, and the filter has
a verdict on every rule. If moreover the rules that are left out would not have changed the
configuration, the filtered collection is returned and holds exactly the kept rules. The verdicts are
on the documents as they were when the rules were made. -/
theorem parse_filtered (f : RuleFilter) (documents : List Value) (c : Config) :
    (∀ chosen s, (parse (some f) documents).start c = (.ok chosen, s) →
      ∃ verdicts, verdicts.Sublist (newRules documents) ∧
        List.Forall₂ (fun new r => f.accepts r.rule.document = .ok new) verdicts chosen.rules) ∧
    ∀ all c', (parse none documents).start c = (.ok all, c') →
      (all.rulesBy documents).map (·.2) = all.rules ∧
      ((∀ new ∈ newRules documents, new = true) → RepeatsKept f (all.rulesBy documents) ∧
        kept f (all.rulesBy documents) =
          all.rules.filter fun r => f.keeps true r.rule.document) ∧
      (RepeatsKept f (all.rulesBy documents) →
        (∀ chosen s, (parse (some f) documents).start c = (.ok chosen, s) →
          Judged f (all.rulesBy documents) ∧
            chosen.documents = (kept f (all.rulesBy documents)).map (·.document)) ∧
        (Judged f (all.rulesBy documents) → LeftOutSteady f (all.rulesBy documents) →
          (parse (some f) documents).start c =
            (.ok { all with rules := kept f (all.rulesBy documents) }, c'))) := by
  constructor
  · intro chosen s filtered
    obtain ⟨b, run, rfl⟩ := start_parse_eq_ok.mp filtered
    obtain ⟨verdicts, fewer, judged⟩ := forall₂_accepts run
    refine ⟨verdicts, fewer, ?_⟩
    show List.Forall₂ _ verdicts (b.rules.map _)
    rw [List.forall₂_map_right_iff]
    simpa using judged
  · intro all c' whole
    obtain ⟨b, run, rfl⟩ := start_parse_eq_ok.mp whole
    have sameRule := CollectedRule.withSearches_rule_document c'
    have snd : ((b.current c').rulesBy documents).map (·.2) = (b.current c').rules := by
      rw [rulesBy_current, current, ← rulesBy_snd run]
      simp [Function.comp_def]
    refine ⟨snd, kept_of_new snd, fun repeats => ?_⟩
    rw [rulesBy_current] at repeats ⊢
    rw [repeatsKept_map sameRule] at repeats
    rw [judged_map sameRule, leftOutSteady_map sameRule (CollectedRule.withSearches_start c'),
      kept_map sameRule]
    constructor
    · intro chosen s filtered
      obtain ⟨d, runToo, rfl⟩ := start_parse_eq_ok.mp filtered
      obtain ⟨-, judged, sections⟩ := sections_of_filtered run repeats runToo
      refine ⟨judged, ?_⟩
      show (d.rules.map _).map _ = _
      rw [map_document_withSearches, map_document_withSearches, sections]
    · intro judged steady
      exact start_parse_eq_ok.mpr ⟨_, start_filtered run repeats judged steady, rfl⟩

/-! ### Samples -/

/-- A rule of a level. -/
def levelRule (level : String) : Value :=
  .map [("level", .text level), ("detection",
    .map [("sel", .map [("f", "v"), ("g", "w")]), ("condition", "sel")])]

/-- The sections of such a rule that the document with a number brings in, whatever its level. -/
def levelSections (number : Nat) (level : String) : Sections :=
  [("level", .value (.text level)), ("detection", .map number
    [("sel", .map number [("f", .value "v"), ("g", .value "w")]), ("condition", .value "sel")])]

/-- The rule of a level in a collection. -/
def levelMade (number : Nat) (level : String) : CollectedRule :=
  .made (levelSections number level) (selParsed (levelRule level) "f") .empty

/-- The filter for rules of the level `high`. -/
def highFilter : RuleFilter where
  minLevel := some 2
  maxLevel := some 2

/-- The last rule once more, with the level `low`. -/
def repeatLow : Value :=
  .map [("action", "repeat"), ("level", "low")]

/-- A filter for the level `high` keeps a rule of the level `low`, because it is a repeated one. -/
theorem parse_keeps_rejected :
    (parse none [levelRule "high", repeatLow]).start .empty =
        (.ok ⟨[], [levelMade 0 "high", levelMade 0 "low"]⟩, .empty) ∧
      (parse (some highFilter) [levelRule "high", repeatLow]).start .empty =
        (.ok ⟨[], [levelMade 0 "high", levelMade 0 "low"]⟩, .empty) ∧
      highFilter.accepts (levelMade 0 "high").document = .ok true ∧
      highFilter.accepts (levelMade 0 "low").document = .ok false := by
  refine ⟨?_, ?_, rfl, rfl⟩ <;> decide +kernel

/-- The rule of the level `low` is left out, the other one is kept, and so is its repetition. -/
theorem parse_filtered_levels :
    (parse none [levelRule "low", levelRule "high", repeatLow]).start .empty =
        (.ok ⟨[], [levelMade 0 "low", levelMade 1 "high", levelMade 1 "low"]⟩, .empty) ∧
      newRules [levelRule "low", levelRule "high", repeatLow] = [true, true, false] ∧
      (parse (some highFilter) [levelRule "low", levelRule "high", repeatLow]).start .empty =
        (.ok ⟨[], [levelMade 1 "high", levelMade 1 "low"]⟩, .empty) := by
  have low : ∀ n, highFilter.accepts (levelMade n "low").rule.document = .ok false := fun _ => rfl
  have high : highFilter.accepts (levelMade 1 "high").rule.document = .ok true := rfl
  have whole : (parse none [levelRule "low", levelRule "high", repeatLow]).start .empty =
      (.ok ⟨[], [levelMade 0 "low", levelMade 1 "high", levelMade 1 "low"]⟩, .empty) := by
    decide +kernel
  have made : rulesBy [levelRule "low", levelRule "high", repeatLow]
      ⟨[], [levelMade 0 "low", levelMade 1 "high", levelMade 1 "low"]⟩ =
        [(true, levelMade 0 "low"), (true, levelMade 1 "high"), (false, levelMade 1 "low")] := rfl
  obtain ⟨-, -, compared⟩ := (parse_filtered highFilter _ _).2 _ _ whole
  rw [made] at compared
  have repeats : RepeatsKept highFilter
      [(true, levelMade 0 "low"), (true, levelMade 1 "high"), (false, levelMade 1 "low")] := by
    simp [RepeatsKept, RuleFilter.keeps, high, Except.toOption]
  have judged : Judged highFilter
      [(true, levelMade 0 "low"), (true, levelMade 1 "high"), (false, levelMade 1 "low")] := by
    simp [Judged, low, high]
  have steady : LeftOutSteady highFilter
      [(true, levelMade 0 "low"), (true, levelMade 1 "high"), (false, levelMade 1 "low")] := by
    intro x member _
    simp only [List.mem_cons, List.not_mem_nil, or_false] at member
    rcases member with rfl | rfl | rfl <;> decide +kernel
  refine ⟨whole, rfl, ?_⟩
  rw [(compared repeats).2 judged steady]
  simp [kept, RuleFilter.keeps, low, high, Except.toOption]

end Collection

end SigmaQuery
