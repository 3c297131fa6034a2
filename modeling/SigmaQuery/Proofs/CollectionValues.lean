import SigmaQuery.Proofs.CollectionFilter
import SigmaQuery.Proofs.Sharing

/-!
# Collections of values

The rules that documents make if every document is a value of its own: a later document changes no
earlier one. A collection shares sections between its documents, so it has these rules only as long as
no document is merged into a map that another document shares.

Main statement: where no document disturbs the documents before it, the collection has the rules of
the values, with their documents and their searches; and the first document that disturbs one before
it does change it (`Collection.parse_expansion`).
-/

namespace SigmaQuery

open FaultM List Section DocumentAction

/-! ## Documents as values -/

/-- The state of a collection of values: the entries for the rules that follow, and the rules. -/
structure Expansion where
  globals : Entries := []
  rules : List Rule := []
deriving Inhabited

namespace Expansion

/-- Parses a document and adds it as a rule. -/
def addRule (entries : Entries) (e : Expansion) : ConfigM Expansion := do
  let rule ← Rule.parse (.map entries)
  return { e with rules := e.rules ++ [rule] }

/-- Reads a document. -/
def add (document : Value) (e : Expansion) : ConfigM Expansion := do
  let (action, entries) ← FaultM.ofExcept (split document)
  match action with
  | .global => return { e with globals := mergeEntries e.globals entries }
  | .reset => return { e with globals := [] }
  | .again => match e.rules.getLast?.map Rule.document with
    | some (.map last) => e.addRule (mergeEntries last entries)
    | _ => throw .noName
  | .rule => e.addRule (mergeEntries entries e.globals)

/-- Reads documents. -/
def addEach : List Value → Expansion → ConfigM Expansion
  | [], e => return e
  | document :: rest, e => do addEach rest (← e.add document)

/-- The rules of documents, with their searches as they are at the end. -/
def parse (documents : List Value) : ConfigM (List Rule) := do
  let e ← addEach documents {}
  return e.rules.map (Rule.current (← get))

theorem addEach_concat (documents : List Value) (last : Value) (e : Expansion) :
    addEach (documents ++ [last]) e = addEach documents e >>= add last := by
  induction documents generalizing e with
  | nil => simp [addEach]
  | cons d rest ih =>
    simp only [cons_append, addEach, bind_assoc]
    congr 1
    funext e₁
    exact ih e₁

theorem start_addRule {entries : Entries} {e : Expansion} {rule : Rule} {c c' : Config}
    (run : (Rule.parse (.map entries)).start c = (.ok rule, c')) :
    (e.addRule entries).start c = (.ok { e with rules := e.rules ++ [rule] }, c') :=
  start_bind_of_ok run

end Expansion

/-! ## Undisturbed documents -/

/-- The rule has the definitions and the document that it was parsed with. -/
structure CollectedRule.Faithful (r : CollectedRule) : Prop where
  definitions :
    r.definitions = remove (.text "condition") (entriesAt "detection" r.sections)
  parsed : ∃ s, (Rule.parse r.document).start r.start = (.ok r.rule, s)

namespace Collection

/-- The documents that share sections: the entries for the rules that follow, and the rules. -/
def held (c : Collection) : List Sections :=
  c.globals :: c.rules.map (·.sections)

/-- Reading the document with a number changes a map that a document before it shares: a rule, or,
where a rule is repeated, also the entries for the rules that follow. -/
def Disturbs (number : Nat) (document : Value) (c : Collection) : Prop :=
  match split document with
  | .ok (.global, entries) => ∃ r ∈ c.rules,
    Section.Disturbs c.globals (ofEntries number entries) r.sections
  | .ok (.again, entries) => ∃ last, c.rules.getLast? = some last ∧ ∃ d ∈ c.held,
    Section.Disturbs last.sections (ofEntries number entries) d
  | _ => False

/-- No document disturbs those before it. -/
def Undisturbed (config : Config) (documents : List Value) : Prop :=
  ∀ before document after, documents = before ++ document :: after →
    ∀ b s, (addEach none 0 before {}).start config = (.ok b, s) →
      ¬ b.Disturbs before.length document

/-- What holds of a collection as long as no document disturbs another. The documents with numbers
below a bound have been read. -/
structure Coherent (bound : Nat) (c : Collection) : Prop where
  proper : ∀ d ∈ c.held, Section.ProperAll d
  below : ∀ d ∈ c.held, Section.Below bound d
  agree : ∀ a ∈ c.held, ∀ b ∈ c.held, Section.Agree a b
  faithful : ∀ r ∈ c.rules, r.Faithful

/-- The collection has the rules of a collection of values. -/
structure Follows (c : Collection) (e : Expansion) : Prop where
  globals : e.globals = toEntries c.globals
  rules : e.rules = c.rules.map (·.rule)

section Steps

variable {number : Nat} {c c' : Collection} {e : Expansion} {changed sections : Sections}
  {document : Value} {entries : Entries} {config config' : Config}

theorem globals_mem_held (c : Collection) : c.globals ∈ c.held := mem_cons_self

variable {r : CollectedRule} {c₁ : Collection} {rule : Option (Bool × Sections)}

theorem sections_mem_held (member : r ∈ c.rules) : r.sections ∈ c.held :=
  mem_cons_of_mem _ (mem_map_of_mem member)

theorem coherent_empty : Coherent 0 {} where
  proper := by simp [held, Section.ProperAll]
  below := by simp [held, below_nil]
  agree := by simp [held, agree_nil]
  faithful := nofun

/-- A rule is left as it is by a document that agrees with its own. -/
theorem refresh_eq_self (faithful : r.Faithful) (proper : Section.ProperAll r.sections)
    (agree : Section.Agree changed r.sections) : r.refresh changed = r := by
  unfold CollectedRule.refresh
  rw [refreshAll_of_agree proper agree, faithful.definitions,
    refreshBelow_of_agree proper agree, ← faithful.definitions]

theorem Coherent.map_refresh (coherent : c.Coherent number)
    (agree : ∀ r ∈ c.rules, Section.Agree changed r.sections) :
    c.rules.map (·.refresh changed) = c.rules := by
  have same : ∀ r ∈ c.rules, r.refresh changed = id r := fun r member =>
    refresh_eq_self (coherent.faithful r member) (coherent.proper _ (sections_mem_held member))
      (agree r member)
  rw [map_congr_left same, map_id]

theorem Coherent.refresh_eq (coherent : c.Coherent number)
    (agree : ∀ d ∈ c.held, Section.Agree changed d) : c.refresh changed = c := by
  unfold refresh
  rw [coherent.map_refresh fun r member => agree _ (sections_mem_held member),
    refreshAll_of_agree (coherent.proper _ c.globals_mem_held)
      (agree _ c.globals_mem_held)]

theorem Coherent.succ (coherent : c.Coherent number) : c.Coherent (number + 1) where
  proper := coherent.proper
  below := fun d member => (coherent.below d member).succ
  agree := coherent.agree
  faithful := coherent.faithful

theorem Coherent.withGlobals {globals : Sections} (coherent : c.Coherent number)
    (proper : Section.ProperAll globals) (below : Section.Below number globals)
    (agree : ∀ r ∈ c.rules, Section.Agree globals r.sections) :
    Coherent number { c with globals } := by
  have rule : ∀ d ∈ c.rules.map (·.sections), Section.Agree globals d := by
    simpa using agree
  have earlier : ∀ d ∈ c.rules.map (·.sections), d ∈ c.held := fun d member => .tail _ member
  constructor
  · rintro d (- | ⟨-, member⟩)
    · exact proper
    · exact coherent.proper d (earlier d member)
  · rintro d (- | ⟨-, member⟩)
    · exact below
    · exact coherent.below d (earlier d member)
  · rintro a (- | ⟨-, memberA⟩) b (- | ⟨-, memberB⟩)
    · exact agree_refl _
    · exact rule b memberB
    · exact (rule a memberA).symm
    · exact coherent.agree a (earlier a memberA) b (earlier b memberB)
  · exact coherent.faithful

theorem Coherent.addRule {rule : Rule} (coherent : c.Coherent number)
    (proper : Section.ProperAll sections) (below : Section.Below number sections)
    (agree : ∀ d ∈ c.held, Section.Agree sections d)
    (parsed : (Rule.parse (.map (toEntries sections))).start config = (.ok rule, config')) :
    Coherent number { c with rules := c.rules ++ [.made sections rule config] } := by
  have held : ∀ d, d ∈ Collection.held { c with rules := c.rules ++ [.made sections rule config] } ↔
      d ∈ c.held ∨ d = sections := by
    intro d
    simp only [Collection.held, map_append, mem_cons, mem_append, or_assoc]
    simp [CollectedRule.made]
  constructor
  · intro d member
    rcases (held d).mp member with earlier | rfl
    · exact coherent.proper d earlier
    · exact proper
  · intro d member
    rcases (held d).mp member with earlier | rfl
    · exact coherent.below d earlier
    · exact below
  · intro a memberA b memberB
    rcases (held a).mp memberA with earlierA | rfl <;> rcases (held b).mp memberB with earlierB | rfl
    · exact coherent.agree a earlierA b earlierB
    · exact (agree a earlierA).symm
    · exact agree b earlierB
    · exact agree_refl _
  · intro r member
    rcases mem_append.mp member with earlier | last
    · exact coherent.faithful r earlier
    · rw [mem_singleton.mp last]
      exact ⟨rfl, config', parsed⟩

theorem addGlobals_eq (sections : Sections) (c : Collection) : c.addGlobals sections =
    { globals := mergeAll c.globals sections
      rules := c.rules.map (·.refresh (mergeAll c.globals sections)) } := rfl

theorem entriesDistinct_of_split {action : DocumentAction} (distinct : document.keysDistinct = true)
    (split : split document = .ok (action, entries)) :
    entriesDistinct entries = true := by
  cases document with
  | map es =>
    cases split
    exact entriesDistinct_remove distinct _
  | _ => cases split

/-- The first step of an undisturbed document: the rules stay as they are, and the document of the
rule to make agrees with all others. -/
theorem Coherent.prepare (coherent : c.Coherent number) (distinct : document.keysDistinct = true)
    (undisturbed : ¬ c.Disturbs number document)
    (prepared : c.prepare number document = .ok (c₁, rule)) : c₁.rules = c.rules ∧
      (new? document = some false → c₁.globals = c.globals) ∧
      c₁.Coherent (number + 1) ∧
      ∀ new sections, rule = some (new, sections) → Section.ProperAll sections ∧
        Section.Below (number + 1) sections ∧ ∀ d ∈ c₁.held, Section.Agree sections d := by
  obtain ⟨action, entries, split, prepared⟩ := prepare_eq_ok.mp prepared
  unfold Disturbs at undisturbed
  unfold new?
  rw [split] at undisturbed ⊢
  have properGlobals := coherent.proper _ c.globals_mem_held
  have belowGlobals := coherent.below _ c.globals_mem_held
  have properNew := properAll_ofEntries number (entriesDistinct_of_split distinct split)
  have belowNew := below_ofEntries number entries
  cases action with
  | reset =>
    obtain ⟨rfl, rfl⟩ := prepared
    refine ⟨rfl, nofun, ?_, nofun⟩
    exact coherent.succ.withGlobals trivial (below_nil _) fun r _ => agree_nil _
  | global =>
    obtain ⟨rfl, rfl⟩ := prepared
    -- the merge reaches the maps that a rule has taken over from the globals
    have agree : ∀ r ∈ c.rules, Section.Agree
        (mergeAll c.globals (ofEntries number entries)) r.sections := by
      intro r member
      have held := sections_mem_held member
      refine (coherent.agree _ c.globals_mem_held _ held).mergeAll properGlobals properNew
        (apart_ofEntries (coherent.below _ held) entries) fun disturbed => ?_
      exact undisturbed ⟨r, member, disturbed⟩
    have rules := coherent.map_refresh agree
    refine ⟨rules, nofun, ?_, nofun⟩
    rw [addGlobals_eq, rules]
    exact coherent.succ.withGlobals (properGlobals.mergeAll properNew)
      (belowGlobals.succ.mergeAll belowNew properNew) agree
  | rule =>
    obtain ⟨rfl, rfl⟩ := prepared
    refine ⟨rfl, nofun, coherent.succ, ?_⟩
    rintro new sections same
    cases same
    refine ⟨properNew.mergeAll properGlobals, belowNew.mergeAll belowGlobals.succ properGlobals,
      fun d held => ?_⟩
    exact (coherent.agree _ (globals_mem_held _) d held).mergeAll_new properGlobals
      (apart_ofEntries (coherent.below d held) entries)
  | again =>
    obtain ⟨r, last, rfl, rfl⟩ := prepared
    have held := sections_mem_held (mem_of_getLast? last)
    -- only the top level of the repeated rule is copied, so the merge may reach any document
    have agree : ∀ d ∈ c.held, Section.Agree
        (mergeAll r.sections (ofEntries number entries)) d := by
      intro d member
      refine (coherent.agree _ held d member).mergeAll (coherent.proper _ held) properNew
        (apart_ofEntries (coherent.below d member) entries) fun disturbed => ?_
      exact undisturbed ⟨r, last, d, member, disturbed⟩
    rw [coherent.refresh_eq agree]
    refine ⟨rfl, fun _ => rfl, coherent.succ, ?_⟩
    rintro new sections same
    cases same
    exact ⟨(coherent.proper _ held).mergeAll properNew,
      (coherent.below _ held).succ.mergeAll belowNew properNew, agree⟩

theorem Follows.prepare (follows : c.Follows e) (coherent : c.Coherent number)
    (distinct : document.keysDistinct = true) (undisturbed : ¬ c.Disturbs number document)
    (prepared : c.prepare number document = .ok (c₁, rule)) : match rule with
    | none => ∃ e', e.add document = pure e' ∧ c₁.Follows e'
    | some (_, sections) =>
      e.add document = e.addRule (toEntries sections) ∧ c₁.Follows e := by
  obtain ⟨same, sameGlobals, -⟩ := coherent.prepare distinct undisturbed prepared
  obtain ⟨action, entries, split, prepared⟩ := prepare_eq_ok.mp prepared
  unfold Expansion.add
  rw [split]
  have properGlobals := coherent.proper _ c.globals_mem_held
  have properNew := properAll_ofEntries number (entriesDistinct_of_split distinct split)
  simp only [ofExcept_ok, pure_bind]
  cases action with
  | reset =>
    obtain ⟨rfl, rfl⟩ := prepared
    exact ⟨_, rfl, rfl, follows.rules⟩
  | global =>
    obtain ⟨rfl, rfl⟩ := prepared
    refine ⟨_, rfl, ?_, follows.rules.trans (congrArg _ same.symm)⟩
    show mergeEntries e.globals entries = toEntries (mergeAll c.globals _)
    rw [toEntries_mergeAll properGlobals properNew, toEntries_ofEntries, follows.globals]
  | rule =>
    obtain ⟨rfl, rfl⟩ := prepared
    refine ⟨?_, follows⟩
    show e.addRule _ = e.addRule _
    rw [toEntries_mergeAll properNew properGlobals, toEntries_ofEntries, follows.globals]
  | again =>
    obtain ⟨r, last, rfl, rfl⟩ := prepared
    obtain ⟨-, s, parsed⟩ := coherent.faithful r (mem_of_getLast? last)
    have lastDocument : e.rules.getLast?.map Rule.document =
        some (.map (toEntries r.sections)) := by
      rw [follows.rules, getLast?_map, last, Option.map_some, Option.map_some,
        Rule.document_of_parse parsed]
      rfl
    have repeated : new? document = some false := by
      rw [new?, split]
    refine ⟨?_, ?_, follows.rules.trans (congrArg _ same.symm)⟩
    · rw [lastDocument, toEntries_mergeAll
        (coherent.proper _ (sections_mem_held (mem_of_getLast? last))) properNew,
        toEntries_ofEntries]
    · exact follows.globals.trans (congrArg _ (sameGlobals repeated).symm)

theorem Coherent.add (coherent : c.Coherent number) (follows : c.Follows e)
    (distinct : document.keysDistinct = true) (undisturbed : ¬ c.Disturbs number document)
    (run : (c.add none number document).start config = (.ok c', config')) :
    c'.Coherent (number + 1) ∧
      ∃ e', (e.add document).start config = (.ok e', config') ∧ c'.Follows e' := by
  obtain ⟨c₁, rule, prepared, making⟩ := start_add_eq_ok.mp run
  obtain ⟨-, -, coherent₁, agree⟩ := coherent.prepare distinct undisturbed prepared
  have values := follows.prepare coherent distinct undisturbed prepared
  rcases rule with - | ⟨new, sections⟩
  · obtain ⟨e', read, follows'⟩ := values
    cases making
    refine ⟨coherent₁, e', ?_, follows'⟩
    rw [read]
    rfl
  · obtain ⟨read, follows'⟩ := values
    obtain ⟨rule, parsed, rfl⟩ := start_addRule_eq_ok.mp making
    obtain ⟨proper, below, agreeAll⟩ := agree new sections rfl
    have added : (e.add document).start config =
        (.ok { e with rules := e.rules ++ [rule] }, config') := by
      rw [read]
      exact Expansion.start_addRule parsed
    refine ⟨coherent₁.addRule proper below agreeAll parsed, _, added, follows'.globals, ?_⟩
    simp [follows'.rules, CollectedRule.made]

/-! ## Disturbing is changing -/

/-- A document has changed: that of a rule, or, where a rule is repeated, the entries for the rules
that follow. -/
def Changes (document : Value) (c c' : Collection) : Prop :=
  ¬ c.documents <+: c'.documents ∨ new? document = some false ∧
      toEntries c'.globals ≠ toEntries c.globals

theorem changes_of_disturbs {dest source : Sections} (member : r ∈ c.rules)
    (agree : Section.Agree dest r.sections) (disturbed : Section.Disturbs dest source r.sections)
    {rules : List CollectedRule}
    (after : c'.rules = c.rules.map (·.refresh (mergeAll dest source)) ++ rules) :
    Changes document c c' := by
  refine .inl fun unchanged => ?_
  unfold documents at unchanged
  rw [after, map_append, map_map] at unchanged
  -- the lists of documents have the same length, so each rule keeps its document
  have same := prefix_iff_eq_take.mp unchanged
  rw [take_left' (by simp)] at same
  have kept := map_inj_left.mp same r member
  exact toEntries_refreshAll_ne agree disturbed (Value.map.inj kept.symm)

theorem make_rules (making : (c₁.make none rule).start config = (.ok c', config')) :
    c'.globals = c₁.globals ∧ ∃ rules, c'.rules = c₁.rules ++ rules := by
  rcases rule with - | ⟨new, sections⟩
  · cases making
    exact ⟨rfl, [], (append_nil _).symm⟩
  · obtain ⟨r, -, rfl⟩ := start_addRule_eq_ok.mp making
    exact ⟨rfl, _, rfl⟩

/-- As long as no document has disturbed another, the next one changes an earlier document exactly if
it disturbs one. -/
theorem Coherent.disturbs_iff (coherent : c.Coherent number) (distinct : document.keysDistinct = true)
    (run : (c.add none number document).start config = (.ok c', config')) :
    c.Disturbs number document ↔ Changes document c c' := by
  obtain ⟨c₁, rule, prepared, making⟩ := start_add_eq_ok.mp run
  obtain ⟨globals, rules, after⟩ := make_rules making
  constructor
  · intro disturbed
    obtain ⟨action, entries, split, prepared⟩ := prepare_eq_ok.mp prepared
    unfold Disturbs at disturbed
    rw [split] at disturbed
    cases action with
    | reset | rule => cases disturbed
    | global =>
      obtain ⟨rfl, rfl⟩ := prepared
      obtain ⟨r, member, disturbed⟩ := disturbed
      exact changes_of_disturbs member
        (coherent.agree _ c.globals_mem_held _ (sections_mem_held member)) disturbed after
    | again =>
      obtain ⟨last, isLast, rfl, rfl⟩ := prepared
      obtain ⟨last', isLast', d, member, disturbed⟩ := disturbed
      rw [isLast] at isLast'
      cases isLast'
      have agree := coherent.agree _ (sections_mem_held (mem_of_getLast? isLast)) d member
      rcases mem_cons.mp member with rfl | inRules
      · refine .inr ⟨by rw [new?, split], ?_⟩
        rw [globals]
        exact toEntries_refreshAll_ne agree disturbed
      · obtain ⟨r, isRule, rfl⟩ := mem_map.mp inRules
        exact changes_of_disturbs isRule agree disturbed after
  · intro changes
    by_contra undisturbed
    obtain ⟨same, sameGlobals, -⟩ := coherent.prepare distinct undisturbed prepared
    rcases changes with different | ⟨again, different⟩
    · apply different
      unfold documents
      rw [after, same, map_append]
      exact prefix_append _ _
    · rw [globals, sameGlobals again] at different
      exact different rfl

/-- A document that repeats a rule disturbs another exactly if a map of the rule takes in something
new. -/
theorem Coherent.disturbs_again_iff {last : CollectedRule} (coherent : c.Coherent number)
    (distinct : document.keysDistinct = true)
    (split : split document = .ok (.again, entries))
    (isLast : c.rules.getLast? = some last) :
    c.Disturbs number document ↔ ∃ k old new,
      lookup k (toEntries last.sections) = some (.map old) ∧
        lookup k entries = some (.map new) ∧ mergeEntries old new ≠ old := by
  have member := sections_mem_held (mem_of_getLast? isLast)
  have proper := coherent.proper _ member
  have properNew := properAll_ofEntries number (entriesDistinct_of_split distinct split)
  have self : c.Disturbs number document ↔ Section.Disturbs last.sections
      (ofEntries number entries) last.sections := by
    unfold Disturbs
    rw [split]
    constructor
    · rintro ⟨last', isLast', d, -, disturbed⟩
      rw [isLast] at isLast'
      cases isLast'
      exact disturbed.self
    · intro disturbed
      exact ⟨last, isLast, _, member, disturbed⟩
  rw [self, disturbs_self_iff proper properNew]
  constructor
  · rintro ⟨k, origin, es, origin', new, inLast, inNew, changed⟩
    have properOld := proper.of_lookup inLast
    have properMap := properNew.of_lookup inNew
    rw [Section.Proper] at properOld properMap
    rw [toEntries_mergeAll properOld properMap] at changed
    refine ⟨k, toEntries es, toEntries new, ?_, ?_, changed⟩
    · rw [lookup_toEntries, inLast]
      rfl
    · rw [← toEntries_ofEntries number entries, lookup_toEntries, inNew]
      rfl
  · rintro ⟨k, old, new, inLast, inNew, changed⟩
    rw [← toEntries_ofEntries number entries] at inNew
    obtain ⟨origin, es, found, rfl⟩ := exists_of_lookup_toEntries proper inLast
    obtain ⟨origin', es', found', rfl⟩ := exists_of_lookup_toEntries properNew inNew
    refine ⟨k, origin, es, origin', es', found, found', ?_⟩
    have properOld := proper.of_lookup found
    have properMap := properNew.of_lookup found'
    rw [Section.Proper] at properOld properMap
    rwa [toEntries_mergeAll properOld properMap]

end Steps

/-! ## All documents -/

section Runs

variable {documents : List Value} {all : Collection} {c c' : Config}

theorem Undisturbed.of_concat {document : Value} (undisturbed : Undisturbed c (documents ++ [document])) :
    Undisturbed c documents := by
  intro before d after same
  exact undisturbed before d (after ++ [document]) (by simp [same])

theorem addEach_follows (distinct : ∀ d ∈ documents, d.keysDistinct = true)
    (undisturbed : Undisturbed c documents)
    (run : (addEach none 0 documents {}).start c = (.ok all, c')) :
    all.Coherent documents.length ∧
      ∃ e, (Expansion.addEach documents {}).start c = (.ok e, c') ∧ all.Follows e := by
  induction documents using List.reverseRecOn generalizing all c' with
  | nil =>
    cases run
    exact ⟨coherent_empty, {}, rfl, rfl, rfl⟩
  | append_singleton documents document ih =>
    obtain ⟨b, s, before, step⟩ := start_addEach_concat_eq_ok.mp run
    rw [Nat.zero_add] at step
    obtain ⟨coherent, e, read, follows⟩ := ih (fun d member => distinct d (by simp [member]))
      undisturbed.of_concat before
    obtain ⟨coherent', e', readLast, follows'⟩ := coherent.add follows (distinct document (by simp))
      (undisturbed documents document [] rfl b s before) step
    refine ⟨by simpa using coherent', e', ?_, follows'⟩
    rw [Expansion.addEach_concat, start_bind_of_ok read]
    exact readLast

theorem detectionEntries_toEntries {sections : Sections} {entries : Entries}
    (proper : Section.ProperAll sections)
    (found : Rule.detectionEntries (.map (toEntries sections)) = .ok entries) :
    entries = toEntries (entriesAt "detection" sections) := by
  have there : lookup (.text "detection") (toEntries sections) = some (.map entries) := by
    simp only [Rule.detectionEntries] at found
    split at found
    · cases found
    · rename_i part
      cases found
      exact part
    · cases found
  obtain ⟨origin, es, part, rfl⟩ := exists_of_lookup_toEntries proper there
  rw [entriesAt_of_lookup part]

/-- A rule that is as it was parsed has the searches that it was parsed with. -/
theorem withSearches_of_faithful {r : CollectedRule} (faithful : r.Faithful)
    (proper : Section.ProperAll r.sections) (config : Config) :
    r.withSearches config = { r with rule := r.rule.current config } := by
  obtain ⟨definitions, s, parsed⟩ := faithful
  unfold Rule.parse at parsed
  obtain ⟨entries, s₁, found, rest⟩ := start_bind_eq_ok.mp parsed
  obtain ⟨there, rfl⟩ := Prod.mk.inj found
  obtain ⟨sameDocument, sameDetection⟩ := Rule.eq_of_parseOver rest
  have same : { r.rule.detection with definitions := toEntries r.definitions } =
      Detection.ofEntries entries := by
    rw [definitions, toEntries_remove, ← detectionEntries_toEntries proper there, sameDetection]
    rfl
  unfold CollectedRule.withSearches
  simp only [same, sameDocument, rest]
  split <;> rfl

theorem Coherent.current_rules {number : Nat} (coherent : all.Coherent number) (config : Config) :
    (all.current config).rules.map (·.current) =
      (all.rules.map (·.rule)).map (Rule.current config) := by
  unfold Collection.current
  rw [map_map, map_map]
  refine map_congr_left fun r member => ?_
  have faithful := coherent.faithful r member
  have sameDocument : r.rule.document = r.document := by
    obtain ⟨-, s, parsed⟩ := faithful
    exact Rule.document_of_parse parsed
  show (r.withSearches config).current = r.rule.current config
  rw [withSearches_of_faithful faithful (coherent.proper _ (sections_mem_held member))]
  show { r.rule.current config with document := r.document } = _
  rw [← sameDocument]
  rfl

end Runs

/-- **Collections have value semantics where nothing is disturbed**: let a collection be read from
documents with distinct keys. If no document disturbs those before it, the rules of the collection,
with their documents and their searches as they are at the end, are the rules of the documents as
values. As long as no document has disturbed another, the next one disturbs one exactly if it changes
the document of an earlier rule or, where it repeats a rule, the entries for the rules that follow. One
that repeats a rule does so exactly if a map of that rule takes in something new. -/
theorem parse_expansion {documents : List Value} {all : Collection} {c c' : Config}
    (distinct : ∀ d ∈ documents, d.keysDistinct = true)
    (run : (parse none documents).start c = (.ok all, c')) :
    (Undisturbed c documents →
      (Expansion.parse documents).start c = (.ok (all.rules.map (·.current)), c')) ∧
    ∀ before document after, documents = before ++ document :: after → Undisturbed c before →
      ∃ b s b' s', (addEach none 0 before {}).start c = (.ok b, s) ∧
        (b.add none before.length document).start s = (.ok b', s') ∧
        (b.Disturbs before.length document ↔ Changes document b b') ∧
        ∀ entries last, DocumentAction.split document = .ok (.again, entries) →
          b.rules.getLast? = some last →
          (b.Disturbs before.length document ↔ ∃ k old new,
            lookup k (Section.toEntries last.sections) = some (.map old) ∧
              lookup k entries = some (.map new) ∧ mergeEntries old new ≠ old) := by
  obtain ⟨b, read, rfl⟩ := start_parse_eq_ok.mp run
  constructor
  · intro undisturbed
    obtain ⟨coherent, e, values, follows⟩ := addEach_follows distinct undisturbed read
    rw [coherent.current_rules, ← follows.rules]
    exact start_bind_of_ok values
  · rintro before document after rfl undisturbed
    rw [addEach_append, Nat.zero_add, start_bind_eq_ok] at read
    obtain ⟨b₁, s, first, later⟩ := read
    obtain ⟨b', s', step, -⟩ := start_bind_eq_ok.mp later
    have distinctBefore : ∀ d ∈ before, d.keysDistinct = true := fun d member =>
      distinct d (List.mem_append_left _ member)
    obtain ⟨coherent, -⟩ := addEach_follows distinctBefore undisturbed first
    have distinctNext := distinct document (by simp)
    exact ⟨b₁, s, b', s', first, step, coherent.disturbs_iff distinctNext step,
      fun entries last split isLast => coherent.disturbs_again_iff distinctNext split isLast⟩

/-! ### Samples -/

/-- A rule with one field. -/
def fieldRule (value : String) : Value :=
  .map [("title", "A"), ("detection",
    .map [("sel", .map [("f", .text value)]), ("condition", "sel")])]

/-- The last rule once more, with another value of the field. -/
def repeatField (value : String) : Value :=
  .map [("action", "repeat"), ("detection", .map [("sel", .map [("f", .text value)])])]

/-- The rule as parsed. -/
def fieldParsed (value : String) : Rule where
  document := fieldRule value
  detection :=
    { definitions := [("sel", .map [("f", .text value)])], values := [("f", [value])] }
  conditions := [⟨.item "f" (.text value), none⟩]

/-- The sections of the rule. -/
def fieldSections (value : String) : Sections :=
  [("title", .value "A"), ("detection", .map 0
    [("sel", .map 0 [("f", .value (.text value))]), ("condition", .value "sel")])]

/-- The rule of the collection after it is repeated with another value: its document has the other
value, its definitions and its searches have their own. -/
def fieldShared (value other : String) : CollectedRule :=
  { CollectedRule.made (fieldSections value) (fieldParsed value) .empty with
    sections := fieldSections other }

/-- Repeating a rule with another value of a field changes the document of the rule itself: both rules
have the document that is made last, but as values they have documents of their own. -/
theorem parse_repeat_changes :
    (parse none [fieldRule "v", repeatField "w"]).start .empty =
        (.ok ⟨[], [fieldShared "v" "w", fieldShared "w" "w"]⟩, .empty) ∧
      documents ⟨[], [fieldShared "v" "w", fieldShared "w" "w"]⟩ =
        [fieldRule "w", fieldRule "w"] ∧
      (Expansion.parse [fieldRule "v", repeatField "w"]).start .empty =
        (.ok [fieldParsed "v", fieldParsed "w"], .empty) := by
  refine ⟨?_, ?_, ?_⟩ <;> decide +kernel

/-- A rule and its repetition with another level share their detection part, and nothing is
disturbed. -/
theorem parse_expansion_levels :
    (∀ d ∈ [levelRule "high", repeatLow], d.keysDistinct = true) ∧
      (parse none [levelRule "high", repeatLow]).start .empty =
        (.ok ⟨[], [levelMade 0 "high", levelMade 0 "low"]⟩, .empty) ∧
      Undisturbed .empty [levelRule "high", repeatLow] ∧
      (Expansion.parse [levelRule "high", repeatLow]).start .empty =
        (.ok [selParsed (levelRule "high") "f", selParsed (levelRule "low") "f"], .empty) := by
  have distinct : ∀ d ∈ [levelRule "high", repeatLow], d.keysDistinct = true := by decide +kernel
  have run : (parse none [levelRule "high", repeatLow]).start .empty =
      (.ok ⟨[], [levelMade 0 "high", levelMade 0 "low"]⟩, .empty) := by decide +kernel
  obtain ⟨values, steps⟩ := parse_expansion distinct run
  have first : Undisturbed .empty [levelRule "high"] := by
    rintro (- | ⟨x, rest⟩) d after same b s -
    · cases same
      exact id
    · simp at same
  have undisturbed : Undisturbed .empty [levelRule "high", repeatLow] := by
    rintro (- | ⟨x, - | ⟨y, rest⟩⟩) d after same b s read
    · cases same
      exact id
    · cases same
      intro disturbed
      -- the repeating document has no map, so no map of the rule can take in anything
      obtain ⟨last, isLast, -⟩ := id disturbed
      obtain ⟨b', s', -, -, read', -, -, again⟩ := steps [levelRule "high"] repeatLow [] rfl first
      rw [read] at read'
      cases read'
      have split : DocumentAction.split repeatLow = .ok (.again, [("level", "low")]) := rfl
      obtain ⟨k, old, new, -, inNew, -⟩ := (again _ last split isLast).mp disturbed
      by_cases level : Key.text "level" = k <;> simp [lookup, level] at inNew
    · simp at same
  exact ⟨distinct, run, undisturbed, values undisturbed⟩

end Collection

end SigmaQuery
