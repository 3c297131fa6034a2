import SigmaQuery.Proofs.RuleValues

/-!
# Filters one after another

A filter expression is a row of conditions. A later condition on the log source or on the tags is added
to those before it. But a filter has room for one lower bound and one upper bound of the level and for
one status, and there a later condition takes the place of an earlier one. So two expressions with a
comma between them ask for all that the second asks for, and of the first for what is left of it.
-/

namespace SigmaQuery

open List

namespace RuleFilter

/-! ## Reading -/

/-- The filter of two expressions. What the later one says of the level and the status counts. -/
def followedBy (f g : RuleFilter) : RuleFilter where
  minLevel := g.minLevel.or f.minLevel
  maxLevel := g.maxLevel.or f.maxLevel
  status := g.status.or f.status
  logSources := f.logSources ++ g.logSources
  tags := f.tags ++ g.tags

theorem followedBy_assoc (f g h : RuleFilter) :
    (f.followedBy g).followedBy h = f.followedBy (g.followedBy h) := by
  simp [followedBy, Option.or_assoc]

theorem followedBy_empty (f : RuleFilter) : f.followedBy {} = f := by
  simp [followedBy]

theorem empty_followedBy (f : RuleFilter) : followedBy {} f = f := by
  simp [followedBy]

/-- The tags of the filter are texts in small letters. -/
def Lowered (f : RuleFilter) : Prop :=
  ∃ tags : List String, f.tags = tags.map Text.lower

variable {f g : RuleFilter} {level e : String} {n : Nat}

theorem Lowered.followedBy (first : f.Lowered) (second : g.Lowered) : (f.followedBy g).Lowered := by
  obtain ⟨tags, small⟩ := first
  obtain ⟨more, smallToo⟩ := second
  exact ⟨tags ++ more, by simp [RuleFilter.followedBy, small, smallToo]⟩

/-- A condition on the level fails whatever the filter, or it asks for a filter of its own. -/
theorem readLevel_outcome (own : Nat → RuleFilter) {condition : String}
    {change : Nat → RuleFilter → RuleFilter} (lowered : ∀ n, (own n).Lowered)
    (follows : ∀ n f, change n f = f.followedBy (own n)) :
    (∃ e, ∀ f, (readLevel condition level).map (change · f) = .error e) ∨
      ∃ g : RuleFilter, g.Lowered ∧
        ∀ f, (readLevel condition level).map (change · f) = .ok (f.followedBy g) := by
  cases readLevel condition level with
  | error e => exact .inl ⟨e, fun _ => rfl⟩
  | ok n => exact .inr ⟨own n, lowered n, fun f => congrArg Except.ok (follows n f)⟩

/-- A condition fails whatever the filter before it, or it asks for a filter of its own. -/
theorem add_outcome (condition : String) :
    (∃ e, ∀ f : RuleFilter, f.add condition = .error e) ∨
      ∃ g : RuleFilter, g.Lowered ∧ ∀ f : RuleFilter, f.add condition = .ok (f.followedBy g) := by
  have none_lowered : ∀ {f : RuleFilter}, f.tags = [] → f.Lowered := fun none => ⟨[], none⟩
  -- the starts are tried one after another, and the first that fits decides
  unfold add
  cases after? "level<=" condition with
  | some level =>
    exact readLevel_outcome (fun n => { maxLevel := some n }) (fun _ => none_lowered rfl)
      fun n f => by simp [followedBy]
  | none => ?_
  cases after? "level>=" condition with
  | some level =>
    exact readLevel_outcome (fun n => { minLevel := some n }) (fun _ => none_lowered rfl)
      fun n f => by simp [followedBy]
  | none => ?_
  cases after? "level=" condition with
  | some level =>
    exact readLevel_outcome (fun n => { minLevel := some n, maxLevel := some n })
      (fun _ => none_lowered rfl) fun n f => by simp [followedBy]
  | none => ?_
  cases after? "status=" condition with
  | some status =>
    by_cases known : states.contains status = true
    · refine .inr ⟨{ status := some status }, none_lowered rfl, fun f => ?_⟩
      exact (if_pos known).trans (congrArg Except.ok (by simp [followedBy]))
    · exact .inl ⟨_, fun f => if_neg known⟩
  | none => ?_
  cases after? "logsource=" condition with
  | some source =>
    exact .inr ⟨{ logSources := [source] }, none_lowered rfl, fun f => by simp [followedBy]⟩
  | none => ?_
  cases after? "tag=" condition with
  | some tag =>
    exact .inr ⟨{ tags := [Text.lower tag] }, ⟨[tag], rfl⟩, fun f => by simp [followedBy]⟩
  | none => exact .inl ⟨_, fun _ => rfl⟩

theorem addEach_outcome (conditions : List String) :
    (∃ e, ∀ f : RuleFilter, f.addEach conditions = .error e) ∨
      ∃ g : RuleFilter, g.Lowered ∧ ∀ f : RuleFilter, f.addEach conditions = .ok (f.followedBy g) := by
  induction conditions with
  | nil => exact .inr ⟨{}, ⟨[], rfl⟩, fun f => congrArg Except.ok (followedBy_empty f).symm⟩
  | cons condition rest ih =>
    simp only [addEach]
    rcases add_outcome condition with ⟨e, fails⟩ | ⟨g, lowered, here⟩
    · exact .inl ⟨e, fun f => by rw [fails]⟩
    · simp only [here]
      rcases ih with ⟨e, fails⟩ | ⟨h, loweredToo, there⟩
      · exact .inl ⟨e, fun f => fails _⟩
      · refine .inr ⟨g.followedBy h, lowered.followedBy loweredToo, fun f => ?_⟩
        rw [there, followedBy_assoc]

theorem addEach_of_parse (read : parse e = .ok g) :
    g.Lowered ∧ ∀ f : RuleFilter, f.addEach (conditionsOf e) = .ok (f.followedBy g) := by
  rcases addEach_outcome (conditionsOf e) with ⟨e, fails⟩ | ⟨h, lowered, added⟩
  · rw [parse, fails] at read
    cases read
  · rw [parse, added, empty_followedBy] at read
    cases read
    exact ⟨lowered, added⟩

theorem addEach_append (f : RuleFilter) (conditions more : List String) :
    f.addEach (conditions ++ more) = f.addEach conditions >>= fun g => g.addEach more := by
  induction conditions generalizing f with
  | nil => rfl
  | cons condition rest ih =>
    rw [cons_append, addEach, addEach]
    cases f.add condition with
    | error e => rfl
    | ok g => exact ih g

theorem conditionsOf_eq (e : String) : conditionsOf e =
    (e.toList.splitOn ',').map fun c => String.ofList (c.filter (· != ' ')) := by
  have cut : e.splitOn "," = (e.toList.splitOn ',').map String.ofList := splitOn_singleton ',' e
  rw [conditionsOf, cut, map_map]
  simp [Function.comp_def]

theorem conditionsOf_comma (e e' : String) :
    conditionsOf (e ++ "," ++ e') = conditionsOf e ++ conditionsOf e' := by
  have chars : (e ++ "," ++ e').toList = e.toList ++ ',' :: e'.toList := by simp
  rw [conditionsOf_eq, conditionsOf_eq, conditionsOf_eq, chars, splitOn_append_cons_self,
    map_append]

theorem parse_comma {e' : String} (first : parse e = .ok f) (second : parse e' = .ok g) :
    parse (e ++ "," ++ e') = .ok (f.followedBy g) := by
  rw [parse, conditionsOf_comma, addEach_append, (addEach_of_parse first).2, empty_followedBy]
  exact (addEach_of_parse second).2 f

/-! ## Requirements -/

/-- A single thing that a filter asks of a rule document. -/
inductive Requirement where
  | levelFrom (n : Nat)
  | levelTo (n : Nat)
  | status (s : String)
  | logSource (s : String)
  | tag (t : String)
deriving DecidableEq, Repr

namespace Requirement

/-- The entries of a document meet the requirement. -/
def Met (entries : Entries) : Requirement → Prop
  | .levelFrom n => ∃ m, documentLevel entries = .ok (some m) ∧ n ≤ m
  | .levelTo n => ∃ m, documentLevel entries = .ok (some m) ∧ m ≤ n
  | .status s => ∃ v, lookup (.text "status") entries = some v ∧ v.same (.text s) = true
  | .logSource s => ∃ source : Entries, lookup (.text "logsource") entries = some (.map source) ∧
      (source.map Prod.snd).all Value.hashable = true ∧
      (Value.text s).memberOf (source.map Prod.snd) = true
  | .tag t => ∃ tags, documentTags entries = .ok (some tags) ∧ t ∈ tags

/-- The document meets the requirement. Only a map can. -/
def MetBy (q : Requirement) : Value → Prop
  | .map entries => q.Met entries
  | _ => False

/-- A later filter has something else in the place of the requirement. -/
def replacedBy (g : RuleFilter) : Requirement → Bool
  | .levelFrom _ => g.minLevel.isSome
  | .levelTo _ => g.maxLevel.isSome
  | .status _ => g.status.isSome
  | .logSource _ => false
  | .tag _ => false

end Requirement

open Requirement

/-- All that a filter asks of a document. -/
def requirements (f : RuleFilter) : List Requirement :=
  f.minLevel.toList.map .levelFrom ++ f.maxLevel.toList.map .levelTo ++
    f.status.toList.map .status ++ f.logSources.map .logSource ++ f.tags.map .tag

/-- Later requirements are kept, and of the earlier ones those that nothing replaces. -/
theorem mem_requirements_followedBy {q : Requirement} : q ∈ (f.followedBy g).requirements ↔
      q ∈ g.requirements ∨ q ∈ f.requirements ∧ q.replacedBy g = false := by
  obtain ⟨minLevel, maxLevel, status, logSources, tags⟩ := g
  cases q with
  | levelFrom n => cases minLevel <;> simp [requirements, followedBy, replacedBy]
  | levelTo n => cases maxLevel <;> simp [requirements, followedBy, replacedBy]
  | status s => cases status <;> simp [requirements, followedBy, replacedBy]
  | logSource s | tag t => simp [requirements, followedBy, replacedBy, or_comm]

theorem Requirement.replacedBy_of_nil (none : g.requirements = []) (q : Requirement) :
    q.replacedBy g = false := by
  cases q <;> simp_all [requirements, replacedBy]

section

variable {f : RuleFilter} {entries : Entries}

theorem levelFits_iff : f.levelFits entries = .ok true ↔
    (∀ n ∈ f.minLevel, (levelFrom n).Met entries) ∧
      ∀ n ∈ f.maxLevel, (levelTo n).Met entries := by
  unfold levelFits Met
  rcases f.minLevel with _ | a <;> rcases f.maxLevel with _ | b <;>
    rcases documentLevel entries with e | _ | m <;> simp [Except.map]

theorem statusFits_iff : f.statusFits entries = true ↔
    ∀ s ∈ f.status, (Requirement.status s).Met entries := by
  unfold statusFits Requirement.Met
  rcases f.status with _ | s <;> rcases lookup (.text "status") entries with _ | v <;> simp

theorem logSourcesFit_iff : f.logSourcesFit entries = .ok true ↔
    ∀ s ∈ f.logSources, (logSource s).Met entries := by
  unfold logSourcesFit
  by_cases none : f.logSources = []
  · simp [none]
  rw [if_neg (by simpa using none)]
  -- some log source is asked for, so the document must have a log source part
  obtain ⟨s, asked⟩ := exists_mem_of_ne_nil _ none
  split
  · rename_i source found
    by_cases flat : (source.map Prod.snd).all Value.hashable = true
    · have each : ∀ s, (logSource s).Met entries ↔
          (Value.text s).memberOf (source.map Prod.snd) = true := by
        intro s
        constructor
        · rintro ⟨source', same, -, member⟩
          cases found.symm.trans same
          exact member
        · intro member
          exact ⟨source, found, flat, member⟩
      rw [if_pos flat, Except.ok.injEq, all_eq_true]
      simp only [each]
    · rw [if_neg flat]
      refine iff_of_false (by simp) fun met => ?_
      obtain ⟨source', same, flat', -⟩ := met s asked
      cases found.symm.trans same
      exact flat flat'
  · rename_i other
    refine iff_of_false (by simp) fun met => ?_
    obtain ⟨source, found, -⟩ := met s asked
    exact other source found

theorem tagsFit_iff : f.tagsFit entries = .ok true ↔
    ∀ t ∈ f.tags, (tag t).Met entries := by
  unfold tagsFit
  by_cases none : f.tags = []
  · simp [none]
  rw [if_neg (by simpa using none)]
  obtain ⟨t, asked⟩ := exists_mem_of_ne_nil _ none
  cases read : documentTags entries with
  | error e =>
    refine iff_of_false nofun fun met => ?_
    obtain ⟨tags, found, -⟩ := met t asked
    cases read.symm.trans found
  | ok tags? =>
    cases tags? with
    | none =>
      refine iff_of_false (by simp [Except.map]) fun met => ?_
      obtain ⟨tags, found, -⟩ := met t asked
      cases read.symm.trans found
    | some tags => simp [Except.map, Met, read]

theorem matchesEntries_iff : f.matchesEntries entries = .ok true ↔
    f.levelFits entries = .ok true ∧ f.statusFits entries = true ∧
      f.logSourcesFit entries = .ok true ∧ f.tagsFit entries = .ok true := by
  unfold matchesEntries
  rcases f.levelFits entries with e | _ | _ <;> rcases f.statusFits entries with _ | _ <;>
    rcases f.logSourcesFit entries with e | _ | _ <;> simp [bind, Except.bind, pure, Except.pure]

end

theorem isOpen_iff : f.isOpen = true ↔ f.requirements = [] := by
  obtain ⟨minLevel, maxLevel, status, logSources, tags⟩ := f
  cases minLevel <;> cases maxLevel <;> cases status <;> simp [isOpen, requirements]

/-- A filter accepts the documents that meet each of its requirements. -/
theorem accepts_eq_true_iff {document : Value} :
    f.accepts document = .ok true ↔ ∀ q ∈ f.requirements, q.MetBy document := by
  cases document with
  | map entries =>
    rw [accepts, matchesEntries_iff, levelFits_iff, statusFits_iff, logSourcesFit_iff, tagsFit_iff]
    simp [requirements, MetBy, or_imp, forall_and, and_assoc]
  | _ =>
    simp [accepts, isOpen_iff, MetBy, eq_nil_iff_forall_not_mem]

/-! ## Two expressions -/

/-- The filter comes to a verdict on the document. -/
def Decides (f : RuleFilter) (document : Value) : Prop :=
  ∃ verdict, f.accepts document = .ok verdict

/-- The level with this rank is within the bounds of the filter. -/
def admits (f : RuleFilter) (n : Nat) : Bool :=
  f.minLevel.all (· ≤ n) && f.maxLevel.all (n ≤ ·)

/-- What a later filter replaces makes no difference: a level that is within the bounds of both
together is within those of the earlier one, and then the two do not ask for different states. -/
def Linked (f g : RuleFilter) : Prop :=
  ∀ n < levels.length, (f.followedBy g).admits n = true →
    f.admits n = true ∧ ∀ s ∈ f.status, ∀ s' ∈ g.status, s = s'

instance (f g : RuleFilter) : Decidable (Linked f g) :=
  inferInstanceAs (Decidable (∀ n < levels.length, (f.followedBy g).admits n = true →
    f.admits n = true ∧ ∀ s ∈ f.status, ∀ s' ∈ g.status, s = s'))

theorem lt_of_levelRank? (ranked : levelRank? level = some n) : n < levels.length :=
  (findIdx?_eq_some_iff_findIdx_eq.mp ranked).1

theorem lt_of_documentLevel {entries : Entries} (found : documentLevel entries = .ok (some n)) :
    n < levels.length := by
  unfold documentLevel at found
  split at found
  · exact lt_of_levelRank? (Except.ok.inj found)
  · split at found <;> cases found
  · cases found

section

variable {f g : RuleFilter} {entries : Entries}

theorem admits_iff {n : Nat} (found : documentLevel entries = .ok (some n)) :
    f.admits n = true ↔ (∀ k ∈ f.minLevel, (levelFrom k).Met entries) ∧
      ∀ k ∈ f.maxLevel, (levelTo k).Met entries := by
  unfold admits Met
  cases f.minLevel <;> cases f.maxLevel <;> simp [found]

/-- Some level is within the bounds of a filter that accepts a document: that of the document, if it
has one. -/
theorem exists_admits (met : ∀ q ∈ f.requirements, q.Met entries) : ∃ n < levels.length,
    f.admits n = true ∧ ∀ m, documentLevel entries = .ok (some m) → m = n := by
  have lower : ∀ k ∈ f.minLevel, (levelFrom k).Met entries := by
    intro k asked
    exact met _ (by simpa [requirements] using asked)
  have upper : ∀ k ∈ f.maxLevel, (levelTo k).Met entries := by
    intro k asked
    exact met _ (by simpa [requirements] using asked)
  by_cases leveled : ∃ n, documentLevel entries = .ok (some n)
  · obtain ⟨n, found⟩ := leveled
    refine ⟨n, lt_of_documentLevel found, (admits_iff found).mpr ⟨lower, upper⟩, fun m same => ?_⟩
    cases found.symm.trans same
    rfl
  · -- a document without a level meets no bound, so that there is none
    have noLower : f.minLevel = none := by
      rw [Option.eq_none_iff_forall_not_mem]
      intro k asked
      obtain ⟨m, found, -⟩ := lower k asked
      exact leveled ⟨m, found⟩
    have noUpper : f.maxLevel = none := by
      rw [Option.eq_none_iff_forall_not_mem]
      intro k asked
      obtain ⟨m, found, -⟩ := upper k asked
      exact leveled ⟨m, found⟩
    refine ⟨0, by decide, by simp [admits, noLower, noUpper], fun m found => ?_⟩
    exact absurd ⟨m, found⟩ leveled

/-- A requirement that is replaced is met all the same if the two filters are linked. -/
theorem met_of_replacedBy (linked : f.Linked g)
    (met : ∀ q ∈ (f.followedBy g).requirements, q.Met entries) {q : Requirement}
    (asked : q ∈ f.requirements) (replaced : q.replacedBy g = true) : q.Met entries := by
  have later : ∀ q ∈ g.requirements, q.Met entries := by
    intro q asked
    exact met q (mem_requirements_followedBy.mpr (.inl asked))
  obtain ⟨n, known, admitted, level⟩ := exists_admits met
  obtain ⟨within, states⟩ := linked n known admitted
  cases q with
  | levelFrom k =>
    obtain ⟨k', bound⟩ := Option.isSome_iff_exists.mp replaced
    obtain ⟨m, found, -⟩ := later (.levelFrom k') (by simp [requirements, bound])
    obtain rfl := level m found
    exact ((admits_iff found).mp within).1 k (by simpa [requirements] using asked)
  | levelTo k =>
    obtain ⟨k', bound⟩ := Option.isSome_iff_exists.mp replaced
    obtain ⟨m, found, -⟩ := later (.levelTo k') (by simp [requirements, bound])
    obtain rfl := level m found
    exact ((admits_iff found).mp within).2 k (by simpa [requirements] using asked)
  | status s =>
    obtain ⟨s', given⟩ := Option.isSome_iff_exists.mp replaced
    obtain rfl := states s (by simpa [requirements] using asked) s' given
    exact later (.status s) (by simp [requirements, given])
  | logSource s | tag t => cases replaced

end

/-! ### A document for a filter -/

/-- A document with a level, a status, log sources and tags. -/
def sampleEntries (n : Nat) (status : String) (sources tags : List String) : Entries :=
  [("level", .text (levels.getD n "")), ("status", .text status),
    ("logsource", .map (sources.map fun s => (.text s, .text s))), ("tags", .list (tags.map .text))]

section

variable {n : Nat} {status : String} {sources tags : List String}

theorem documentLevel_sample (known : n < levels.length) :
    documentLevel (sampleEntries n status sources tags) = .ok (some n) := by
  have ranked : ∀ n < levels.length, levelRank? (levels.getD n "") = some n := by decide
  exact congrArg Except.ok (ranked n known)

theorem documentTags_sample :
    documentTags (sampleEntries n status sources tags) = .ok (some (tags.map Text.lower)) := by
  have texts : (tags.map Value.text).filterMap Value.text? = tags := by
    simp [filterMap_map, Function.comp_def, Value.text?]
  simp [documentTags, sampleEntries, lookup, texts]

theorem flat_sample (sources : List String) :
    ((sources.map fun s => (Key.text s, Value.text s)).map Prod.snd).all Value.hashable = true := by
  simp [Value.hashable]

theorem memberOf_sample {s : String} (member : s ∈ sources) :
    (Value.text s).memberOf ((sources.map fun s => (Key.text s, Value.text s)).map Prod.snd) = true := by
  have itself : (Value.text s).same (.text s) = true := beq_self_eq_true s
  rw [Value.memberOf, any_eq_true, map_map]
  exact ⟨.text s, mem_map_of_mem member, itself⟩

theorem decides_sample (known : n < levels.length) (f : RuleFilter) :
    f.Decides (.map (sampleEntries n status sources tags)) := by
  have level : ∃ b, f.levelFits (sampleEntries n status sources tags) = .ok b := by
    unfold levelFits
    split
    · exact ⟨_, rfl⟩
    · exact ⟨_, by rw [documentLevel_sample known]; rfl⟩
  have source : ∃ b, f.logSourcesFit (sampleEntries n status sources tags) = .ok b := by
    unfold logSourcesFit
    split
    · exact ⟨_, rfl⟩
    · exact ⟨_, if_pos (flat_sample sources)⟩
  have tag : ∃ b, f.tagsFit (sampleEntries n status sources tags) = .ok b := by
    unfold tagsFit
    split
    · exact ⟨_, rfl⟩
    · exact ⟨_, by rw [documentTags_sample]; rfl⟩
  obtain ⟨b, level⟩ := level
  obtain ⟨b', source⟩ := source
  obtain ⟨b'', tag⟩ := tag
  rw [Decides, accepts, matchesEntries, level, source, tag]
  cases b <;> cases f.statusFits (sampleEntries n status sources tags) <;> cases b' <;> exact ⟨_, rfl⟩

/-- The document with a level within the bounds of a filter, its status, its log sources and its tags
is accepted. -/
theorem accepts_sample {f : RuleFilter} (known : n < levels.length) (admitted : f.admits n = true)
    (small : f.tags = tags.map Text.lower) :
    f.accepts (.map (sampleEntries n (f.status.getD "") f.logSources tags)) = .ok true := by
  rw [accepts_eq_true_iff]
  have found : documentLevel (sampleEntries n (f.status.getD "") f.logSources tags) = .ok (some n) :=
    documentLevel_sample known
  obtain ⟨lower, upper⟩ := (admits_iff found).mp admitted
  intro q asked
  cases q with
  | levelFrom k => exact lower k (by simpa [requirements] using asked)
  | levelTo k => exact upper k (by simpa [requirements] using asked)
  | status s =>
    have given : f.status = some s := by simpa [requirements] using asked
    refine ⟨.text s, ?_, beq_self_eq_true s⟩
    rw [given]
    rfl
  | logSource s =>
    have member : s ∈ f.logSources := by simpa [requirements] using asked
    exact ⟨_, rfl, flat_sample f.logSources, memberOf_sample member⟩
  | tag t =>
    have member : t ∈ f.tags := by simpa [requirements] using asked
    exact ⟨_, documentTags_sample, small ▸ member⟩

end

/-! ### The law for two expressions -/

section

variable {f g : RuleFilter}

/-- Two filters together ask for what the later one asks for, and for what is left of the earlier one. -/
theorem accepts_followedBy_iff {document : Value} :
    (f.followedBy g).accepts document = .ok true ↔ g.accepts document = .ok true ∧
      ∀ q ∈ f.requirements, q.replacedBy g = false → q.MetBy document := by
  simp only [accepts_eq_true_iff, mem_requirements_followedBy]
  constructor
  · intro met
    exact ⟨fun q asked => met q (.inl asked), fun q asked kept => met q (.inr ⟨asked, kept⟩)⟩
  · rintro ⟨later, earlier⟩ q (asked | ⟨asked, kept⟩)
    · exact later q asked
    · exact earlier q asked kept

theorem accepts_followedBy_of_both {document : Value} (first : f.accepts document = .ok true)
    (second : g.accepts document = .ok true) : (f.followedBy g).accepts document = .ok true :=
  accepts_followedBy_iff.mpr ⟨second, fun q asked _ => accepts_eq_true_iff.mp first q asked⟩

/-- A document that is accepted by two filters together is accepted by the earlier one, if the two are
linked. -/
theorem accepts_of_linked (linked : f.Linked g) {document : Value}
    (together : (f.followedBy g).accepts document = .ok true) : f.accepts document = .ok true := by
  rw [accepts_eq_true_iff] at together ⊢
  intro q asked
  cases replaced : q.replacedBy g with
  | false => exact together q (mem_requirements_followedBy.mpr (.inr ⟨asked, replaced⟩))
  | true =>
    cases document with
    | map entries => exact met_of_replacedBy linked together asked replaced
    | _ =>
      -- a document that is no map meets nothing, so that there is nothing to replace the requirement
      have none : g.requirements = [] := eq_nil_iff_forall_not_mem.mpr fun q' asked' =>
        together q' (mem_requirements_followedBy.mpr (.inl asked'))
      rw [replacedBy_of_nil none] at replaced
      cases replaced

/-- The earlier of two filters that are not linked refuses a document that both together accept. -/
theorem linked_of_law (lowered : (f.followedBy g).Lowered)
    (law : ∀ document, f.Decides document → g.Decides document → (f.followedBy g).Decides document →
      (f.followedBy g).accepts document = .ok true → f.accepts document = .ok true) :
    f.Linked g := by
  intro n known admitted
  obtain ⟨tags, small⟩ := lowered
  have accepted := law _ (decides_sample known f) (decides_sample known g) (decides_sample known _)
    (accepts_sample known admitted small)
  rw [accepts_eq_true_iff] at accepted
  have found : documentLevel (sampleEntries n ((f.followedBy g).status.getD "")
      (f.followedBy g).logSources tags) = .ok (some n) := documentLevel_sample known
  constructor
  · refine (admits_iff found).mpr ⟨fun k asked => ?_, fun k asked => ?_⟩
    · exact accepted (.levelFrom k) (by simpa [requirements] using asked)
    · exact accepted (.levelTo k) (by simpa [requirements] using asked)
  · intro s asked s' given
    obtain ⟨v, found, same⟩ := accepted (.status s) (by simpa [requirements] using asked)
    have shown : v = .text s' := by
      have last : (f.followedBy g).status = some s' := by
        rw [RuleFilter.followedBy, Option.mem_def.mp given]
        rfl
      rw [last] at found
      exact (Option.some.inj found).symm
    rw [shown] at same
    exact (beq_iff_eq.mp same).symm

end

/-- **Two expressions with a comma between them**: they are read as one filter. It accepts a document
exactly if the second accepts it and it meets those conditions of the first that the second does not
replace; so it accepts what both accept. It accepts nothing else exactly if the two are linked. -/
theorem parse_linked {e e' : String} {f g : RuleFilter} (first : parse e = .ok f)
    (second : parse e' = .ok g) : ∃ h, parse (e ++ "," ++ e') = .ok h ∧
      (∀ document, h.accepts document = .ok true ↔ g.accepts document = .ok true ∧
        ∀ q ∈ f.requirements, q.replacedBy g = false → q.MetBy document) ∧
      (∀ document, f.accepts document = .ok true → g.accepts document = .ok true →
        h.accepts document = .ok true) ∧
      ((∀ document, f.Decides document → g.Decides document → h.Decides document →
        (h.accepts document = .ok true ↔
          f.accepts document = .ok true ∧ g.accepts document = .ok true)) ↔ f.Linked g) := by
  have lowered := (addEach_of_parse first).1.followedBy (addEach_of_parse second).1
  refine ⟨f.followedBy g, parse_comma first second, fun _ => accepts_followedBy_iff,
    fun _ => accepts_followedBy_of_both, fun law => ?_, fun linked document _ _ _ => ?_⟩
  · refine linked_of_law lowered fun document one two both together => ?_
    exact ((law document one two both).mp together).1
  · constructor
    · intro together
      exact ⟨accepts_of_linked linked together, (accepts_followedBy_iff.mp together).1⟩
    · rintro ⟨one, two⟩
      exact accepts_followedBy_of_both one two

/-- A narrower bound behind a wider one: the two are linked. -/
theorem parse_linked_narrower :
    parse "level>=low" = .ok { minLevel := some 0 } ∧
    parse "level>=high" = .ok { minLevel := some 2 } ∧
    ∃ h, parse "level>=low,level>=high" = .ok h ∧
      ∀ document, Decides { minLevel := some 0 } document → Decides { minLevel := some 2 } document →
        h.Decides document → (h.accepts document = .ok true ↔
          accepts { minLevel := some 0 } document = .ok true ∧
            accepts { minLevel := some 2 } document = .ok true) := by
  have wide : parse "level>=low" = .ok { minLevel := some 0 } := by
    rw [parse, conditionsOf_eq]
    rfl
  have narrow : parse "level>=high" = .ok { minLevel := some 2 } := by
    rw [parse, conditionsOf_eq]
    rfl
  obtain ⟨h, read, -, -, law⟩ := parse_linked wide narrow
  exact ⟨wide, narrow, h, read, law.mpr (by decide)⟩

/-- A wider bound behind a narrower one takes its place: the document is accepted although the first
of the two conditions refuses it. -/
theorem parse_forgets_narrower :
    parse "level>=high" = .ok { minLevel := some 2 } ∧
    parse "level>=low" = .ok { minLevel := some 0 } ∧
    parse "level>=high,level>=low" = .ok { minLevel := some 0 } ∧
    accepts { minLevel := some 2 } (.map [("level", .text "medium")]) = .ok false ∧
    accepts { minLevel := some 0 } (.map [("level", .text "medium")]) = .ok true := by
  have narrow : parse "level>=high" = .ok { minLevel := some 2 } := by
    rw [parse, conditionsOf_eq]
    rfl
  have wide : parse "level>=low" = .ok { minLevel := some 0 } := by
    rw [parse, conditionsOf_eq]
    rfl
  exact ⟨narrow, wide, parse_comma narrow wide, rfl, rfl⟩

end RuleFilter

end SigmaQuery
