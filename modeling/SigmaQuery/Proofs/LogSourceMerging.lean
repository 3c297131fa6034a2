import SigmaQuery.Proofs.Meaning
import SigmaQuery.Proofs.SearchBrackets

/-!
# The merge of log sources

A rule is searched in the merge of all log sources that stand for what it names: those that name
something, and nothing but what the rule names (`LogSource.StandsFor`). What a log source leaves open does
not count, what the rule leaves open does. So two of these log sources never name different things, and
the merge does not meet the conflict that it could report. Its only fault is a default index that is
neither a text nor a list of texts, and that only counts if no merged log source has an index.

The merge takes the conditions of the log sources all together, whatever way to join them is configured:
the setting goes to each single definition, where there is nothing to join, and not to the merge.
-/

namespace SigmaQuery

open FaultM List Config

/-! ## Sets of texts -/

variable {items : List String} {x : String} {v default name method : Value} {s : LogSource}
  {field : Option String}

theorem mem_sortedSet : x ∈ sortedSet items ↔ x ∈ items := by
  rw [sortedSet, mem_eraseDups, mem_mergeSort]

theorem pairwise_eraseDups {r : String → String → Prop} (ordered : items.Pairwise r) :
    items.eraseDups.Pairwise fun x y => x ≠ y ∧ r x y := by
  -- each text takes its copies out of the rest, so the rest gets shorter
  induction len : items.length using Nat.strongRecOn generalizing items with
  | ind n ih =>
    cases ordered with
    | nil => simp
    | @cons x rest first ordered =>
      rw [eraseDups_cons, pairwise_cons]
      constructor
      · intro y member
        obtain ⟨member, other⟩ := mem_filter.mp (mem_eraseDups.mp member)
        exact ⟨fun same => by simp [same] at other, first y member⟩
      · apply ih _ _ (ordered.filter _) rfl
        have shorter := length_filter_le (fun y => !y == x) rest
        rw [length_cons] at len
        omega

theorem pairwise_sortedSet (items : List String) : (sortedSet items).Pairwise (· < ·) := by
  have le_iff : ∀ x y : String, (!decide (y < x)) = true ↔ x ≤ y := by
    intro x y
    rw [Bool.not_eq_true', decide_eq_false_iff_not, String.not_lt]
  have sorted : (items.mergeSort fun x y => !(y < x)).Pairwise fun x y => (!decide (y < x)) = true := by
    refine pairwise_mergeSort (fun x y z => ?_) (fun x y => ?_) items
    · rw [le_iff, le_iff, le_iff]
      exact String.le_trans
    · rw [Bool.or_eq_true, le_iff, le_iff]
      exact String.le_total x y
  refine (pairwise_eraseDups sorted).imp fun {x y} h => Classical.not_not.mp fun above => ?_
  exact h.1 (String.le_antisymm ((le_iff x y).mp h.2) (String.not_lt.mp above))

theorem nodup_sortedSet (items : List String) : (sortedSet items).Nodup :=
  (pairwise_sortedSet items).imp String.ne_of_lt

theorem sortedSet_of_forall_eq (only : ∀ y ∈ items, y = x) : (sortedSet items).length ≤ 1 := by
  have all : ∀ y ∈ sortedSet items, y = x := fun y member => only y (mem_sortedSet.mp member)
  have distinct := nodup_sortedSet items
  match sortedSet items, all, distinct with
  | [], _, _ => exact Nat.zero_le 1
  | [_], _, _ => exact Nat.le_refl 1
  | y :: z :: rest, all, distinct =>
    have same : y = z := (all y (by simp)).trans (all z (by simp)).symm
    simp [same] at distinct

/-! ## Junctions of conditions -/

namespace Cond

theorem allHold_iff (leaf : Cond → Prop) (items : List Cond) :
    allHold leaf items ↔ ∀ c ∈ items, c.holds leaf :=
  each_iff (allHold leaf) trivial (fun _ _ => Iff.rfl) items

/-- A conjunction means the disjunction where all of its operands hold or none does. -/
theorem allHold_iff_someHolds (leaf : Cond → Prop) {items : List Cond} (some_item : items ≠ []) :
    (allHold leaf items ↔ ∃ c ∈ items, c.holds leaf) ↔
      (∀ c ∈ items, c.holds leaf) ∨ ∀ c ∈ items, ¬ c.holds leaf := by
  have one_of_all : (∀ c ∈ items, c.holds leaf) → ∃ c ∈ items, c.holds leaf := by
    intro all
    obtain ⟨c, member⟩ := exists_mem_of_ne_nil items some_item
    exact ⟨c, member, all c member⟩
  rw [allHold_iff]
  constructor
  · intro same
    by_cases one : ∃ c ∈ items, c.holds leaf
    · exact .inl (same.mpr one)
    · refine .inr ?_
      intro c member holds
      exact one ⟨c, member, holds⟩
  · rintro (all | none)
    · exact iff_of_true all (one_of_all all)
    · refine ⟨one_of_all, ?_⟩
      rintro ⟨c, member, holds⟩
      exact absurd holds (none c member)

end Cond

/-! ## Log sources that stand for what is searched -/

theorem Value.same_text_iff {s : String} : v.same (.text s) = true ↔ v = .text s := by
  cases v <;> simp [Value.same, Value.number?]

namespace LogSource

/-- What is named, if anything is, is what is searched for. -/
def Names (searched : Value) (own : Option String) : Prop :=
  ∀ name, own = some name → searched = .text name

/-- The log source names something, and nothing but what is searched for. -/
def StandsFor (s : LogSource) (category product service : Value) : Prop :=
  (s.category ≠ none ∨ s.product ≠ none ∨ s.service ≠ none) ∧
    Names category s.category ∧ Names product s.product ∧ Names service s.service

theorem fits_cases (searched : Value) (own : Option String) :
    (own = none ∧ fits searched own = none) ∨
      (own ≠ none ∧ Names searched own ∧ fits searched own = some true) ∨
      ¬ Names searched own ∧ fits searched own = some false := by
  cases own with
  | none => exact .inl ⟨rfl, rfl⟩
  | some name =>
    right
    by_cases same : searched = .text name
    · left
      refine ⟨by simp, ?_, ?_⟩
      · intro other found
        rw [same, Option.some.inj found]
      · rw [fits, Value.same_text_iff.mpr same]
    · right
      refine ⟨fun names => same (names name rfl), ?_⟩
      rw [fits, Bool.eq_false_iff.mpr (mt Value.same_text_iff.mp same)]

theorem names_none (searched : Value) : Names searched none := by
  intro name found
  cases found

/-- The log sources that match are those that stand for what is searched. -/
theorem matches?_iff {s : LogSource} {category product service : Value} :
    s.matches? category product service = some true ↔ s.StandsFor category product service := by
  unfold matches? StandsFor
  have first := fits_cases category s.category
  have second := fits_cases product s.product
  have third := fits_cases service s.service
  -- each of the three is not named, named and found, or named and not found
  rcases first with ⟨c, fc⟩ | ⟨c, nc, fc⟩ | ⟨nc, fc⟩ <;>
    rcases second with ⟨p, fp⟩ | ⟨p, np, fp⟩ | ⟨np, fp⟩ <;>
    rcases third with ⟨q, fq⟩ | ⟨q, nq, fq⟩ | ⟨nq, fq⟩ <;>
    simp_all [names_none]

instance (s : LogSource) (category product service : Value) :
    Decidable (s.StandsFor category product service) :=
  decidable_of_iff _ matches?_iff

/-! ## The parts of a merge -/

/-- The index patterns that a default stands for. -/
inductive DefaultIndex : Value → List String → Prop
  | absent : DefaultIndex .null []
  | one (pattern : String) : DefaultIndex (.text pattern) [pattern]
  | several (patterns : List String) : DefaultIndex (.list (patterns.map .text)) patterns

theorem map_text_filterMap {items : List Value}
    (texts : (items.filterMap Value.text?).length = items.length) :
    (items.filterMap Value.text?).map .text = items := by
  induction items with
  | nil => rfl
  | cons v rest ih =>
    have fewer := length_filterMap_le Value.text? rest
    cases v with
    | text t =>
      simp only [filterMap_cons, Value.text?, length_cons, Nat.add_right_cancel_iff] at texts
      simp [Value.text?, ih texts]
    | _ =>
      simp only [filterMap_cons, Value.text?, length_cons] at texts
      omega

theorem defaultPatterns_iff {v : Value} {index : List String} :
    defaultPatterns v = .ok index ↔ DefaultIndex v index := by
  constructor
  · intro read
    unfold defaultPatterns at read
    split at read
    · cases read
      exact .absent
    · cases read
      exact .one _
    · rename_i items
      dsimp only at read
      split at read
      · rename_i texts
        cases read
        have several := DefaultIndex.several (items.filterMap Value.text?)
        rwa [map_text_filterMap texts] at several
      · cases read
    · cases read
  · intro stands
    cases stands with
    | absent | one pattern => rfl
    | several patterns =>
      have texts : (index.map Value.text).filterMap Value.text? = index := by
        rw [filterMap_map]
        exact filterMap_some
      simp only [defaultPatterns, texts, length_map, if_true]

theorem defaultPatterns_eq_error {v : Value} {e : Fault} (failed : defaultPatterns v = .error e) :
    e = .type .defaultIndex := by
  unfold defaultPatterns at failed
  split at failed
  · cases failed
  · cases failed
  · dsimp only at failed
    split at failed
    · cases failed
    · exact (Except.error.inj failed).symm
  · exact (Except.error.inj failed).symm

section Merge

variable {sources : List LogSource} {default : Value}

/-- Which indices a merge has: those of the log sources, each once, or else the default. -/
def MergedIndex (sources : List LogSource) (default : Value) (index : List String) : Prop :=
  (index ≠ [] ∧ index.Nodup ∧ ∀ i, i ∈ index ↔ ∃ s ∈ sources, i ∈ s.index) ∨
    (∀ s ∈ sources, s.index = []) ∧ DefaultIndex default index

theorem sortedSet_index_eq_nil_iff :
    sortedSet (sources.flatMap LogSource.index) = [] ↔ ∀ s ∈ sources, s.index = [] := by
  simp only [eq_nil_iff_forall_not_mem, mem_sortedSet, mem_flatMap]
  grind

theorem mergedIndex_of_ok {index : List String} (merged : mergedIndex sources default = .ok index) :
    MergedIndex sources default index := by
  unfold mergedIndex at merged
  split at merged
  · rename_i none
    exact .inr ⟨sortedSet_index_eq_nil_iff.mp none, defaultPatterns_iff.mp merged⟩
  · rename_i some_index
    cases merged
    refine .inl ⟨some_index, nodup_sortedSet _, ?_⟩
    intro i
    rw [mem_sortedSet, mem_flatMap]

theorem mergedIndex_eq_error_iff {e : Fault} : mergedIndex sources default = .error e ↔
    e = .type .defaultIndex ∧ (∀ s ∈ sources, s.index = []) ∧ ¬ ∃ index, DefaultIndex default index := by
  simp only [← sortedSet_index_eq_nil_iff, ← defaultPatterns_iff]
  unfold mergedIndex
  split
  · rename_i none
    constructor
    · intro failed
      refine ⟨defaultPatterns_eq_error failed, none, ?_⟩
      rintro ⟨index, read⟩
      cases failed.symm.trans read
    · rintro ⟨rfl, -, unread⟩
      cases read : defaultPatterns default with
      | ok index => exact absurd ⟨index, read⟩ unread
      | error e => rw [defaultPatterns_eq_error read]
  · rename_i some_index
    constructor
    · intro failed
      cases failed
    · rintro ⟨-, none, -⟩
      exact absurd none some_index

/-- A part of a merge is what is searched for, if one of the log sources names it. -/
theorem merged_part {part : LogSource → Option String} {searched : Value}
    (names : ∀ s ∈ sources, Names searched (part s)) :
    (sortedSet (sources.filterMap part)).length ≤ 1 ∧ ∀ name,
      (sortedSet (sources.filterMap part)).head? = some name ↔
        searched = .text name ∧ ∃ s ∈ sources, part s = some name := by
  have known : ∀ name, name ∈ sortedSet (sources.filterMap part) ↔
      searched = .text name ∧ ∃ s ∈ sources, part s = some name := by
    intro name
    rw [mem_sortedSet, mem_filterMap]
    constructor
    · rintro ⟨s, member, named⟩
      exact ⟨names s member name named, s, member, named⟩
    · rintro ⟨-, found⟩
      exact found
  -- two log sources that name the part name what is searched, so they do not differ
  have few : (sortedSet (sources.filterMap part)).length ≤ 1 := by
    cases set : sources.filterMap part with
    | nil => simp [sortedSet]
    | cons x rest =>
      apply sortedSet_of_forall_eq (x := x)
      intro y member
      rw [← set, ← mem_sortedSet, known] at member
      have first : x ∈ sortedSet (sources.filterMap part) := mem_sortedSet.mpr (by simp [set])
      exact Value.text.inj (member.1.symm.trans ((known x).mp first).1)
  refine ⟨few, ?_⟩
  intro name
  rw [← known]
  match sortedSet (sources.filterMap part), few with
  | [], _ => simp
  | [x], _ => simp [eq_comm]
  | x :: y :: rest, few =>
    simp only [length_cons] at few
    omega

/-- The log source is the merge of others that all stand for what is searched. -/
structure IsMerge (sources : List LogSource) (category product service default : Value)
    (s : LogSource) : Prop where
  category : ∀ name, s.category = some name ↔
    category = .text name ∧ ∃ m ∈ sources, m.category = some name
  product : ∀ name, s.product = some name ↔ product = .text name ∧ ∃ m ∈ sources, m.product = some name
  service : ∀ name, s.service = some name ↔ service = .text name ∧ ∃ m ∈ sources, m.service = some name
  index : MergedIndex sources default s.index

theorem merge_standing {category product service : Value}
    (stand : ∀ s ∈ sources, s.StandsFor category product service) (name : Value) :
    (∀ e, merge sources default name (.text "and") = .error e ↔ e = .type .defaultIndex ∧
      (∀ s ∈ sources, s.index = []) ∧ ¬ ∃ index, DefaultIndex default index) ∧
    ∀ s, merge sources default name (.text "and") = .ok s →
      IsMerge sources category product service default s ∧
      s.indexField = (sources.filterMap LogSource.indexField).head? ∧
      s.conditions = if (sources.filterMap LogSource.conditions).isEmpty then none
        else some (.all none (sources.filterMap LogSource.conditions)) := by
  obtain ⟨oneCategory, ownCategory⟩ := merged_part fun s member => (stand s member).2.1
  obtain ⟨oneProduct, ownProduct⟩ := merged_part fun s member => (stand s member).2.2.1
  obtain ⟨oneService, ownService⟩ := merged_part fun s member => (stand s member).2.2.2
  -- each part that is set is the rule's own, so no two of the log sources can differ in it
  have noConflict : ¬ (decide (1 < (sortedSet (sources.filterMap LogSource.category)).length) ||
      decide (1 < (sortedSet (sources.filterMap LogSource.product)).length) ||
      decide (1 < (sortedSet (sources.filterMap LogSource.service)).length)) = true := by
    simp only [Bool.or_eq_true, decide_eq_true_eq]
    omega
  have run : merge sources default name (.text "and") =
      (mergedIndex sources default).map fun index =>
        { name
          category := (sortedSet (sources.filterMap LogSource.category)).head?
          product := (sortedSet (sources.filterMap LogSource.product)).head?
          service := (sortedSet (sources.filterMap LogSource.service)).head?
          index
          indexField := (sources.filterMap LogSource.indexField).head?
          conditions := if (sources.filterMap LogSource.conditions).isEmpty then none
            else some (.all none (sources.filterMap LogSource.conditions)) } := by
    rw [merge, if_neg noConflict]
    cases mergedIndex sources default <;> rfl
  rw [run]
  constructor
  · intro e
    rw [← mergedIndex_eq_error_iff]
    cases mergedIndex sources default <;> simp [Except.map]
  · intro s merged
    obtain ⟨index, indices, rfl⟩ := Cond.map_eq_ok merged
    exact ⟨⟨ownCategory, ownProduct, ownService, mergedIndex_of_ok indices⟩, rfl, rfl⟩

end Merge

end LogSource

open LogSource

/-! ## The log source of a rule -/

namespace Config

/-- The log sources that stand for what is searched. -/
def standing (c : Config) (category product service : Value) : List LogSource :=
  c.logSources.filter fun s => decide (s.StandsFor category product service)

/-- The conditions of these log sources, of those that have any. -/
def conditionsOf (c : Config) (category product service : Value) : List Cond :=
  (c.standing category product service).filterMap LogSource.conditions

theorem logSource_eq_merge (c : Config) (category product service : Value) :
    c.logSource category product service =
      merge (c.standing category product service) c.defaultIndex .null (.text "and") := by
  have same : (fun s : LogSource => s.matches? category product service == some true) =
      fun s => decide (s.StandsFor category product service) := by
    funext s
    rw [Bool.eq_iff_iff, beq_iff_eq, decide_eq_true_eq, matches?_iff]
  rw [logSource, same, standing]

theorem standsFor_of_mem {c : Config} {category product service : Value} {s : LogSource}
    (member : s ∈ c.standing category product service) :
    s ∈ c.logSources ∧ s.StandsFor category product service := by
  simpa [standing] using member

theorem merge_standing (c : Config) (category product service : Value) :
    (∀ e, c.logSource category product service = .error e ↔ e = .type .defaultIndex ∧
      (∀ s ∈ c.standing category product service, s.index = []) ∧
      ¬ ∃ index, DefaultIndex c.defaultIndex index) ∧
    ∀ s, c.logSource category product service = .ok s →
      LogSource.IsMerge (c.standing category product service) category product service c.defaultIndex s ∧
      s.indexField = ((c.standing category product service).filterMap LogSource.indexField).head? ∧
      s.conditions = if (c.conditionsOf category product service).isEmpty then none
        else some (.all none (c.conditionsOf category product service)) := by
  rw [logSource_eq_merge]
  exact LogSource.merge_standing (fun s member => (standsFor_of_mem member).2) .null

end Config

/-! ### Log sources of a document -/

theorem LogSource.part_merge_nil (read : merge [] default name method = .ok s) :
    s.category = none ∧ s.product = none ∧ s.service = none := by
  unfold merge at read
  dsimp only at read
  split at read
  · cases read
  · split at read
    · cases read
    · split at read
      · cases read
      · cases read
        simp [sortedSet]

/-- A log source that names something was read with the field that tells indices apart. -/
theorem LogSource.indexField_of_ofValue {origin : Option Nat}
    (read : ofValue origin v default name method field = .ok s)
    (names : s.category ≠ none ∨ s.product ≠ none ∨ s.service ≠ none) : s.indexField = field := by
  unfold ofValue at read
  split at read
  · cases read
    rfl
  · obtain ⟨category, product, service⟩ := part_merge_nil read
    simp [category, product, service] at names
  · unfold ofEntries at read
    split at read
    · cases read
    · dsimp only at read
      split at read
      · cases read
      · split at read
        · cases read
        · obtain ⟨_, -, rfl⟩ := Cond.map_eq_ok read
          rfl
  · cases read

/-- The configuration comes from another by reading its log sources for a target. -/
structure Config.ReadFrom (c₀ : Config) (field : Option String) (c : Config) : Prop where
  indexField : c.indexField = field
  defaultIndex : c.defaultIndex = c₀.defaultIndex
  merging : c.merging = c₀.merging
  sources : ∀ s ∈ c.logSources, s.category ≠ none ∨ s.product ≠ none ∨ s.service ≠ none →
    s.indexField = field

theorem Config.readFrom_chooseTarget {c₀ : Config} (fresh : c₀.logSources = []) (field : Option String) :
    Config.ReadFrom c₀ field ((chooseTarget field).start c₀).2 := by
  apply holds_chooseTarget
  · intro c v name s built read
    refine ⟨built.indexField, built.defaultIndex, built.merging, ?_⟩
    intro s' member names
    rcases mem_append.mp member with old | new
    · exact built.sources s' old names
    · obtain rfl := mem_singleton.mp new
      rw [indexField_of_ofValue read names, built.indexField]
  · refine ⟨rfl, rfl, rfl, ?_⟩
    intro s member
    rw [show ({ c₀ with indexField := field } : Config).logSources = [] from fresh] at member
    exact absurd member not_mem_nil

theorem LogSource.head?_indexField {sources : List LogSource} (some_source : sources ≠ [])
    (same : ∀ s ∈ sources, s.indexField = field) :
    (sources.filterMap indexField).head? = field := by
  cases field with
  | none =>
    have none : sources.filterMap indexField = [] := filterMap_eq_nil_iff.mpr same
    rw [none]
    rfl
  | some name =>
    obtain ⟨s, rest, rfl⟩ := exists_cons_of_ne_nil some_source
    rw [filterMap_cons_some (same s mem_cons_self)]
    rfl

theorem Config.of_ofDocument {c : Config} (read : ofDocument v = .ok c) :
    c.logSources = [] ∧ c.defaultIndex = (v.get? (.text "defaultindex")).getD .null ∧
      c.merging = (v.get? (.text "logsourcemerging")).getD (.text "and") := by
  unfold ofDocument at read
  split at read
  · obtain ⟨_, -, rfl⟩ := Cond.map_eq_ok read
    exact ⟨rfl, rfl, rfl⟩
  · cases read

namespace Config

section Document

variable {v : Value} {c₀ c : Config} {field : Option String} {r : Except Fault Unit}
  (read : ofDocument v = .ok c₀) (chosen : (chooseTarget field).start c₀ = (r, c))
include read chosen

/-- **The log source of a rule** is the merge of the log sources that name something, and nothing but what
the rule names. It is the merge of all of these and of no others. The only fault is a default index that
is neither a text nor a list of texts, where no merged log source has an index. What the merge names is
what the rule names, its indices are those of the log sources, each once, or else the default as it is
configured, and its index field is that of the target if there is something to merge. -/
theorem logSource_standing (category product service : Value) :
    c.defaultIndex = (v.get? (.text "defaultindex")).getD .null ∧
    c.logSource category product service =
      LogSource.merge (c.standing category product service) c.defaultIndex .null (.text "and") ∧
    (∀ e, c.logSource category product service = .error e ↔ e = .type .defaultIndex ∧
      (∀ s ∈ c.standing category product service, s.index = []) ∧
      ¬ ∃ index, LogSource.DefaultIndex c.defaultIndex index) ∧
    ∀ s, c.logSource category product service = .ok s →
      LogSource.IsMerge (c.standing category product service) category product service c.defaultIndex s ∧
      (c.standing category product service ≠ [] → s.indexField = field) := by
  obtain ⟨fresh, default, -⟩ := of_ofDocument read
  have built := readFrom_chooseTarget fresh field
  rw [chosen] at built
  obtain ⟨fails, merges⟩ := c.merge_standing category product service
  refine ⟨built.defaultIndex.trans default, logSource_eq_merge c category product service, fails, ?_⟩
  intro s found
  obtain ⟨merge, indexField, -⟩ := merges s found
  refine ⟨merge, ?_⟩
  intro some_source
  rw [indexField]
  apply LogSource.head?_indexField some_source
  intro m member
  obtain ⟨known, names, -⟩ := standsFor_of_mem member
  exact built.sources m known names

end Document

/-- Two log sources of one product, of which one is a service, and one that names nothing. -/
def overlappingDocument : Value :=
  .map [("logsources", .map
      [("a", .map [("product", "windows"), ("index", "x")]),
        ("b", .map [("product", "windows"), ("service", "security"), ("index", .list ["x", "y"])]),
        ("c", .null)]),
    ("defaultindex", "z")]

theorem logSource_standing_overlap : ∃ c₀ c s, Config.ofDocument overlappingDocument = .ok c₀ ∧
    (Config.chooseTarget (some "index")).start c₀ = (.ok (), c) ∧
    c.logSource .null "windows" "security" = .ok s ∧ s.category = none ∧ s.product = some "windows" ∧
    s.service = some "security" ∧ s.index.Nodup ∧ (∀ i, i ∈ s.index ↔ i = "x" ∨ i = "y") ∧
    s.indexField = some "index" := by
  obtain ⟨c₀, read⟩ : ∃ c₀, Config.ofDocument overlappingDocument = .ok c₀ := ⟨_, rfl⟩
  obtain ⟨c, chosen⟩ : ∃ c, (Config.chooseTarget (some "index")).start c₀ = (.ok (), c) := by
    cases read
    exact ⟨_, rfl⟩
  have sources : c.standing .null "windows" "security" =
      [{ name := "a", product := "windows", index := ["x"], indexField := "index" },
        { name := "b", product := "windows", service := "security", index := ["x", "y"],
          indexField := "index" }] := by
    cases read
    cases chosen
    rfl
  obtain ⟨-, -, fails, merges⟩ := logSource_standing read chosen .null "windows" "security"
  cases found : c.logSource .null "windows" "security" with
  | error e =>
    have none := ((fails e).mp found).2.1
    simp [sources] at none
  | ok s =>
    obtain ⟨merge, indexField⟩ := merges s found
    rw [sources] at merge indexField
    have unnamed : s.category = none := by
      apply Option.eq_none_iff_forall_ne_some.mpr
      intro name named
      cases ((merge.category name).mp named).1
    have product : s.product = some "windows" :=
      (merge.product "windows").mpr ⟨rfl, _, List.mem_cons_self, rfl⟩
    have service : s.service = some "security" :=
      (merge.service "security").mpr ⟨rfl, _, List.mem_cons_of_mem _ List.mem_cons_self, rfl⟩
    rcases merge.index with ⟨-, distinct, known⟩ | ⟨none, -⟩
    · refine ⟨c₀, c, s, read, chosen, found, unnamed, product, service, distinct, ?_, indexField (by simp)⟩
      intro i
      simp [known]
    · simp at none

/-- One log source, which names nothing. -/
def namelessDocument : Value :=
  .map [("logsources", .map [("a", .null)]), ("defaultindex", "z")]

/-- A log source that names nothing is not merged, although it names nothing that the rule does not name:
the merge has no index field. -/
theorem logSource_nameless : ∃ c₀ c m s, Config.ofDocument namelessDocument = .ok c₀ ∧
    (Config.chooseTarget (some "index")).start c₀ = (.ok (), c) ∧ c.logSources = [m] ∧
    m.category = none ∧ m.product = none ∧ m.service = none ∧
    c.logSource .null "windows" .null = .ok s ∧ c.indexField = some "index" ∧ s.indexField = none := by
  exact ⟨_, _, _, { index := ["z"] }, rfl, rfl, rfl, rfl, rfl, rfl, by decide +kernel, rfl, rfl⟩

/-! ## The meaning of its conditions -/

section Document

variable {v : Value} {c₀ c : Config} {field : Option String} {r : Except Fault Unit}
  (read : ofDocument v = .ok c₀) (chosen : (chooseTarget field).start c₀ = (r, c))
include read chosen

/-- **The conditions of a rule's log source** are those of the log sources that it is merged from, all
together, whatever way to join them is configured. So with the setting for alternatives they mean what
they should exactly where all of these conditions hold, or none of them. -/
theorem logSource_conditions (category product service : Value) :
    c.merging = (v.get? (.text "logsourcemerging")).getD (.text "and") ∧
    (c.logSource category product service = .error (.type .defaultIndex) ∨
      ∃ s, c.logSource category product service = .ok s ∧
        (s.conditions = none ↔ c.conditionsOf category product service = []) ∧
        ∀ t, s.conditions = some t → ∀ leaf : Cond → Prop,
          (t.holds leaf ↔ ∀ u ∈ c.conditionsOf category product service, u.holds leaf) ∧
          ((t.holds leaf ↔ ∃ u ∈ c.conditionsOf category product service, u.holds leaf) ↔
            (∀ u ∈ c.conditionsOf category product service, u.holds leaf) ∨
              ∀ u ∈ c.conditionsOf category product service, ¬ u.holds leaf)) := by
  obtain ⟨fresh, -, merging⟩ := of_ofDocument read
  have built := readFrom_chooseTarget fresh field
  rw [chosen] at built
  refine ⟨built.merging.trans merging, ?_⟩
  obtain ⟨fails, merges⟩ := c.merge_standing category product service
  cases found : c.logSource category product service with
  | error e =>
    obtain ⟨rfl, -⟩ := (fails e).mp found
    exact .inl rfl
  | ok s =>
    obtain ⟨-, -, conditions⟩ := merges s found
    refine .inr ⟨s, rfl, ?_, ?_⟩
    · rw [conditions]
      simp
    · intro t own leaf
      rw [conditions] at own
      split at own
      · cases own
      · rename_i some_condition
        obtain rfl := Option.some.inj own
        rw [List.isEmpty_iff] at some_condition
        exact ⟨Cond.allHold_iff leaf _, Cond.allHold_iff_someHolds leaf some_condition⟩

end Document

/-- Two log sources of one product that have conditions, which are to be alternatives. -/
def alternativesDocument : Value :=
  .map [("logsourcemerging", "or"), ("logsources", .map
    [("a", .map [("product", "p"), ("conditions", .map [("f", "v")])]),
      ("b", .map [("product", "p"), ("conditions", .map [("g", "w")])])])]

/-- Their conditions in the configuration that is read from it. -/
def alternatives : List Cond :=
  [.all (some 0) [.item "f" "v"], .all (some 1) [.item "g" "w"]]

theorem exists_alternatives : ∃ c₀ c s, ofDocument alternativesDocument = .ok c₀ ∧
    (chooseTarget none).start c₀ = (.ok (), c) ∧ c.merging = "or" ∧
    c.conditionsOf .null "p" .null = alternatives ∧ c.logSource .null "p" .null = .ok s ∧
    s.conditions = some (.all none alternatives) := by
  obtain ⟨c₀, c, read, chosen, merging, default, conditions⟩ : ∃ c₀ c,
      ofDocument alternativesDocument = .ok c₀ ∧
      (chooseTarget none).start c₀ = (.ok (), c) ∧ c.merging = "or" ∧ c.defaultIndex = .null ∧
      c.conditionsOf .null "p" .null = alternatives := ⟨_, _, rfl, rfl, rfl, rfl, rfl⟩
  obtain ⟨fails, merges⟩ := c.merge_standing .null "p" .null
  cases found : c.logSource .null "p" .null with
  | error e =>
    have noDefault := ((fails e).mp found).2.2
    rw [default] at noDefault
    exact absurd ⟨[], .absent⟩ noDefault
  | ok s =>
    obtain ⟨-, -, joined⟩ := merges s found
    rw [conditions] at joined
    exact ⟨c₀, c, s, read, chosen, merging, conditions, found, joined⟩

/-- Where both conditions hold, they are joined as configured. -/
theorem logSource_conditions_both : ∃ c₀ c s t, Config.ofDocument alternativesDocument = .ok c₀ ∧
    (Config.chooseTarget none).start c₀ = (.ok (), c) ∧ c.merging = "or" ∧
    c.logSource .null "p" .null = .ok s ∧ s.conditions = some t ∧
    (t.holds (fun _ => True) ↔ ∃ u ∈ c.conditionsOf .null "p" .null, u.holds fun _ => True) := by
  obtain ⟨c₀, c, s, read, chosen, merging, conditions, found, joined⟩ := exists_alternatives
  rcases (logSource_conditions read chosen .null "p" .null).2 with failed | ⟨s', found', -, means⟩
  · cases found.symm.trans failed
  · obtain rfl : s = s' := Except.ok.inj (found.symm.trans found')
    refine ⟨c₀, c, s, _, read, chosen, merging, found, joined, ?_⟩
    apply ((means _ joined fun _ => True).2).mpr
    left
    rw [conditions]
    simp [alternatives, Cond.holds, Cond.allHold]

/-- Where only one of the conditions holds, they are not. -/
theorem logSource_conditions_joined : ∃ c₀ c s t, Config.ofDocument alternativesDocument = .ok c₀ ∧
    (Config.chooseTarget none).start c₀ = (.ok (), c) ∧ c.merging = "or" ∧
    c.conditionsOf .null "p" .null = alternatives ∧ c.logSource .null "p" .null = .ok s ∧
    s.conditions = some t ∧ ¬ t.holds (· = .item "f" "v") ∧
    ∃ u ∈ alternatives, u.holds (· = .item "f" "v") := by
  obtain ⟨c₀, c, s, read, chosen, merging, conditions, found, joined⟩ := exists_alternatives
  refine ⟨c₀, c, s, _, read, chosen, merging, conditions, found, joined, ?_, ?_⟩
  · simp [alternatives, Cond.holds, Cond.allHold]
  · simp [alternatives, Cond.holds, Cond.allHold]

end Config

end SigmaQuery
