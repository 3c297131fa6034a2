import Mathlib.Data.List.Nodup
import Mathlib.Data.List.Perm.Subperm
import SigmaQuery.Proofs.GenerationSteps

/-!
# Names of rules

A target that collects something for each rule names the rule after its title. Different titles may come
to one name, so a name in use gets the smallest number from two on that makes it a new one. There is such
a number, since only finitely many names are in use, and no name is given twice.

What a target collects is kept under keys that are made from these names. A key that is made from a name
and a number can be read back, since a number has digits only: the name ends at the last mark.
-/

namespace SigmaQuery

open FaultM List

/-! ## Names with numbers -/

variable {n m : Nat} {name : String} {α : Type} {used : List String} {k : Key}

theorem isDigit_of_mem_toString {x : Char} (member : x ∈ (toString n).toList) :
    x.isDigit = true := by
  rw [Nat.toString_eq_repr, Nat.toList_repr] at member
  exact Nat.isDigit_of_mem_toDigits (by decide) (by decide) member

theorem toString_inj : toString m = toString n ↔ m = n := by
  constructor
  · intro same
    have digits := congrArg (fun s : String => Nat.ofDigitChars 10 s.toList 0) same
    simpa [Nat.toString_eq_repr, Nat.toList_repr] using digits
  · rintro rfl
    rfl

theorem numbered_inj : numbered name m = numbered name n ↔ m = n := by
  rw [numbered, numbered, String.append_right_inj, toString_inj]

/-- Lists that go on after a mark, which does not come again, agree before and after it. -/
theorem append_mark_inj {mark : α} {xs ys ds es : List α} (last : mark ∉ ds) (last' : mark ∉ es)
    (same : xs ++ mark :: ds = ys ++ mark :: es) : xs = ys ∧ ds = es := by
  -- the longer of the two beginnings would have its mark among what comes after the other mark
  rcases append_eq_append_iff.mp same with ⟨cs, rfl, rest⟩ | ⟨cs, rfl, rest⟩
  · cases cs with
    | nil =>
      rw [append_nil]
      exact ⟨rfl, (List.cons.inj rest).2⟩
    | cons c cs =>
      rw [cons_append] at rest
      rw [(List.cons.inj rest).2] at last
      exact absurd (mem_append_right cs mem_cons_self) last
  · cases cs with
    | nil =>
      rw [append_nil]
      exact ⟨rfl, (List.cons.inj rest).2.symm⟩
    | cons c cs =>
      rw [cons_append] at rest
      rw [(List.cons.inj rest).2] at last'
      exact absurd (mem_append_right cs mem_cons_self) last'

theorem marked_inj {a b : String} (same : a ++ "_" ++ toString m = b ++ "_" ++ toString n) :
    a = b ∧ m = n := by
  have unmarked : ∀ n : Nat, '_' ∉ (toString n).toList := by
    intro n member
    have digit := isDigit_of_mem_toString member
    revert digit
    decide
  have chars := congrArg String.toList same
  have line : ("_" : String).toList = ['_'] := rfl
  simp only [String.toList_append, line, append_assoc, singleton_append] at chars
  obtain ⟨names, numbers⟩ := append_mark_inj (unmarked m) (unmarked n) chars
  exact ⟨String.toList_inj.mp names, toString_inj.mp (String.toList_inj.mp numbers)⟩

/-! ## A name that is not in use -/

theorem exists_numbered_not_mem (used : List String) (name : String) :
    ∃ i < used.length + 1, numbered name (i + 2) ∉ used := by
  by_contra none
  push Not at none
  have distinct : ((List.range (used.length + 1)).map fun i => numbered name (i + 2)).Nodup := by
    apply List.Nodup.map _ nodup_range
    intro i j same
    have := numbered_inj.mp same
    omega
  have inside : ((List.range (used.length + 1)).map fun i => numbered name (i + 2)) ⊆ used := by
    intro n member
    obtain ⟨i, inRange, rfl⟩ := mem_map.mp member
    exact none i (mem_range.mp inRange)
  have fewer := (subperm_of_subset distinct inside).length_le
  rw [length_map, length_range] at fewer
  omega

/-- The name is the first that is free: the plain one, or the one with the smallest number from two
on. -/
def FirstFree (used : List String) (plain name : String) : Prop :=
  (plain ∉ used ∧ name = plain) ∨
    (plain ∈ used ∧ ∃ n, 2 ≤ n ∧ name = numbered plain n ∧ name ∉ used ∧
      ∀ m, 2 ≤ m → m < n → numbered plain m ∈ used)

theorem FirstFree.not_mem {plain : String} (free : FirstFree used plain name) : name ∉ used := by
  rcases free with ⟨unused, rfl⟩ | ⟨-, n, -, -, unused, -⟩
  · exact unused
  · exact unused

/-- The search for a number ends with the smallest that makes a new name. -/
theorem freshName_firstFree (used : List String) (plain : String) :
    FirstFree used plain (freshName used plain) := by
  rw [freshName]
  by_cases taken : plain ∈ used
  · rw [if_pos (contains_iff_mem.mpr taken), find?_map]
    obtain ⟨i, small, unused⟩ := exists_numbered_not_mem used plain
    have found : ((List.range (used.length + 1)).find?
        ((fun n => !used.contains n) ∘ fun i => numbered plain (i + 2))).isSome = true := by
      rw [find?_isSome]
      refine ⟨i, mem_range.mpr small, ?_⟩
      simpa using unused
    obtain ⟨k, first⟩ := Option.isSome_iff_exists.mp found
    rw [first, Option.map_some, Option.getD_some]
    obtain ⟨free, -, before⟩ := find?_range_eq_some.mp first
    refine .inr ⟨taken, k + 2, Nat.le_add_left 2 k, rfl, by simpa using free, ?_⟩
    intro m two smaller
    obtain ⟨j, rfl⟩ := Nat.exists_eq_add_of_le' two
    simpa using before j (by omega)
  · rw [if_neg (by simpa using taken)]
    exact .inl ⟨taken, rfl⟩

theorem freshName_not_mem (used : List String) (plain : String) : freshName used plain ∉ used :=
  (freshName_firstFree used plain).not_mem

/-! ## Naming rules one after another -/

/-- Names rules with these titles one after another: what becomes of each, and the names in use
afterwards. -/
def nameEach (used : List String) : List Value → List (Except Fault String) × List String
  | [] => ([], used)
  | title :: rest => match takeName used title with
    | .error e => (.error e :: (nameEach used rest).1, (nameEach used rest).2)
    | .ok taken => (.ok taken.1 :: (nameEach taken.2 rest).1, (nameEach taken.2 rest).2)

/-- What becomes of a title: a text gives a name, and anything else is a fault. -/
def NamedBy (title : Value) (outcome : Except Fault String) : Prop :=
  match title with
  | .text _ => ∃ name, outcome = .ok name
  | _ => outcome = .error .noPart

/-- Every title that is a text gives a name, and the names in use are those from before and those that
were given, which are all different. -/
theorem nameEach_spec (distinct : used.Nodup) (titles : List Value) :
    Forall₂ NamedBy titles (nameEach used titles).1 ∧
      (nameEach used titles).2 = used ++ (nameEach used titles).1.filterMap Except.toOption ∧
      (nameEach used titles).2.Nodup := by
  induction titles generalizing used with
  | nil => exact ⟨.nil, (append_nil _).symm, distinct⟩
  | cons title rest ih =>
    cases title with
    | text t =>
      have fresh := freshName_not_mem used (nameOfTitle t)
      have more : (used ++ [freshName used (nameOfTitle t)]).Nodup := by
        simpa using distinct.concat fresh
      obtain ⟨outcomes, names, nodup⟩ := ih more
      refine ⟨.cons ⟨_, rfl⟩ outcomes, ?_, nodup⟩
      show (nameEach _ rest).2 = _
      rw [names, append_assoc]
      rfl
    | _ =>
      obtain ⟨outcomes, names, nodup⟩ := ih distinct
      exact ⟨.cons rfl outcomes, names, nodup⟩

/-! ## Entries under new keys -/

theorem put_of_not_mem {entries : List (Key × α)} (new : k ∉ entries.map Prod.fst) (v : α) :
    put k v entries = entries ++ [(k, v)] := by
  induction entries with
  | nil => rfl
  | cons e rest ih =>
    obtain ⟨k', w⟩ := e
    rw [map_cons, mem_cons, not_or] at new
    rw [put, if_neg (Ne.symm new.1), ih new.2]
    rfl

theorem put_of_last {entries : List (Key × α)} (new : k ∉ entries.map Prod.fst) (v w : α) :
    put k v (entries ++ [(k, w)]) = entries ++ [(k, v)] := by
  induction entries with
  | nil => rw [nil_append, put, if_pos rfl]; rfl
  | cons e rest ih =>
    obtain ⟨k', u⟩ := e
    rw [map_cons, mem_cons, not_or] at new
    rw [cons_append, put, if_neg (Ne.symm new.1), ih new.2]
    rfl

/-- Names, and entries under keys that are made from them: the names are different, and so are the
keys. -/
structure Orderly (madeFrom : Key → String → Prop) (names : List String) (entries : Entries) : Prop where
  distinct : names.Nodup
  keys : (entries.map Prod.fst).Nodup
  named : ∀ k ∈ entries.map Prod.fst, ∃ name ∈ names, madeFrom k name

namespace Orderly

variable {madeFrom : Key → String → Prop} {names : List String} {entries : Entries} {name : String}

theorem nil : Orderly madeFrom [] [] :=
  ⟨.nil, .nil, fun _ member => absurd member not_mem_nil⟩

theorem key_not_mem (orderly : Orderly madeFrom names entries)
    (one : ∀ {k a b}, madeFrom k a → madeFrom k b → a = b) (new : name ∉ names) {k : Key}
    (made : madeFrom k name) : k ∉ entries.map Prod.fst := by
  intro member
  obtain ⟨name', old, made'⟩ := orderly.named k member
  rw [one made made'] at new
  exact new old

/-- A new name, and entries under different keys that are made from it, are put to the others. -/
theorem extend (orderly : Orderly madeFrom names entries)
    (one : ∀ {k a b}, madeFrom k a → madeFrom k b → a = b) (new : name ∉ names) {added : Entries}
    (keys : (added.map Prod.fst).Nodup) (made : ∀ k ∈ added.map Prod.fst, madeFrom k name) :
    Orderly madeFrom (names ++ [name]) (entries ++ added) where
  distinct := by simpa using orderly.distinct.concat new
  keys := by
    rw [map_append, nodup_append]
    refine ⟨orderly.keys, keys, ?_⟩
    rintro k inside _ last rfl
    exact orderly.key_not_mem one new (made k last) inside
  named := by
    intro k member
    rw [map_append, mem_append] at member
    rcases member with inside | last
    · obtain ⟨name', old, made'⟩ := orderly.named k inside
      exact ⟨name', mem_append_left _ old, made'⟩
    · exact ⟨name, mem_append_right _ mem_cons_self, made k last⟩

theorem extend_name (orderly : Orderly madeFrom names entries) (new : name ∉ names) :
    Orderly madeFrom (names ++ [name]) entries where
  distinct := by simpa using orderly.distinct.concat new
  keys := orderly.keys
  named := by
    intro k member
    obtain ⟨name', old, made⟩ := orderly.named k member
    exact ⟨name', mem_append_left _ old, made⟩

end Orderly

/-! ## A computation that names its rule -/

namespace GenerateM

variable {σ α β : Type}

/-- What of a target at work is not the document of its rule. -/
def besides (w : Work σ) : σ × List ParsedCondition :=
  (w.target, w.rule.conditions)

theorem keeps_entries : Keeps besides (entries : GenerateM σ Entries) := by
  refine keeps_get.bind fun w => ?_
  split
  · exact keeps_pure _
  · exact keeps_throw _

theorem keeps_entryOr (k : String) (default : Value) :
    Keeps besides (entryOr k default : GenerateM σ Value) :=
  keeps_entries.bind fun _ => Keeps.bind (fun _ => rfl) fun _ => keeps_pure _

theorem keeps_detectionEntryOr (k : String) (default : Value) :
    Keeps besides (detectionEntryOr k default : GenerateM σ Value) := by
  refine keeps_entries.bind fun es => ?_
  split
  · exact keeps_throw _
  · exact Keeps.bind (fun _ => rfl) fun _ => keeps_pure _
  · exact keeps_throw _

theorem keeps_logSource (c : Config) : Keeps besides (logSource c : GenerateM σ LogSource) := by
  intro w
  rw [start_logSource]

/-- A target with one more name. -/
def rename (used : σ → List String) (replace : List String → σ → σ) (name : String)
    (w : Work σ) : Work σ :=
  { w with target := replace (used w.target ++ [name]) w.target }

section

variable {used : σ → List String} {replace : List String → σ → σ} {w : Work σ}

theorem start_ruleName_of_title {title : String} (titled : w.rule.entry "title" = .ok (.text title)) :
    (ruleName used replace).start w = (.ok (freshName (used w.target) (nameOfTitle title)),
        rename used replace (freshName (used w.target) (nameOfTitle title)) w) := by
  have read := start_entry "title" w
  rw [titled] at read
  rw [ruleName, start_bind_of_ok read]
  rfl

theorem start_ruleName_of_no_title (untitled : ∀ title, w.rule.entry "title" ≠ .ok (.text title)) :
    ∃ e, (ruleName used replace).start w = (.error e, w) := by
  have read := start_entry "title" w
  rw [ruleName]
  cases found : w.rule.entry "title" with
  | error e =>
    rw [found] at read
    exact ⟨e, start_bind_of_error read⟩
  | ok title =>
    rw [found] at read
    rw [start_bind_of_ok read]
    cases title with
    | text t => exact absurd found (untitled t)
    | _ => exact ⟨.noPart, rfl⟩

/-- The computation fails and changes nothing, or it gives the rule a name that was not in use. After
that it changes nothing but the document, and it hands the name on. -/
def Names (used : σ → List String) (replace : List String → σ → σ) (nameOf : α → String)
    (shared : GenerateM σ α) (w : Work σ) : Prop :=
  (∃ e, shared.start w = (.error e, w)) ∨
  ∃ name, name ∉ used w.target ∧ besides (shared.start w).2 =
      (replace (used w.target ++ [name]) w.target, w.rule.conditions) ∧
    ∀ a, (shared.start w).1 = .ok a → nameOf a = name

theorem names_ruleName_bind {rest : String → GenerateM σ α} (nameOf : α → String)
    (hands : ∀ name x, Ensures (fun w => besides w = x) (fun a => nameOf a = name) (rest name))
    (w : Work σ) : Names used replace nameOf (ruleName used replace >>= rest) w := by
  by_cases titled : ∃ title, w.rule.entry "title" = .ok (.text title)
  · obtain ⟨title, titled⟩ := titled
    unfold Names
    rw [start_bind_of_ok (start_ruleName_of_title titled)]
    obtain ⟨kept, handed⟩ := hands _ _ (rename used replace _ w) rfl
    exact .inr ⟨_, freshName_not_mem _ _, kept, fun a ok => handed a _ (Prod.ext ok rfl)⟩
  · have untitled : ∃ e, (ruleName used replace).start w = (.error e, w) :=
      start_ruleName_of_no_title (not_exists.mp titled)
    obtain ⟨e, failed⟩ := untitled
    exact .inl ⟨e, start_bind_of_error failed⟩

/-- Something is done for all conditions of the rule. -/
def forConditions (shared : GenerateM σ α) (each : α → List ParsedCondition → GenerateM σ Unit) :
    GenerateM σ (Option String) := do
  let s ← shared
  each s (← conditions)
  return none

variable {shared : GenerateM σ α} {each : α → List ParsedCondition → GenerateM σ Unit}
  {nameOf : α → String}

/-- The rule fails before its first condition, with a name or without, or it comes to its
conditions. -/
theorem Names.start_forConditions (names : Names used replace nameOf shared w)
    (each : α → List ParsedCondition → GenerateM σ Unit) :
    (∃ e w', shared.start w = (.error e, w') ∧
      (forConditions shared each).start w = (.error e, w') ∧ (w'.target = w.target ∨
        ∃ name, name ∉ used w.target ∧ w'.target = replace (used w.target ++ [name]) w.target)) ∨
    ∃ s w', shared.start w = (.ok s, w') ∧ (forConditions shared each).start w =
        (do each s w.rule.conditions; return none : GenerateM σ (Option String)).start w' ∧
      nameOf s ∉ used w.target ∧ w'.target = replace (used w.target ++ [nameOf s]) w.target := by
  rcases names with ⟨e, failed⟩ | ⟨name, new, kept, hands⟩
  · exact .inl ⟨e, w, failed, start_bind_of_error failed, .inl rfl⟩
  · rcases found : shared.start w with ⟨e | s, w'⟩ <;> rw [found] at kept hands <;>
      obtain ⟨target, conditions⟩ := Prod.mk.inj kept
    · exact .inl ⟨e, w', rfl, start_bind_of_error found, .inr ⟨name, new, target⟩⟩
    · obtain rfl : nameOf s = name := hands s rfl
      refine .inr ⟨s, w', rfl, ?_, new, target⟩
      rw [forConditions, start_bind_of_ok found, start_bind_of_ok (start_conditions w'), conditions]

theorem Names.returns_each (names : Names used replace nameOf shared w)
    (returned : (forConditions shared each).Returns w) :
    ∃ s w', shared.start w = (.ok s, w') ∧ (each s w.rule.conditions).Returns w' := by
  obtain ⟨_, _, run⟩ := returned
  rcases names.start_forConditions each with ⟨e, w', -, failed, -⟩ | ⟨s, w', found, goes, -⟩
  · cases failed.symm.trans run
  · obtain ⟨_, _, served, -⟩ := start_bind_eq_ok.mp (goes.symm.trans run)
    exact ⟨s, w', found, _, _, served⟩

end

end GenerateM

end SigmaQuery
