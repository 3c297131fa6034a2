import Mathlib
import SigmaQuery.Proofs.GenerationSteps
import SigmaQuery.Proofs.QueryStringText

/-!
# The meaning of filters

A search request holds a filter: a test of one field, or a combination of filters. In a combination
all filters under `must` have to hold and none under `must_not`, and one under `should` unless there
is a filter under `must`. Which tests hold of an event is for the server to say.

The filter of a tree has the meaning of the tree. A time frame is added to the finished filter as one
more filter under `must`. A combination under `must` or `must_not` then means the tree within the time
frame. But a test is replaced, and the filters under `should` need no longer hold: nothing but the time
frame is left.
-/

namespace SigmaQuery

open List Cond GenerateM

/-- Below its brackets the tree is a conjunction, a negation or a test for an empty field. -/
def Cond.isRestriction : Cond → Bool
  | .all _ _ => true
  | .not _ => true
  | .isNull _ => true
  | .group inner => inner.isRestriction
  | _ => false

namespace Elastic.SearchRequest

open FaultM

/-! ## Filters -/

/-- What a part of a combination asks for, by its occurrence. -/
def Asks (occurrence : Key) (required : Bool) (each some : Prop) : Prop :=
  if occurrence = .text "must" then each
  else if occurrence = .text "must_not" then ¬ some
  else if occurrence = .text "should" then required = true ∨ some
  else True

theorem asks_must (required : Bool) (each some : Prop) :
    Asks (.text "must") required each some ↔ each := Iff.rfl

theorem asks_mustNot (required : Bool) (each some : Prop) :
    Asks (.text "must_not") required each some ↔ ¬ some := Iff.rfl

theorem asks_should (required : Bool) (each some : Prop) :
    Asks (.text "should") required each some ↔ required = true ∨ some := Iff.rfl

/-- The combination has a filter that must hold. -/
def requires (parts : Entries) : Bool :=
  match lookup (.text "must") parts with
  | none => false
  | some (.list []) => false
  | some _ => true

mutual

/-- The filter holds, given which tests do. -/
def Holds (test : Value → Prop) : Value → Prop
  | .map [(k, .map parts)] =>
    if k = .text "bool" then HoldParts test (requires parts) parts
    else test (.map [(k, .map parts)])
  | f => test f

/-- What all parts of a combination ask for holds. A part is a list of filters or a single one. -/
def HoldParts (test : Value → Prop) (required : Bool) : Entries → Prop
  | [] => True
  | (k, .list fs) :: rest =>
    Asks k required (AllHold test fs) (SomeHolds test fs) ∧ HoldParts test required rest
  | (k, f) :: rest => Asks k required (Holds test f) (Holds test f) ∧ HoldParts test required rest

/-- All of the filters hold. -/
def AllHold (test : Value → Prop) : List Value → Prop
  | [] => True
  | f :: rest => Holds test f ∧ AllHold test rest

/-- One of the filters holds. -/
def SomeHolds (test : Value → Prop) : List Value → Prop
  | [] => False
  | f :: rest => Holds test f ∨ SomeHolds test rest

end

section

variable (test : Value → Prop)

theorem holds_combination (parts : Entries) :
    Holds test (.map [(.text "bool", .map parts)]) ↔ HoldParts test (requires parts) parts :=
  Iff.rfl

theorem holds_boolean (occurrence : String) (filters : Value) :
    Holds test (boolean occurrence filters) ↔
      HoldParts test (requires [(.text occurrence, filters)]) [(.text occurrence, filters)] :=
  holds_combination test _

theorem holds_of_ne {kind : String} (other : kind ≠ "bool") (body : Value) :
    Holds test (record [(kind, body)]) ↔ test (record [(kind, body)]) := by
  cases body with
  | map parts => exact iff_of_eq (if_neg fun same => other (Key.text.inj same))
  | _ => exact Iff.rfl

theorem allHold_cons (f : Value) (rest : List Value) :
    AllHold test (f :: rest) ↔ Holds test f ∧ AllHold test rest := Iff.rfl

theorem someHolds_cons (f : Value) (rest : List Value) :
    SomeHolds test (f :: rest) ↔ Holds test f ∨ SomeHolds test rest := Iff.rfl

theorem holdParts_list (required : Bool) (k : Key) (fs : List Value) :
    HoldParts test required [(k, .list fs)] ↔ Asks k required (AllHold test fs) (SomeHolds test fs) :=
  and_iff_left trivial

/-- What a part asks for goes by its filters, whatever occurrence they have. -/
theorem exists_asks (filters : Value) : ∃ each some : Prop, ∀ required k,
    HoldParts test required [(k, filters)] ↔ Asks k required each some := by
  cases filters with
  | list fs => exact ⟨_, _, fun required k => holdParts_list test required k fs⟩
  | _ => exact ⟨Holds test _, Holds test _, fun _ _ => and_iff_left trivial⟩

theorem holdParts_cons (required : Bool) (k : Key) (filters : Value) (rest : Entries) :
    HoldParts test required ((k, filters) :: rest) ↔
      HoldParts test required [(k, filters)] ∧ HoldParts test required rest := by
  cases filters <;> exact and_congr_left' (and_iff_left trivial).symm

theorem holdParts_must (required : Bool) (fs : List Value) :
    HoldParts test required [(.text "must", .list fs)] ↔ AllHold test fs := by
  rw [holdParts_list, asks_must]

theorem holdParts_mustNot (required other : Bool) (filters : Value) :
    HoldParts test required [(.text "must_not", filters)] ↔
      HoldParts test other [(.text "must_not", filters)] := by
  obtain ⟨each, some, asks⟩ := exists_asks test filters
  rw [asks, asks, asks_mustNot, asks_mustNot]

theorem holdParts_should (filters : Value) :
    HoldParts test true [(.text "should", filters)] := by
  obtain ⟨each, some, asks⟩ := exists_asks test filters
  rw [asks, asks_should]
  exact .inl rfl

theorem holds_must (fs : List Value) :
    Holds test (boolean "must" (.list fs)) ↔ AllHold test fs := by
  rw [holds_boolean, holdParts_must]

theorem holds_should (fs : List Value) :
    Holds test (boolean "should" (.list fs)) ↔ SomeHolds test fs := by
  have optional : requires [(.text "should", .list fs)] = false := by
    simp [requires, lookup]
  rw [holds_boolean, optional, holdParts_list, asks_should]
  simp

theorem holds_mustNot (fs : List Value) :
    Holds test (boolean "must_not" (.list fs)) ↔ ¬ SomeHolds test fs := by
  rw [holds_boolean, holdParts_list, asks_mustNot]

theorem holds_mustNot_single (kind : String) (body : Value) :
    Holds test (boolean "must_not" (record [(kind, body)])) ↔ ¬ Holds test (record [(kind, body)]) := by
  rw [holds_boolean]
  exact (and_iff_left trivial).trans (asks_mustNot _ _ _)

theorem allHold_append (fs gs : List Value) :
    AllHold test (fs ++ gs) ↔ AllHold test fs ∧ AllHold test gs := by
  induction fs with
  | nil => exact (and_iff_right trivial).symm
  | cons f rest ih => rw [cons_append, allHold_cons, allHold_cons, ih, and_assoc]

theorem allHold_singleton (f : Value) : AllHold test [f] ↔ Holds test f :=
  and_iff_left trivial

/-! ## One more filter -/

theorem holds_require_must (fs : List Value) (range : Value) :
    Holds test (require (boolean "must" (.list fs)) [range]) ↔
      Holds test (boolean "must" (.list fs)) ∧ Holds test range := by
  have appended : require (boolean "must" (.list fs)) [range] =
      boolean "must" (.list (fs ++ [range])) := rfl
  rw [appended, holds_must, holds_must, allHold_append, allHold_singleton]

theorem holds_require_mustNot (filters range : Value) :
    Holds test (require (boolean "must_not" filters) [range]) ↔
      Holds test (boolean "must_not" filters) ∧ Holds test range := by
  have added : require (boolean "must_not" filters) [range] = .map [(.text "bool",
      .map [(.text "must_not", filters), (.text "must", .list [range])])] := rfl
  rw [added, holds_combination, holdParts_cons, holdParts_must, allHold_singleton, holds_boolean,
    holdParts_mustNot test _ (requires [(.text "must_not", filters)])]

theorem holds_require_should (filters range : Value) :
    Holds test (require (boolean "should" filters) [range]) ↔ Holds test range := by
  have added : require (boolean "should" filters) [range] = .map [(.text "bool",
      .map [(.text "should", filters), (.text "must", .list [range])])] := rfl
  have required : requires [(.text "should", filters), (.text "must", .list [range])] = true := rfl
  rw [added, holds_combination, required, holdParts_cons, holdParts_must, allHold_singleton]
  exact and_iff_right (holdParts_should test filters)

theorem holds_require_of_ne {kind : String} (other : kind ≠ "bool") (body range : Value) :
    Holds test (require (record [(kind, body)]) [range]) ↔ Holds test range := by
  have replaced : require (record [(kind, body)]) [range] = boolean "must" (.list [range]) := by
    simp [require, record, lookup, other]
  rw [replaced, holds_must, allHold_singleton]

end

/-! ## The filter of a tree -/

/-- The test for a value in a field. -/
def testOf (k : Keywords) (field v : Value) : Except Fault Value := do
  let key ← keyOf (← k.searched field v)
  return record [(if k.isKeyword field v then "wildcard" else "match_phrase", .map [(key, v)])]

/-- The tests of a target. They do not depend on the field that it looked at last. -/
def tests (s : SearchRequest) : Value → Value → Except Fault Value :=
  testOf s.keywords

/-- The filter of a field with its value. -/
def itemFilter (tests : Value → Value → Except Fault Value) (field v : Value) :
    Except Fault Value :=
  match v with
  | .list vs => (vs.mapM (tests field)).map fun fs => boolean "should" (.list fs)
  | .text _ => tests field v
  | .int _ => tests field v
  | _ => .error (.type (.mapValueOrList v.typeText))

mutual

/-- The filter of a tree in a rule with a title. -/
def filterOf (title : Value) (tests : Value → Value → Except Fault Value) :
    Cond → Except Fault Value
  | .all _ items => (filtersOf title tests items).map fun fs => boolean "must" (.list fs)
  | .any items => (filtersOf title tests items).map fun fs => boolean "should" (.list fs)
  | .not items => (filtersOf title tests items).map fun fs => boolean "must_not" (.list fs)
  | .isNull items => (testedField items).map fun f => boolean "must_not" (existsFilter f)
  | .notNull items => (testedField items).map existsFilter
  | .group inner => filterOf title tests inner
  | .seq _ => .error (.unoffered (.listNode title))
  | .item field v => itemFilter tests field v
  | .value (.text s) => .ok (anywhere (.text s))
  | .value (.int n) => .ok (anywhere (.int n))
  | .value (.list _) => .error (.unoffered (.listNode title))
  | c => .error (unexpectedNode c)

/-- The filters of several trees. -/
def filtersOf (title : Value) (tests : Value → Value → Except Fault Value) :
    List Cond → Except Fault (List Value)
  | [] => .ok []
  | c :: rest => do
    let f ← filterOf title tests c
    return f :: (← filtersOf title tests rest)

end

/-! ### Rendering -/

/-- A target that has looked at a field, which was a keyword field or not. -/
def afterField (matched : Bool) (s : SearchRequest) : SearchRequest :=
  { s with keywords := { s.keywords with matched } }

/-- From every state the computation has a result that goes by the title and the tests alone, and it
leaves nothing behind but the field that it looked at last. -/
def Computes {α : Type} (m : FaultM SearchRequest α)
    (result : Value → (Value → Value → Except Fault Value) → Except Fault α) : Prop :=
  ∀ s, ∃ b, m.start s = (result s.title s.tests, s.afterField b)

section

variable {α β γ : Type} {m : FaultM SearchRequest α} {k : FaultM SearchRequest β}
  {x : Value → (Value → Value → Except Fault Value) → Except Fault α}
  {y : Value → (Value → Value → Except Fault Value) → Except Fault β}

theorem computes_ofExcept (r : Except Fault α) : Computes (FaultM.ofExcept r) fun _ _ => r :=
  fun s => ⟨s.keywords.matched, rfl⟩

theorem Computes.map (h : Computes m x) (f : α → β) :
    Computes (do return f (← m)) fun title tests => (x title tests).map f := by
  intro s
  obtain ⟨b, run⟩ := h s
  refine ⟨b, ?_⟩
  beta_reduce
  cases result : x s.title s.tests with
  | error e =>
    rw [result] at run
    exact start_bind_of_error run
  | ok a =>
    rw [result] at run
    exact start_bind_of_ok run

/-- The second of two computations finds the title and the tests as they were. -/
theorem Computes.both (first : Computes m x) (next : Computes k y) (f : α → β → γ) :
    Computes (do let a ← m; return f a (← k)) fun title tests => do
      let a ← x title tests
      return f a (← y title tests) := by
  intro s
  beta_reduce
  obtain ⟨b, here⟩ := first s
  cases result : x s.title s.tests with
  | error e =>
    rw [result] at here
    exact ⟨b, start_bind_of_error here⟩
  | ok a =>
    rw [result] at here
    obtain ⟨b', there⟩ := (next.map (f a)) (s.afterField b)
    refine ⟨b', ?_⟩
    rw [start_bind_of_ok here, there]
    show ((y s.title s.tests).map (f a), _) = ((do return f a (← y s.title s.tests)), _)
    cases y s.title s.tests <;> rfl

end

theorem computes_leaf (field v : Value) : Computes (leaf field v) fun _ tests => tests field v := by
  intro s
  have named : (zoom keywords (fun k (t : SearchRequest) => { t with keywords := k })
      (Keywords.fieldName field v)).start s =
      (s.keywords.searched field v, s.afterField (s.keywords.isKeyword field v)) := by
    show (((Keywords.fieldName field v).start s.keywords).1,
      { s with keywords := ((Keywords.fieldName field v).start s.keywords).2 }) = _
    rw [Keywords.start_fieldName]
    rfl
  refine ⟨s.keywords.isKeyword field v, ?_⟩
  show _ = (testOf s.keywords field v, _)
  unfold leaf testOf
  cases found : s.keywords.searched field v with
  | error e =>
    rw [found] at named
    rw [start_bind_of_error named]
    rfl
  | ok name =>
    rw [found] at named
    rw [start_bind_of_ok named, start_bind_of_ok (start_get _)]
    show _ = ((do
      let key ← keyOf name
      return record [(if s.keywords.isKeyword field v then "wildcard" else "match_phrase",
        .map [(key, v)])]), _)
    cases keyOf name <;> rfl

theorem computes_leaves (field : Value) (vs : List Value) :
    Computes (leaves field vs) fun _ tests => vs.mapM (tests field) := by
  induction vs with
  | nil => exact computes_ofExcept (.ok [])
  | cons v rest ih =>
    simp only [mapM_cons]
    exact (computes_leaf field v).both ih (· :: ·)

theorem computes_item (field v : Value) :
    Computes (item field v) fun _ tests => itemFilter tests field v := by
  cases v with
  | list vs => exact (computes_leaves field vs).map _
  | text _ | int _ => exact computes_leaf field _
  | _ => exact computes_ofExcept (.error _)

theorem computes_refusal :
    Computes (α := Value) (do throw (.unoffered (.listNode (← get).title)))
      fun title _ => .error (.unoffered (.listNode title)) :=
  fun s => ⟨s.keywords.matched, rfl⟩

mutual

theorem computes_render (c : Cond) :
    Computes (render c) fun title tests => filterOf title tests c := by
  match c with
  | .all _ items | .any items | .not items =>
    simp only [render, filterOf]
    exact (computes_renderEach items).map _
  | .isNull items | .notNull items =>
    simp only [render, filterOf]
    exact (computes_ofExcept (testedField items)).map _
  | .group inner =>
    simp only [render, filterOf]
    exact computes_render inner
  | .item field v =>
    simp only [render, filterOf]
    exact computes_item field v
  | .seq _ | .value (.list _) =>
    simp only [render, filterOf]
    exact computes_refusal
  | .value (.text _) | .value (.int _) =>
    simp only [render, filterOf]
    exact computes_ofExcept (.ok _)
  | .absent | .token _ | .value .null | .value (.bool _) | .value (.decimal _) | .value (.map _) =>
    simp only [render, filterOf]
    exact computes_ofExcept (.error _)

theorem computes_renderEach (items : List Cond) :
    Computes (renderEach items) fun title tests => filtersOf title tests items := by
  match items with
  | [] =>
    simp only [renderEach, filtersOf]
    exact computes_ofExcept (.ok [])
  | c :: rest =>
    simp only [renderEach, filtersOf]
    exact (computes_render c).both (computes_renderEach rest) (· :: ·)

end

/-! ### The meaning of the filter of a tree -/

/-- The leaf holds, given which tests do. A field with a list of values has one of them. -/
def leafHolds (tests : Value → Value → Except Fault Value) (test : Value → Prop) : Cond → Prop
  | .item field (.list vs) => ∃ v ∈ vs, ∃ f, tests field v = .ok f ∧ test f
  | .item field v => ∃ f, tests field v = .ok f ∧ test f
  | .value v => test (anywhere v)
  | .isNull items => ∃ f, testedField items = .ok f ∧ ¬ test (existsFilter f)
  | .notNull items => ∃ f, testedField items = .ok f ∧ test (existsFilter f)
  | _ => False

section

variable {title field f v : Value} {k : Keywords} {test : Value → Prop}

theorem exists_of_testOf (made : testOf k field v = .ok f) :
    ∃ kind body, kind ≠ "bool" ∧ f = record [(kind, body)] := by
  unfold testOf at made
  cases found : k.searched field v with
  | error e =>
    rw [found] at made
    cases made
  | ok name =>
    rw [found] at made
    obtain ⟨key, -, rfl⟩ := map_eq_ok made
    refine ⟨_, _, ?_, rfl⟩
    split <;> decide

theorem holds_of_testOf (made : testOf k field v = .ok f) : Holds test f ↔ test f := by
  obtain ⟨kind, body, other, rfl⟩ := exists_of_testOf made
  exact holds_of_ne test other body

theorem someHolds_of_mapM {vs fs : List Value} (made : vs.mapM (testOf k field) = .ok fs) :
    SomeHolds test fs ↔ ∃ v ∈ vs, ∃ f, testOf k field v = .ok f ∧ test f := by
  induction vs generalizing fs with
  | nil =>
    cases made
    exact iff_of_false id (by simp)
  | cons v rest ih =>
    rw [mapM_cons] at made
    obtain ⟨f, here, made⟩ := FaultM.except_bind_eq_ok made
    obtain ⟨others, there, made⟩ := FaultM.except_bind_eq_ok made
    obtain rfl := Except.ok.inj made
    rw [someHolds_cons, ih there, holds_of_testOf here, exists_mem_cons_iff]
    simp [here]

theorem holds_of_itemFilter (made : itemFilter (testOf k) field v = .ok f) :
    Holds test f ↔ leafHolds (testOf k) test (.item field v) := by
  cases v with
  | list vs =>
    obtain ⟨fs, parts, rfl⟩ := map_eq_ok made
    rw [holds_should, someHolds_of_mapM parts, leafHolds]
  | text _ | int _ =>
    have made : testOf k field _ = .ok f := made
    rw [holds_of_testOf made, leafHolds, made]
    · simp
    · nofun
  | _ => cases made

mutual

theorem holds_of_filterOf {c : Cond} {f : Value} (made : filterOf title (testOf k) c = .ok f) :
    Holds test f ↔ c.holds (leafHolds (testOf k) test) := by
  match c with
  | .all _ items =>
    rw [filterOf] at made
    obtain ⟨fs, parts, rfl⟩ := map_eq_ok made
    rw [holds_must, (holds_of_filtersOf parts).1, holds]
  | .any items =>
    rw [filterOf] at made
    obtain ⟨fs, parts, rfl⟩ := map_eq_ok made
    rw [holds_should, (holds_of_filtersOf parts).2, holds]
  | .not items =>
    rw [filterOf] at made
    obtain ⟨fs, parts, rfl⟩ := map_eq_ok made
    rw [holds_mustNot, (holds_of_filtersOf parts).2, holds]
  | .isNull items =>
    rw [filterOf] at made
    obtain ⟨field, tested, rfl⟩ := map_eq_ok made
    rw [existsFilter, holds_mustNot_single, holds_of_ne test (by decide), holds, leafHolds, tested]
    · simp [existsFilter]
    all_goals nofun
  | .notNull items =>
    rw [filterOf] at made
    obtain ⟨field, tested, rfl⟩ := map_eq_ok made
    rw [existsFilter, holds_of_ne test (by decide), holds, leafHolds, tested]
    · simp [existsFilter]
    all_goals nofun
  | .group inner =>
    rw [filterOf] at made
    rw [holds]
    exact holds_of_filterOf made
  | .item field v =>
    rw [filterOf] at made
    rw [holds]
    · exact holds_of_itemFilter made
    all_goals nofun
  | .value (.text _) | .value (.int _) =>
    rw [filterOf] at made
    cases made
    rw [holds, leafHolds]
    · exact holds_of_ne test (by decide) _
    all_goals nofun
  | .seq _ | .value (.list _) | .absent | .token _ | .value .null | .value (.bool _)
  | .value (.decimal _) | .value (.map _) =>
    rw [filterOf] at made
    · cases made
    all_goals nofun

theorem holds_of_filtersOf {items : List Cond} {fs : List Value}
    (made : filtersOf title (testOf k) items = .ok fs) :
    (AllHold test fs ↔ allHold (leafHolds (testOf k) test) items) ∧
      (SomeHolds test fs ↔ someHolds (leafHolds (testOf k) test) items) := by
  match items with
  | [] =>
    rw [filtersOf] at made
    cases made
    exact ⟨Iff.rfl, Iff.rfl⟩
  | c :: rest =>
    rw [filtersOf] at made
    obtain ⟨f, here, made⟩ := FaultM.except_bind_eq_ok made
    obtain ⟨others, there, made⟩ := FaultM.except_bind_eq_ok made
    obtain rfl := Except.ok.inj made
    obtain ⟨all, some⟩ := holds_of_filtersOf there
    rw [allHold_cons, someHolds_cons, allHold, someHolds, all, some, holds_of_filterOf here]
    exact ⟨Iff.rfl, Iff.rfl⟩

end

/-- With one more filter, the filter of a tree means that one, and the tree too if the tree is a
restriction. -/
theorem holds_require {c : Cond} (made : filterOf title (testOf k) c = .ok f) (range : Value) :
    Holds test (require f [range]) ↔
      Holds test range ∧ (c.isRestriction = true → Holds test f) := by
  -- what is left of a tree that is no restriction
  have dropped : ∀ {p : Prop}, Holds test range ↔ Holds test range ∧ (false = true → p) := by simp
  match c with
  | .all _ items =>
    rw [filterOf] at made
    obtain ⟨fs, -, rfl⟩ := map_eq_ok made
    rw [holds_require_must, isRestriction, and_comm]
    simp
  | .not items =>
    rw [filterOf] at made
    obtain ⟨fs, -, rfl⟩ := map_eq_ok made
    rw [holds_require_mustNot, isRestriction, and_comm]
    simp
  | .isNull items =>
    rw [filterOf] at made
    obtain ⟨field, -, rfl⟩ := map_eq_ok made
    rw [holds_require_mustNot, isRestriction, and_comm]
    simp
  | .any items =>
    rw [filterOf] at made
    obtain ⟨fs, -, rfl⟩ := map_eq_ok made
    rw [holds_require_should]
    exact dropped
  | .notNull items =>
    rw [filterOf] at made
    obtain ⟨field, -, rfl⟩ := map_eq_ok made
    rw [existsFilter, holds_require_of_ne test (by decide)]
    exact dropped
  | .group inner =>
    rw [filterOf] at made
    rw [isRestriction]
    exact holds_require made range
  | .item field (.list vs) =>
    rw [filterOf] at made
    obtain ⟨fs, -, rfl⟩ := map_eq_ok made
    rw [holds_require_should]
    exact dropped
  | .item field (.text _) | .item field (.int _) =>
    rw [filterOf] at made
    obtain ⟨kind, body, other, rfl⟩ := exists_of_testOf made
    rw [holds_require_of_ne test other]
    exact dropped
  | .value (.text _) | .value (.int _) =>
    rw [filterOf] at made
    cases made
    rw [anywhere, holds_require_of_ne test (by decide)]
    exact dropped
  | .item _ .null | .item _ (.bool _) | .item _ (.decimal _) | .item _ (.map _) => cases made
  | .seq _ | .value (.list _) | .absent | .token _ | .value .null | .value (.bool _)
  | .value (.decimal _) | .value (.map _) =>
    rw [filterOf] at made
    · cases made
    all_goals nofun

end

/-! ## Requests -/

/-- The filter that a time frame adds, if there is a time frame. -/
def rangeOf (c : Config) (interval : Value) : Option (Except Fault Value) :=
  if interval.truthy then some ((keyOf (dateField c)).map (rangeFilter · interval)) else none

/-- A request, with counts if there are any. -/
def requestWith (counts : Option Value) (filter : Value) : Value :=
  record ([("query", record [("constant_score", record [("filter", filter)])])] ++ match counts with
    | some v => [("aggs", v)]
    | none => [])

/-- The counts of an aggregation. -/
def countsOf (title : Value) : Option Aggregation → Except Fault (Option Value)
  | none => .ok none
  | some a => match a.function with
    | some .count => .ok (a.group.map fun g => groupCounts g a)
    | some f => .error (.unoffered (.aggregationFunction title f.name))
    | none => .error .unset

/-- A request with its time frame, or what is left of it at a fault. -/
def framed (range : Option (Except Fault Value)) (finish : Value → Value) (filter : Value) :
    Except Fault Unit × Value :=
  match range with
  | none => (.ok (), finish filter)
  | some (.error e) => (.error e, finish (require filter []))
  | some (.ok r) => (.ok (), finish (require filter [r]))

/-- The request of a condition, or what is left of it at a fault. -/
def requestOf (title : Value) (tests : Value → Value → Except Fault Value)
    (range : Option (Except Fault Value)) (p : ParsedCondition) : Except Fault Unit × Value :=
  match filterOf title tests p.search with
  | .error e => (.error e, request (.map []))
  | .ok filter => match countsOf title p.aggregation with
    | .error e => (.error e, request filter)
    | .ok counts => framed range (requestWith counts) filter

/-- The requests of several conditions, up to the first fault. -/
def requestsOf (title : Value) (tests : Value → Value → Except Fault Value)
    (range : Option (Except Fault Value)) : List ParsedCondition → Except Fault Unit × List Value
  | [] => (.ok (), [])
  | p :: rest => match requestOf title tests range p with
    | (.error e, v) => (.error e, [v])
    | (.ok (), v) =>
      let (result, vs) := requestsOf title tests range rest
      (result, v :: vs)

/-- A target at work, which has looked at a field, with further requests. -/
def withRequests (w : Work SearchRequest) (b : Bool) (vs : List Value) : Work SearchRequest :=
  { w with target := { w.target.afterField b with queries := w.target.queries ++ vs } }

theorem start_setLast (w : Work SearchRequest) (b : Bool) (old new : Value) :
    (setLast new).start (withRequests w b [old]) = (.ok (), withRequests w b [new]) := by
  show (_, _) = _
  simp [withRequests]

/-- The counts of a condition that may have an aggregation. -/
def counted : Option Aggregation → GenerateM SearchRequest (Option Value)
  | some a => aggregation a
  | none => pure none

theorem start_counted (a : Option Aggregation) (w : Work SearchRequest) :
    (counted a).start w = (countsOf w.target.title a, w) := by
  cases a with
  | none => rfl
  | some a =>
    simp only [counted, aggregation, countsOf]
    rcases a.function with _ | f
    · rfl
    · cases f <;> rfl

/-- Completes the last request, whose filter is made. -/
def complete (c : Config) (filter : Value) (counts : Option Value) :
    GenerateM SearchRequest Unit := do
  setLast (requestWith counts filter)
  let interval := (← get).target.interval
  if interval.truthy then
    addTimeframe c (requestWith counts) interval filter

theorem addRequest_eq (c : Config) (p : ParsedCondition) :
    addRequest c p = (do
      modify fun w => withRequests w w.target.keywords.matched [request (.map [])]
      let filter ← target (render p.search)
      setLast (request filter)
      complete c filter (← counted p.aggregation)) := by
  obtain ⟨search, a⟩ := p
  cases a <;> rfl

theorem start_addTimeframe (c : Config) (finish : Value → Value) {interval : Value}
    (timed : interval.truthy = true) (filter old : Value) (w : Work SearchRequest) (b : Bool) :
    (addTimeframe c finish interval filter).start (withRequests w b [old]) =
      ((framed (rangeOf c interval) finish filter).1,
        withRequests w b [(framed (rangeOf c interval) finish filter).2]) := by
  rw [addTimeframe, start_bind_of_ok (start_setLast w b old _), rangeOf, if_pos timed]
  cases keyOf (dateField c) with
  | error e => rfl
  | ok key =>
    rw [start_bind_of_ok (start_ofExcept _ _)]
    exact start_setLast w b _ _

theorem start_complete (c : Config) (filter : Value) (counts : Option Value) (old : Value)
    (w : Work SearchRequest) (b : Bool) :
    (complete c filter counts).start (withRequests w b [old]) =
      ((framed (rangeOf c w.target.interval) (requestWith counts) filter).1, withRequests w b
          [(framed (rangeOf c w.target.interval) (requestWith counts) filter).2]) := by
  rw [complete, start_bind_of_ok (start_setLast w b old _), start_bind_of_ok (start_get _)]
  by_cases timed : w.target.interval.truthy = true
  · exact (congrArg (fun m => FaultM.start m _) (if_pos timed)).trans
      (start_addTimeframe c _ timed filter _ w b)
  · rw [rangeOf, if_neg timed]
    exact congrArg (fun m => FaultM.start m _) (if_neg timed)

theorem start_addRequest (c : Config) (p : ParsedCondition) (w : Work SearchRequest) :
    ∃ b, (addRequest c p).start w =
      ((requestOf w.target.title w.target.tests (rangeOf c w.target.interval) p).1, withRequests w b
          [(requestOf w.target.title w.target.tests (rangeOf c w.target.interval) p).2]) := by
  -- the new request stands at the end while its filter is made
  let begun := withRequests w w.target.keywords.matched [request (.map [])]
  obtain ⟨b, rendered⟩ := computes_render p.search begun.target
  have searched : (target (render p.search)).start begun =
      (filterOf w.target.title w.target.tests p.search, withRequests w b [request (.map [])]) := by
    rw [start_target, rendered]
    rfl
  have begins : (modify fun w => withRequests w w.target.keywords.matched [request (.map [])] :
      GenerateM SearchRequest PUnit).start w = (.ok ⟨⟩, begun) := rfl
  refine ⟨b, ?_⟩
  rw [addRequest_eq, start_bind_of_ok begins, requestOf]
  cases made : filterOf w.target.title w.target.tests p.search with
  | error e =>
    rw [made] at searched
    exact start_bind_of_error searched
  | ok filter =>
    rw [made] at searched
    rw [start_bind_of_ok searched, start_bind_of_ok (start_setLast w b _ _)]
    have counts : (counted p.aggregation).start (withRequests w b [request filter]) =
        (countsOf w.target.title p.aggregation, withRequests w b [request filter]) :=
      start_counted p.aggregation _
    cases found : countsOf w.target.title p.aggregation with
    | error e =>
      rw [found] at counts
      exact start_bind_of_error counts
    | ok v =>
      rw [found] at counts
      rw [start_bind_of_ok counts]
      exact start_complete c filter v _ w b

theorem withRequests_withRequests (w : Work SearchRequest) (b b' : Bool) (us vs : List Value) :
    withRequests (withRequests w b us) b' vs = withRequests w b' (us ++ vs) := by
  simp [withRequests, afterField]

theorem start_addRequests (c : Config) (ps : List ParsedCondition) (w : Work SearchRequest) :
    ∃ b, (addRequests c ps).start w =
      ((requestsOf w.target.title w.target.tests (rangeOf c w.target.interval) ps).1,
        withRequests w b
          (requestsOf w.target.title w.target.tests (rangeOf c w.target.interval) ps).2) := by
  induction ps generalizing w with
  | nil =>
    refine ⟨w.target.keywords.matched, ?_⟩
    simp [addRequests, requestsOf, withRequests, afterField]
  | cons p rest ih =>
    obtain ⟨b, first⟩ := start_addRequest c p w
    rw [addRequests, requestsOf]
    rcases made : requestOf w.target.title w.target.tests (rangeOf c w.target.interval) p with ⟨e | _, v⟩
    · rw [made] at first
      exact ⟨b, start_bind_of_error first⟩
    · rw [made] at first
      obtain ⟨b', others⟩ := ih (withRequests w b [v])
      refine ⟨b', ?_⟩
      rw [start_bind_of_ok first, others, withRequests_withRequests]
      rfl

/-- The target once the title, the log source and the time frame of a rule are known. -/
def informed (s : SearchRequest) (title : Value) (source : LogSource) (document : Value) :
    SearchRequest :=
  { s with title, indices := some source.index, interval := (timeframe? document).getD s.interval }

variable {c : Config} {title : Value} {tests : Value → Value → Except Fault Value}
  {s : SearchRequest}

theorem start_generate_of_no_source {r : Rule} {e : Fault}
    (titled : r.entry "title" = .ok title) (unsourced : r.source c = .error e) :
    (generate c).start ⟨s, r⟩ = (.error e, ⟨{ s with title }, r⟩) := by
  have entered : (entry "title").start ⟨s, r⟩ = (.ok title, ⟨s, r⟩) := by
    rw [start_entry, titled]
  have looked : (logSource c).start ⟨{ s with title }, r⟩ = (.error e, ⟨{ s with title }, r⟩) := by
    rw [start_logSource, unsourced]
  have named : (modify fun w => { w with target := { w.target with title } } :
      GenerateM SearchRequest PUnit).start ⟨s, r⟩ = (.ok ⟨⟩, ⟨{ s with title }, r⟩) := rfl
  rw [generate, start_bind_of_ok entered, start_bind_of_ok named, start_bind_of_error looked]

theorem start_generate {r : Rule} {source : LogSource}
    (titled : r.entry "title" = .ok title) (sourced : r.source c = .ok source) :
    (generate c).start ⟨s, r⟩ =
      (do addRequests c r.conditions; return none : GenerateM SearchRequest (Option String)).start
        ⟨s.informed title source r.document, r⟩ := by
  have entered : (entry "title").start ⟨s, r⟩ = (.ok title, ⟨s, r⟩) := by
    rw [start_entry, titled]
  have looked : (logSource c).start ⟨{ s with title }, r⟩ =
      (.ok source, ⟨{ s with title }, r⟩) := by
    rw [start_logSource, sourced]
  have named : (modify fun w => { w with target := { w.target with title } } :
      GenerateM SearchRequest PUnit).start ⟨s, r⟩ = (.ok ⟨⟩, ⟨{ s with title }, r⟩) := rfl
  rw [generate, start_bind_of_ok entered, start_bind_of_ok named, start_bind_of_ok looked, informed]
  show (match timeframe? r.document with
    | some interval => _
    | none => _ : GenerateM SearchRequest _).start _ = _
  cases timeframe? r.document <;> rfl

/-! ## A rule with a time frame -/

/-- The filter of a condition, within a time frame if there is one. -/
def within (range : Option Value) (filter : Value) : Value :=
  match range with
  | none => filter
  | some r => require filter [r]

/-- The filter for the time frame of a rule; there is none if it is nothing. -/
def rangeOf? (date : Key) (interval : Value) : Option Value :=
  if interval.truthy then some (rangeFilter date interval) else none

theorem rangeOf_eq {date : Key} (dated : keyOf (dateField c) = .ok date) (interval : Value) :
    rangeOf c interval = (rangeOf? date interval).map .ok := by
  rw [rangeOf, rangeOf?, dated]
  by_cases timed : interval.truthy = true
  · rw [if_pos timed, if_pos timed]
    rfl
  · rw [if_neg timed, if_neg timed]
    rfl

theorem requestOf_of_filter {p : ParsedCondition} {filter : Value}
    (made : filterOf title tests p.search = .ok filter) (plain : p.aggregation = none)
    (range : Option Value) :
    requestOf title tests (range.map .ok) p = (.ok (), request (within range filter)) := by
  rw [requestOf, made, plain]
  cases range <;> rfl

/-- Conditions without aggregations whose filters can be made have a request each. -/
theorem requestsOf_of_filters {ps : List ParsedCondition} (range : Option Value)
    (plain : ∀ p ∈ ps, p.aggregation = none)
    (made : ∀ p ∈ ps, ∃ f, filterOf title tests p.search = .ok f) :
    ∃ filters, requestsOf title tests (range.map .ok) ps =
        (.ok (), filters.map fun f => request (within range f)) ∧
      Forall₂ (fun p f => filterOf title tests p.search = .ok f) ps filters := by
  induction ps with
  | nil => exact ⟨[], rfl, .nil⟩
  | cons p rest ih =>
    rw [forall_mem_cons] at plain made
    obtain ⟨filter, first⟩ := made.1
    obtain ⟨filters, others, each⟩ := ih plain.2 made.2
    refine ⟨filter :: filters, ?_, .cons first each⟩
    rw [requestsOf, requestOf_of_filter first plain.1]
    show ((requestsOf title tests (range.map .ok) rest).1,
      _ :: (requestsOf title tests (range.map .ok) rest).2) = _
    rw [others]
    rfl

theorem holds_within {k : Keywords} {c : Cond} {f : Value}
    (made : filterOf title (testOf k) c = .ok f) (date : Key) (interval : Value)
    (test : Value → Prop) : Holds test (within (rangeOf? date interval) f) ↔
      (interval.truthy = true → test (rangeFilter date interval)) ∧
        ((interval.truthy = true → c.isRestriction = true) → c.holds (leafHolds (testOf k) test)) := by
  by_cases timed : interval.truthy = true
  · have range : Holds test (rangeFilter date interval) ↔ test (rangeFilter date interval) :=
      holds_of_ne test (by decide) _
    rw [rangeOf?, if_pos timed, within, holds_require made, range, holds_of_filterOf made]
    simp only [timed, true_imp_iff]
  · rw [rangeOf?, if_neg timed, within, holds_of_filterOf made]
    simp only [timed, Bool.false_eq_true, false_imp_iff, true_imp_iff, true_and]

/-- **A rule with a time frame**: let a rule have a title, a log source and a time frame, and
conditions without aggregations whose searches the target accepts. It adds a request for each
condition. The filter of the request holds if the event is within the time frame and, where the search
is a conjunction, a negation or a test for an empty field, the search holds. Any other search is lost:
nothing but the time frame decides. A time frame that is nothing leaves the search as it is. -/
theorem generate_timeframe {config : Config} {s : SearchRequest} {r : Rule} {title interval : Value}
    {source : LogSource} {date : Key} (titled : r.entry "title" = .ok title)
    (sourced : r.source config = .ok source) (timed : timeframe? r.document = some interval)
    (dated : keyOf (dateField config) = .ok date)
    (plain : ∀ p ∈ r.conditions, p.aggregation = none)
    (accepted : ∀ p ∈ r.conditions, (render p.search).Returns { s with title }) :
    ∃ s' filters, (Target.esDsl s).generate config r = ⟨.ok none, .esDsl s', r⟩ ∧
      s'.queries = s.queries ++ filters.map request ∧
      List.Forall₂ (fun p filter => ∀ test : Value → Prop, Holds test filter ↔
        (interval.truthy = true → test (rangeFilter date interval)) ∧
          ((interval.truthy = true → p.search.isRestriction = true) →
            p.search.holds (leafHolds s.tests test))) r.conditions filters := by
  have made : ∀ p ∈ r.conditions, ∃ f, filterOf title s.tests p.search = .ok f := by
    intro p member
    obtain ⟨f, t, run⟩ := accepted p member
    obtain ⟨b, rendered⟩ := computes_render p.search { s with title }
    exact ⟨f, congrArg Prod.fst (rendered.symm.trans run)⟩
  obtain ⟨filters, requests, each⟩ :=
    requestsOf_of_filters (rangeOf? date interval) plain made
  obtain ⟨b, added⟩ :=
    start_addRequests config r.conditions ⟨s.informed title source r.document, r⟩
  have frame : (s.informed title source r.document).interval = interval := by
    rw [informed, timed]
    rfl
  have range : rangeOf config (s.informed title source r.document).interval =
      (rangeOf? date interval).map .ok := by
    rw [frame, rangeOf_eq dated]
  have run : (addRequests config r.conditions).start ⟨s.informed title source r.document, r⟩ =
      (.ok (), withRequests ⟨s.informed title source r.document, r⟩ b
        (filters.map fun f => request (within (rangeOf? date interval) f))) := by
    rw [added, range]
    show ((requestsOf title s.tests _ r.conditions).1,
      withRequests _ b (requestsOf title s.tests _ r.conditions).2) = _
    rw [requests]
  have generated := (start_generate titled sourced).trans (start_bind_of_ok run)
  refine ⟨(withRequests ⟨s.informed title source r.document, r⟩ b
    (filters.map fun f => request (within (rangeOf? date interval) f))).target,
    filters.map (within (rangeOf? date interval)), ?_, ?_, ?_⟩
  · show Target.runGeneration .esDsl (generate config) s r = _
    rw [Target.runGeneration, generated]
    rfl
  · show s.queries ++ _ = _
    rw [List.map_map]
    rfl
  · rw [List.forall₂_map_right_iff]
    exact each.imp fun p f made => holds_within made date interval

/-- A new target without options. -/
def plain : SearchRequest :=
  .new (Options.withDefaults optionSpecs [])

/-- A rule with a definition, a time frame and two conditions. -/
def timedRule : Rule where
  document := .map [("title", "A"), ("logsource", .map [("product", "p")]), ("detection",
    .map [("sel", .map [("f", "v"), ("g", "w")]), ("other", .map [("f", "v")]), ("timeframe", "5m"),
      ("condition", .list ["sel", "other"])])]
  detection :=
    { definitions :=
        [("sel", .map [("f", "v"), ("g", "w")]), ("other", .map [("f", "v")]), ("timeframe", "5m")]
      values := [("f", ["v"]), ("g", ["w"])] }
  conditions :=
    [⟨.group (.all none [.item "f" "v", .item "g" "w"]), none⟩, ⟨.item "f" "v", none⟩]

/-- A phrase in a field. -/
def phrase (field value : String) : Value :=
  record [("match_phrase", .map [(.text field, .text value)])]

/-- Of two conditions the conjunction is kept within the time frame, and the test is lost. -/
theorem generate_timeframe_sample :
    ∃ s' conjunction single, (Target.esDsl plain).generate .empty timedRule =
        ⟨.ok none, .esDsl s', timedRule⟩ ∧ s'.queries = [request conjunction, request single] ∧
      ∀ test : Value → Prop,
        (Holds test conjunction ↔
          test (rangeFilter "date" "5m") ∧ test (phrase "f" "v") ∧ test (phrase "g" "w")) ∧
        (Holds test single ↔ test (rangeFilter "date" "5m")) := by
  have titled : timedRule.entry "title" = .ok "A" := by cbv
  have sourced : timedRule.source .empty = .ok {} := by cbv
  have timed : timeframe? timedRule.document = some "5m" := by cbv
  have dated : keyOf (dateField .empty) = .ok "date" := by cbv
  have accepted : ∀ p ∈ timedRule.conditions, (render p.search).Returns { plain with title := "A" } := by
    rw [timedRule, List.forall_mem_cons, List.forall_mem_singleton]
    exact ⟨⟨_, _, by cbv⟩, ⟨_, _, by cbv⟩⟩
  obtain ⟨s', filters, generated, queries, each⟩ :=
    generate_timeframe titled sourced timed dated (by simp [timedRule]) accepted
  rcases each with _ | ⟨first, _ | ⟨second, _ | _⟩⟩
  refine ⟨s', _, _, generated, queries, fun test => ⟨?_, ?_⟩⟩
  · have f : plain.tests "f" "v" = .ok (phrase "f" "v") := by cbv
    have g : plain.tests "g" "w" = .ok (phrase "g" "w") := by cbv
    rw [first test]
    simp [Cond.isRestriction, Cond.holds, Cond.allHold, leafHolds, f, g, Value.truthy]
  · rw [second test]
    simp [Cond.isRestriction, Value.truthy]

/-- A rule that searches for a value in one field, within a time frame. -/
def timedField : Rule where
  document := .map [("title", "A"), ("logsource", .map [("product", "p")]), ("detection",
    .map [("sel", .map [("f", "v")]), ("timeframe", "5m"), ("condition", "sel")])]
  detection :=
    { definitions := [("sel", .map [("f", "v")]), ("timeframe", "5m")], values := [("f", ["v"])] }
  conditions := [⟨.item "f" "v", none⟩]

/-- The filter of a rule for one field holds within the time frame whatever the field is. -/
theorem generate_timeframe_loses_field :
    ∃ s' filter, (Target.esDsl plain).generate .empty timedField =
        ⟨.ok none, .esDsl s', timedField⟩ ∧ s'.queries = [request filter] ∧
      ∃ test : Value → Prop, Holds test filter ∧
        ¬ (Cond.item "f" "v").holds (leafHolds plain.tests test) := by
  refine ⟨_, boolean "must" (.list [rangeFilter "date" "5m"]), by cbv, by cbv,
    (· = rangeFilter "date" "5m"), ?_, ?_⟩
  · rw [holds_must, allHold_singleton]
    exact (holds_of_ne _ (by decide) _).mpr rfl
  · have f : plain.tests "f" "v" = .ok (phrase "f" "v") := by cbv
    simp [Cond.holds, leafHolds, f, phrase, rangeFilter, record]

end Elastic.SearchRequest

end SigmaQuery
