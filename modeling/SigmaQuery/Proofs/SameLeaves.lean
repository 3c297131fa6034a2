import SigmaQuery.Proofs.Reduction

/-!
# Leaves that are the same

Leaves of condition trees are compared as data: numbers by what they count as, lists item by item. For
values that can stand in a set, and lists of such values, this is equality of a form of its own in which
every number is a decimal. So among them being the same is an equivalence.

Main statement: a node is the same as a leaf that can stand in a set exactly if the two have the same
form (`Cond.same_iff`).
-/

namespace SigmaQuery

namespace Value

/-! ## Values -/

/-- A single value, with a number as a decimal. -/
def canonicalScalar : Value → Value
  | .bool b => .decimal (.ofInt (if b then 1 else 0))
  | .int n => .decimal (.ofInt n)
  | v => v

/-- The value with its numbers as decimals, also in a list. -/
def canonical : Value → Value
  | .list vs => .list (vs.map canonicalScalar)
  | v => v.canonicalScalar

/-- The value can stand in a set, or it is a list of values that can. -/
def comparable : Value → Bool
  | .list vs => vs.all hashable
  | v => v.hashable

theorem comparable_of_hashable {v : Value} (h : v.hashable = true) : v.comparable = true := by
  cases v with
  | list vs => cases h
  | _ => exact h

theorem hashable_canonicalScalar (v : Value) : v.canonicalScalar.hashable = v.hashable := by
  cases v <;> rfl

theorem hashable_canonical (v : Value) : v.canonical.hashable = v.hashable := by
  cases v <;> rfl

theorem comparable_canonical (v : Value) : v.canonical.comparable = v.comparable := by
  cases v with
  | list vs => simp [canonical, comparable, Function.comp_def, hashable_canonicalScalar]
  | _ => rfl

theorem same_iff_of_hashable {v w : Value} (h : w.hashable = true) :
    v.same w = true ↔ v.canonicalScalar = w.canonicalScalar := by
  cases w with
  | list _ | map _ => cases h
  | _ => cases v <;> simp [same, number?, canonicalScalar] <;> exact eq_comm

theorem sameItems_iff {vs ws : List Value} (h : ∀ w ∈ ws, w.hashable = true) :
    sameItems vs ws = true ↔ vs.map canonicalScalar = ws.map canonicalScalar := by
  induction vs generalizing ws with
  | nil => cases ws <;> simp [sameItems]
  | cons v vs ih =>
    cases ws with
    | nil => simp [sameItems]
    | cons w ws =>
      obtain ⟨here, others⟩ := List.forall_mem_cons.mp h
      simp [sameItems, same_iff_of_hashable here, ih others]

/-- A value is the same as one that can be compared exactly if the two have the same form. -/
theorem same_iff {v w : Value} (h : w.comparable = true) :
    v.same w = true ↔ v.canonical = w.canonical := by
  cases w with
  | list ws =>
    rw [comparable, List.all_eq_true] at h
    cases v with
    | list vs => simp [same, canonical, sameItems_iff h]
    | _ => simp [same, number?, canonical, canonicalScalar]
  | map es => cases h
  | _ =>
    cases v with
    | list vs => simp [same, canonical, canonicalScalar]
    | _ => exact same_iff_of_hashable h

theorem same_congr {v w : Value} (same : v.same w = true) (h : w.comparable = true) (u : Value) :
    u.same v = u.same w := by
  have form := (same_iff h).mp same
  have comparable : v.comparable = true := by
    rw [← comparable_canonical, form, comparable_canonical, h]
  rw [Bool.eq_iff_iff, same_iff comparable, same_iff h, form]

end Value

namespace Cond

/-! ## Leaves -/

/-- The leaf with the numbers in it as decimals. -/
def canonical : Cond → Cond
  | .item f v => .item f.canonical v.canonical
  | .value v => .value v.canonical
  | c => c

/-- The node is compared as data: it is no condition, or a leaf that can stand in a set. -/
def comparable : Cond → Bool
  | .absent => true
  | .item f v => f.hashable && v.comparable
  | .value v => v.hashable
  | _ => false

theorem hashable_item_eq (f v : Value) : (Cond.item f v).hashable = (f.hashable && v.comparable) := by
  cases v <;> rfl

/-- A node is the same as a leaf that can stand in a set exactly if the two have the same form. -/
theorem same_iff {c x : Cond} (h : x.comparable = true) :
    c.same x = true ↔ c.canonical = x.canonical := by
  cases x with
  | absent => cases c <;> simp [same, canonical]
  | item f v =>
    rw [comparable, Bool.and_eq_true] at h
    have field := Value.comparable_of_hashable h.1
    cases c <;> simp [same, canonical, Value.same_iff field, Value.same_iff h.2]
  | value v =>
    have plain : v.comparable = true := Value.comparable_of_hashable h
    cases c <;> simp [same, canonical, Value.same_iff plain]
  | _ => cases h

theorem comparable_canonical (c : Cond) : c.canonical.comparable = c.comparable := by
  cases c with
  | item f v => simp only [canonical, comparable, Value.hashable_canonical, Value.comparable_canonical]
  | value v => exact Value.hashable_canonical v
  | _ => rfl

theorem comparable_of_same {c x : Cond} (same : c.same x = true) (h : x.comparable = true) :
    c.comparable = true := by
  rw [← comparable_canonical, (same_iff h).mp same, comparable_canonical, h]

theorem same_congr {c x : Cond} (same : c.same x = true) (h : x.comparable = true) (d : Cond) :
    d.same c = d.same x := by
  rw [Bool.eq_iff_iff, same_iff (comparable_of_same same h), same_iff h, (same_iff h).mp same]

theorem comparable_of_hashable {c x : Cond} (same : c.same x = true) (tree : x.unshared = true)
    (h : x.hashable = true) : x.comparable = true := by
  unfold Cond.same at same
  split at same
  · rfl
  · cases tree
  · rwa [hashable_item_eq] at h
  · exact h
  · cases same

theorem same_symm {c x : Cond} (same : c.same x = true) (tree : x.unshared = true)
    (h : x.hashable = true) : x.same c = true := by
  have leaf := comparable_of_hashable same tree h
  rw [same_iff (comparable_of_same same leaf), (same_iff leaf).mp same]

end Cond

end SigmaQuery
