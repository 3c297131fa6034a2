import SigmaQuery.Collection.Basic

/-!
# Decidable equality

Values, condition trees, sections and what is made of them can be compared. So the outcome of the
program on a closed input is settled by running it.
-/

namespace SigmaQuery

open Cond

mutual

/-- The two values are equal. -/
def Value.isEq : Value → Value → Bool
  | .null, .null => true
  | .bool a, .bool b => a == b
  | .int m, .int n => m == n
  | .decimal a, .decimal b => a == b
  | .text s, .text t => s == t
  | .list xs, .list ys => Value.areEq xs ys
  | .map es, .map fs => Value.entriesEq es fs
  | _, _ => false

@[inherit_doc Value.isEq]
def Value.areEq : List Value → List Value → Bool
  | [], [] => true
  | x :: xs, y :: ys => x.isEq y && Value.areEq xs ys
  | _, _ => false

@[inherit_doc Value.isEq]
def Value.entriesEq : Entries → Entries → Bool
  | [], [] => true
  | (k, x) :: es, (l, y) :: fs => k == l && x.isEq y && Value.entriesEq es fs
  | _, _ => false

end

mutual

theorem Value.isEq_iff (v w : Value) : v.isEq w = true ↔ v = w := by
  cases v with
  | list xs => cases w <;> simp [Value.isEq, Value.areEq_iff xs]
  | map es => cases w <;> simp [Value.isEq, Value.entriesEq_iff es]
  | _ => cases w <;> simp [Value.isEq]

theorem Value.areEq_iff (xs ys : List Value) : Value.areEq xs ys = true ↔ xs = ys := by
  cases xs with
  | nil => cases ys <;> simp [Value.areEq]
  | cons x xs => cases ys <;> simp [Value.areEq, Value.isEq_iff x, Value.areEq_iff xs]

theorem Value.entriesEq_iff (es fs : Entries) : Value.entriesEq es fs = true ↔ es = fs := by
  cases es with
  | nil => cases fs <;> simp [Value.entriesEq]
  | cons e es =>
    obtain ⟨k, x⟩ := e
    cases fs with
    | nil => simp [Value.entriesEq]
    | cons f fs => simp [Value.entriesEq, Value.isEq_iff x, Value.entriesEq_iff es, Prod.ext_iff]

end

instance : DecidableEq Value := fun v w => decidable_of_iff _ (v.isEq_iff w)

mutual

/-- The two trees are equal. -/
def Cond.isEq : Cond → Cond → Bool
  | .absent, .absent => true
  | .all o ts, .all p us => o == p && areEq ts us
  | .any ts, .any us | .not ts, .not us | .isNull ts, .isNull us | .notNull ts, .notNull us
  | .seq ts, .seq us => areEq ts us
  | .group t, .group u => t.isEq u
  | .item f v, .item g w => f == g && v == w
  | .value v, .value w => v == w
  | .token t, .token u => t == u
  | _, _ => false

@[inherit_doc isEq]
def Cond.areEq : List Cond → List Cond → Bool
  | [], [] => true
  | t :: ts, u :: us => t.isEq u && areEq ts us
  | _, _ => false

end

mutual

theorem Cond.isEq_iff (t u : Cond) : t.isEq u = true ↔ t = u := by
  cases t with
  | all _ ts | any ts | not ts | isNull ts | notNull ts | seq ts =>
    cases u <;> simp [isEq, areEq_iff ts]
  | group t => cases u <;> simp [isEq, isEq_iff t]
  | _ => cases u <;> simp [isEq]

theorem Cond.areEq_iff (ts us : List Cond) : areEq ts us = true ↔ ts = us := by
  cases ts with
  | nil => cases us <;> simp [areEq]
  | cons t ts => cases us <;> simp [areEq, isEq_iff t, areEq_iff ts]

end

instance : DecidableEq Cond := fun t u => decidable_of_iff _ (t.isEq_iff u)

mutual

/-- The two sections are equal. -/
def Section.isEq : Section → Section → Bool
  | .value v, .value w => v == w
  | .map m es, .map n fs => m == n && Section.areEq es fs
  | _, _ => false

@[inherit_doc Section.isEq]
def Section.areEq : Sections → Sections → Bool
  | [], [] => true
  | (k, x) :: es, (l, y) :: fs => k == l && x.isEq y && Section.areEq es fs
  | _, _ => false

end

mutual

theorem Section.isEq_iff (x y : Section) : x.isEq y = true ↔ x = y := by
  cases x with
  | value v => cases y <;> simp [Section.isEq]
  | map m es => cases y <;> simp [Section.isEq, Section.areEq_iff es]

theorem Section.areEq_iff (es fs : Sections) : Section.areEq es fs = true ↔ es = fs := by
  cases es with
  | nil => cases fs <;> simp [Section.areEq]
  | cons e es =>
    obtain ⟨k, x⟩ := e
    cases fs with
    | nil => simp [Section.areEq]
    | cons f fs => simp [Section.areEq, Section.isEq_iff x, Section.areEq_iff es, Prod.ext_iff]

end

instance : DecidableEq Section := fun x y => decidable_of_iff _ (x.isEq_iff y)

instance decidableEqExcept {ε α : Type} [DecidableEq ε] [DecidableEq α] : DecidableEq (Except ε α)
  | .error e, .error e' => decidable_of_iff (e = e') (by simp)
  | .ok a, .ok b => decidable_of_iff (a = b) (by simp)
  | .error _, .ok _ => .isFalse (by simp)
  | .ok _, .error _ => .isFalse (by simp)

deriving instance DecidableEq for ParseFault, ConfigFault, FilterFault, Unsupported, Unoffered,
  TypeFault, ValueFault, Fault

deriving instance DecidableEq for Loss, LogSource, MappingCase, FieldMapping, Config, NearTerms,
  Aggregation, Detection, ParsedCondition, Rule, CollectedRule, Collection

end SigmaQuery
