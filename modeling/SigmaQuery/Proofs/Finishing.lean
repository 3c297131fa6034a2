import SigmaQuery.Proofs.Definitions
import SigmaQuery.Proofs.LeftoverTokens
import SigmaQuery.Proofs.RunLength

/-!
# Parts of the parser that finish

A search that would not end is reported by a fault of its own. Of all that the parser is made of, only
the reduction of operators between operands gives this fault: reading definitions does not, nor does
merging log sources, and the simplification of a tree does not either.
-/

namespace SigmaQuery

open FaultM FieldMapping

/-- The computation does not report that it would not end. -/
def Finishes {α : Type} (m : ConfigM α) : Prop :=
  ∀ c, (m.start c).1 ≠ .error .endless

section Finishes

variable {α β : Type} {r : Except Fault α} {e : Fault}

theorem finishes_pure (a : α) : Finishes (pure a) := by
  intro c failed
  cases failed

theorem finishes_ofExcept (h : r ≠ .error .endless) : Finishes (FaultM.ofExcept r) :=
  fun _ => h

theorem finishes_throw (h : e ≠ .endless) : Finishes (throw e : ConfigM α) := by
  intro c failed
  exact h (Except.error.inj failed)

theorem finishes_get : Finishes get := by
  intro c failed
  cases failed

theorem finishes_set (c : Config) : Finishes (set c : ConfigM PUnit) := by
  intro c failed
  cases failed

theorem Finishes.bind {m : ConfigM α} {f : α → ConfigM β} (first : Finishes m)
    (next : ∀ a, Finishes (f a)) : Finishes (m >>= f) := by
  intro c
  rcases run : m.start c with ⟨e | a, c'⟩
  · rw [start_bind_of_error run]
    have := first c
    rw [run] at this
    simpa using this
  · rw [start_bind_of_ok run]
    exact next a c'

theorem error_ne_endless (failed : r = .error e)
    (h : r ≠ .error .endless) : (.error e : Except Fault β) ≠ .error .endless := by
  rw [failed] at h
  intro same
  exact h (congrArg Except.error (Except.error.inj same))

theorem map_ne_endless (h : r ≠ .error .endless) (f : α → β) : r.map f ≠ .error .endless := by
  cases r with
  | error e => simpa [Except.map] using h
  | ok a => simp [Except.map]

end Finishes

/-! ## Definitions -/

theorem Config.fieldMapping_ne_endless (c : Config) (field : Value) :
    c.fieldMapping field ≠ .error .endless := by
  have own : ofTarget field .null ≠ .error .endless := by
    cases field <;> simp [ofTarget]
  unfold Config.fieldMapping
  split
  · simp
  · exact own
  · split
    · simp
    · exact own

theorem FieldMapping.resolve_ne_endless (m : FieldMapping) (field value : Value)
    (values : FieldValues) : m.resolve field value values ≠ .error .endless := by
  cases m with
  | simple target | multi targets => simp [resolve]
  | conditional document cases default =>
    simp only [resolve]
    split
    · simp
    · split
      · split <;> simp
      · simp
      · simp

theorem finishes_resolve (field value : Value) (values : FieldValues) :
    Finishes (Config.resolve field value values) := by
  unfold Config.resolve
  apply finishes_get.bind
  intro c
  split
  · rename_i e failed
    apply finishes_throw
    rintro rfl
    exact c.fieldMapping_ne_endless field failed
  · exact finishes_throw (by simp)
  · rename_i m found
    split
    · rename_i e failed
      apply finishes_throw
      rintro rfl
      exact m.resolve_ne_endless field value values failed
    · exact (finishes_set _).bind fun _ => finishes_pure _

theorem nullTests_ne_endless (c : Config) (field : Key) : nullTests c field ≠ .error .endless := by
  have mapped := c.fieldMapping_ne_endless field.toValue
  have named : c.fieldName field.toValue ≠ .error .endless := by
    unfold Config.fieldName
    split
    · rename_i e failed
      exact error_ne_endless failed mapped
    · simp
    · simp
  unfold nullTests
  split
  · rename_i e failed
    exact error_ne_endless failed named
  · simp
  · simp
  · simp

theorem compositional_finishes : Compositional Finishes where
  value := finishes_pure
  fault := finishes_throw
  nullTests field := finishes_get.bind fun c => finishes_ofExcept (nullTests_ne_endless c field)
  both first next _ := first.bind fun _ => next.bind fun _ => finishes_pure _

namespace Detection

variable (d : Detection)

theorem finishes_parseSeveral (j : Junction) (operand : Cond) :
    Finishes (d.parseSeveral j operand) :=
  compositional_finishes.of_parseSeveral j fun _ _ _ _ _ _ _ => finishes_resolve _ _ _

theorem finishes_parseIdentifier (name : Cond) : Finishes (d.parseIdentifier name) :=
  compositional_finishes.of_parseIdentifier fun _ _ _ _ _ _ _ => finishes_resolve _ _ _

end Detection

/-! ## Log sources -/

namespace LogSource

theorem merge_and_ne_endless (sources : List LogSource) (defaultIndex name : Value) :
    merge sources defaultIndex name (.text "and") ≠ .error .endless := by
  have patterns : defaultPatterns defaultIndex ≠ .error .endless := by
    unfold defaultPatterns
    split
    · simp
    · simp
    · dsimp only
      split <;> simp
    · simp
  have index : mergedIndex sources defaultIndex ≠ .error .endless := by
    unfold mergedIndex
    split
    · exact patterns
    · simp
  unfold merge
  dsimp only
  split
  · simp
  · split
    · rename_i e failed
      exact error_ne_endless failed index
    · simp [mergeJunction]

end LogSource

theorem Config.logSourceOf_ne_endless (c : Config) (document : Value) :
    c.logSourceOf document ≠ .error .endless := by
  unfold Config.logSourceOf
  split
  · split
    · simp
    · exact map_ne_endless (LogSource.merge_and_ne_endless _ _ _) some
    · simp
  · simp

/-! ## Simplification -/

namespace Cond

theorem reduceJunction_ne_endless (j : Junction) (o : Option Nat) (items : List Cond) :
    reduceJunction j o items ≠ .error .endless := by
  intro failed
  have step := reduceJunction_step j o items
  rw [failed] at step
  cases step with
  | plain plain found => rcases factored_eq_error found with fault | ⟨fault, -⟩ <;> cases fault

theorem reduce?_ne_endless (t : Cond) : reduce? t ≠ .error .endless := by
  cases t with
  | all o items => exact reduceJunction_ne_endless .conj o items
  | any items => exact reduceJunction_ne_endless .disj none items
  | not items =>
    show reduceNot items ≠ _
    unfold reduceNot
    split <;> simp
  | _ => simp [reduce?]

mutual

theorem strip_ne_endless (t : Cond) : t.strip ≠ .error .endless := by
  match t with
  | .group inner =>
    have inside := strip_ne_endless inner
    rw [strip.eq_def]
    split <;> simp_all
  | .all o items => exact map_ne_endless (stripAll_ne_endless items) (Cond.all o)
  | .any items => exact map_ne_endless (stripAll_ne_endless items) Cond.any
  | .isNull items => exact map_ne_endless (stripAll_ne_endless items) Cond.isNull
  | .notNull items => exact map_ne_endless (stripAll_ne_endless items) Cond.notNull
  | .value v => cases v <;> simp [strip]
  | .token _ | .seq _ | .item _ _ | .not _ | .absent => simp [strip]

theorem stripAll_ne_endless (ts : List Cond) : stripAll ts ≠ .error .endless := by
  match ts with
  | [] => simp [stripAll]
  | t :: rest =>
    rw [stripAll]
    have here := strip_ne_endless t
    have others := stripAll_ne_endless rest
    split
    · rename_i e failed
      exact error_ne_endless failed here
    · exact map_ne_endless others _

end

mutual

theorem PassRun.ne_endless {ls : List Loss} {t : Cond} {n : Nat}
    {r : Except Fault (Cond × Bool) × List Loss} (run : PassRun ls t n r) :
    r.1 ≠ .error .endless := by
  cases run with
  | fail broken => exact error_ne_endless broken (reduce?_ne_endless t)
  | restart step next | descend stuck next => exact map_ne_endless next.ne_endless _
termination_by 2 * n

theorem RowRun.ne_endless {ls : List Loss} {ts : List Cond} {n : Nat}
    {r : Except Fault (List Cond × Bool) × List Loss} (run : RowRun ls ts n r) :
    r.1 ≠ .error .endless := by
  cases run with
  | nil => simp
  | fail first => exact error_ne_endless rfl first.ne_endless
  | cons first others =>
    have pos := first.pos
    exact map_ne_endless others.ne_endless _
-- a row of one tree takes as long as the tree, so a row counts for one more
termination_by 2 * n + 1

end

variable {r : Except Fault Cond × List Loss} {ns : List Nat}

theorem SettleRun.ne_endless {ls : List Loss} {t : Cond}
    (run : SettleRun ls t ns r) : r.1 ≠ .error .endless := by
  induction run with
  | fail last => exact error_ne_endless rfl last.ne_endless
  | done last => simp
  | again first later ih => exact ih

theorem SimplifyRun.ne_endless {t : Cond} (run : SimplifyRun t ns r) : r.1 ≠ .error .endless := by
  cases run with
  | fail broken => exact error_ne_endless broken (strip_ne_endless t)
  | settled stripped run => exact map_ne_endless run.ne_endless _

end Cond

end SigmaQuery
