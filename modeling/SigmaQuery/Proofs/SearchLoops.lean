import SigmaQuery.Condition.TokenList
import SigmaQuery.Proofs.Finishing
import SigmaQuery.Proofs.SearchOutline

/-!
# The loops of the search parser

The parser takes up the operators of one kind in a loop: as long as one stands in the list, the first of
them is put together with its operands, and the list is cut around them by places. An operator at the
start of the list has the place before it at the end, because a negative place counts from there. Here
the loop is written down turn by turn (`Operator.turn`, `Operator.Loop`), without regard to whether it
ends.

A turn leaves fewer signs of the kind, unless the operator stands between operands and is the first
element of several. Then it stays in front, and the list does not get shorter: there is no end. In all
other cases the loop ends after at most as many turns as there are elements, with what the reduction from
left to right gives.
-/

namespace SigmaQuery

open FaultM List

/-! ## Places -/

section Places

variable {α : Type} (xs ys : List α) (x : α) {i : Int}

theorem itemAt_append (place : i = xs.length) : itemAt (xs ++ x :: ys) i = .ok x := by
  have inside : place? (xs ++ x :: ys).length i = some xs.length := by
    rw [place?, length_append, length_cons, if_pos (by omega), if_pos (by omega), place,
      Int.toNat_natCast]
  rw [itemAt, inside]
  simp

theorem itemAt_length (place : i = xs.length) : itemAt xs i = .error .noItem := by
  have outside : place? xs.length i = none := by
    rw [place?, if_pos (by omega), if_neg (by omega)]
  rw [itemAt, outside]
  simp

theorem bound_append (place : i = xs.length) : bound (xs ++ ys).length i = xs.length := by
  rw [bound, if_pos (by omega), place, Int.toNat_natCast, length_append]
  omega

theorem slice_before (place : i = xs.length) : slice none (some i) (xs ++ ys) = xs := by
  simp [slice, bound_append xs ys place, -length_append]

theorem slice_from (place : i = xs.length) : slice (some i) none (xs ++ ys) = ys := by
  simp [slice, bound_append xs ys place, -length_append]

end Places

/-! ## Elements -/

variable {k : TokenKind} {elements : List Cond} {os : List Operator}

theorem splitKind?_of_others (others : ∀ x ∈ elements, x.isKind k = false) :
    splitKind? k elements = none := by
  cases found : splitKind? k elements with
  | none => rfl
  | some parts =>
    obtain ⟨before, sign, after⟩ := parts
    have member : sign ∈ elements := by simp [eq_of_splitKind? found]
    have is := (isKind_of_splitKind? found).1
    rw [others sign member] at is
    cases is

theorem forall_mem_concat {p : Cond → Prop} {done : List Cond} {x : Cond} (others : ∀ y ∈ done, p y)
    (other : p x) : ∀ y ∈ done ++ [x], p y :=
  forall_mem_append.mpr ⟨others, forall_mem_singleton.mpr other⟩

/-! ## Turns -/

/-- The computation gives no token, nor a number that counts as one. -/
def MakesNode (m : ConfigM Cond) : Prop :=
  ∀ c t c', m.start c = (.ok t, c') → ∀ k, t.isKind k = false

/-- An operator of a search: the kind of its sign, and the node that it makes of its operands. It has none
but the sign itself, one behind the sign, or one on each side. -/
inductive Operator where
  | alone (k : TokenKind) (node : Cond → ConfigM Cond) (makes : ∀ x, MakesNode (node x))
  | before (k : TokenKind) (node : Cond → ConfigM Cond) (makes : ∀ x, MakesNode (node x))
  | between (k : TokenKind) (node : Cond → Cond → Cond) (makes : ∀ x y k, (node x y).isKind k = false)

namespace Operator

/-- The kind of the sign. -/
def kind : Operator → TokenKind
  | alone k _ _ => k
  | before k _ _ => k
  | between k _ _ => k

/-- One turn of the loop, for the sign at a place: the node takes the place of the sign and the operands. -/
def turn (o : Operator) (elements : List Cond) (i : Int) : ConfigM (List Cond) :=
  match o with
  | alone _ node _ => do
    let sign ← FaultM.ofExcept (itemAt elements i)
    let n ← node sign
    return slice none (some i) elements ++ n :: slice (some (i + 1)) none elements
  | before _ node _ => do
    let operand ← FaultM.ofExcept (itemAt elements (i + 1))
    let n ← node operand
    return slice none (some i) elements ++ n :: slice (some (i + 2)) none elements
  | between _ node _ => do
    let left ← FaultM.ofExcept (itemAt elements (i - 1))
    let right ← FaultM.ofExcept (itemAt elements (i + 1))
    return slice none (some (i - 1)) elements ++ node left right :: slice (some (i + 2)) none elements

/-- The loop: the elements and the configuration before it, the number of turns, and what it ends with. -/
inductive Loop (o : Operator) : List Cond → Config → Nat → Except Fault (List Cond) × Config → Prop
  | stop {elements : List Cond} {c : Config} (none : splitKind? o.kind elements = none) :
      Loop o elements c 0 (.ok elements, c)
  | fail {elements before after : List Cond} {sign : Cond} {c c' : Config} {e : Fault}
      (found : splitKind? o.kind elements = some (before, sign, after))
      (failed : (o.turn elements before.length).start c = (.error e, c')) :
      Loop o elements c 1 (.error e, c')
  | next {elements results before after : List Cond} {sign : Cond} {c c' : Config} {n : Nat}
      {r : Except Fault (List Cond) × Config}
      (found : splitKind? o.kind elements = some (before, sign, after))
      (turned : (o.turn elements before.length).start c = (.ok results, c'))
      (later : Loop o results c' n r) : Loop o elements c (n + 1) r

/-- What the reduction from left to right makes of elements. -/
def reduce : Operator → List Cond → ConfigM (List Cond)
  | alone k node _, elements => reduceAlone k node elements
  | before k node _, elements => reduceBefore k node elements
  | between k node _, elements => FaultM.ofExcept (reduceInfix k node elements)

section Turns

variable {k : TokenKind} {node : Cond → ConfigM Cond} {join : Cond → Cond → Cond}
  {makes : ∀ x, MakesNode (node x)} {joins : ∀ x y k, (join x y).isKind k = false}
  (xs ys : List Cond) (sign x y : Cond)

theorem turn_alone : (alone k node makes).turn (xs ++ sign :: ys) xs.length =
    do return xs ++ (← node sign) :: ys := by
  have rest : xs ++ sign :: ys = (xs ++ [sign]) ++ ys := by simp
  have item : itemAt (xs ++ sign :: ys) xs.length = .ok sign := itemAt_append xs ys sign rfl
  have front : slice none (some (xs.length : Int)) (xs ++ sign :: ys) = xs := slice_before xs _ rfl
  have back : slice (some (xs.length + 1 : Int)) none (xs ++ sign :: ys) = ys := by
    rw [rest]
    exact slice_from _ _ (by simp)
  simp only [turn, item, front, back]
  rfl

theorem turn_before : (before k node makes).turn (xs ++ sign :: x :: ys) xs.length =
    do return xs ++ (← node x) :: ys := by
  have rest : xs ++ sign :: x :: ys = (xs ++ [sign]) ++ x :: ys := by simp
  have more : xs ++ sign :: x :: ys = (xs ++ [sign, x]) ++ ys := by simp
  have item : itemAt (xs ++ sign :: x :: ys) (xs.length + 1) = .ok x := by
    rw [rest]
    exact itemAt_append _ _ _ (by simp)
  have front : slice none (some (xs.length : Int)) (xs ++ sign :: x :: ys) = xs :=
    slice_before xs _ rfl
  have back : slice (some (xs.length + 2 : Int)) none (xs ++ sign :: x :: ys) = ys := by
    rw [more]
    exact slice_from _ _ (by simp)
  simp only [turn, item, front, back]
  rfl

theorem turn_before_last : (before k node makes).turn (xs ++ [sign]) xs.length = throw .noItem := by
  have item : itemAt (xs ++ [sign]) (xs.length + 1) = .error .noItem := itemAt_length _ (by simp)
  simp only [turn, item]
  rfl

theorem turn_between : (between k join joins).turn (xs ++ x :: sign :: y :: ys) (xs.length + 1) =
    pure (xs ++ join x y :: ys) := by
  have rest : xs ++ x :: sign :: y :: ys = (xs ++ [x, sign]) ++ y :: ys := by simp
  have more : xs ++ x :: sign :: y :: ys = (xs ++ [x, sign, y]) ++ ys := by simp
  have left : itemAt (xs ++ x :: sign :: y :: ys) (xs.length + 1 - 1) = .ok x :=
    itemAt_append _ _ _ (by omega)
  have right : itemAt (xs ++ x :: sign :: y :: ys) (xs.length + 1 + 1) = .ok y := by
    rw [rest]
    exact itemAt_append _ _ _ (by simp; omega)
  have front : slice none (some (xs.length + 1 - 1 : Int)) (xs ++ x :: sign :: y :: ys) = xs :=
    slice_before xs _ (by omega)
  have back : slice (some (xs.length + 1 + 2 : Int)) none (xs ++ x :: sign :: y :: ys) = ys := by
    rw [more]
    exact slice_from _ _ (by simp; omega)
  simp only [turn, left, right, front, back]
  rfl

theorem turn_between_last : (between k join joins).turn (xs ++ [x, sign]) (xs.length + 1) =
    throw .noItem := by
  have left : itemAt (xs ++ [x, sign]) (xs.length + 1 - 1) = .ok x := itemAt_append _ _ _ (by omega)
  have right : itemAt (xs ++ [x, sign]) (xs.length + 1 + 1) = .error .noItem :=
    itemAt_length _ (by simp; omega)
  simp only [turn, left, right]
  rfl

/-- An operator that is the only element is its own left operand, and has no right one. -/
theorem turn_only : (between k join joins).turn [sign] 0 = throw .noItem := rfl

end Turns

/-! ## Loops -/

variable {o : Operator} {elements done after results : List Cond} {c c' : Config} {n : Nat}
  {r : Except Fault (List Cond) × Config} {sign : Cond} {k : TokenKind} {join : Cond → Cond → Cond}

theorem Loop.unique {m : Nat} {r' : Except Fault (List Cond) × Config}
    (first : o.Loop elements c n r) (second : o.Loop elements c m r') : n = m ∧ r = r' := by
  -- whether there is a turn, and what it gives, is settled by the elements before it
  induction first generalizing m with
  | stop none =>
    cases second with
    | stop => exact ⟨rfl, rfl⟩
    | fail found | next found => simp [none] at found
  | fail found failed =>
    cases second with
    | stop none => simp [none] at found
    | fail found' failed' =>
      cases found.symm.trans found'
      cases failed.symm.trans failed'
      exact ⟨rfl, rfl⟩
    | next found' turned =>
      cases found.symm.trans found'
      cases failed.symm.trans turned
  | next found turned later ih =>
    cases second with
    | stop none => simp [none] at found
    | fail found' failed =>
      cases found.symm.trans found'
      cases failed.symm.trans turned
    | next found' turned' later' =>
      cases found.symm.trans found'
      cases turned.symm.trans turned'
      obtain ⟨rfl, rfl⟩ := ih later'
      exact ⟨rfl, rfl⟩

/-! ### Loops that do not end -/

/-- The sign of an operator between operands is the first of several elements. -/
def Stuck : Operator → List Cond → Prop
  | between k _ _, elements => ∃ sign x rest, elements = sign :: x :: rest ∧ sign.isKind k = true
  | _, _ => False

/-! ### Loops that end -/

/-- The outcome for elements with others before them. -/
def withFront (front : List Cond) (r : Except Fault (List Cond) × Config) :
    Except Fault (List Cond) × Config :=
  (r.1.map (front ++ ·), r.2)

theorem withFront_nil (r : Except Fault (List Cond) × Config) : withFront [] r = r := by
  obtain ⟨e | elements, c⟩ := r <;> rfl

theorem withFront_append (xs ys : List Cond) (r : Except Fault (List Cond) × Config) :
    withFront (xs ++ ys) r = withFront xs (withFront ys r) := by
  obtain ⟨e | elements, c⟩ := r
  · rfl
  · simp [withFront, Except.map]

/-- A turn that makes a node of one element: if the loop ends after it, it ends. -/
theorem exists_loop_of_turn {behind : List Cond} {make : ConfigM Cond} {later : ConfigM (List Cond)}
    {bound : Nat} (makes : MakesNode make)
    (found : splitKind? o.kind elements = some (done, sign, behind))
    (turned : o.turn elements done.length = do return done ++ (← make) :: after)
    (ends : ∀ t : Cond, (∀ k, t.isKind k = false) → ∀ c, ∃ n ≤ bound,
      o.Loop (done ++ t :: after) c n (withFront (done ++ [t]) (later.start c))) (c : Config) :
    ∃ n ≤ bound + 1, o.Loop elements c n
      (withFront done ((do let t ← make; return t :: (← later)).start c)) := by
  rcases made : make.start c with ⟨e | t, c'⟩
  · have failed : (o.turn elements done.length).start c = (.error e, c') := by
      rw [turned]
      exact start_bind_of_error made
    rw [start_bind_of_error made]
    exact ⟨1, Nat.le_add_left 1 bound, .fail found failed⟩
  · have took : (o.turn elements done.length).start c = (.ok (done ++ t :: after), c') := by
      rw [turned]
      exact start_bind_of_ok made
    obtain ⟨n, few, loop⟩ := ends t (makes c t c' made) c'
    rw [start_bind_of_ok made, start_map]
    rw [withFront_append] at loop
    exact ⟨n + 1, Nat.succ_le_succ few, .next found took loop⟩

theorem loop_nil (others : ∀ x ∈ done, x.isKind o.kind = false) (c : Config) :
    o.Loop (done ++ []) c 0 (withFront done (.ok [], c)) := by
  apply Loop.stop
  rw [append_nil]
  exact splitKind?_of_others others

section Ends

variable {k : TokenKind} {node : Cond → ConfigM Cond} {join : Cond → Cond → Cond}
  (makes : ∀ x, MakesNode (node x)) (joins : ∀ x y k, (join x y).isKind k = false)
  {done : List Cond}

/-- Behind elements that have no sign of the kind the loop goes on like the reduction from left to
right. -/
theorem exists_loop_alone (rest : List Cond) (others : ∀ x ∈ done, x.isKind k = false) (c : Config) :
    ∃ n ≤ rest.length, (alone k node makes).Loop (done ++ rest) c n
      (withFront done ((reduceAlone k node rest).start c)) := by
  induction rest generalizing done c with
  | nil => exact ⟨0, Nat.le_refl 0, loop_nil others c⟩
  | cons x rest ih =>
    have later : ∀ t : Cond, t.isKind k = false → ∀ c, ∃ n ≤ rest.length,
        (alone k node makes).Loop (done ++ t :: rest) c n
          (withFront (done ++ [t]) ((reduceAlone k node rest).start c)) := by
      intro t other c
      rw [append_cons]
      exact ih (forall_mem_concat others other) c
    by_cases is : x.isKind k = true
    · have run : reduceAlone k node (x :: rest) =
          do let t ← node x; return t :: (← reduceAlone k node rest) := by simp [reduceAlone, is]
      rw [run]
      exact exists_loop_of_turn (o := alone k node makes) (makes x) (splitKind?_append others is rest)
        (turn_alone done rest x) (fun t other => later t (other k)) c
    · have run : reduceAlone k node (x :: rest) =
          do return x :: (← reduceAlone k node rest) := by simp [reduceAlone, is]
      obtain ⟨n, few, loop⟩ := later x (Bool.eq_false_iff.mpr is) c
      rw [withFront_append] at loop
      rw [run, start_map]
      exact ⟨n, Nat.le_succ_of_le few, loop⟩

theorem exists_loop_before (rest : List Cond) (others : ∀ x ∈ done, x.isKind k = false) (c : Config) :
    ∃ n ≤ rest.length, (before k node makes).Loop (done ++ rest) c n
      (withFront done ((reduceBefore k node rest).start c)) := by
  fun_induction reduceBefore k node rest generalizing done c with
  | case1 => exact ⟨0, Nat.le_refl 0, loop_nil others c⟩
  | case2 x is =>
    have found := splitKind?_append others is []
    exact ⟨1, Nat.le_refl 1, .fail found (congrArg (·.start c) (turn_before_last done x))⟩
  | case3 x is operand rest ih =>
    have later : ∀ t : Cond, (∀ k, t.isKind k = false) → ∀ c, ∃ n ≤ rest.length,
        (before k node makes).Loop (done ++ t :: rest) c n
          (withFront (done ++ [t]) ((reduceBefore k node rest).start c)) := by
      intro t other c
      rw [append_cons]
      exact ih (forall_mem_concat others (other k)) c
    obtain ⟨n, few, loop⟩ := exists_loop_of_turn (o := before k node makes) (makes operand)
      (splitKind?_append others is (operand :: rest)) (turn_before done rest x operand) later c
    exact ⟨n, by rw [length_cons, length_cons]; omega, loop⟩
  | case4 x rest isNot ih =>
    obtain ⟨n, few, loop⟩ := ih (forall_mem_concat others (Bool.eq_false_iff.mpr isNot)) c
    rw [withFront_append, ← append_cons] at loop
    rw [start_map]
    exact ⟨n, Nat.le_succ_of_le few, loop⟩

theorem exists_loop_between (left : Cond) (rest : List Cond)
    (others : ∀ x ∈ done, x.isKind k = false) (other : left.isKind k = false) (c : Config) :
    ∃ n ≤ rest.length, (between k join joins).Loop (done ++ left :: rest) c n
      (withFront done (reduceBetween k join left rest, c)) := by
  fun_induction reduceBetween k join left rest generalizing done with
  | case1 left =>
    have finished := loop_nil (o := between k join joins) (forall_mem_concat others other) c
    rw [withFront_append, ← append_cons] at finished
    exact ⟨0, Nat.le_refl 0, finished⟩
  | case2 left x is =>
    have found := splitKind?_append (forall_mem_concat others other) is []
    rw [← append_cons] at found
    refine ⟨1, Nat.le_refl 1, .fail found ?_⟩
    rw [length_append]
    exact congrArg (·.start c) (turn_between_last done x left)
  | case3 left x is right rest ih =>
    have found := splitKind?_append (forall_mem_concat others other) is (right :: rest)
    rw [← append_cons] at found
    -- the node is the left operand for the signs behind it
    obtain ⟨n, few, loop⟩ := ih others (joins left right k)
    refine ⟨n + 1, by rw [length_cons, length_cons]; omega, .next found ?_ loop⟩
    rw [length_append]
    exact congrArg (·.start c) (turn_between done rest x left right)
  | case4 left x rest isNot ih =>
    obtain ⟨n, few, loop⟩ := ih (forall_mem_concat others other) (Bool.eq_false_iff.mpr isNot)
    rw [withFront_append, ← append_cons] at loop
    exact ⟨n, Nat.le_succ_of_le few, loop⟩

end Ends

/-- Unless the sign of an operator between operands is the first of several elements, the loop ends with
what the reduction from left to right gives, after at most as many turns as there are elements. -/
theorem exists_loop (free : ¬ o.Stuck elements) (c : Config) :
    ∃ n ≤ elements.length, o.Loop elements c n ((o.reduce elements).start c) := by
  cases o with
  | alone k node makes =>
    have ended : ∃ n ≤ elements.length, (alone k node makes).Loop ([] ++ elements) c n
        (withFront [] ((reduceAlone k node elements).start c)) :=
      exists_loop_alone makes elements (by simp) c
    rwa [withFront_nil] at ended
  | before k node makes =>
    have ended : ∃ n ≤ elements.length, (before k node makes).Loop ([] ++ elements) c n
        (withFront [] ((reduceBefore k node elements).start c)) :=
      exists_loop_before makes elements (by simp) c
    rwa [withFront_nil] at ended
  | between k join joins =>
    cases elements with
    | nil => exact ⟨0, Nat.le_refl 0, .stop rfl⟩
    | cons x rest =>
      by_cases is : x.isKind k = true
      · cases rest with
        | nil =>
          have found : splitKind? k [x] = some ([], x, []) := by simp [splitKind?, is]
          have ended : reduceInfix k join [x] = .error .noItem := by simp [reduceInfix, is]
          refine ⟨1, Nat.le_refl 1, ?_⟩
          rw [reduce, ended]
          exact .fail found (congrArg (·.start c) (turn_only x))
        | cons y rest => exact absurd ⟨x, y, rest, rfl, is⟩ free
      · have run : reduceInfix k join (x :: rest) = reduceBetween k join x rest := by
          simp [reduceInfix, is]
        obtain ⟨n, few, loop⟩ : ∃ n ≤ rest.length, (between k join joins).Loop ([] ++ x :: rest) c n
            (withFront [] (reduceBetween k join x rest, c)) :=
          exists_loop_between joins x rest (by simp) (Bool.eq_false_iff.mpr is) c
        rw [withFront_nil] at loop
        rw [reduce, run]
        exact ⟨n, Nat.le_succ_of_le few, loop⟩

/-! ### What a loop leaves -/

theorem exists_splice {before : List Cond} (free : ¬ o.Stuck elements)
    (found : splitKind? o.kind elements = some (before, sign, after))
    (turned : (o.turn elements before.length).start c = (.ok results, c')) :
    ∃ front middle back t, elements = front ++ middle ++ back ∧ middle ≠ [] ∧
      results = front ++ t :: back ∧ ∀ k, t.isKind k = false := by
  obtain rfl := eq_of_splitKind? found
  cases o with
  | alone k node makes =>
    rw [turn_alone] at turned
    obtain ⟨t, _, made, built⟩ := start_bind_eq_ok.mp turned
    cases built
    exact ⟨before, [sign], after, t, by simp, by simp, rfl, makes _ _ _ _ made⟩
  | before k node makes =>
    cases after with
    | nil =>
      rw [turn_before_last] at turned
      cases turned
    | cons x after =>
      rw [turn_before] at turned
      obtain ⟨t, _, made, built⟩ := start_bind_eq_ok.mp turned
      cases built
      exact ⟨before, [sign, x], after, t, by simp, by simp, rfl, makes _ _ _ _ made⟩
  | between k join joins =>
    -- a sign in front would have its left operand at the end of the list
    rcases eq_nil_or_concat before with rfl | ⟨front, x, rfl⟩
    · cases after with
      | nil => cases turned
      | cons y after => exact absurd ⟨sign, y, after, rfl, (isKind_of_splitKind? found).1⟩ free
    · rw [concat_eq_append] at turned ⊢
      rw [length_append, ← append_cons] at turned
      cases after with
      | nil =>
        have failed : (between k join joins).turn (front ++ [x, sign]) (front.length + 1) =
          throw .noItem := turn_between_last front sign x
        cases (congrArg (·.start c) failed).symm.trans turned
      | cons y after =>
        have took : (between k join joins).turn (front ++ x :: sign :: y :: after) (front.length + 1) =
          pure (front ++ join x y :: after) := turn_between front after sign x y
        cases (congrArg (·.start c) took).symm.trans turned
        exact ⟨front, [x, sign, y], after, join x y, by simp, by simp, rfl, joins x y⟩

/-- Where no operator between operands is in front, the loop can go on. -/
def Guarded (o : Operator) : Prop :=
  ∀ elements, OpensFree elements → ¬ o.Stuck elements

/-- A loop moves no operator between operands to the front, and does not make the list longer. -/
theorem Loop.opensFree (loop : o.Loop elements c n (.ok results, c')) (guarded : o.Guarded)
    (free : OpensFree elements) : OpensFree results ∧ results.length ≤ elements.length := by
  generalize outcome : (Except.ok results, c') = r at loop
  induction loop with
  | stop none =>
    cases outcome
    exact ⟨free, Nat.le_refl _⟩
  | fail found failed => cases outcome
  | @next elements spliced before after sign c _ n r found turned later ih =>
    obtain ⟨front, middle, back, t, rfl, some_element, rfl, node⟩ :=
      exists_splice (guarded _ free) found turned
    have opens : OpensFree (front ++ t :: back) := by
      intro x head
      cases front with
      | nil =>
        obtain rfl : t = x := Option.some.inj head
        exact ⟨node .and, node .or⟩
      | cons y front => exact free x head
    obtain ⟨still, shorter⟩ := ih opens outcome
    have spent := length_pos_iff.mpr some_element
    refine ⟨still, Nat.le_trans shorter ?_⟩
    simp only [length_append, length_cons]
    omega

end Operator

/-! ## All operators -/

theorem makesNode_of_eq_group {m : ConfigM Cond} (same : m = do return .group (← m).inside) :
    MakesNode m := by
  intro c t c' made k
  rw [same] at made
  obtain ⟨_, _, -, built⟩ := start_bind_eq_ok.mp made
  cases built
  rfl

theorem makesNode_not (x : Cond) : MakesNode (pure (.not [x])) := by
  intro c t c' made k
  cases made
  rfl

/-- The operators, the tightest first. -/
def searchOperators (d : Detection) : List Operator :=
  [.before .all (d.parseSeveral .conj) fun x => makesNode_of_eq_group (d.parseSeveral_eq_group .conj x),
   .before .one (d.parseSeveral .disj) fun x => makesNode_of_eq_group (d.parseSeveral_eq_group .disj x),
   .alone .id d.parseIdentifier fun x => makesNode_of_eq_group (d.parseIdentifier_eq_group x),
   .before .not (fun x => pure (.not [x])) makesNode_not,
   .between .and (fun x y => .all none [x, y]) fun _ _ _ => rfl,
   .between .or (fun x y => .any [x, y]) fun _ _ _ => rfl]

theorem guarded_of_mem {d : Detection} {o : Operator} (member : o ∈ searchOperators d) : o.Guarded := by
  intro elements free stuck
  simp only [searchOperators, mem_cons, not_mem_nil, or_false] at member
  rcases member with rfl | rfl | rfl | rfl | rfl | rfl
  · exact stuck
  · exact stuck
  · exact stuck
  · exact stuck
  · obtain ⟨sign, x, rest, rfl, is⟩ := stuck
    rw [(free sign rfl).1] at is
    cases is
  · obtain ⟨sign, x, rest, rfl, is⟩ := stuck
    rw [(free sign rfl).2] at is
    cases is

/-- The loops of several operators, one after the other. -/
inductive Loops : List Operator → List Cond → Config → Nat → Except Fault (List Cond) × Config → Prop
  | done {elements : List Cond} {c : Config} : Loops [] elements c 0 (.ok elements, c)
  | fail {o : Operator} {os : List Operator} {elements : List Cond} {c c' : Config} {n : Nat} {e : Fault}
      (loop : o.Loop elements c n (.error e, c')) : Loops (o :: os) elements c n (.error e, c')
  | next {o : Operator} {os : List Operator} {elements results : List Cond} {c c' : Config} {n m : Nat}
      {r : Except Fault (List Cond) × Config} (loop : o.Loop elements c n (.ok results, c'))
      (later : Loops os results c' m r) : Loops (o :: os) elements c (n + m) r

theorem Loops.unique {c : Config} {n m : Nat} {r r' : Except Fault (List Cond) × Config}
    (first : Loops os elements c n r) (second : Loops os elements c m r') : n = m ∧ r = r' := by
  induction first generalizing m with
  | done =>
    cases second
    exact ⟨rfl, rfl⟩
  | fail loop =>
    cases second with
    | fail loop' => exact loop.unique loop'
    | next loop' => cases (loop.unique loop').2
  | next loop later ih =>
    cases second with
    | fail loop' => cases (loop.unique loop').2
    | next loop' later' =>
      obtain ⟨rfl, same⟩ := loop.unique loop'
      cases same
      obtain ⟨rfl, rfl⟩ := ih later'
      exact ⟨rfl, rfl⟩

/-- The reductions of several operators, one after the other. -/
def reduceEach : List Operator → List Cond → ConfigM (List Cond)
  | [], elements => pure elements
  | o :: os, elements => o.reduce elements >>= reduceEach os

theorem reduceEach_searchOperators (d : Detection) (elements : List Cond) :
    reduceEach (searchOperators d) elements = reduceOperators d elements := by
  simp only [searchOperators, reduceEach, Operator.reduce, reduceOperators, bind_pure]

/-- The loops end, one after the other, because none of them moves an operator to the front. -/
theorem exists_loops (guarded : ∀ o ∈ os, o.Guarded) (free : OpensFree elements) (c : Config) :
    ∃ n ≤ os.length * elements.length, Loops os elements c n ((reduceEach os elements).start c) := by
  induction os generalizing elements c with
  | nil => exact ⟨0, Nat.zero_le _, .done⟩
  | cons o os ih =>
    obtain ⟨first, others⟩ := forall_mem_cons.mp guarded
    obtain ⟨n, few, loop⟩ := Operator.exists_loop (first elements free) c
    rcases run : (o.reduce elements).start c with ⟨e | results, c'⟩
    · rw [run] at loop
      rw [reduceEach, start_bind_of_error run]
      exact ⟨n, by rw [length_cons, Nat.succ_mul]; omega, .fail loop⟩
    · rw [run] at loop
      obtain ⟨still, shorter⟩ := loop.opensFree first free
      obtain ⟨m, few', later⟩ := ih others still c'
      rw [reduceEach, start_bind_of_ok run]
      have less := Nat.mul_le_mul_left os.length shorter
      exact ⟨n + m, by rw [length_cons, Nat.succ_mul]; omega, .next loop later⟩

end SigmaQuery
