import SigmaQuery.Proofs.Meaning

/-!
# Reading queries

A query is written with leaves, a sign for negation, two signs for junctions, and brackets. Negation
binds tighter than conjunction, and conjunction tighter than disjunction. `readQuery` reads such a row
of signs as a formula, by recursive descent.
-/

namespace SigmaQuery

open List

/-- A sign of a query. -/
inductive Sign (α : Type) where
  | leaf (a : α)
  | negation
  | junction (j : Junction)
  | opening
  | closing
deriving DecidableEq, Repr

/-- A formula over leaves. -/
inductive Formula (α : Type) where
  | leaf (a : α)
  | not (f : Formula α)
  | join (j : Junction) (f g : Formula α)
deriving DecidableEq, Repr

variable {α : Type}

namespace Formula

/-- The truth value of a formula. -/
def eval (w : α → Bool) : Formula α → Bool
  | .leaf a => w a
  | .not f => !f.eval w
  | .join .conj f g => f.eval w && g.eval w
  | .join .disj f g => f.eval w || g.eval w

/-- Formulas joined from the left. -/
def joinAll (j : Junction) (f : Formula α) (gs : List (Formula α)) : Formula α :=
  gs.foldl (.join j) f

theorem some_eval_join (j : Junction) (w : α → Bool) (f g : Formula α) :
    some ((join j f g).eval w) = j.join [some (f.eval w), some (g.eval w)] := by
  cases j <;> simp [eval, Junction.join]

theorem some_eval_joinAll (j : Junction) (w : α → Bool) (f : Formula α) (gs : List (Formula α)) :
    some ((joinAll j f gs).eval w) = j.join ((f :: gs).map fun g => some (g.eval w)) := by
  induction gs generalizing f with
  | nil => exact (j.join_singleton _).symm
  | cons g gs ih =>
    have front := j.join_append [some (f.eval w), some (g.eval w)] (gs.map fun g => some (g.eval w))
    rw [← some_eval_join, ← j.join_cons] at front
    exact (ih (join j f g)).trans front.symm

end Formula

/-- How loosely a junction binds. -/
def Junction.looseness : Junction → Nat
  | .conj => 1
  | .disj => 3

namespace Sign

/-! ## The reader -/

/-- A formula at the front of a row of signs, and the signs after it. -/
abbrev Reading (l : List (Sign α)) :=
  Option (Formula α × { rest : List (Sign α) // rest.length < l.length })

mutual

/-- Reads an operand: a leaf, a negated operand or a query in brackets. -/
def readOperand (l : List (Sign α)) : Reading l :=
  match l with
  | .leaf a :: rest => some (.leaf a, ⟨rest, Nat.lt_succ_self _⟩)
  | .negation :: rest => match readOperand rest with
    | some (f, ⟨after, h⟩) => some (.not f, ⟨after, Nat.lt_succ_of_lt h⟩)
    | none => none
  | .opening :: rest => match readJoined .disj rest with
    | some (f, ⟨.closing :: after, h⟩) =>
      some (f, ⟨after, Nat.lt_succ_of_lt (Nat.lt_of_succ_lt h)⟩)
    | _ => none
  | _ => none
termination_by (l.length, 0)

/-- Reads what a junction joins. The operands of a disjunction are conjunctions. -/
def readPart (j : Junction) (l : List (Sign α)) : Reading l :=
  match j with
  | .conj => readOperand l
  | .disj => readJoined .conj l
termination_by (l.length, j.looseness)
decreasing_by all_goals exact Prod.Lex.right _ (by decide)

/-- Reads operands and the signs of a junction between them. -/
def readJoined (j : Junction) (l : List (Sign α)) : Reading l :=
  match readPart j l with
  | some (f, ⟨after, h⟩) =>
    let (g, ⟨after', h'⟩) := readMore j f after
    some (g, ⟨after', Nat.lt_of_le_of_lt h' h⟩)
  | none => none
termination_by (l.length, j.looseness + 1)

/-- Reads further operands of a junction, as long as they can be read. -/
def readMore (j : Junction) (f : Formula α) (l : List (Sign α)) :
    Formula α × { rest : List (Sign α) // rest.length ≤ l.length } :=
  match l with
  | .junction k :: rest =>
    if k = j then match readPart j rest with
      | some (g, ⟨after, h⟩) =>
        let (g, ⟨after', h'⟩) := readMore j (.join j f g) after
        (g, ⟨after', Nat.le_of_lt (Nat.lt_succ_of_lt (Nat.lt_of_le_of_lt h' h))⟩)
      | none => (f, ⟨.junction k :: rest, Nat.le_refl _⟩)
    else (f, ⟨.junction k :: rest, Nat.le_refl _⟩)
  | l => (f, ⟨l, Nat.le_refl _⟩)
termination_by (l.length, 0)

end

/-- Reads a query to its end. -/
def readQuery (l : List (Sign α)) : Option (Formula α) :=
  match readJoined .disj l with
  | some (f, ⟨[], _⟩) => some f
  | _ => none

/-! ## What is read -/

/-- The first sign is not that of one of the junctions. -/
def stops (js : List Junction) : List (Sign α) → Bool
  | .junction j :: _ => !js.contains j
  | _ => true

/-- The signs are an operand: whatever follows, they are read first. -/
def IsOperand (l : List (Sign α)) (f : Formula α) : Prop :=
  ∀ rest, ∃ h, readOperand (l ++ rest) = some (f, ⟨rest, h⟩)

/-- The signs are a query: they are read first before anything but the sign of a junction. -/
def IsQuery (l : List (Sign α)) (f : Formula α) : Prop :=
  ∀ rest, stops [.conj, .disj] rest = true → ∃ h, readJoined .disj (l ++ rest) = some (f, ⟨rest, h⟩)

theorem IsOperand.leaf (a : α) : IsOperand [.leaf a] (.leaf a) := by
  intro rest
  rw [singleton_append]
  exact ⟨_, by rw [readOperand]⟩

variable {l rest after : List (Sign α)} {f g : Formula α} {j : Junction}

theorem IsOperand.negation (h : IsOperand l f) : IsOperand (.negation :: l) (.not f) := by
  intro rest
  obtain ⟨_, read⟩ := h rest
  rw [cons_append]
  exact ⟨_, by rw [readOperand, read]⟩

theorem IsQuery.bracketed (h : IsQuery l f) : IsOperand (.opening :: (l ++ [.closing])) f := by
  intro rest
  obtain ⟨_, read⟩ := h (.closing :: rest) rfl
  rw [cons_append, append_assoc, singleton_append]
  exact ⟨_, by rw [readOperand, read]⟩

theorem IsQuery.readQuery_eq (h : IsQuery l f) : readQuery l = some f := by
  have alone := h [] rfl
  rw [append_nil] at alone
  obtain ⟨_, read⟩ := alone
  rw [readQuery, read]

theorem readMore_of_stops (f : Formula α) (h : stops [j] rest = true) :
    readMore j f rest = (f, ⟨rest, Nat.le_refl _⟩) := by
  match rest with
  | .junction k :: rest =>
    have other : k ≠ j := by simpa [stops] using h
    rw [readMore, if_neg other]
  | [] | .leaf _ :: _ | .negation :: _ | .opening :: _ | .closing :: _ => rw [readMore]; nofun

theorem readJoined_of_readPart (h : ∃ h, readPart j l = some (f, ⟨after, h⟩))
    (more : ∃ h, readMore j f after = (g, ⟨rest, h⟩)) :
    ∃ h, readJoined j l = some (g, ⟨rest, h⟩) := by
  obtain ⟨shorter, part⟩ := h
  obtain ⟨noLonger, more⟩ := more
  refine ⟨Nat.lt_of_le_of_lt noLonger shorter, ?_⟩
  rw [readJoined, part]
  dsimp only
  rw [more]

theorem readMore_of_readPart (h : ∃ h, readPart j l = some (g, ⟨after, h⟩)) {k : Formula α}
    (more : ∃ h, readMore j (.join j f g) after = (k, ⟨rest, h⟩)) :
    ∃ h, readMore j f (.junction j :: l) = (k, ⟨rest, h⟩) := by
  obtain ⟨shorter, part⟩ := h
  obtain ⟨noLonger, more⟩ := more
  refine ⟨Nat.le_of_lt (Nat.lt_succ_of_lt (Nat.lt_of_le_of_lt noLonger shorter)), ?_⟩
  rw [readMore, if_pos rfl, part]
  dsimp only
  rw [more]

theorem IsOperand.readPart_eq (h : IsOperand l f) (j : Junction)
    (ends : j = .disj → stops [.conj] rest = true) :
    ∃ h, readPart j (l ++ rest) = some (f, ⟨rest, h⟩) := by
  have conj : ∃ h, readPart .conj (l ++ rest) = some (f, ⟨rest, h⟩) := by
    rw [readPart]
    exact h rest
  cases j with
  | conj => exact conj
  | disj =>
    rw [readPart]
    exact readJoined_of_readPart conj ⟨_, readMore_of_stops f (ends rfl)⟩

/-! ## Operands in a row -/

/-- The signs of operands, each after the sign of the junction. -/
def following (j : Junction) (rows : List (List (Sign α) × Formula α)) : List (Sign α) :=
  rows.flatMap (.junction j :: ·.1)

theorem following_nil (j : Junction) : following (α := α) j [] = [] := rfl

theorem following_cons (j : Junction) (row : List (Sign α) × Formula α)
    (rows : List (List (Sign α) × Formula α)) :
    following j (row :: rows) = .junction j :: (row.1 ++ following j rows) := rfl

theorem stops_following_disj (rows : List (List (Sign α) × Formula α))
    (ends : stops [.conj, .disj] rest = true) :
    stops [.conj] (following .disj rows ++ rest) = true := by
  cases rows with
  | cons row rows => rfl
  | nil =>
    rw [following_nil, nil_append]
    match rest with
    | .junction .conj :: _ => cases ends
    | .junction .disj :: _ | [] | .leaf _ :: _ | .negation :: _ | .opening :: _ | .closing :: _ => rfl

theorem readMore_following (j : Junction) (rows : List (List (Sign α) × Formula α))
    (operands : ∀ row ∈ rows, IsOperand row.1 row.2) (f : Formula α)
    (ends : stops [.conj, .disj] rest = true) : ∃ h, readMore j f (following j rows ++ rest) =
      (.joinAll j f (rows.map Prod.snd), ⟨rest, h⟩) := by
  induction rows generalizing f with
  | nil =>
    have stop : stops [j] rest = true := by
      match rest with
      | .junction .conj :: _ | .junction .disj :: _ => cases ends
      | [] | .leaf _ :: _ | .negation :: _ | .opening :: _ | .closing :: _ => rfl
    exact ⟨_, readMore_of_stops f stop⟩
  | cons row rows ih =>
    rw [forall_mem_cons] at operands
    rw [following_cons, cons_append, append_assoc]
    refine readMore_of_readPart (operands.1.readPart_eq j fun same => ?_)
      (ih operands.2 (.join j f row.2))
    subst same
    exact stops_following_disj rows ends

/-- Operands with the sign of a junction between them are read as their junction. -/
theorem IsQuery.joined (j : Junction) (first : IsOperand l f)
    (rows : List (List (Sign α) × Formula α)) (others : ∀ row ∈ rows, IsOperand row.1 row.2) :
    IsQuery (l ++ following j rows) (.joinAll j f (rows.map Prod.snd)) := by
  intro rest ends
  have more := readMore_following j rows others f ends
  rw [append_assoc]
  cases j with
  | disj =>
    exact readJoined_of_readPart
      (first.readPart_eq .disj fun _ => stops_following_disj rows ends) more
  | conj =>
    -- the whole conjunction is the only part of a disjunction
    have part := readJoined_of_readPart (first.readPart_eq .conj nofun) more
    have whole : ∃ h, readPart .disj (l ++ (following .conj rows ++ rest)) =
        some (.joinAll .conj f (rows.map Prod.snd), ⟨rest, h⟩) := by
      rwa [readPart]
    exact readJoined_of_readPart whole (readMore_following .disj [] nofun _ ends)

theorem IsOperand.isQuery (h : IsOperand l f) : IsQuery l f := by
  have alone := IsQuery.joined .disj h [] nofun
  rwa [following_nil, append_nil] at alone

end Sign

end SigmaQuery
