import Mathlib.Data.List.Forall2
import Mathlib.Data.Sum.Basic
import SigmaQuery.Proofs.Meaning
import SigmaQuery.Proofs.Precedence

/-!
# Log sources in groups

A search is constrained by its log source, and so is each group in it. The constraint of a group can
stand below a negation or in a disjunction. It makes no difference there: where the log source's
conditions fail, the whole search fails anyway, and where they hold, a group that constrains at all
means what it means alone.

Two runs are compared, one without the log source and one with it. They go through the same
configurations, and their results agree wherever the log source's conditions do not fail.
-/

namespace SigmaQuery

open List Junction

variable {α β γ δ : Type} {s : LogSource}

/-! ## Comparing computations -/

namespace FaultM

variable {σ : Type} {fails : Prop} {R : α → β → Prop} {S : γ → δ → Prop}

/-- The second computation follows the first: where the first returns, it ends in the same state
with a related result, unless it may fail and does. -/
def Follows (fails : Prop) (R : α → β → Prop) (m : FaultM σ α) (k : FaultM σ β) : Prop :=
  ∀ s a t, m.start s = (.ok a, t) →
    (∃ b, k.start s = (.ok b, t) ∧ R a b) ∨ fails ∧ ∃ e u, k.start s = (.error e, u)

theorem follows_pure {a : α} {b : β} (related : R a b) :
    Follows fails R (pure a : FaultM σ α) (pure b) := by
  rintro s _ _ run
  cases run
  exact .inl ⟨b, rfl, related⟩

theorem follows_self {R : α → α → Prop} (related : ∀ a, R a a) (m : FaultM σ α) :
    Follows fails R m m :=
  fun _ a _ run => .inl ⟨a, run, related a⟩

variable {m : FaultM σ α} {k : FaultM σ β} {f : α → FaultM σ γ} {g : β → FaultM σ δ}

theorem Follows.bind (first : Follows fails R m k)
    (next : ∀ a b, R a b → Follows fails S (f a) (g b)) : Follows fails S (m >>= f) (k >>= g) := by
  intro s c u run
  obtain ⟨a, t, here, there⟩ := start_bind_eq_ok.mp run
  rcases first s a t here with ⟨b, here', related⟩ | ⟨may, e, u', here'⟩
  · rw [start_bind_of_ok here']
    exact next a b related t c u there
  · rw [start_bind_of_error here']
    exact .inr ⟨may, e, u', rfl⟩

theorem Follows.map {f : α → γ} {g : β → δ} (first : Follows fails R m k)
    (related : ∀ a b, R a b → S (f a) (g b)) :
    Follows fails S (do return f (← m)) (do return g (← k)) :=
  first.bind fun a b ab => follows_pure (related a b ab)

theorem follows_mapM (step : ∀ a b, R a b → Follows fails S (f a) (g b)) {xs : List α} {ys : List β}
    (related : Forall₂ R xs ys) : Follows fails (Forall₂ S) (xs.mapM f) (ys.mapM g) := by
  induction related with
  | nil => exact follows_pure .nil
  | cons head _ ih =>
    rw [mapM_cons, mapM_cons]
    exact (step _ _ head).bind fun c d cd => ih.map fun cs ds later => .cons cd later

end FaultM

open FaultM

/-! ## Expressions of one shape -/

/-- Two chains of one length with related parts. -/
def Chain.Rel (R : α → β → Prop) (c : Chain α) (c' : Chain β) : Prop :=
  R c.first c'.first ∧ Forall₂ (fun x y => R x.2 y.2) c.rest c'.rest

/-- Two factors, both negated or none, with related operands. -/
def Factor.Rel (R : α → β → Prop) (x : Factor α) (y : Factor β) : Prop :=
  x.negation = y.negation ∧ R x.operand y.operand

/-- Two expressions of one shape with related operands. -/
def Expr.Rel (R : α → β → Prop) (e : Expr α) (e' : Expr β) : Prop :=
  Chain.Rel (Chain.Rel (Factor.Rel R)) e e'

section Shapes

variable {fails : Prop} {R : α → β → Prop} {S : γ → δ → Prop} {f : α → ConfigM γ}
  {g : β → ConfigM δ}

variable {c : Chain α} {c' : Chain β} {e : Expr α} {e' : Expr β} {R' : α → β → Prop}

theorem Chain.follows_mapM (step : ∀ a b, R a b → Follows fails S (f a) (g b))
    (related : Chain.Rel R c c') : Follows fails (Chain.Rel S) (c.mapM f) (c'.mapM g) := by
  have others := FaultM.follows_mapM (f := Chain.signed f) (g := Chain.signed g)
    (S := fun x y => S x.2 y.2) (fun x y xy => (step x.2 y.2 xy).map fun _ _ h => h) related.2
  exact (step _ _ related.1).bind fun a b first => others.map fun _ _ rest => ⟨first, rest⟩

theorem Factor.follows_mapM (step : ∀ a b, R a b → Follows fails S (f a) (g b)) (x : Factor α)
    (y : Factor β) (related : Factor.Rel R x y) :
    Follows fails (Factor.Rel S) (x.mapM f) (y.mapM g) :=
  (step _ _ related.2).map fun _ _ h => ⟨related.1, h⟩

theorem Expr.follows_mapM (step : ∀ a b, R a b → Follows fails S (f a) (g b))
    (related : Expr.Rel R e e') : Follows fails (Expr.Rel S) (e.mapM f) (e'.mapM g) := by
  have terms : ∀ (t : Term α) (t' : Term β), Chain.Rel (Factor.Rel R) t t' →
      Follows fails (Chain.Rel (Factor.Rel S)) (t.mapM (Factor.mapM f)) (t'.mapM (Factor.mapM g)) :=
    fun t t' same => Chain.follows_mapM (Factor.follows_mapM step) same
  exact Chain.follows_mapM terms related

/-- A relation between parts may be strengthened by what is known of the first chain's parts. -/
theorem Chain.Rel.imp_of_mem (related : Chain.Rel R c c') (imp : ∀ a ∈ c.parts, ∀ b, R a b → R' a b) :
    Chain.Rel R' c c' := by
  refine ⟨imp _ mem_cons_self _ related.1, ?_⟩
  have known : ∀ x ∈ c.rest, ∀ y : Word × β, R x.2 y.2 → R' x.2 y.2 := fun x member y =>
    imp x.2 (mem_cons_of_mem _ (mem_map_of_mem member)) y.2
  have rest := related.2
  generalize c.rest = xs, c'.rest = ys at known rest ⊢
  induction rest with
  | nil => exact .nil
  | cons head _ ih =>
    exact .cons (known _ mem_cons_self _ head)
      (ih fun x member => known x (mem_cons_of_mem _ member))

theorem Expr.Rel.imp_of_mem (related : Expr.Rel R e e')
    (imp : ∀ a ∈ e.operands, ∀ b, R a b → R' a b) : Expr.Rel R' e e' := by
  refine Chain.Rel.imp_of_mem related fun t inExpr t' same => ?_
  refine Chain.Rel.imp_of_mem same fun x inTerm y xy => ⟨xy.1, ?_⟩
  exact imp _ (mem_flatMap.mpr ⟨t, inExpr, mem_map_of_mem inTerm⟩) _ xy.2

theorem Expr.rel_self {R : α → α → Prop} (refl : ∀ a, R a a) (e : Expr α) : Expr.Rel R e e := by
  have chain : ∀ {β : Type} {S : β → β → Prop}, (∀ b, S b b) → ∀ c : Chain β, Chain.Rel S c c :=
    fun same c => ⟨same c.first, forall₂_same.mpr fun x _ => same x.2⟩
  exact chain (chain fun x => ⟨rfl, refl x.operand⟩) e

end Shapes

/-! ## Agreeing on part of the valuations -/

/-- Two trees mean the same under some valuations. -/
def AgreeOn (p : Valuation → Prop) (t u : Cond) : Prop :=
  ∀ v, p v → t.meaning v = u.meaning v

section Agreeing

variable {p : Valuation → Prop} {j : Junction}

theorem AgreeOn.build {a a' b b' : Cond} (left : AgreeOn p a a')
    (right : AgreeOn p b b') : AgreeOn p (j.build none [a, b]) (j.build none [a', b']) := by
  intro v holds
  rw [Cond.meaning_build, Cond.meaning_build]
  simp only [map_cons, map_nil, left v holds, right v holds]

theorem Chain.Rel.agreeOn_tree {R : α → β → Prop} {f : α → Cond} {g : β → Cond}
    {c : Chain α} {c' : Chain β} (related : Chain.Rel R c c')
    (parts : ∀ a b, R a b → AgreeOn p (f a) (g b)) :
    AgreeOn p (c.tree (fun a b => j.build none [a, b]) f)
      (c'.tree (fun a b => j.build none [a, b]) g) := by
  unfold Chain.tree
  have first := parts _ _ related.1
  have rest := related.2
  generalize f c.first = t, g c'.first = t' at first
  generalize c.rest = xs, c'.rest = ys at rest
  induction rest generalizing t t' with
  | nil => exact first
  | cons head _ ih => exact ih _ _ (first.build (parts _ _ head))

theorem Expr.Rel.agreeOn_tree {e e' : Expr Cond} (related : Expr.Rel (AgreeOn p) e e') :
    AgreeOn p (e.tree .group) (e'.tree .group) := by
  refine Chain.Rel.agreeOn_tree (j := .disj) related fun t t' same => ?_
  refine Chain.Rel.agreeOn_tree (j := .conj) same fun x y xy => ?_
  obtain ⟨negation, inner⟩ := x
  obtain ⟨negation', inner'⟩ := y
  obtain ⟨rfl, operands⟩ : negation = negation' ∧ AgreeOn p inner inner' := xy
  intro v holds
  cases negation with
  | none => exact operands v holds
  | some w =>
    show (Cond.not [.group inner]).meaning v = (Cond.not [.group inner']).meaning v
    rw [Cond.meaning_not, Cond.meaning_not, Cond.meaning_group, Cond.meaning_group,
      operands v holds]

end Agreeing

/-! ## The constraint of a log source -/

/-- What a log source asks for: its conditions and its index. -/
def LogSource.meaning (s : LogSource) (v : Valuation) : Option Bool :=
  conj.join [s.conditions.bind (·.meaning v), s.indexCondition.bind (·.meaning v)]

theorem meaning_constrain (s : LogSource) (t : Cond) (v : Valuation) :
    (constrain (some s) t).meaning v = conj.join [s.meaning v, t.meaning v] := by
  have pair : ∀ a b : Cond, (Cond.all none [a, b]).meaning v =
      conj.join [a.meaning v, b.meaning v] := fun a b =>
    Cond.meaning_build v .conj none [a, b]
  have regroup : ∀ a b x : Option Bool, conj.join [conj.join [a, b], x] =
      conj.join [b, conj.join [a, x]] := by
    intro a b x
    calc conj.join [conj.join [a, b], x]
        = conj.join ([a, b] ++ [x]) := by
          rw [join_append, join_singleton]
      _ = conj.join (b :: [a, x]) := by
          refine join_congr _ fun y => ?_
          simp only [cons_append, nil_append, mem_cons, or_left_comm]
      _ = conj.join [b, conj.join [a, x]] := join_cons _ b [a, x]
  rw [LogSource.meaning, regroup]
  rcases conditions : s.conditions with _ | c <;> rcases index : s.indexCondition with _ | i <;>
    simp [constrain, conditions, index, pair, join_none_left]

/-- The log source does not rule the event out. -/
def LogSource.Allows (s : LogSource) (v : Valuation) : Prop :=
  s.meaning v ≠ some false

/-- A tree that is joined to a log source, and a tree that agrees with it where the log source
allows the event. -/
theorem LogSource.join_meaning_eq {t u : Cond} (agree : AgreeOn s.Allows t u)
    (v : Valuation) : conj.join [s.meaning v, t.meaning v] =
      conj.join [s.meaning v, u.meaning v] := by
  by_cases ruled : s.meaning v = some false
  · rw [ruled]
    exact (join_decisive_left .conj _).trans (join_decisive_left .conj _).symm
  · rw [agree v ruled]

/-- The second tree means what the first one does, and what the log source asks for. -/
def LogSource.Constrains (s : LogSource) (t u : Cond) : Prop :=
  ∀ v, u.meaning v = conj.join [s.meaning v, t.meaning v]

/-- A tree that is constrained by a log source, and constrains by itself, agrees with the bare tree
where the log source allows the event. -/
theorem LogSource.Constrains.agreeOn {t u : Cond} (constrained : s.Constrains t u)
    (atom : t.hasAtom = true) : AgreeOn s.Allows t u := by
  intro v allowed
  have constrains : t.meaning v ≠ none := by
    rw [ne_eq, Cond.meaning_eq_none_iff, atom]
    simp
  have holds : ∀ k x : Option Bool, k ≠ some false → x ≠ none → x = conj.join [k, x] := by
    intro k x
    rcases k with _ | _ | _ <;> rcases x with _ | _ | _ <;> simp [join]
  rw [constrained]
  exact holds _ _ allowed constrains

/-! ## Runs without and with a log source -/

/-- Two parts that are not yet taken up are the same, two finished parts are related. -/
def AllNamed.Rel (Q : Cond → Cond → Prop) : AllNamed → AllNamed → Prop :=
  Sum.LiftRel Eq (Sum.LiftRel Eq (Sum.LiftRel Eq Q))

theorem Atom.rel_pending (Q : Cond → Cond → Prop) (a : Atom) :
    AllNamed.Rel Q a.pending a.pending := by
  cases a with
  | ident name => exact .inr (.inr (.inl rfl))
  | oneOf sign name => exact .inr (.inl rfl)
  | allOf sign name => exact .inl rfl

section Runs

variable {fails : Prop}

theorem follows_take {S : β → β → Prop} (refl : ∀ b, S b b) {h : α → ConfigM β} (x y : α ⊕ β)
    (related : Sum.LiftRel Eq S x y) :
    Follows fails S (Sum.elim h pure x) (Sum.elim h pure y) := by
  cases related with
  | inl same =>
    subst same
    exact follows_self refl _
  | inr related => exact follows_pure related

theorem Expr.follows_resolve {Q : Cond → Cond → Prop} (refl : ∀ t, Q t t) (d : Detection)
    {e e' : Expr AllNamed} (related : Expr.Rel (AllNamed.Rel Q) e e') :
    Follows fails (Expr.Rel Q) (e.resolve d) (e'.resolve d) := by
  have named : ∀ x : Named, Sum.LiftRel Eq Q x x := by
    rintro (name | t)
    · exact .inl rfl
    · exact .inr (refl t)
  have oneNamed : ∀ x : OneNamed, Sum.LiftRel Eq (Sum.LiftRel Eq Q) x x := by
    rintro (x | y)
    · exact .inl rfl
    · exact .inr (named y)
  refine (Expr.follows_mapM (follows_take oneNamed) related).bind fun e₁ e₁' related₁ => ?_
  refine (Expr.follows_mapM (follows_take named) related₁).bind fun e₂ e₂' related₂ => ?_
  exact Expr.follows_mapM (follows_take refl) related₂

end Runs

/-- A simplification that may fail, and keeps the meaning of a tree where it does not. -/
structure Optimizer where
  run : Cond → Except Fault Cond
  sound : ∀ {t u : Cond}, run t = .ok u → ∀ v, u.meaning v = t.meaning v

namespace Optimizer

/-- The simplification as a step of a parse. -/
def simplify (o : Optimizer) (t : Cond) : ConfigM Cond :=
  FaultM.ofExcept (o.run t)

/-- The simplification fails for some tree. -/
def Fails (o : Optimizer) : Prop :=
  ∃ t e, o.run t = .error e

variable (o : Optimizer) (s : LogSource) (d : Detection)

theorem follows_finishSearch {r r' : Cond} (agree : AgreeOn s.Allows r r') :
    Follows o.Fails s.Constrains (finishSearch o.simplify (.ok none) [r])
      (finishSearch o.simplify (.ok (some s)) [r']) := by
  intro c t c' run
  have plain : o.run r = .ok t ∧ c = c' := by
    simpa [finishSearch, constrain, simplify] using run
  obtain ⟨plain, rfl⟩ := plain
  have full : (finishSearch o.simplify (.ok (some s)) [r']).start c =
      (o.run (constrain (some s) r'), c) := rfl
  rw [full]
  rcases result : o.run (constrain (some s) r') with e | u
  · exact .inr ⟨⟨_, e, result⟩, e, c, rfl⟩
  · refine .inl ⟨u, rfl, fun v => ?_⟩
    rw [o.sound result, meaning_constrain, o.sound plain]
    exact (LogSource.join_meaning_eq agree v).symm

theorem follows_take (x : Operand) :
    Follows o.Fails (AllNamed.Rel s.Constrains) (x.take o.simplify (.ok none) d)
      (x.take o.simplify (.ok (some s)) d) := by
  cases x with
  | atom a => exact follows_pure (a.rel_pending _)
  | group opening inside closing =>
    have inner : Follows o.Fails s.Constrains
        (parseSearch o.simplify (.ok none) d (inside.elements Atom.elements))
        (parseSearch o.simplify (.ok (some s)) d (inside.elements Atom.elements)) := by
      rw [parseSearch_atoms, parseSearch_atoms]
      refine (follows_self (R := Eq) (fun _ => rfl) _).bind fun e e' same => ?_
      subst same
      exact o.follows_finishSearch s fun v _ => rfl
    exact inner.map fun t u h => .inr (.inr (.inr h))

/-- Every group of a condition holds an atom, as it is parsed without a log source. -/
def GroupsHaveAtoms (e : Condition) (c : Config) : Prop :=
  ∀ e₁ c₁, (e.mapM (Operand.take o.simplify (.ok none) d)).start c = (.ok e₁, c₁) →
    ∀ inner, .inr (.inr (.inr inner)) ∈ e₁.operands → inner.hasAtom = true

/-- A condition that is parsed with a log source means what the log source asks for and what the
condition means without it. -/
theorem parseSearch_logSource (e : Condition) {c c' : Config} {t : Cond}
    (groups : o.GroupsHaveAtoms d e c)
    (plain : (parseSearch o.simplify (.ok none) d (e.elements Operand.elements)).start c =
      (.ok t, c')) :
    (∃ u, (parseSearch o.simplify (.ok (some s)) d (e.elements Operand.elements)).start c =
        (.ok u, c') ∧ ∀ v, u.meaning v = Junction.conj.join [s.meaning v, t.meaning v]) ∨
      o.Fails ∧ ∃ e' c'',
        (parseSearch o.simplify (.ok (some s)) d (e.elements Operand.elements)).start c =
          (.error e', c'') := by
  rw [parseSearch_condition] at plain ⊢
  obtain ⟨e₁, c₁, run₁, rest⟩ := start_bind_eq_ok.mp plain
  have taken : Follows o.Fails (Expr.Rel (AllNamed.Rel s.Constrains))
      (e.mapM (Operand.take o.simplify (.ok none) d))
      (e.mapM (Operand.take o.simplify (.ok (some s)) d)) := by
    refine Expr.follows_mapM (R := Eq) ?_ (e.rel_self fun _ => rfl)
    rintro x _ rfl
    exact o.follows_take s d x
  rcases taken c e₁ c₁ run₁ with ⟨e₁', run₁', related⟩ | ⟨may, e', c'', run⟩
  · rw [start_bind_of_ok run₁']
    have agree : Expr.Rel (AllNamed.Rel (AgreeOn s.Allows)) e₁ e₁' := by
      refine related.imp_of_mem fun x member y xy => ?_
      cases xy with
      | inl same => exact .inl same
      | inr xy => cases xy with
        | inl same => exact .inr (.inl same)
        | inr xy => cases xy with
          | inl same => exact .inr (.inr (.inl same))
          | inr constrained =>
            refine .inr (.inr (.inr (constrained.agreeOn ?_)))
            exact groups e₁ c₁ run₁ _ member
    have later := (Expr.follows_resolve (fun t v _ => rfl) d agree).bind fun e₂ e₂' same =>
      o.follows_finishSearch s same.agreeOn_tree
    exact later c₁ t c' rest
  · rw [start_bind_of_error run]
    exact .inr ⟨may, e', c'', rfl⟩

/-- The simplification that changes nothing. -/
def identity : Optimizer where
  run := .ok
  sound := by
    rintro t _ ⟨⟩ v
    rfl

end Optimizer

/-- The condition `b or not (a)`. -/
def sampleNegation : Condition where
  first := ⟨⟨none, .atom (.ident ⟨"b", 0⟩)⟩, []⟩
  rest :=
    [(⟨"or", 2⟩,
      ⟨⟨some ⟨"not", 5⟩, .group ⟨"(", 9⟩ ⟨⟨⟨none, .ident ⟨"a", 10⟩⟩, []⟩, []⟩ ⟨")", 11⟩⟩, []⟩)]

/-- A log source with a condition and an index. -/
def sampleSource : LogSource where
  index := ["windows"]
  indexField := some "_index"
  conditions := some (.all (some 0) [.item "channel" "security"])

theorem mapM_take_sampleNegation :
    (sampleNegation.mapM
        (Operand.take Optimizer.identity.simplify (.ok none) sampleDetection)).start .empty =
      (.ok ⟨⟨⟨none, (Atom.ident ⟨"b", 0⟩).pending⟩, []⟩,
        [(⟨"or", 2⟩, ⟨⟨some ⟨"not", 5⟩, .inr (.inr (.inr (.group sampleFields)))⟩, []⟩)]⟩,
        .empty) := by
  have inner : (parseSearch Optimizer.identity.simplify (.ok none) sampleDetection
      [Word.token .id ⟨"a", 10⟩]).start .empty = (.ok (.group sampleFields), .empty) := by
    rw [parseSearch_of_none rfl]
    rfl
  have group : (Operand.take Optimizer.identity.simplify (.ok none) sampleDetection
      (.group ⟨"(", 9⟩ ⟨⟨⟨none, .ident ⟨"a", 10⟩⟩, []⟩, []⟩ ⟨")", 11⟩)).start .empty =
        (.ok (.inr (.inr (.inr (.group sampleFields)))), .empty) :=
    start_bind_of_ok inner
  simp only [Expr.mapM, sampleNegation, Chain.mapM, Factor.mapM, Chain.signed, mapM_cons,
    mapM_nil, bind_assoc, pure_bind]
  exact start_bind_of_ok group

/-- A group below a negation in a disjunction, with a log source. -/
theorem parseSearch_logSource_sample :
    Optimizer.identity.GroupsHaveAtoms sampleDetection sampleNegation .empty ∧
    (parseSearch Optimizer.identity.simplify (.ok none) sampleDetection
        (sampleNegation.elements Operand.elements)).start .empty =
      (.ok (.any [.group (.any [.value "x"]), .not [.group (.group sampleFields)]]), .empty) ∧
    ∃ u, (parseSearch Optimizer.identity.simplify (.ok (some sampleSource)) sampleDetection
        (sampleNegation.elements Operand.elements)).start .empty = (.ok u, .empty) ∧
      ∀ v, u.meaning v = Junction.conj.join [sampleSource.meaning v, Cond.meaning v
        (.any [.group (.any [.value "x"]), .not [.group (.group sampleFields)]])] := by
  have groups : Optimizer.identity.GroupsHaveAtoms sampleDetection sampleNegation .empty := by
    intro e₁ c₁ run inner member
    rw [mapM_take_sampleNegation] at run
    cases run
    obtain rfl : inner = .group sampleFields := by
      simpa [Expr.operands, Chain.parts, Atom.pending] using member
    rfl
  have plain : (parseSearch Optimizer.identity.simplify (.ok none) sampleDetection
      (sampleNegation.elements Operand.elements)).start .empty =
        (.ok (.any [.group (.any [.value "x"]), .not [.group (.group sampleFields)]]), .empty) := by
    rw [parseSearch_condition, start_bind_of_ok mapM_take_sampleNegation]
    rfl
  refine ⟨groups, plain, ?_⟩
  rcases Optimizer.parseSearch_logSource _ sampleSource _ _ groups plain with
    constrained | ⟨⟨t, e, failed⟩, _⟩
  · exact constrained
  · cases failed

end SigmaQuery
