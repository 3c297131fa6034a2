import SigmaQuery.Proofs.GenerationSteps

/-!
# What targets remember

A target serves for many rules, and some targets remember something of one rule when they come to the
next. Here a memory is a part of a state that can be replaced. A computation `Tells` what becomes of the
memory if, from states that differ in nothing but the memory, it ends with a result or with a fault in
all of them, and either keeps the memory or replaces it by one that does not depend on the old one.
-/

namespace SigmaQuery

open FaultM Cond

/-- A part of a state that can be replaced. -/
structure Memory (σ μ : Type) where
  put : μ → σ → σ
  put_put : ∀ a b s, put a (put b s) = put a s

namespace Memory

variable {σ μ α β γ : Type} (M : Memory σ μ) {s : σ}

/-- The result does not depend on the memory. -/
def Constant (f : μ → α) : Prop :=
  ∃ a, f = fun _ => a

/-- Started with any memory, the computation ends in the same fault or has a result for the memory, and
leaves a memory of its own or the one that it found. Only a computation that `touches` the memory
leaves its own, and it does so if it returns. How the results depend on the memory is for `Q` to say. -/
def Tells (s : σ) (touches : Bool) (Q : (μ → α) → Prop) (m : FaultM σ α) : Prop :=
  ∃ (out : Except Fault (μ → α)) (left : Option μ),
    (∀ a, m.start (M.put a s) = (out.map (· a), M.put (left.getD a) s)) ∧
    (left.isSome = true → touches = true) ∧
    ∀ f, out = .ok f → Q f ∧ (touches = true → left.isSome = true)

variable {M} {t₁ t₂ : Bool} {m : FaultM σ α} {k : FaultM σ β}
  {Q₁ : (μ → α) → Prop} {Q₂ : (μ → β) → Prop} {Q : (μ → γ) → Prop} {x : Except Fault α}
  {f : α → FaultM σ β}

theorem tells_throw (touches : Bool) (Q : (μ → α) → Prop) (e : Fault) :
    M.Tells s touches Q (throw e) :=
  ⟨.error e, none, fun _ => rfl, nofun, nofun⟩

theorem tells_ofExcept (result : ∀ a, x = .ok a → Q₁ fun _ => a) :
    M.Tells s false Q₁ (FaultM.ofExcept x) := by
  cases x with
  | error e => exact tells_throw false Q₁ e
  | ok a =>
    refine ⟨.ok fun _ => a, none, fun _ => rfl, nofun, ?_⟩
    intro f same
    cases same
    exact ⟨result a rfl, nofun⟩

theorem tells_constant (x : Except Fault α) : M.Tells s false Constant (FaultM.ofExcept x) :=
  tells_ofExcept fun a _ => ⟨a, rfl⟩

theorem tells_of_plain (plain : m.Plain) : M.Tells s false Constant m := by
  obtain ⟨x, rfl⟩ := plain
  exact tells_constant x

theorem tells_put (v : μ) : M.Tells s true Constant (modify (M.put v) : FaultM σ PUnit) := by
  refine ⟨.ok fun _ => ⟨⟩, some v, ?_, fun _ => rfl, fun f _ => ⟨⟨⟨⟩, rfl⟩, fun _ => rfl⟩⟩
  intro a
  show (Except.ok PUnit.unit, M.put v (M.put a s)) = _
  rw [M.put_put]
  rfl

theorem Tells.imp (h : M.Tells s t₁ Q₁ m) {Q₁' : (μ → α) → Prop} (weaker : ∀ f, Q₁ f → Q₁' f) :
    M.Tells s t₁ Q₁' m := by
  obtain ⟨out, left, run, honest, returned⟩ := h
  exact ⟨out, left, run, honest, fun f ok => ⟨weaker f (returned f ok).1, (returned f ok).2⟩⟩

/-- What is done after a result that does not depend on the memory. Once the memory is replaced,
nothing depends on what it was. -/
theorem Tells.bind (first : M.Tells s t₁ Constant m)
    (next : ∀ a, M.Tells s t₂ Q₂ (f a)) {P : (μ → β) → Prop}
    (touched : t₁ = true → ∀ g v, Q₂ g → P fun _ => g v)
    (untouched : t₁ = false → ∀ g, Q₂ g → P g) : M.Tells s (t₁ || t₂) P (m >>= f) := by
  obtain ⟨out, left, run, honest, returned⟩ := first
  cases out with
  | error e =>
    refine ⟨.error e, left, fun a => start_bind_of_error (run a), ?_, nofun⟩
    intro some
    rw [honest some, Bool.true_or]
  | ok g =>
    obtain ⟨⟨a, rfl⟩, changed⟩ := returned g rfl
    obtain ⟨out', left', run', honest', returned'⟩ := next a
    cases left with
    | none =>
      obtain rfl : t₁ = false := by
        cases t₁ with
        | false => rfl
        | true => exact absurd (changed rfl) Bool.false_ne_true
      refine ⟨out', left', fun b => (start_bind_of_ok (run b)).trans (run' b), honest', ?_⟩
      intro g' same
      exact ⟨untouched rfl g' (returned' g' same).1, (returned' g' same).2⟩
    | some v =>
      -- the second computation starts with `v`, whatever the memory was at first
      obtain rfl : t₁ = true := honest rfl
      refine ⟨out'.map fun g' _ => g' v, some (left'.getD v), ?_, fun _ => rfl, ?_⟩
      · intro b
        rw [start_bind_of_ok (run b)]
        show (f a).start (M.put v s) = _
        rw [run' v]
        cases out' <;> rfl
      · intro g' same
        cases out' with
        | error e => cases same
        | ok g'' =>
          cases same
          exact ⟨touched rfl g'' v (returned' g'' rfl).1, fun _ => rfl⟩

/-- Two computations that do not depend on the memory, except for what becomes of it. -/
theorem Tells.next {t : Bool} (first : M.Tells s t₁ Constant m)
    (next : ∀ a, M.Tells s t Constant (f a)) : M.Tells s (t₁ || t) Constant (m >>= f) := by
  refine first.bind next ?_ ?_
  · rintro - g v -
    exact ⟨g v, rfl⟩
  · intro _ g constant
    exact constant

theorem Tells.map (h : M.Tells s t₁ Q₁ m) (f : α → β) (mapped : ∀ g, Q₁ g → Q₂ fun a => f (g a)) :
    M.Tells s t₁ Q₂ (do return f (← m)) := by
  obtain ⟨out, left, run, honest, returned⟩ := h
  refine ⟨out.map fun g a => f (g a), left, ?_, honest, ?_⟩
  · intro a
    cases out with
    | error e => exact start_bind_of_error (run a)
    | ok g => exact start_bind_of_ok (run a)
  · intro g same
    cases out with
    | error e => cases same
    | ok g' =>
      cases same
      exact ⟨mapped g' (returned g' rfl).1, (returned g' rfl).2⟩

/-- Two results side by side. The second one depends on what the first computation leaves. -/
theorem Tells.both (first : M.Tells s t₁ Q₁ m) (next : M.Tells s t₂ Q₂ k) (h : α → β → γ)
    (touched : t₁ = true → ∀ f g v, Q₁ f → Q₂ g → Q fun a => h (f a) (g v))
    (untouched : t₁ = false → ∀ f g, Q₁ f → Q₂ g → Q fun a => h (f a) (g a)) :
    M.Tells s (t₁ || t₂) Q (do let a ← m; return h a (← k)) := by
  obtain ⟨out, left, run, honest, returned⟩ := first
  obtain ⟨out', left', run', honest', returned'⟩ := next
  cases out with
  | error e =>
    refine ⟨.error e, left, fun a => start_bind_of_error (run a), ?_, nofun⟩
    intro some
    rw [honest some, Bool.true_or]
  | ok f =>
    obtain ⟨here, changed⟩ := returned f rfl
    -- `left.getD a` is the memory between the two: what the first has put, or else what was there
    have runs : ∀ a, (do let a ← m; return h a (← k) : FaultM σ γ).start (M.put a s) =
        (out'.map fun g => h (f a) (g (left.getD a)), M.put (left'.getD (left.getD a)) s) := by
      intro a
      rw [start_bind_of_ok (run a)]
      cases out' with
      | error e => exact start_bind_of_error (run' _)
      | ok g => exact start_bind_of_ok (run' _)
    refine ⟨out'.map fun g a => h (f a) (g (left.getD a)), left'.or left, ?_, ?_, ?_⟩
    · intro a
      rw [runs]
      cases out' <;> cases left' <;> cases left <;> rfl
    · intro some
      rw [Option.isSome_or, Bool.or_eq_true] at some
      rcases some with last | before
      · rw [honest' last, Bool.or_true]
      · rw [honest before, Bool.true_or]
    · intro g same
      cases out' with
      | error e => cases same
      | ok g' =>
        cases same
        obtain ⟨there, changed'⟩ := returned' g' rfl
        refine ⟨?_, ?_⟩
        · cases left with
          | none =>
            refine untouched ?_ f g' here there
            cases t₁ with
            | false => rfl
            | true => exact absurd (changed rfl) Bool.false_ne_true
          | some v => exact touched (honest rfl) f g' v here there
        · intro either
          rw [Option.isSome_or, Bool.or_eq_true]
          rcases Bool.or_eq_true_iff.mp either with one | other
          · exact .inr (changed one)
          · exact .inl (changed' other)

theorem tells_get {f : σ → FaultM σ α} (blind : ∀ a, f (M.put a s) = f s)
    (h : M.Tells s t₁ Q₁ (f s)) : M.Tells s t₁ Q₁ (get >>= f) := by
  obtain ⟨out, left, run, rest⟩ := h
  refine ⟨out, left, fun a => ?_, rest⟩
  rw [start_bind_of_ok (start_get _), blind a, run a]

theorem Tells.throw (h : M.Tells s t₁ Q₁ m) (Q : (μ → γ) → Prop) (e : Fault) :
    M.Tells s t₁ Q (m >>= fun _ => (throw e : FaultM σ γ)) := by
  obtain ⟨out, left, run, honest, -⟩ := h
  cases out with
  | error e' => exact ⟨.error e', left, fun a => start_bind_of_error (run a), honest, nofun⟩
  | ok f => exact ⟨.error e, left, fun a => start_bind_of_ok (run a), honest, nofun⟩

/-! ## A target at work -/

/-- The memory of a target at work on a rule. -/
def work (M : Memory σ μ) : Memory (Work σ) μ where
  put a w := { w with target := M.put a w.target }
  put_put a b w := by rw [M.put_put]

theorem Tells.target (h : M.Tells s t₁ Q₁ m) (r : Rule) :
    M.work.Tells ⟨s, r⟩ t₁ Q₁ (GenerateM.target m) := by
  obtain ⟨out, left, run, rest⟩ := h
  refine ⟨out, left, fun a => ?_, rest⟩
  rw [GenerateM.start_target]
  show ((m.start (M.put a s)).1, (⟨(m.start (M.put a s)).2, r⟩ : Work σ)) = _
  rw [run a]
  rfl

theorem tells_of_rule {m : GenerateM σ α} {r : Rule}
    (reads : ∀ t, m.start ⟨t, r⟩ = (x, ⟨t, r⟩)) : M.work.Tells ⟨s, r⟩ false Constant m := by
  obtain ⟨out, left, run, rest⟩ := tells_constant (M := M.work) (s := ⟨s, r⟩) x
  exact ⟨out, left, fun a => (reads _).trans (run a), rest⟩

theorem tells_query {w : Work σ} {search : Cond → GenerateM σ (Option String)}
    {Q : (μ → Option String) → Prop} (p : ParsedCondition)
    (h : M.work.Tells w t₁ Q (search p.search)) :
    M.work.Tells w t₁ Q (GenerateM.query search GenerateM.noAggregation p) := by
  obtain ⟨c, aggregation⟩ := p
  cases aggregation with
  | none =>
    show M.work.Tells w t₁ Q (search c >>= pure)
    rwa [bind_pure]
  | some a => exact h.throw Q _

theorem Tells.of_start {k : FaultM σ α} (h : M.Tells s t₁ Q₁ k)
    (same : ∀ a, m.start (M.put a s) = k.start (M.put a s)) : M.Tells s t₁ Q₁ m := by
  obtain ⟨out, left, run, rest⟩ := h
  exact ⟨out, left, fun a => (same a).trans (run a), rest⟩

end Memory

/-! ## Rendering -/

namespace Cond

mutual

/-- Rendering a tree touches the memory: at a junction that it enters, or at an item. Parts of a
junction that are not kept do not count. -/
def touches (keeps : Cond → Bool) (entered : Junction → List Cond → Bool)
    (item : Value → Value → Bool) : Cond → Bool
  | .all _ items => entered .conj items || touchesEach keeps entered item items
  | .any items => entered .disj items || touchesEach keeps entered item items
  | .not (c :: _) => touches keeps entered item c
  | .group inner => touches keeps entered item inner
  | .item field v => item field v
  | _ => false

/-- Rendering several trees touches the memory. -/
def touchesEach (keeps : Cond → Bool) (entered : Junction → List Cond → Bool)
    (item : Value → Value → Bool) : List Cond → Bool
  | [] => false
  | c :: rest =>
    if keeps c then touches keeps entered item c || touchesEach keeps entered item rest
    else touchesEach keeps entered item rest

end

end Cond

namespace Renderer

open Memory

variable {σ μ : Type}

/-- The parts of a renderer tell what becomes of a memory, and what they write does not depend on it. -/
structure Remembers (M : Memory σ μ) (s : σ) (r : Renderer σ)
    (entered : Junction → List Cond → Bool) (item : Value → Value → Bool) : Prop where
  enter : ∀ j items, M.Tells s (entered j items) Constant (r.enter j items)
  anyText : r.anyText = none
  join : ∀ j parts, M.Tells s false Constant (r.join j parts)
  negate : ∀ t, M.Tells s false Constant (r.negate t)
  bracket : ∀ t, M.Tells s false Constant (r.bracket t)
  value : ∀ v, M.Tells s false Constant (r.value v)
  list : ∀ vs, M.Tells s false Constant (r.list vs)
  item : ∀ field v, M.Tells s (item field v) Constant (r.item field v)
  isNull : ∀ c, M.Tells s false Constant (r.isNull c)
  notNull : ∀ c, M.Tells s false Constant (r.notNull c)

namespace Remembers

variable {M : Memory σ μ} {s : σ} {r : Renderer σ} {entered : Junction → List Cond → Bool}
  {item : Value → Value → Bool}

mutual

theorem tells_render (h : r.Remembers M s entered item) (c : Cond) :
    M.Tells s (c.touches r.keeps entered item) Constant (r.render c) := by
  match c with
  | .all _ items =>
    rw [render, touches]
    have rendered := (h.tells_renderEach items).next (h.join .conj)
    rw [Bool.or_false] at rendered
    exact (h.enter .conj items).next fun _ => rendered
  | .any items =>
    rw [render, h.anyText, touches]
    have rendered := (h.tells_renderEach items).next (h.join .disj)
    rw [Bool.or_false] at rendered
    exact (h.enter .disj items).next fun _ => rendered
  | .not [] =>
    rw [render]
    exact tells_throw _ _ _
  | .not (c :: _) =>
    rw [render, touches, ← Bool.or_false (touches _ _ _ c)]
    exact (h.tells_render c).next h.negate
  | .group inner =>
    rw [render, touches, ← Bool.or_false (touches _ _ _ inner)]
    exact (h.tells_render inner).next h.bracket
  | .item field v =>
    rw [render, touches]
    exact h.item field v
  | .isNull items =>
    rw [render, touches]
    · exact h.isNull _
    all_goals nofun
  | .notNull items =>
    rw [render, touches]
    · exact h.notNull _
    all_goals nofun
  | .seq items =>
    rw [render, touches]
    · exact h.list _
    all_goals nofun
  | .value (.list vs) =>
    rw [render, touches]
    · exact h.list vs
    all_goals nofun
  | .value (.text _) | .value (.int _) =>
    rw [render, touches]
    · exact (h.value _).map some fun g constant => by
        obtain ⟨a, rfl⟩ := constant
        exact ⟨some a, rfl⟩
    all_goals nofun
  | .absent | .token _ | .value .null | .value (.bool _) | .value (.decimal _) | .value (.map _) =>
    rw [render]
    · exact tells_throw _ _ _
    all_goals nofun

theorem tells_renderEach (h : r.Remembers M s entered item) (items : List Cond) :
    M.Tells s (touchesEach r.keeps entered item items) Constant (r.renderEach items) := by
  match items with
  | [] =>
    rw [renderEach]
    exact tells_constant (.ok [])
  | c :: rest =>
    rw [renderEach, touchesEach]
    by_cases kept : r.keeps c = true
    · rw [if_pos kept, if_pos kept]
      refine (h.tells_render c).both (h.tells_renderEach rest) (· :: ·) ?_ ?_
      · rintro - f g v ⟨a, rfl⟩ ⟨b, rfl⟩
        exact ⟨a :: b, rfl⟩
      · rintro - f g ⟨a, rfl⟩ ⟨b, rfl⟩
        exact ⟨a :: b, rfl⟩
    · rw [if_neg kept, if_neg kept]
      exact h.tells_renderEach rest

end

end Remembers

/-! ### The usual ways -/

section

variable {value : Value → FaultM σ String} (plain : ∀ v, (value v).Plain)
include plain

theorem plain_valueTexts (vs : List Value) : (valueTexts value vs).Plain := by
  induction vs with
  | nil => exact plain_pure []
  | cons v rest ih => exact (plain v).bind fun t => ih.bind fun ts => plain_pure (t :: ts)

theorem writes_listText (d : Dialect) (vs : List Value) : (listText d value vs).Writes := by
  unfold listText
  split
  · exact (plain_valueTexts plain vs).writes fun _ =>
      (plain_ofExcept _).writes fun _ => (plain_ofExcept _).writes writes_pure
  · exact writes_throw _

theorem plain_operandText (d : Dialect) (v : Value) : (operandText d value v).Plain := by
  cases v with
  | list vs => exact (writes_listText plain d vs).plain.bind fun t => plain_pure (t.getD "")
  | _ => exact plain _

end

theorem writes_nullText (p : Option Pattern) (c : Cond) :
    (FaultM.ofExcept (Dialect.nullText p c) : FaultM σ (Option String)).Writes := by
  unfold Dialect.nullText
  cases Dialect.nullField c with
  | error e => exact writes_throw e
  | ok t => exact ⟨Dialect.fill p [t], rfl⟩

theorem writes_item (d : Dialect) (clean : String → String) (field v : Value) :
    ((standard d clean : Renderer σ).item field v).Writes := by
  have operand : ∀ v, (operandText d (fun v => FaultM.ofExcept (d.valueText clean v)) v).Plain :=
    plain_operandText (σ := σ) (fun _ => plain_ofExcept _) d
  show (itemText _ _ _ _ _).Writes
  unfold itemText
  split
  · exact (operand v).writes fun _ => (plain_ofExcept _).writes writes_pure
  · split
    · exact (operand _).writes fun _ => (plain_ofExcept _).writes writes_pure
    · exact writes_throw _

end Renderer

end SigmaQuery
