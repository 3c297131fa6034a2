import SigmaQuery.Fault

/-!
# Computations with faults

Facts about running a computation that may end in a fault: how a run goes through a bind, which
observations of the state it keeps, and which of them say whether it returns.
-/

namespace SigmaQuery.FaultM

open List

variable {σ τ α β γ : Type}

@[simp] theorem ofExcept_ok (a : α) : (ofExcept (.ok a) : FaultM σ α) = pure a := rfl

@[simp] theorem ofExcept_error (e : Fault) : (ofExcept (.error e) : FaultM σ α) = throw e := rfl

variable {b : β} {m : FaultM σ α} {f : α → FaultM σ β} {s t : σ} {a : α} {x : Except Fault α}

theorem except_bind_eq_ok {f : α → Except Fault β} (h : x >>= f = .ok b) :
    ∃ a, x = .ok a ∧ f a = .ok b := by
  cases x with
  | error e => cases h
  | ok a => exact ⟨a, rfl, h⟩

/-! ## Runs -/

@[simp] theorem start_pure (a : α) (s : σ) : (pure a : FaultM σ α).start s = (.ok a, s) := rfl

@[simp] theorem start_throw (e : Fault) (s : σ) :
    (throw e : FaultM σ α).start s = (.error e, s) := rfl

@[simp] theorem start_get (s : σ) : (get : FaultM σ σ).start s = (.ok s, s) := rfl

@[simp] theorem start_set (s t : σ) : (set t : FaultM σ PUnit).start s = (.ok ⟨⟩, t) := rfl

@[simp] theorem start_ofExcept (r : Except Fault α) (s : σ) :
    (ofExcept r : FaultM σ α).start s = (r, s) := rfl

theorem start_bind_of_ok (h : m.start s = (.ok a, t)) : (m >>= f).start s = (f a).start t := by
  show (ExceptT.bindCont (fun a => f a) (m.start s).1).run (m.start s).2 = _
  rw [h]
  rfl

theorem start_bind_of_error {e : Fault} (h : m.start s = (.error e, t)) :
    (m >>= f).start s = (.error e, t) := by
  show (ExceptT.bindCont (fun a => f a) (m.start s).1).run (m.start s).2 = _
  rw [h]
  rfl

theorem start_map (m : FaultM σ α) (f : α → β) (s : σ) :
    (do return f (← m) : FaultM σ β).start s = ((m.start s).1.map f, (m.start s).2) := by
  rcases run : m.start s with ⟨e | a, t⟩
  · exact start_bind_of_error run
  · exact start_bind_of_ok run

/-- The computation neither reads nor changes the state. -/
def Plain (m : FaultM σ α) : Prop :=
  ∃ r, m = ofExcept r

theorem plain_ofExcept (r : Except Fault α) : (ofExcept r : FaultM σ α).Plain := ⟨r, rfl⟩

theorem plain_pure (a : α) : (pure a : FaultM σ α).Plain := ⟨.ok a, rfl⟩

theorem plain_throw (e : Fault) : (throw e : FaultM σ α).Plain := ⟨.error e, rfl⟩

theorem Plain.bind (first : m.Plain) (next : ∀ a, (f a).Plain) : (m >>= f).Plain := by
  obtain ⟨r, rfl⟩ := first
  cases r with
  | error e => exact plain_throw e
  | ok a => exact next a

/-- The computation writes a text and does nothing else. -/
def Writes (m : FaultM σ (Option String)) : Prop :=
  ∃ r : Except Fault String, m = ofExcept (r.map some)

theorem writes_pure (s : String) : (pure (some s) : FaultM σ (Option String)).Writes := ⟨.ok s, rfl⟩

theorem writes_throw (e : Fault) : (throw e : FaultM σ (Option String)).Writes := ⟨.error e, rfl⟩

theorem Writes.plain {m : FaultM σ (Option String)} (h : m.Writes) : m.Plain := by
  obtain ⟨r, rfl⟩ := h
  exact plain_ofExcept _

theorem Plain.writes {f : α → FaultM σ (Option String)} (first : m.Plain) (next : ∀ a, (f a).Writes) :
    (m >>= f).Writes := by
  obtain ⟨r, rfl⟩ := first
  cases r with
  | error e => exact writes_throw e
  | ok a => exact next a

theorem Plain.eq_of_start (h : m.Plain) (run : m.start s = (x, t)) : t = s := by
  obtain ⟨r, rfl⟩ := h
  cases run
  rfl

theorem start_bind_eq_ok {u : σ} : (m >>= f).start s = (.ok b, u) ↔
      ∃ a t, m.start s = (.ok a, t) ∧ (f a).start t = (.ok b, u) := by
  rcases run : m.start s with ⟨e | a, t⟩
  · rw [start_bind_of_error run]
    simp
  · rw [start_bind_of_ok run]
    constructor
    · intro h
      exact ⟨a, t, rfl, h⟩
    · rintro ⟨a', t', h, h'⟩
      cases h
      exact h'

/-- The computation can give a result: it does so from some state. -/
def Yields (m : FaultM σ α) (a : α) : Prop :=
  ∃ s t, m.start s = (.ok a, t)

theorem Yields.of_pure {b : α} (h : (pure b : FaultM σ α).Yields a) : a = b := by
  obtain ⟨s, t, run⟩ := h
  cases run
  rfl

theorem Yields.bind (h : (m >>= f).Yields b) : ∃ a, m.Yields a ∧ (f a).Yields b := by
  obtain ⟨s, u, run⟩ := h
  obtain ⟨a, t, first, next⟩ := start_bind_eq_ok.mp run
  exact ⟨a, ⟨s, t, first⟩, ⟨t, u, next⟩⟩

theorem Yields.map {f : α → β} (h : (do return f (← m) : FaultM σ β).Yields b) :
    ∃ a, m.Yields a ∧ b = f a := by
  obtain ⟨a, first, last⟩ := h.bind
  exact ⟨a, first, last.of_pure⟩

theorem Yields.both {k : FaultM σ β} {f : α → β → γ} {c : γ}
    (h : (do let a ← m; return f a (← k) : FaultM σ γ).Yields c) :
    ∃ a b, m.Yields a ∧ k.Yields b ∧ c = f a b := by
  obtain ⟨a, first, rest⟩ := h.bind
  obtain ⟨b, next, rfl⟩ := rest.map
  exact ⟨a, b, first, next, rfl⟩

theorem Yields.exists_of_mapM {items : List α} {results : List β}
    (h : (items.mapM f).Yields results) : ∀ b ∈ results, ∃ a ∈ items, (f a).Yields b := by
  induction items generalizing results with
  | nil =>
    intro b member
    rw [mapM_nil] at h
    rw [h.of_pure] at member
    cases member
  | cons a rest ih =>
    intro b member
    rw [mapM_cons] at h
    obtain ⟨b', results', here, there, rfl⟩ := h.both
    rcases mem_cons.mp member with rfl | later
    · exact ⟨a, mem_cons_self, here⟩
    · obtain ⟨x, inRest, yields⟩ := ih there b later
      exact ⟨x, mem_cons_of_mem _ inRest, yields⟩

/-! ## What a computation keeps -/

/-- Whatever its outcome, the computation leaves an observation of the state as it was. -/
def Keeps (view : σ → τ) (m : FaultM σ α) : Prop :=
  ∀ s, view (m.start s).2 = view s

section Keeps

variable {view : σ → τ} {f : α → FaultM σ β}

theorem keeps_pure (a : α) : Keeps view (pure a : FaultM σ α) := fun _ => rfl

theorem keeps_throw (e : Fault) : Keeps view (throw e : FaultM σ α) := fun _ => rfl

theorem keeps_get : Keeps view (get : FaultM σ σ) := fun _ => rfl

theorem keeps_ofExcept (r : Except Fault α) : Keeps view (ofExcept r : FaultM σ α) := fun _ => rfl

theorem Keeps.bind {m : FaultM σ α} (first : Keeps view m)
    (next : ∀ a, Keeps view (f a)) : Keeps view (m >>= f) := by
  intro s
  have before := first s
  rcases run : m.start s with ⟨e | a, t⟩
  · rw [start_bind_of_error run]
    rwa [run] at before
  · rw [start_bind_of_ok run, next a t]
    rwa [run] at before

theorem keeps_mapM (keeps : ∀ a, Keeps view (f a)) (items : List α) :
    Keeps view (items.mapM f) := by
  induction items with
  | nil => exact keeps_pure []
  | cons a rest ih =>
    rw [mapM_cons]
    exact (keeps a).bind fun b => ih.bind fun bs => keeps_pure _

end Keeps

/-! ## Returning -/

/-- The computation returns from a state. -/
def Returns (m : FaultM σ α) (s : σ) : Prop :=
  ∃ a t, m.start s = (.ok a, t)

theorem Returns.map (h : m.Returns s) (f : α → β) : (do return f (← m) : FaultM σ β).Returns s := by
  obtain ⟨a, t, run⟩ := h
  exact ⟨f a, t, by rw [start_bind_of_ok run]; rfl⟩

theorem returns_map_iff (f : α → β) : (do return f (← m) : FaultM σ β).Returns s ↔ m.Returns s := by
  constructor
  · rintro ⟨b, u, run⟩
    obtain ⟨a, t, first, -⟩ := start_bind_eq_ok.mp run
    exact ⟨a, t, first⟩
  · intro h
    exact h.map f

/-- The computation keeps an observation, and the observation says whether it returns. -/
structure Steady (view : σ → τ) (m : FaultM σ α) : Prop where
  keeps : Keeps view m
  returns : ∀ s t, view s = view t → m.Returns s → m.Returns t

section Steady

variable {view : σ → τ}

theorem steady_pure (a : α) : Steady view (pure a : FaultM σ α) where
  keeps := keeps_pure a
  returns _ t _ _ := ⟨a, t, rfl⟩

theorem steady_ofExcept (r : Except Fault α) : Steady view (ofExcept r : FaultM σ α) where
  keeps := keeps_ofExcept r
  returns := by
    rintro s t _ ⟨a, u, h⟩
    cases h
    exact ⟨a, t, rfl⟩

theorem steady_throw (e : Fault) : Steady view (throw e : FaultM σ α) :=
  steady_ofExcept (.error e)

variable {m : FaultM σ α} {k : FaultM σ β} {s : σ} {f : α → FaultM σ β}

theorem Steady.returns_both (first : Steady view m) (next : Steady view k) (f : α → β → γ)
    (here : m.Returns s) (there : k.Returns s) :
    (do let a ← m; return f a (← k) : FaultM σ γ).Returns s := by
  obtain ⟨a, t, run⟩ := here
  have kept : view s = view t := by
    have := first.keeps s
    rw [run] at this
    exact this.symm
  obtain ⟨b, u, run'⟩ := next.returns s t kept there
  exact ⟨f a b, u, by rw [start_bind_of_ok run, start_bind_of_ok run']; rfl⟩

theorem Steady.returns_both_iff (first : Steady view m) (next : Steady view k) (f : α → β → γ) :
    (do let a ← m; return f a (← k) : FaultM σ γ).Returns s ↔ m.Returns s ∧ k.Returns s := by
  constructor
  · rintro ⟨c, u, run⟩
    obtain ⟨a, t, here, rest⟩ := start_bind_eq_ok.mp run
    obtain ⟨b, t', there, -⟩ := start_bind_eq_ok.mp rest
    have kept : view t = view s := by
      have := first.keeps s
      rwa [here] at this
    exact ⟨⟨a, t, here⟩, next.returns t s kept ⟨b, t', there⟩⟩
  · rintro ⟨here, there⟩
    exact first.returns_both next f here there

/-- A computation that goes on in one of several ways, all of which return from the same states. -/
theorem Steady.bind (first : Steady view m) (next : ∀ a, Steady view (f a))
    (alike : ∀ a b s, (f a).Returns s → (f b).Returns s) : Steady view (m >>= f) where
  keeps := first.keeps.bind fun a => (next a).keeps
  returns := by
    rintro s t same ⟨c, u, run⟩
    obtain ⟨a, s', here, rest⟩ := start_bind_eq_ok.mp run
    obtain ⟨b, t', there⟩ := first.returns s t same ⟨a, s', here⟩
    have kept : view s' = view t' := by
      have before := first.keeps s
      have after := first.keeps t
      rw [here] at before
      rw [there] at after
      exact before.trans (same.trans after.symm)
    obtain ⟨d, w, last⟩ := (next b).returns s' t' kept (alike a b s' ⟨c, u, rest⟩)
    exact ⟨d, w, by rw [start_bind_of_ok there, last]⟩

/-- Two computations one after the other, the second of which does not use what the first gives. -/
theorem Steady.both (first : Steady view m) (next : Steady view k) (f : α → β → γ) :
    Steady view (do let a ← m; return f a (← k)) where
  keeps := first.keeps.bind fun a => next.keeps.bind fun b => keeps_pure _
  returns := by
    rintro s t same ⟨c, u, h⟩
    obtain ⟨a, s', run, rest⟩ := start_bind_eq_ok.mp h
    obtain ⟨b, s'', run', _⟩ := start_bind_eq_ok.mp rest
    have kept : view s = view s' := by
      have := first.keeps s
      rw [run] at this
      exact this.symm
    exact first.returns_both next f (first.returns s t same ⟨a, s', run⟩)
      (next.returns s' t (kept ▸ same) ⟨b, s'', run'⟩)

theorem Steady.map (h : Steady view m) (f : α → β) : Steady view (do return f (← m)) := by
  simpa using (steady_pure ()).both h fun _ a => f a

theorem steady_mapM (steady : ∀ a, Steady view (f a)) (items : List α) :
    Steady view (items.mapM f) := by
  induction items with
  | nil => exact steady_pure []
  | cons a rest ih =>
    rw [mapM_cons]
    exact (steady a).both ih (· :: ·)

theorem returns_mapM (steady : ∀ a, Steady view (f a)) {items : List α}
    (returns : ∀ a ∈ items, (f a).Returns s) : (items.mapM f).Returns s := by
  induction items with
  | nil => exact ⟨[], s, rfl⟩
  | cons a rest ih =>
    rw [mapM_cons]
    exact (steady a).returns_both (steady_mapM steady rest) (· :: ·) (returns a mem_cons_self)
      (ih fun x member => returns x (mem_cons_of_mem _ member))

end Steady

/-! ## Invariants -/

/-- From a state with an invariant the computation ends, whatever its outcome, in such a state, and
what it returns has a property. -/
def Ensures (I : σ → Prop) (Q : α → Prop) (m : FaultM σ α) : Prop :=
  ∀ s, I s → I (m.start s).2 ∧ ∀ a t, m.start s = (.ok a, t) → Q a

section Ensures

variable {I : σ → Prop} {P : α → Prop} {Q : β → Prop}

theorem ensures_ofExcept {r : Except Fault α} (h : ∀ a, r = .ok a → P a) :
    Ensures I P (ofExcept r : FaultM σ α) := by
  refine fun s holds => ⟨holds, fun a t run => h a ?_⟩
  exact congrArg Prod.fst run

theorem ensures_pure {a : α} (h : P a) : Ensures I P (pure a : FaultM σ α) :=
  ensures_ofExcept (r := .ok a) fun _ same => Except.ok.inj same ▸ h

theorem ensures_throw (e : Fault) : Ensures I P (throw e : FaultM σ α) :=
  ensures_ofExcept (r := .error e) fun _ same => by cases same

variable {m : FaultM σ α} {f : α → FaultM σ β}

theorem Ensures.bind (first : Ensures I P m) (next : ∀ a, P a → Ensures I Q (f a)) :
    Ensures I Q (m >>= f) := by
  intro s holds
  obtain ⟨kept, has⟩ := first s holds
  rcases run : m.start s with ⟨e | a, t⟩ <;> rw [run] at kept has
  · rw [start_bind_of_error run]
    exact ⟨kept, fun b u impossible => by cases impossible⟩
  · rw [start_bind_of_ok run]
    exact next a (has a t rfl) t kept

theorem ensures_get : Ensures I I (get : FaultM σ σ) := by
  intro s holds
  refine ⟨holds, fun a t run => ?_⟩
  cases run
  exact holds

theorem Ensures.imp {P' : α → Prop} {m : FaultM σ α} (h : Ensures I P m) (imp : ∀ a, P a → P' a) :
    Ensures I P' m :=
  fun s holds => ⟨(h s holds).1, fun a t run => imp a ((h s holds).2 a t run)⟩

theorem Ensures.map {f : α → β} (h : Ensures I P m) (imp : ∀ a, P a → Q (f a)) :
    Ensures I Q (do return f (← m)) :=
  h.bind fun a has => ensures_pure (imp a has)

/-- From a state with an invariant the computation ends in such a state. -/
abbrev Stays (I : σ → Prop) (m : FaultM σ α) : Prop :=
  Ensures I (fun _ => True) m

theorem Ensures.stays (h : Ensures I P m) : Stays I m :=
  h.imp fun _ _ => trivial

theorem Keeps.stays {view : σ → τ} (h : Keeps view m) (x : τ) : Stays (fun s => view s = x) m :=
  fun s holds => ⟨(h s).trans holds, fun _ _ _ => trivial⟩

theorem stays_ofExcept (r : Except Fault α) : Stays I (ofExcept r : FaultM σ α) :=
  ensures_ofExcept fun _ _ => trivial

theorem stays_pure (a : α) : Stays I (pure a : FaultM σ α) :=
  stays_ofExcept (.ok a)

theorem stays_throw (e : Fault) : Stays I (throw e : FaultM σ α) :=
  stays_ofExcept (.error e)

theorem stays_get : Stays I (get : FaultM σ σ) :=
  ensures_get.stays

theorem Stays.bind (first : Stays I m) (next : ∀ a, Stays I (f a)) : Stays I (m >>= f) :=
  Ensures.bind first fun a _ => next a

end Ensures

/-! ## Outcomes -/

/-- From a state with an invariant the computation ends in such a state. What it returns has a
property, and so has the fault that it may end in. -/
structure Ends (I : σ → Prop) (Q : α → Prop) (E : Fault → Prop) (m : FaultM σ α) : Prop where
  ensures : Ensures I Q m
  fails : ∀ s, I s → ∀ e t, m.start s = (.error e, t) → E e

section Ends

variable {I : σ → Prop} {P : α → Prop} {Q : β → Prop} {E : Fault → Prop}

theorem ends_ofExcept {r : Except Fault α} (ok : ∀ a, r = .ok a → P a)
    (error : ∀ e, r = .error e → E e) : Ends I P E (ofExcept r : FaultM σ α) where
  ensures := ensures_ofExcept ok
  fails _ _ e _ run := error e (congrArg Prod.fst run)

theorem ends_pure {a : α} (h : P a) : Ends I P E (pure a : FaultM σ α) :=
  ends_ofExcept (r := .ok a) (fun _ same => Except.ok.inj same ▸ h) nofun

variable {E' : Fault → Prop} {m : FaultM σ α}

theorem Ends.imp {P' : α → Prop} (h : Ends I P E m) (ok : ∀ a, P a → P' a) (error : ∀ e, E e → E' e) :
    Ends I P' E' m where
  ensures := h.ensures.imp ok
  fails s holds e t run := error e (h.fails s holds e t run)

theorem Ends.bind {f : α → FaultM σ β} (first : Ends I P E m) (next : ∀ a, P a → Ends I Q E (f a)) :
    Ends I Q E (m >>= f) where
  ensures := first.ensures.bind fun a has => (next a has).ensures
  fails s holds e u run := by
    obtain ⟨kept, has⟩ := first.ensures s holds
    rcases here : m.start s with ⟨e' | a, t⟩
    · rw [start_bind_of_error here] at run
      cases run
      exact first.fails s holds _ _ here
    · rw [start_bind_of_ok here] at run
      rw [here] at kept
      exact (next a (has a t here)).fails t kept e u run

theorem Ends.map {f : α → β} (h : Ends I P E m) (imp : ∀ a, P a → Q (f a)) :
    Ends I Q E (do return f (← m)) :=
  h.bind fun a has => ends_pure (imp a has)

end Ends

end SigmaQuery.FaultM
