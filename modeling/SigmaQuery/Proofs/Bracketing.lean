import SigmaQuery.Proofs.Reduction

/-!
# The brackets of a tree

Where brackets may stand in a tree and where they must. A *layout* says this for the part of a tree
that is not below a negation: a loose tree has brackets anywhere, a bare one has none, and in a
wrapped one each junction stands directly in brackets. The operand of a negation is a leaf or stands
in brackets itself; what is inside is wrapped, or the operand is *raw* and has any shape.

The simplification of a loose tree takes the brackets off, works on the bare tree, and gives a
wrapped tree.
-/

namespace SigmaQuery

open List

/-- Where brackets stand in a tree, up to its negations. -/
inductive Bracketing where
  /-- Anywhere. -/
  | loose
  /-- Nowhere. -/
  | bare
  /-- Around each junction. -/
  | wrapped
  /-- The same, for a tree that stands in brackets itself. -/
  | inside
deriving DecidableEq, Repr

namespace Bracketing

/-- The layout of the operands of a junction, where there may be one. -/
def junction? : Bracketing → Option Bracketing
  | .loose => some .loose
  | .bare => some .bare
  | .wrapped => none
  | .inside => some .wrapped

/-- The layout in brackets, where there may be some. -/
def group? : Bracketing → Option Bracketing
  | .loose => some .loose
  | .bare => none
  | .wrapped => some .inside
  | .inside => some .inside

end Bracketing

namespace Cond

/-- The node is a leaf. -/
def isLeaf : Cond → Bool
  | .absent => true
  | .item _ _ => true
  | .value _ => true
  | .token _ => true
  | _ => false

mutual

/-- The tree has a layout. -/
def Fits (raw : Cond → Prop) (l : Bracketing) : Cond → Prop
  | .all _ items => ∃ l', l.junction? = some l' ∧ FitsAll raw l' items
  | .any items => ∃ l', l.junction? = some l' ∧ FitsAll raw l' items
  | .group inner => ∃ l', l.group? = some l' ∧ Fits raw l' inner
  | .not items => FitsBelow raw items
  | .isNull items => ∀ c ∈ items, c.isLeaf = true
  | .notNull items => ∀ c ∈ items, c.isLeaf = true
  | .seq _ => False
  | .absent => True
  | .item _ _ => True
  | .value _ => True
  | .token _ => True

/-- Several trees have a layout. -/
def FitsAll (raw : Cond → Prop) (l : Bracketing) : List Cond → Prop
  | [] => True
  | c :: rest => Fits raw l c ∧ FitsAll raw l rest

/-- The node may be the operand of a negation. -/
def FitsOperand (raw : Cond → Prop) : Cond → Prop
  | .group inner => raw (.group inner) ∨ Fits raw .inside inner
  | c => c.isLeaf = true

/-- Several nodes may be operands of negations. -/
def FitsBelow (raw : Cond → Prop) : List Cond → Prop
  | [] => True
  | c :: rest => FitsOperand raw c ∧ FitsBelow raw rest

end

variable {raw : Cond → Prop} {l : Bracketing}

theorem fitsAll_iff (items : List Cond) :
    FitsAll raw l items ↔ ∀ c ∈ items, c.Fits raw l :=
  each_iff (FitsAll raw l) trivial (fun _ _ => Iff.rfl) items

theorem fitsBelow_iff (items : List Cond) :
    FitsBelow raw items ↔ ∀ c ∈ items, c.FitsOperand raw :=
  each_iff (FitsBelow raw) trivial (fun _ _ => Iff.rfl) items

/-- A junction has a layout if the layout has junctions and its operands fit there. -/
theorem fits_build_iff (j : Junction) (o : Option Nat) (items : List Cond) :
    (j.build o items).Fits raw l ↔ ∃ l', l.junction? = some l' ∧ ∀ c ∈ items, c.Fits raw l' := by
  cases j <;> simp [Junction.build, Fits, fitsAll_iff]

variable {c t : Cond} {ls : List Loss} {items : List Cond}

theorem unshared_of_isLeaf (leaf : c.isLeaf = true) : c.unshared = true := by
  cases c <;> simp_all [isLeaf, unshared]

theorem fits_of_isLeaf (leaf : c.isLeaf = true) : c.Fits raw l := by
  cases c <;> simp_all [isLeaf, Fits]

/-! ## Losses -/

theorem mem_of_mem_remaining {source : Nat} (member : c ∈ remaining source ls items) :
    c ∈ items := by
  induction ls generalizing items with
  | nil => exact member
  | cons loss ls ih =>
    have known := ih member
    split at known
    · cases erased : eraseSame? loss.item items with
      | none => simpa [erased] using known
      | some rest =>
        rw [erased] at known
        exact mem_of_eraseSame? erased known
    · exact known

mutual

theorem lose_of_unshared {t : Cond} (tree : t.unshared = true) (ls : List Loss) :
    t.lose ls = t := by
  match t, tree with
  | .all none items, tree | .any items, tree | .not items, tree | .isNull items, tree
  | .notNull items, tree | .seq items, tree =>
    have parts : unsharedAll items = true := tree
    rw [lose, loseAll_of_unshared parts]
  | .group inner, tree =>
    have part : inner.unshared = true := tree
    rw [lose, lose_of_unshared part]
  | .absent, _ | .item _ _, _ | .value _, _ | .token _, _ => rw [lose]

theorem loseAll_of_unshared {items : List Cond} (trees : unsharedAll items = true)
    (ls : List Loss) : loseAll ls items = items := by
  match items, trees with
  | [], _ => rfl
  | c :: rest, trees =>
    simp only [unsharedAll, Bool.and_eq_true] at trees
    rw [loseAll, lose_of_unshared trees.1, loseAll_of_unshared trees.2]

end

/-- What is raw loses nothing. -/
def Lossless (raw : Cond → Prop) : Prop :=
  ∀ n ls, raw n → n.lose ls = n

mutual

theorem Fits.lose (own : Lossless raw) (ls : List Loss) {l : Bracketing} {t : Cond}
    (fits : t.Fits raw l) : (t.lose ls).Fits raw l := by
  match t, fits with
  | .all (some source) items, ⟨l', may, parts⟩ =>
    refine ⟨l', may, (fitsAll_iff _).mpr fun c member => ?_⟩
    exact (fitsAll_iff _).mp (parts.loseAll own ls) c (mem_of_mem_remaining member)
  | .all none items, ⟨l', may, parts⟩ | .any items, ⟨l', may, parts⟩ =>
    exact ⟨l', may, parts.loseAll own ls⟩
  | .group inner, ⟨l', may, part⟩ => exact ⟨l', may, part.lose own ls⟩
  | .not items, below => exact below.loseAll own ls
  | .isNull items, leaves | .notNull items, leaves =>
    have trees : unsharedAll items = true :=
      (unsharedAll_iff items).mpr fun c member => unshared_of_isLeaf (leaves c member)
    rw [Cond.lose, loseAll_of_unshared trees]
    exact leaves
  | .absent, _ | .item _ _, _ | .value _, _ | .token _, _ => exact trivial

theorem FitsAll.loseAll (own : Lossless raw) (ls : List Loss) {l : Bracketing} {items : List Cond}
    (fits : FitsAll raw l items) : FitsAll raw l (Cond.loseAll ls items) := by
  match items, fits with
  | [], _ => exact trivial
  | c :: rest, ⟨here, later⟩ => exact ⟨here.lose own ls, later.loseAll own ls⟩

theorem FitsOperand.lose (own : Lossless raw) (ls : List Loss) {t : Cond}
    (fits : t.FitsOperand raw) : (t.lose ls).FitsOperand raw := by
  match t, fits with
  | .group inner, .inl is =>
    rw [own _ ls is]
    exact .inl is
  | .group inner, .inr part => exact .inr (part.lose own ls)
  | .absent, _ | .item _ _, _ | .value _, _ | .token _, _ => exact rfl

theorem FitsBelow.loseAll (own : Lossless raw) (ls : List Loss) {items : List Cond}
    (fits : FitsBelow raw items) : FitsBelow raw (Cond.loseAll ls items) := by
  match items, fits with
  | [], _ => exact trivial
  | c :: rest, ⟨here, later⟩ => exact ⟨here.lose own ls, later.loseAll own ls⟩

end

theorem Fits.after (own : Lossless raw) (ls : List Loss) (fits : t.Fits raw l) :
    (t.after ls).Fits raw l := by
  cases ls with
  | nil => exact fits
  | cons loss ls => exact fits.lose own (loss :: ls)

theorem FitsOperand.after (own : Lossless raw) (ls : List Loss) (fits : t.FitsOperand raw) :
    (t.after ls).FitsOperand raw := by
  cases ls with
  | nil => exact fits
  | cons loss ls => exact fits.lose own (loss :: ls)

/-! ## The simplification of loose trees -/

/-- Taking the brackets off a loose tree makes it bare, and leaves a leaf a leaf. -/
theorem nodewise_fits : Nodewise fun t bare =>
    (t.Fits raw .loose → bare.Fits raw .bare) ∧ (t.isLeaf = true → bare.isLeaf = true) where
  group {inner bare} h := by
    refine ⟨fun fits => ?_, fun leaf => by cases leaf⟩
    obtain ⟨l', may, part⟩ := fits
    cases may
    exact h.1 part
  junction j {o items ds} h := by
    refine ⟨fun fits => ?_, fun leaf => by cases j <;> cases leaf⟩
    obtain ⟨l', may, parts⟩ := (fits_build_iff j o items).mp fits
    cases may
    have bare := forall_of_forall₂ (h.imp fun _ _ r => r.1) parts
    exact (fits_build_iff j o ds).mpr ⟨.bare, rfl, bare⟩
  isNull h := ⟨forall_of_forall₂ (h.imp fun _ _ r => r.2), fun leaf => by cases leaf⟩
  notNull h := ⟨forall_of_forall₂ (h.imp fun _ _ r => r.2), fun leaf => by cases leaf⟩
  same {c} kept := by
    refine ⟨fun fits => ?_, id⟩
    cases c with
    | not items => exact fits
    | seq items => exact fits.elim
    | absent | item f x | value x | token t => exact trivial
    | all o items | any items | isNull items | notNull items | group inner => cases kept

theorem hereditary_bare : Hereditary fun c => c.Fits raw .bare where
  absent := trivial
  operand {j o items} h := by
    obtain ⟨l', may, parts⟩ := (fits_build_iff j o items).mp h
    cases may
    exact parts
  rebuild {j o items items'} _ parts := (fits_build_iff j o items').mpr ⟨.bare, rfl, parts⟩
  junction j {items} parts := (fits_build_iff j none items).mpr ⟨.bare, rfl, parts⟩
  negations {items c} h step := by
    -- The operand is a leaf or in brackets, so no rule for negations applies.
    have below : ∀ x ∈ items, x.FitsOperand raw := (fitsBelow_iff items).mp h
    unfold reduceNot at step
    split at step <;> cases step
    all_goals exact absurd (below _ mem_cons_self) (by simp [FitsOperand, isLeaf])

theorem FitsOperand.inert (fits : t.FitsOperand raw) :
    reduce? t = .ok none ∧ t.operands = [] ∧ ∀ items, t.withOperands items = t := by
  cases t <;> simp_all [FitsOperand, isLeaf, reduce?, operands, withOperands]

theorem fitsOperand_passAll (own : Lossless raw) {ts : List Cond} :
    ∀ {ls gone : List Loss} {cs : List Cond} {changed : Bool},
      passAll ls ts = (.ok (cs, changed), gone) → (∀ t ∈ ts, t.FitsOperand raw) →
        ∀ c ∈ cs, c.FitsOperand raw := by
  induction len : ts.length generalizing ts with
  | zero =>
    obtain rfl := length_eq_zero_iff.mp len
    intro ls gone cs changed h _ c member
    rw [passAll] at h
    cases h
    cases member
  | succ n ih =>
    obtain ⟨t, rest, rfl⟩ := exists_cons_of_length_eq_add_one len
    intro ls gone cs changed h fits c member
    obtain ⟨c', first, sooner, others, more, here, there, rfl, -⟩ := passAll_cons_cases h
    rcases mem_cons.mp member with rfl | later
    · obtain ⟨stuck, none, same⟩ := (fits t mem_cons_self).inert
      rcases pass_cases here with ⟨d, inner, step, -, -⟩ | ⟨items, -, -, rfl⟩
      · rw [stuck] at step
        cases step
      · rw [same]
        exact (fits t mem_cons_self).after own gone
    · refine ih (by simpa using len) there (fun x known => ?_) c later
      obtain ⟨y, inRest, rfl⟩ := mem_map.mp known
      exact (fits y (mem_cons_of_mem _ inRest)).after own sooner

mutual

theorem fits_pass (own : Lossless raw) {ls gone : List Loss} {t c : Cond} {changed : Bool}
    (h : pass ls t = (.ok (c, changed), gone)) (fits : t.Fits raw .bare) : c.Fits raw .bare := by
  rcases pass_cases h with ⟨d, inner, step, -, deeper⟩ | ⟨items, -, below, rfl⟩
  · have lighter := weight_reduce? step
    have := weight_after_le (ls ++ losses t) d
    exact fits_pass own deeper ((hereditary_bare.reduce? step fits).after own _)
  · have lighter := weights_operands_lt t
    -- The pass goes on below junctions and negations; other nodes have nothing below them.
    cases t with
    | all o old =>
      have parts := fits_passAll own below (hereditary_bare.operand (j := .conj) fits)
      exact hereditary_bare.rebuild (j := .conj) fits parts
    | any old =>
      have parts := fits_passAll own below (hereditary_bare.operand (j := .disj) (o := none) fits)
      exact hereditary_bare.rebuild (j := .disj) (o := none) fits parts
    | not old =>
      exact (fitsBelow_iff items).mpr (fitsOperand_passAll own below ((fitsBelow_iff old).mp fits))
    | _ => exact fits
termination_by 2 * t.weight
decreasing_by all_goals subst_vars; omega

theorem fits_passAll (own : Lossless raw) {ls gone : List Loss} {ts cs : List Cond} {changed : Bool}
    (h : passAll ls ts = (.ok (cs, changed), gone)) (fits : ∀ t ∈ ts, t.Fits raw .bare) :
    ∀ c ∈ cs, c.Fits raw .bare := by
  match ts, fits, h with
  | [], _, h =>
    rw [passAll] at h
    cases h
    exact fun c member => absurd member (by simp)
  | t :: rest, fits, h =>
    have sum := weights_cons t rest
    have pos := weight_pos t
    obtain ⟨c', first, sooner, others, more, here, there, rfl, -⟩ := passAll_cons_cases h
    have lighter := weights_map_after_le sooner rest
    intro c member
    rcases mem_cons.mp member with rfl | later
    · exact (fits_pass own here (fits t mem_cons_self)).after own gone
    · refine fits_passAll own there (fun x known => ?_) c later
      obtain ⟨y, inRest, rfl⟩ := mem_map.mp known
      exact (fits y (mem_cons_of_mem _ inRest)).after own sooner
termination_by 2 * weights ts + 1
decreasing_by all_goals omega

end

theorem fits_settle (own : Lossless raw) {gone : List Loss} (h : settle ls t = (.ok c, gone))
    (fits : t.Fits raw .bare) : c.Fits raw .bare := by
  fun_induction settle ls t with
  | case1 => cases h
  | case2 ls t d later passed =>
    cases h
    exact fits_pass own passed fits
  | case3 ls t d later passed ih => exact ih h (fits_pass own passed fits)

theorem bracketwise_fits : Bracketwise fun c d => c.Fits raw .bare → d.Fits raw .wrapped where
  junction j {o items ds} each fits := by
    have parts := forall_of_forall₂ each (hereditary_bare.operand fits)
    exact ⟨.inside, rfl, (fits_build_iff j o ds).mpr ⟨.wrapped, rfl, parts⟩⟩
  same {c} alone fits := by
    cases c with
    | all | any => cases alone
    | group => obtain ⟨l', may, -⟩ := fits; cases may
    | _ => exact fits

theorem fits_simplified (own : Lossless raw) {u : Cond} (h : t.simplified.1 = .ok u)
    (fits : t.Fits raw .loose) : u.Fits raw .wrapped := by
  unfold simplified at h
  split at h
  · cases h
  · rename_i bare stripped
    split at h
    rename_i result ls settled
    obtain ⟨c, rfl, rfl⟩ := map_eq_ok h
    exact bracketwise_fits.bracket c (fits_settle own settled ((nodewise_fits.strip stripped).1 fits))

/-! ## Layouts compared -/

/-- Raw operands of one kind may be operands where another kind is raw. -/
def Admits (raw raw' : Cond → Prop) : Prop :=
  ∀ c, raw (.group c) → (group c).FitsOperand raw'

mutual

/-- A tree with a layout is also loose, and raw operands may be replaced by what they are. -/
theorem Fits.imp {raw' : Cond → Prop} (up : Admits raw raw') {l l' : Bracketing}
    (looser : l' = l ∨ l' = .loose) {t : Cond} (fits : t.Fits raw l) : t.Fits raw' l' := by
  match t, fits with
  | .all o items, ⟨m, may, parts⟩ | .any items, ⟨m, may, parts⟩ =>
    rcases looser with rfl | rfl
    · exact ⟨m, may, parts.imp up (.inl rfl)⟩
    · exact ⟨.loose, rfl, parts.imp up (.inr rfl)⟩
  | .group inner, ⟨m, may, part⟩ =>
    rcases looser with rfl | rfl
    · exact ⟨m, may, part.imp up (.inl rfl)⟩
    · exact ⟨.loose, rfl, part.imp up (.inr rfl)⟩
  | .not items, below => exact FitsBelow.imp up below
  | .isNull items, leaves | .notNull items, leaves => exact leaves
  | .absent, _ | .item _ _, _ | .value _, _ | .token _, _ => exact trivial

theorem FitsAll.imp {raw' : Cond → Prop} (up : Admits raw raw') {l l' : Bracketing}
    (looser : l' = l ∨ l' = .loose) {items : List Cond} (fits : FitsAll raw l items) :
    FitsAll raw' l' items := by
  match items, fits with
  | [], _ => exact trivial
  | c :: rest, ⟨here, later⟩ => exact ⟨here.imp up looser, later.imp up looser⟩

theorem FitsOperand.imp {raw' : Cond → Prop} (up : Admits raw raw') {t : Cond}
    (fits : t.FitsOperand raw) : t.FitsOperand raw' := by
  match t, fits with
  | .group inner, .inl is => exact up _ is
  | .group inner, .inr part => exact .inr (part.imp up (.inl rfl))
  | .absent, _ | .item _ _, _ | .value _, _ | .token _, _ => exact rfl

theorem FitsBelow.imp {raw' : Cond → Prop} (up : Admits raw raw')
    {items : List Cond} (fits : FitsBelow raw items) : FitsBelow raw' items := by
  match items, fits with
  | [], _ => exact trivial
  | c :: rest, ⟨here, later⟩ => exact ⟨here.imp up, later.imp up⟩

end

theorem Fits.loose (fits : t.Fits raw l) : t.Fits raw .loose :=
  fits.imp (fun _ is => .inl is) (.inr rfl)

theorem Fits.inside (fits : t.Fits raw .wrapped) : t.Fits raw .inside := by
  match t, fits with
  | .all o items, ⟨m, may, _⟩ | .any items, ⟨m, may, _⟩ => cases may
  | .group inner, ⟨m, may, part⟩ => exact ⟨m, may, part⟩
  | .not items, below => exact below
  | .isNull items, leaves | .notNull items, leaves => exact leaves
  | .absent, _ | .item _ _, _ | .value _, _ | .token _, _ => exact trivial

theorem FitsOperand.loose (free : ∀ n, raw n → n.Fits raw .loose) (fits : t.FitsOperand raw) :
    t.Fits raw .loose := by
  match t, fits with
  | .group inner, .inl is => exact free _ is
  | .group inner, .inr part => exact ⟨.loose, rfl, part.loose⟩
  | .absent, _ | .item _ _, _ | .value _, _ | .token _, _ => exact trivial

/-! ## Junctions in brackets -/

mutual

/-- Every junction of the tree stands directly in brackets; `inside` says whether the tree itself
does. Below a negation, an exempt operand is left out of account. -/
def BracketedUnless (exempt : Cond → Prop) (inside : Bool) : Cond → Prop
  | .all _ items => inside = true ∧ BracketedAll exempt items
  | .any items => inside = true ∧ BracketedAll exempt items
  | .group inner => BracketedUnless exempt true inner
  | .not items => BracketedBelow exempt items
  | .isNull items => BracketedAll exempt items
  | .notNull items => BracketedAll exempt items
  | .seq items => BracketedAll exempt items
  | .absent => True
  | .item _ _ => True
  | .value _ => True
  | .token _ => True

/-- The same for trees that do not stand in brackets themselves. -/
def BracketedAll (exempt : Cond → Prop) : List Cond → Prop
  | [] => True
  | c :: rest => BracketedUnless exempt false c ∧ BracketedAll exempt rest

/-- The same for the operands of a negation. -/
def BracketedBelow (exempt : Cond → Prop) : List Cond → Prop
  | [] => True
  | c :: rest => (exempt c ∨ BracketedUnless exempt false c) ∧ BracketedBelow exempt rest

end

theorem bracketedAll_of_isLeaf (leaves : ∀ c ∈ items, c.isLeaf = true) :
    BracketedAll raw items := by
  induction items with
  | nil => exact trivial
  | cons c rest ih =>
    rw [forall_mem_cons] at leaves
    refine ⟨?_, ih leaves.2⟩
    cases c with
    | absent | item f x | value x | token t => exact trivial
    | all | any | not | isNull | notNull | group | seq => cases leaves.1

mutual

theorem Fits.bracketed {b : Bool} {t : Cond}
    (fits : t.Fits raw (bif b then .inside else .wrapped)) : t.BracketedUnless raw b := by
  match t, fits with
  | .all _ items, ⟨m, may, parts⟩ | .any items, ⟨m, may, parts⟩ =>
    cases b with
    | false => cases may
    | true =>
      cases may
      exact ⟨rfl, parts.bracketed⟩
  | .group inner, ⟨m, may, part⟩ =>
    have same : m = .inside := by cases b <;> exact (Option.some.inj may).symm
    exact Fits.bracketed (b := true) (same ▸ part)
  | .not items, below => exact FitsBelow.bracketed below
  | .isNull items, leaves | .notNull items, leaves => exact bracketedAll_of_isLeaf leaves
  | .absent, _ | .item _ _, _ | .value _, _ | .token _, _ => exact trivial

theorem FitsAll.bracketed {items : List Cond} (fits : FitsAll raw .wrapped items) :
    BracketedAll raw items := by
  match items, fits with
  | [], _ => exact trivial
  | c :: rest, ⟨here, later⟩ => exact ⟨Fits.bracketed (b := false) here, later.bracketed⟩

theorem FitsOperand.bracketed {t : Cond} (fits : t.FitsOperand raw) :
    raw t ∨ t.BracketedUnless raw false := by
  match t, fits with
  | .group inner, .inl is => exact .inl is
  | .group inner, .inr part => exact .inr (Fits.bracketed (b := true) part)
  | .absent, _ | .item _ _, _ | .value _, _ | .token _, _ => exact .inr trivial

theorem FitsBelow.bracketed {items : List Cond} (fits : FitsBelow raw items) :
    BracketedBelow raw items := by
  match items, fits with
  | [], _ => exact trivial
  | c :: rest, ⟨here, later⟩ => exact ⟨here.bracketed, later.bracketed⟩

end

end Cond

end SigmaQuery
