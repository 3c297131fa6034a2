import SigmaQuery.Proofs.Bracketing
import SigmaQuery.Proofs.Computation
import SigmaQuery.Proofs.QueryReading
import SigmaQuery.Target.Renderer

/-!
# The text of a query

Query strings are written with the signs of `QueryReading`. In a tree whose inner junctions all stand
in brackets, what is written is read back with the meaning of the tree: no operand is taken into
another group than its own, although operands without a text are left out.
-/

namespace SigmaQuery

open List FaultM

/-! ## Leaves -/

namespace Cond

mutual

/-- The leaves of a tree, from left to right: the nodes that are neither junctions nor negations nor
brackets. A negation of nothing is one of them. -/
def leaves : Cond → List Cond
  | .all _ items => leavesOfAll items
  | .any items => leavesOfAll items
  | .not (c :: _) => leaves c
  | .group inner => leaves inner
  | c => [c]

/-- The leaves of several trees. -/
def leavesOfAll : List Cond → List Cond
  | [] => []
  | c :: rest => leaves c ++ leavesOfAll rest

end

/-- The leaf tests something: an item, a value, or a field that may be empty. -/
def isTest : Cond → Bool
  | .item _ _ => true
  | .value _ => true
  | .isNull [.value _] => true
  | .notNull [.value _] => true
  | _ => false

/-- The leaf without its negation. -/
def positive : Cond → Cond
  | .isNull items => .notNull items
  | c => c

end Cond

open Cond

/-- A leaf of a query: what it tests and how it is written. -/
structure Leaf where
  atom : Cond
  text : String

/-- The leaf holds under a valuation. -/
def Leaf.holds (v : Valuation) (l : Leaf) : Bool :=
  (l.atom.meaning v).getD false

namespace Sign

/-- The sign as it is written. -/
def text : Sign Leaf → String
  | .leaf l => l.text
  | .negation => "NOT "
  | .junction .conj => " AND "
  | .junction .disj => " OR "
  | .opening => "("
  | .closing => ")"

/-- The leaf that a sign is. -/
def leaf? {α : Type} : Sign α → Option α
  | .leaf a => some a
  | _ => none

/-- The signs as they are written. -/
def spell : List (Sign Leaf) → String
  | [] => ""
  | s :: rest => s.text ++ spell rest

theorem spell_append (l m : List (Sign Leaf)) : spell (l ++ m) = spell l ++ spell m := by
  induction l with
  | nil => rw [nil_append, spell, String.empty_append]
  | cons s rest ih => rw [cons_append, spell, spell, ih, String.append_assoc]

theorem intercalate_spell (j : Junction) (l : List (Sign Leaf))
    (rows : List (List (Sign Leaf) × Formula Leaf)) :
    (Sign.junction j).text.intercalate (spell l :: rows.map (spell ·.1)) =
      spell (l ++ following j rows) := by
  induction rows generalizing l with
  | nil => rw [map_nil, following_nil, append_nil, String.intercalate_singleton]
  | cons row rows ih =>
    rw [map_cons, String.intercalate_cons_cons, ih, following_cons, spell_append l, spell,
      String.append_assoc]

theorem filterMap_leaf?_following {α : Type} (j : Junction)
    (rows : List (List (Sign α) × Formula α)) :
    (following j rows).filterMap leaf? = rows.flatMap (·.1.filterMap leaf?) := by
  induction rows with
  | nil => rfl
  | cons row rows ih =>
    rw [following_cons, filterMap_cons_none rfl, filterMap_append, ih, flatMap_cons]

end Sign

namespace Renderer

variable {σ τ : Type} {r : Renderer σ}

/-! ## Writing signs -/

/-- The text of a junction. Parts without a text are left out. -/
def joinTexts (j : Junction) (parts : List (Option String)) : Option String :=
  match parts.filterMap id with
  | [] => none
  | kept => some ((Sign.junction j).text.intercalate kept)

/-- A text in brackets. -/
def bracketText : Option String → Option String
  | none => none
  | some "" => none
  | some t => some ("(" ++ t ++ ")")

theorem bracketText_of_ne {t : String} (nonempty : t ≠ "") :
    bracketText (some t) = some ("(" ++ t ++ ")") := by
  unfold bracketText
  split
  · contradiction
  · rename_i empty
    exact absurd (Option.some.inj empty) nonempty
  · rename_i same
    rw [Option.some.inj same]

/-- The renderer writes trees with signs, and no leaf without a text. -/
structure WritesSigns (r : Renderer σ) : Prop where
  enter : ∀ j items, r.enter j items = pure ()
  keeps : ∀ c, r.keeps c = true
  anyText : r.anyText = none
  join : ∀ j parts, r.join j parts = pure (joinTexts j parts)
  negate : ∀ t, r.negate t = pure (t.map ("NOT " ++ ·))
  bracket : ∀ t, r.bracket t = pure (bracketText t)
  isNull : ∀ f, r.isNull (.value f) = pure (some ("NOT _exists_:" ++ f.display))
  notNull : ∀ f, r.notNull (.value f) = pure (some ("_exists_:" ++ f.display))
  value : ∀ v t, (r.value v).Yields t → t ≠ ""
  list : ∀ vs t, (r.list vs).Yields t → ∃ s, t = some s ∧ s ≠ ""
  item : ∀ f v t, (r.item f v).Yields t → ∃ s, t = some s ∧ s ≠ ""

namespace WritesSigns

theorem render_build (h : r.WritesSigns) (j : Junction) (o : Option Nat) (items : List Cond) :
    r.render (j.build o items) = do return joinTexts j (← r.renderEach items) := by
  cases j with
  | conj =>
    show r.render (.all o items) = _
    rw [render, h.enter, pure_bind]
    simp only [h.join]
  | disj =>
    show r.render (.any items) = _
    rw [render, h.anyText]
    dsimp only
    rw [h.enter, pure_bind]
    simp only [h.join]

theorem renderEach_cons (h : r.WritesSigns) (c : Cond) (rest : List Cond) :
    r.renderEach (c :: rest) = do
      let t ← r.render c
      return t :: (← r.renderEach rest) := by
  rw [renderEach, if_pos (h.keeps c)]

theorem render_not (h : r.WritesSigns) (c : Cond) (rest : List Cond) :
    r.render (.not (c :: rest)) = do return (← r.render c).map ("NOT " ++ ·) :=
  bind_congr h.negate

theorem render_group (h : r.WritesSigns) (c : Cond) :
    r.render (.group c) = do return bracketText (← r.render c) :=
  bind_congr h.bracket

end WritesSigns

/-! ## What is written is read back -/

open Sign

/-- The leaf is written so in one of some states. -/
def WritesLeaf (r : Renderer σ) (I : σ → Prop) (l : Leaf) : Prop :=
  ∃ s, I s ∧ ((r.render l.atom).start s).1 = .ok (some l.text)

/-- The signs stand for a tree: they have its leaves, each as it is written alone, and a formula with
the meaning of the tree. -/
structure Spells (r : Renderer σ) (I : σ → Prop) (c : Cond) (signs : List (Sign Leaf))
    (f : Formula Leaf) : Prop where
  atoms : (signs.filterMap leaf?).map Leaf.atom = c.leaves.map Cond.positive
  texts : ∀ l ∈ signs.filterMap leaf?, r.WritesLeaf I l
  meaning : ∀ v, c.meaning v = some (f.eval (Leaf.holds v))

/-- What a tree may be written as. `read` says how the signs are read. -/
def Renders (r : Renderer σ) (I : σ → Prop) (read : List (Sign Leaf) → Formula Leaf → Prop)
    (c : Cond) : Option String → Prop
  | none => c.leaves = [] ∧ ∀ v, c.meaning v = none
  | some text => c.leaves ≠ [] ∧ text ≠ "" ∧
    ∃ signs f, text = spell signs ∧ read signs f ∧ r.Spells I c signs f

/-- The texts of the operands of a junction, as rows of signs. -/
structure Rows (r : Renderer σ) (I : σ → Prop) (items : List Cond) (outs : List (Option String))
    (rows : List (List (Sign Leaf) × Formula Leaf)) : Prop where
  operands : ∀ row ∈ rows, IsOperand row.1 row.2
  spelled : outs.filterMap id = rows.map (spell ·.1)
  written : ∀ row ∈ rows, spell row.1 ≠ "" ∧ row.1.filterMap leaf? ≠ []
  atoms : (rows.flatMap (·.1.filterMap leaf?)).map Leaf.atom =
    (Cond.leavesOfAll items).map Cond.positive
  texts : ∀ row ∈ rows, ∀ l ∈ row.1.filterMap leaf?, r.WritesLeaf I l
  meaning : ∀ v, (Cond.meanings v items).filterMap id = rows.map (·.2.eval (Leaf.holds v))

variable {I : σ → Prop}

theorem rows_nil : r.Rows I [] [] [] :=
  ⟨nofun, rfl, nofun, rfl, nofun, fun _ => rfl⟩

variable {c : Cond} {items : List Cond} {outs : List (Option String)}
  {rows : List (List (Sign Leaf) × Formula Leaf)}

theorem Rows.cons {out : Option String} (first : r.Renders I IsOperand c out)
    (others : r.Rows I items outs rows) : ∃ rows, r.Rows I (c :: items) (out :: outs) rows := by
  cases out with
  | none =>
    obtain ⟨leafless, free⟩ := first
    refine ⟨rows, others.operands, others.spelled, others.written, ?_, others.texts, ?_⟩
    · rw [others.atoms, leavesOfAll, leafless, nil_append]
    · intro v
      rw [meanings, free v, ← others.meaning v]
      rfl
  | some text =>
    obtain ⟨leaves, nonempty, signs, f, rfl, operand, spells⟩ := first
    refine ⟨(signs, f) :: rows, ?_, ?_, ?_, ?_, ?_, ?_⟩
    · exact forall_mem_cons.mpr ⟨operand, others.operands⟩
    · exact congrArg (spell signs :: ·) others.spelled
    · refine forall_mem_cons.mpr ⟨⟨nonempty, fun none => leaves ?_⟩, others.written⟩
      have atoms := spells.atoms
      rw [none, map_nil] at atoms
      exact map_eq_nil_iff.mp atoms.symm
    · rw [flatMap_cons, map_append, spells.atoms, others.atoms, leavesOfAll, map_append]
    · exact forall_mem_cons.mpr ⟨spells.texts, others.texts⟩
    · intro v
      rw [meanings, spells.meaning v]
      exact congrArg (f.eval (Leaf.holds v) :: ·) (others.meaning v)

theorem leaves_build (j : Junction) (o : Option Nat) (items : List Cond) :
    (j.build o items).leaves = leavesOfAll items := by
  cases j <;> rfl

theorem join_filterMap_id (j : Junction) (xs : List (Option Bool)) :
    j.join ((xs.filterMap id).map some) = j.join xs := by
  apply j.join_congr
  intro b
  simp

theorem Rows.renders_build (h : r.Rows I items outs rows) (j : Junction) (o : Option Nat) :
    r.Renders I IsQuery (j.build o items) (joinTexts j outs) := by
  have meaning : ∀ v, (j.build o items).meaning v =
      j.join (rows.map fun row => some (row.2.eval (Leaf.holds v))) := by
    intro v
    rw [meaning_build, ← meanings_eq_map, ← join_filterMap_id, h.meaning v, map_map]
    rfl
  cases rows with
  | nil =>
    -- all operands have vanished, and the junction vanishes with them
    rw [joinTexts, h.spelled]
    refine ⟨?_, meaning⟩
    rw [leaves_build]
    exact map_eq_nil_iff.mp h.atoms.symm
  | cons row rows =>
    obtain ⟨first, others⟩ := forall_mem_cons.mp h.operands
    obtain ⟨nonempty, leaves⟩ := h.written row mem_cons_self
    have atoms := h.atoms
    rw [flatMap_cons, ← filterMap_leaf?_following j, ← filterMap_append,
      ← leaves_build j o] at atoms
    rw [joinTexts, h.spelled, map_cons]
    refine ⟨?_, ?_, row.1 ++ following j rows, .joinAll j row.2 (rows.map Prod.snd), ?_, ?_, ?_⟩
    · intro none
      rw [none, map_nil, map_eq_nil_iff, filterMap_append] at atoms
      exact leaves (append_eq_nil_iff.mp atoms).1
    · rw [intercalate_spell, spell_append]
      intro none
      exact nonempty (String.append_eq_empty_iff.mp none).1
    · exact intercalate_spell j row.1 rows
    · exact IsQuery.joined j first rows others
    · refine ⟨atoms, ?_, ?_⟩
      · rw [filterMap_append, filterMap_leaf?_following]
        intro l member
        rcases mem_append.mp member with here | later
        · exact h.texts row mem_cons_self l here
        · obtain ⟨other, inRows, inOther⟩ := mem_flatMap.mp later
          exact h.texts other (mem_cons_of_mem _ inRows) l inOther
      · intro v
        rw [meaning v, Formula.some_eval_joinAll, map_cons, map_cons, map_map]
        rfl

theorem renders_leaf {text : String} (written : r.WritesLeaf I ⟨c, text⟩) (nonempty : text ≠ "")
    (leaf : c.leaves = [c]) (plain : c.positive = c) (constrains : ∀ v, c.meaning v ≠ none) :
    r.Renders I IsOperand c (some text) := by
  refine ⟨?_, nonempty, [.leaf ⟨c, text⟩], .leaf ⟨c, text⟩, ?_, IsOperand.leaf _, ?_⟩
  · rw [leaf]
    exact cons_ne_nil _ _
  · exact (String.append_empty).symm
  · refine ⟨?_, ?_, ?_⟩
    · rw [leaf, map_singleton, plain]
      rfl
    · intro l member
      obtain rfl : l = ⟨c, text⟩ := mem_singleton.mp member
      exact written
    · intro v
      obtain ⟨b, same⟩ := Option.ne_none_iff_exists'.mp (constrains v)
      rw [Formula.eval, Leaf.holds, same, Option.getD_some]

namespace WritesSigns

theorem render_isNull (h : r.WritesSigns) (f : Value) :
    r.render (.isNull [.value f]) = pure (some ("NOT _exists_:" ++ f.display)) := by
  rw [render]
  exact h.isNull f

theorem render_notNull (h : r.WritesSigns) (f : Value) :
    r.render (.notNull [.value f]) = pure (some ("_exists_:" ++ f.display)) := by
  rw [render]
  exact h.notNull f

theorem renders_isNull (h : r.WritesSigns) (f : Value) {s : σ} (holds : I s) :
    r.Renders I IsOperand (.isNull [.value f]) (some ("NOT _exists_:" ++ f.display)) := by
  let l : Leaf := ⟨.notNull [.value f], "_exists_:" ++ f.display⟩
  refine ⟨cons_ne_nil _ _, ?_, [.negation, .leaf l], .not (.leaf l), ?_,
    (IsOperand.leaf l).negation, rfl, ?_, fun v => ?_⟩
  · intro none
    exact absurd (String.append_eq_empty_iff.mp none).1 (by decide)
  · show _ = "NOT " ++ (("_exists_:" ++ f.display) ++ "")
    rw [String.append_empty, ← String.append_assoc]
    rfl
  · intro other member
    obtain rfl : other = l := mem_singleton.mp member
    exact ⟨s, holds, by rw [h.render_notNull]; rfl⟩
  · show some (v.isNull f) = some !(!v.isNull f)
    rw [Bool.not_not]

theorem renders_test (h : r.WritesSigns) {c : Cond} (test : c.isTest = true) {s t : σ} (holds : I s)
    {out : Option String} (run : (r.render c).start s = (.ok out, t)) :
    r.Renders I IsOperand c out := by
  have written : ∀ text, out = some text → r.WritesLeaf I ⟨c, text⟩ := by
    rintro text rfl
    exact ⟨s, holds, congrArg Prod.fst run⟩
  have yields : (r.render c).Yields out := ⟨s, t, run⟩
  match c, test with
  | .isNull [.value f], _ =>
    rw [h.render_isNull] at yields
    rw [yields.of_pure]
    exact h.renders_isNull f holds
  | .notNull [.value f], _ =>
    rw [h.render_notNull] at yields
    obtain rfl := yields.of_pure
    refine renders_leaf (written _ rfl) ?_ rfl rfl nofun
    intro none
    exact absurd (String.append_eq_empty_iff.mp none).1 (by decide)
  | .item f v, _ =>
    rw [render] at yields
    obtain ⟨text, rfl, nonempty⟩ := h.item f v out yields
    exact renders_leaf (written text rfl) nonempty rfl rfl nofun
  | .value (.text _), _ | .value (.int _), _ =>
    rw [render] at yields
    obtain ⟨text, value, rfl⟩ := yields.map
    exact renders_leaf (written text rfl) (h.value _ text value) rfl rfl nofun
  | .value (.list vs), _ =>
    rw [render] at yields
    obtain ⟨text, rfl, nonempty⟩ := h.list vs out yields
    exact renders_leaf (written text rfl) nonempty rfl rfl nofun
  | .value .null, _ | .value (.bool _), _ | .value (.decimal _), _ | .value (.map _), _ =>
    rw [render] at run
    · cases run
    all_goals nofun

end WritesSigns

namespace Renders

/-- How the signs of a tree are read: as a query, or as an operand where no junction may stand. -/
def readAs (inside : Bool) : List (Sign Leaf) → Formula Leaf → Prop :=
  if inside then IsQuery else IsOperand

variable {out : Option String} {c : Cond}

theorem of_isOperand (h : r.Renders I IsOperand c out)
    (inside : Bool) : r.Renders I (readAs inside) c out := by
  cases inside with
  | false => exact h
  | true =>
    cases out with
    | none => exact h
    | some text =>
      obtain ⟨leaves, nonempty, signs, f, spelled, operand, spells⟩ := h
      exact ⟨leaves, nonempty, signs, f, spelled, operand.isQuery, spells⟩

theorem not (h : r.Renders I IsOperand c out) (rest : List Cond) :
    r.Renders I IsOperand (.not (c :: rest)) (out.map ("NOT " ++ ·)) := by
  have negated : ∀ v, (Cond.not (c :: rest)).meaning v = (c.meaning v).map (!·) := by
    intro v
    rw [Cond.meaning, Cond.meanings, head?_cons]
    rfl
  cases out with
  | none =>
    refine ⟨h.1, fun v => ?_⟩
    rw [negated v, h.2 v]
    rfl
  | some text =>
    obtain ⟨leaves, nonempty, signs, f, spelled, operand, spells⟩ := h
    refine ⟨leaves, ?_, .negation :: signs, .not f, congrArg ("NOT " ++ ·) spelled,
      operand.negation, spells.atoms, spells.texts, fun v => ?_⟩
    · intro none
      exact nonempty (String.append_eq_empty_iff.mp none).2
    · rw [negated v, spells.meaning v]
      rfl

theorem group (h : r.Renders I IsQuery c out) :
    r.Renders I IsOperand (.group c) (bracketText out) := by
  cases out with
  | none => exact ⟨h.1, fun v => (meaning_group v c).trans (h.2 v)⟩
  | some text =>
    obtain ⟨leaves, nonempty, signs, f, spelled, query, spells⟩ := h
    have inner : (signs ++ [Sign.closing]).filterMap leaf? = signs.filterMap leaf? := by
      rw [filterMap_append]
      exact append_nil _
    rw [bracketText_of_ne nonempty]
    refine ⟨leaves, ?_, .opening :: (signs ++ [.closing]), f, ?_, query.bracketed, ?_, ?_, ?_⟩
    · intro none
      exact nonempty (String.append_eq_empty_iff.mp (String.append_eq_empty_iff.mp none).1).2
    · rw [spelled, spell, spell_append, String.append_assoc]
      rfl
    · rw [filterMap_cons_none rfl, inner]
      exact spells.atoms
    · rw [filterMap_cons_none rfl, inner]
      exact spells.texts
    · intro v
      rw [meaning_group]
      exact spells.meaning v

end Renders

/-! ## Which trees can be written -/

/-- The leaves keep an observation of the state, and the observation says whether they can be
written. -/
structure SteadyLeaves (view : σ → τ) (r : Renderer σ) : Prop where
  value : ∀ v, FaultM.Steady view (r.value v)
  list : ∀ vs, FaultM.Steady view (r.list vs)
  item : ∀ f v, FaultM.Steady view (r.item f v)
  isNull : ∀ c, FaultM.Steady view (r.isNull c)
  notNull : ∀ c, FaultM.Steady view (r.notNull c)

variable {view : σ → τ}

mutual

theorem steady_render (h : r.WritesSigns) (steady : r.SteadyLeaves view) (c : Cond) :
    Steady view (r.render c) := by
  match c with
  | .all o items =>
    rw [show all o items = Junction.conj.build o items from rfl, h.render_build]
    exact (steady_renderEach h steady items).map _
  | .any items =>
    rw [show Cond.any items = Junction.disj.build none items from rfl, h.render_build]
    exact (steady_renderEach h steady items).map _
  | .not (c :: rest) =>
    rw [h.render_not]
    exact (steady_render h steady c).map _
  | .group c =>
    rw [h.render_group]
    exact (steady_render h steady c).map _
  | .isNull items =>
    rw [render]
    exact steady.isNull _
  | .notNull items =>
    rw [render]
    exact steady.notNull _
  | .seq items =>
    rw [render]
    exact steady.list _
  | .item f v =>
    rw [render]
    exact steady.item f v
  | .value (.text _) | .value (.int _) =>
    rw [render]
    exact (steady.value _).map some
  | .value (.list vs) =>
    rw [render]
    exact steady.list vs
  | .not [] | .absent | .token _ | .value .null | .value (.bool _) | .value (.decimal _)
  | .value (.map _) =>
    rw [render]
    · exact steady_throw _
    all_goals nofun

theorem steady_renderEach (h : r.WritesSigns) (steady : r.SteadyLeaves view) (items : List Cond) :
    Steady view (r.renderEach items) := by
  match items with
  | [] =>
    rw [renderEach]
    exact steady_pure []
  | c :: rest =>
    rw [h.renderEach_cons]
    exact (steady_render h steady c).both (steady_renderEach h steady rest) (· :: ·)

end

mutual

theorem returns_render_iff (h : r.WritesSigns) (steady : r.SteadyLeaves view) (c : Cond) (s : σ) :
    (r.render c).Returns s ↔ ∀ l ∈ c.leaves, (r.render l).Returns s := by
  match c with
  | .all o items =>
    rw [show all o items = Junction.conj.build o items from rfl, h.render_build,
      returns_map_iff]
    exact returns_renderEach_iff h steady items s
  | .any items =>
    rw [show Cond.any items = Junction.disj.build none items from rfl, h.render_build,
      returns_map_iff]
    exact returns_renderEach_iff h steady items s
  | .not (c :: rest) =>
    rw [h.render_not, returns_map_iff]
    exact returns_render_iff h steady c s
  | .group c =>
    rw [h.render_group, returns_map_iff]
    exact returns_render_iff h steady c s
  | .not [] | .absent | .isNull _ | .notNull _ | .seq _ | .item _ _ | .value _ | .token _ =>
    exact (forall_mem_singleton (p := fun l => (r.render l).Returns s)).symm

theorem returns_renderEach_iff (h : r.WritesSigns) (steady : r.SteadyLeaves view)
    (items : List Cond) (s : σ) :
    (r.renderEach items).Returns s ↔ ∀ l ∈ leavesOfAll items, (r.render l).Returns s := by
  match items with
  | [] =>
    rw [renderEach]
    exact ⟨fun _ => nofun, fun _ => ⟨[], s, rfl⟩⟩
  | c :: rest =>
    rw [h.renderEach_cons, (steady_render h steady c).returns_both_iff
      (steady_renderEach h steady rest), returns_render_iff h steady c s,
      returns_renderEach_iff h steady rest s,
      leavesOfAll, forall_mem_append]

end

/-! ## Reading back -/

namespace WritesSigns

open Renders (readAs)

mutual

/-- A written tree is read back with its meaning, if its inner junctions stand in brackets. -/
theorem renders (h : r.WritesSigns) (steady : r.SteadyLeaves view) (w : τ) {inside : Bool} {c : Cond}
    (bracketed : c.BracketedUnless (fun _ => False) inside)
    (tests : ∀ l ∈ c.leaves, l.isTest = true) :
    Ensures (view · = w) (r.Renders (view · = w) (readAs inside) c) (r.render c) := by
  match c, bracketed with
  | .all o items, ⟨top, parts⟩ =>
    subst top
    rw [show all o items = Junction.conj.build o items from rfl, h.render_build]
    refine (rendersEach h steady w parts tests).map ?_
    rintro outs ⟨rows, known⟩
    exact known.renders_build .conj o
  | .any items, ⟨top, parts⟩ =>
    subst top
    rw [show Cond.any items = Junction.disj.build none items from rfl, h.render_build]
    refine (rendersEach h steady w parts tests).map ?_
    rintro outs ⟨rows, known⟩
    exact known.renders_build .disj none
  | .not (c :: rest), ⟨here, _⟩ =>
    rw [h.render_not]
    refine (renders h steady w (here.resolve_left id) tests).map fun out operand => ?_
    exact Renders.of_isOperand (Renders.not operand rest) inside
  | .group c, bracketed =>
    rw [h.render_group]
    have inner : Ensures _ (r.Renders (view · = w) IsQuery c) (r.render c) :=
      renders (c := c) h steady w bracketed tests
    exact inner.map fun out query => Renders.of_isOperand (Renders.group query) inside
  | .not [], _ => exact absurd (tests _ mem_cons_self) Bool.false_ne_true
  | .absent, _ | .isNull _, _ | .notNull _, _ | .seq _, _ | .item _ _, _ | .value _, _
  | .token _, _ =>
    intro s holds
    refine ⟨((steady_render h steady _).keeps s).trans holds, fun out t run => ?_⟩
    exact Renders.of_isOperand (h.renders_test (tests _ mem_cons_self) holds run) inside

theorem rendersEach (h : r.WritesSigns) (steady : r.SteadyLeaves view) (w : τ) {items : List Cond}
    (bracketed : BracketedAll (fun _ => False) items)
    (tests : ∀ l ∈ leavesOfAll items, l.isTest = true) :
    Ensures (view · = w) (fun outs => ∃ rows, r.Rows (view · = w) items outs rows)
      (r.renderEach items) := by
  match items, bracketed with
  | [], _ =>
    rw [renderEach]
    exact ensures_pure ⟨[], rows_nil⟩
  | c :: rest, ⟨here, later⟩ =>
    rw [h.renderEach_cons]
    refine (renders h steady w here fun l member => tests l (mem_append_left _ member)).bind ?_
    intro out operand
    refine (rendersEach h steady w later
      fun l member => tests l (mem_append_right _ member)).map ?_
    rintro outs ⟨rows, known⟩
    exact Rows.cons operand known

end

end WritesSigns

end Renderer

end SigmaQuery
