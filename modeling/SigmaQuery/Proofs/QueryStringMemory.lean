import SigmaQuery.Proofs.Memory
import SigmaQuery.Proofs.QueryStringText

/-!
# What a query string takes over

A target for query strings remembers whether the last field was a keyword field: if so, a value is
written without quotes. A value that comes before the first field of a rule goes by the rules before.
-/

namespace SigmaQuery

open FaultM Memory GenerateM String

/-! ## Texts with more quotes -/

/-- The second text is the first one with `n` pairs of quotes more. -/
structure Quoted (n : Nat) (bare quoted : String) : Prop where
  length : quoted.length = bare.length + 2 * n
  same : n = 0 → bare = quoted
  visible : bare = "" → n = 0

namespace Quoted

variable {n k : Nat} {s t s' t' : String}

theorem refl (s : String) : Quoted 0 s s :=
  ⟨rfl, fun _ => rfl, fun _ => rfl⟩

theorem append (first : Quoted n s t) (next : Quoted k s' t') :
    Quoted (n + k) (s ++ s') (t ++ t') where
  length := by
    rw [length_append, length_append, first.length, next.length]
    omega
  same zero := by
    rw [first.same (by omega), next.same (by omega)]
  visible empty := by
    have none := append_eq_empty_iff.mp empty
    rw [first.visible none.1, next.visible none.2]

theorem around (h : Quoted n s t) (left right : String) :
    Quoted n (left ++ (s ++ right)) (left ++ (t ++ right)) := by
  have wrapped := (refl left).append (h.append (refl right))
  rwa [Nat.zero_add, Nat.add_zero] at wrapped

theorem eq_iff (h : Quoted n s t) : s = t ↔ n = 0 := by
  constructor
  · rintro rfl
    have := h.length
    omega
  · exact h.same

theorem eq_empty_iff (h : Quoted n s t) : t = "" ↔ s = "" := by
  constructor
  · rintro rfl
    have := h.length
    rw [length_empty] at this
    exact length_eq_zero_iff.mp (by omega)
  · rintro rfl
    exact (h.same (h.visible rfl)).symm

end Quoted

/-- The same of texts one by one, with `n` pairs in all. -/
inductive QuotedEach : Nat → List String → List String → Prop
  | nil : QuotedEach 0 [] []
  | cons {n k : Nat} {s t : String} {ss ts : List String} (first : Quoted n s t)
    (others : QuotedEach k ss ts) : QuotedEach (n + k) (s :: ss) (t :: ts)

namespace QuotedEach

variable {n k : Nat} {ss ts ss' ts' : List String}

theorem refl (ss : List String) : QuotedEach 0 ss ss := by
  induction ss with
  | nil => exact .nil
  | cons s rest ih => exact .cons (.refl s) ih

theorem append (first : QuotedEach n ss ts) (next : QuotedEach k ss' ts') :
    QuotedEach (n + k) (ss ++ ss') (ts ++ ts') := by
  induction first with
  | nil => rwa [Nat.zero_add]
  | cons here _ ih =>
    rw [Nat.add_assoc]
    exact .cons here ih

theorem singleton {s t : String} (h : Quoted n s t) : QuotedEach n [s] [t] :=
  .cons h .nil

theorem intercalate (h : QuotedEach n ss ts) (separator : String) :
    Quoted n (separator.intercalate ss) (separator.intercalate ts) := by
  induction h with
  | nil => exact .refl _
  | cons first others ih =>
    cases others with
    | nil =>
      rw [intercalate_singleton, intercalate_singleton]
      exact first
    | cons second rest =>
      rw [intercalate_cons_cons, intercalate_cons_cons, append_assoc,
        append_assoc]
      have tail := (Quoted.refl separator).append ih
      rw [Nat.zero_add] at tail
      exact first.append tail

end QuotedEach

/-- The same of texts that may be missing. -/
def QuotedText (n : Nat) (bare quoted : Option String) : Prop :=
  QuotedEach n bare.toList quoted.toList

namespace QuotedText

variable {n k : Nat} {s t : Option String} {ss ts : List (Option String)}

theorem refl (s : Option String) : QuotedText 0 s s :=
  QuotedEach.refl _

theorem cases (h : QuotedText n s t) :
    (s = none ∧ t = none ∧ n = 0) ∨ ∃ s' t', s = some s' ∧ t = some t' ∧ Quoted n s' t' := by
  cases s with
  | none =>
    cases t with
    | none =>
      obtain _ | _ := h
      exact .inl ⟨rfl, rfl, rfl⟩
    | some t' => obtain _ | _ := h
  | some s' =>
    cases t with
    | none => obtain _ | _ := h
    | some t' =>
      obtain _ | ⟨first, _ | _⟩ := h
      exact .inr ⟨s', t', rfl, rfl, first⟩

theorem map {f : String → String} (h : QuotedText n s t)
    (mapped : ∀ s t, Quoted n s t → Quoted n (f s) (f t)) : QuotedText n (s.map f) (t.map f) := by
  obtain ⟨rfl, rfl, rfl⟩ | ⟨s', t', rfl, rfl, quoted⟩ := h.cases
  · exact .refl none
  · exact .singleton (mapped _ _ quoted)

theorem bracketText (h : QuotedText n s t) :
    QuotedText n (Renderer.bracketText s) (Renderer.bracketText t) := by
  obtain ⟨rfl, rfl, rfl⟩ | ⟨s', t', rfl, rfl, quoted⟩ := h.cases
  · exact .refl none
  · by_cases empty : s' = ""
    · obtain rfl := quoted.visible empty
      rw [quoted.same rfl]
      exact .refl _
    · rw [Renderer.bracketText_of_ne empty,
        Renderer.bracketText_of_ne (mt quoted.eq_empty_iff.mp empty), append_assoc,
        append_assoc]
      exact .singleton (quoted.around "(" ")")

theorem cons (first : QuotedText n s t)
    (others : QuotedEach k (ss.filterMap id) (ts.filterMap id)) :
    QuotedEach (n + k) ((s :: ss).filterMap id) ((t :: ts).filterMap id) := by
  have kept : ∀ (a : Option String) as, (a :: as).filterMap id = a.toList ++ as.filterMap id := by
    intro a as
    cases a <;> rfl
  rw [kept, kept]
  exact first.append others

theorem joinTexts (h : QuotedEach n (ss.filterMap id) (ts.filterMap id)) (j : Junction) :
    QuotedText n (Renderer.joinTexts j ss) (Renderer.joinTexts j ts) := by
  unfold Renderer.joinTexts
  generalize ss.filterMap id = kept at h
  generalize ts.filterMap id = kept' at h
  cases h with
  | nil => exact .refl none
  | cons first others => exact .singleton ((QuotedEach.cons first others).intercalate _)

end QuotedText

namespace Elastic.QueryString

open Renderer

/-- A query string remembers whether the last field was a keyword field. -/
def memory : Memory QueryString Bool where
  put := afterField
  put_put _ _ _ := rfl

/-- The value has a text of its own, and is not written as a pair of quotes. -/
def isVisible (v : Value) : Bool :=
  !(bareText v).toList.all Text.isBlank

/-- How the texts of a computation differ without and with the quotes of plain fields. -/
def Writes (n : Nat) (f : Bool → Option String) : Prop :=
  QuotedText n (f true) (f false)

theorem Writes.const (s : Option String) : Writes 0 fun _ => s :=
  QuotedText.refl s

variable {q : QueryString}

/-! ## Leaves -/

theorem tells_valueText (v : Value) : memory.Tells q false
    (fun f => Quoted (if isVisible v then 1 else 0) (f true) (f false)) (valueText dialect v) := by
  refine ⟨.ok fun b => if (bareText v).toList.all Text.isBlank then "\"\""
    else if b then bareText v else "\"" ++ bareText v ++ "\"", none,
    fun a => start_valueText v (q.afterField a), nofun, ?_⟩
  intro f same
  cases same
  refine ⟨?_, nofun⟩
  by_cases blank : (bareText v).toList.all Text.isBlank = true
  · simp only [isVisible, blank]
    exact .refl _
  · simp only [isVisible, blank]
    refine ⟨?_, nofun, fun empty => absurd ?_ blank⟩
    · simp only [Bool.not_false, if_true, if_false, length_append, Bool.false_eq_true]
      show 1 + (bareText v).length + 1 = (bareText v).length + 2
      omega
    · simp only [if_true, if_false, Bool.false_eq_true] at empty
      rw [empty]
      rfl

theorem tells_valueTexts (vs : List Value) : memory.Tells q false
    (fun f => QuotedEach (vs.countP isVisible) (f true) (f false))
    (valueTexts (valueText dialect) vs) := by
  induction vs with
  | nil => exact tells_ofExcept (x := .ok []) fun a same => by cases same; exact .nil
  | cons v rest ih =>
    refine (tells_valueText v).both ih (· :: ·) nofun ?_
    intro _ f g here there
    rw [List.countP_cons, Nat.add_comm]
    exact .cons here there

theorem tells_listText (vs : List Value) : memory.Tells q false (Writes (vs.countP isVisible))
    (listText dialect (valueText dialect) vs) := by
  rw [dialect_eq, listText_queryDialect, ← dialect_eq]
  split
  · exact (tells_valueTexts vs).map _ fun g each =>
      .singleton ((each.intercalate " ").around "(" (")" ++ ""))
  · exact tells_throw _ _ _

theorem tells_fieldName (field v : Value) :
    memory.Tells q true Constant (fieldName field v) := by
  let k := q.keywords
  refine ⟨(k.searched field v).map fun g _ => g, some (k.isKeyword field v), ?_, fun _ => rfl, ?_⟩
  · intro a
    show (((Keywords.fieldName field v).start { k with matched := a }).1,
      { q with keywords := ((Keywords.fieldName field v).start { k with matched := a }).2 }) = _
    rw [Keywords.start_fieldName]
    show (k.searched field v, _) = _
    cases k.searched field v <;> rfl
  · intro f same
    refine ⟨?_, fun _ => rfl⟩
    cases found : k.searched field v with
    | error e =>
      rw [found] at same
      cases same
    | ok g =>
      rw [found] at same
      cases same
      exact ⟨g, rfl⟩

theorem tells_item (field v : Value) :
    memory.Tells q true (Writes 0) (item dialect field v) := by
  have written : ∀ g, memory.Tells q false (fun _ => True)
      (itemText dialect (valueText dialect) (itemListText dialect (valueText dialect)) g v) := by
    intro g
    rw [dialect_eq, itemText_queryDialect, ← dialect_eq]
    split
    · have operand : memory.Tells q false (fun _ => True)
          (operandText dialect (valueText dialect) v) := by
        cases v with
        | list vs => exact (tells_listText vs).map _ fun _ _ => trivial
        | _ => exact (tells_valueText _).imp fun _ _ => trivial
      exact operand.map _ fun _ _ => trivial
    · exact tells_throw _ _ _
  exact (tells_fieldName field v).bind written (fun _ g b _ => Writes.const (g b)) nofun

theorem tells_nullText (x : Except Fault (Option String)) :
    memory.Tells q false (Writes 0) (FaultM.ofExcept x) :=
  tells_ofExcept fun a _ => Writes.const a

end Elastic.QueryString

/-! ## Trees -/

/-- The tree has an item, at which a query string looks at a field. -/
def Cond.hasItem : Cond → Bool :=
  Cond.touches (fun _ => true) (fun _ _ => false) fun _ _ => true

/-- One of several trees has an item. -/
def Cond.haveItem : List Cond → Bool :=
  Cond.touchesEach (fun _ => true) (fun _ _ => false) fun _ _ => true

namespace Cond

open Elastic.QueryString

mutual

/-- How many values of a tree are written before a field is looked at. -/
def openValues : Cond → Nat
  | .all _ items => openValuesOfEach items
  | .any items => openValuesOfEach items
  | .not (c :: _) => openValues c
  | .group inner => openValues inner
  | .seq items => (seqValues items).countP isVisible
  | .value (.list vs) => vs.countP isVisible
  | .value v => if isVisible v then 1 else 0
  | _ => 0

/-- The same for several trees, one after another. -/
def openValuesOfEach : List Cond → Nat
  | [] => 0
  | c :: rest => openValues c + if hasItem c then 0 else openValuesOfEach rest

end

end Cond

namespace Elastic.QueryString

open Renderer

variable {q : QueryString}

mutual

/-- Each open value has one more pair of quotes where the last field was no keyword field. -/
theorem tells_render (c : Cond) :
    memory.Tells q c.hasItem (Writes c.openValues) ((renderer dialect).render c) := by
  match c with
  | .all o items =>
    rw [show Cond.all o items = Junction.conj.build o items from rfl, writesSigns.render_build]
    exact (tells_renderEach items).map _ fun f each => QuotedText.joinTexts each .conj
  | .any items =>
    rw [show Cond.any items = Junction.disj.build none items from rfl, writesSigns.render_build]
    exact (tells_renderEach items).map _ fun f each => QuotedText.joinTexts each .disj
  | .not [] =>
    rw [render]
    exact tells_throw _ _ _
  | .not (c :: rest) =>
    rw [writesSigns.render_not]
    refine (tells_render c).map _ fun f written => written.map fun s t quoted => ?_
    have negated := quoted.around "NOT " ""
    rwa [append_empty, append_empty] at negated
  | .group inner =>
    rw [writesSigns.render_group]
    exact (tells_render inner).map _ fun f written => written.bracketText
  | .item field v =>
    rw [render]
    exact tells_item field v
  | .isNull items | .notNull items =>
    rw [render]
    exact tells_nullText _
  | .seq items =>
    rw [render]
    exact tells_listText _
  | .value (.list vs) =>
    rw [render]
    exact tells_listText vs
  | .value (.text _) | .value (.int _) =>
    rw [render]
    exact (tells_valueText _).map some fun f quoted => .singleton quoted
  | .absent | .token _ | .value .null | .value (.bool _) | .value (.decimal _) | .value (.map _) =>
    rw [render]
    · exact tells_throw _ _ _
    all_goals nofun

theorem tells_renderEach (items : List Cond) :
    memory.Tells q (Cond.haveItem items)
      (fun f => QuotedEach (Cond.openValuesOfEach items) ((f true).filterMap id)
        ((f false).filterMap id)) ((renderer dialect).renderEach items) := by
  match items with
  | [] =>
    rw [renderEach]
    exact tells_ofExcept (x := .ok []) fun a same => by cases same; exact .nil
  | c :: rest =>
    rw [writesSigns.renderEach_cons]
    refine (tells_render c).both (tells_renderEach rest) (· :: ·) ?_ ?_
    · -- after a field the texts no longer go by the memory
      intro touched f g b here there
      show QuotedEach (c.openValues + if c.hasItem then 0 else _) _ _
      rw [touched]
      exact here.cons (QuotedEach.refl _)
    · intro untouched f g here there
      show QuotedEach (c.openValues + if c.hasItem then 0 else _) _ _
      rw [untouched]
      exact here.cons there

end

/-! ## Rules -/

theorem tells_search (language : q.query.dialect = dialect) (c : Cond) (r : Rule) :
    memory.work.Tells ⟨q, r⟩ c.hasItem (Writes c.openValues) (search c) := by
  refine tells_get (fun _ => rfl) ?_
  show memory.work.Tells _ _ _ (target ((renderer q.query.dialect).render c))
  rw [language]
  exact (tells_render c).target r

/-- The query of a rule goes by the memory exactly if its first condition has open values. -/
theorem tells_generate (language : q.query.dialect = dialect) (r : Rule) :
    memory.work.Tells ⟨q, r⟩ (r.conditions.head?.any (·.search.hasItem))
      (fun f => f true = f false ↔ ∀ p ∈ r.conditions.head?, p.search.openValues = 0) generate := by
  let o := q.query.options
  refine tells_get (fun _ => rfl) ?_
  cases conditions : r.conditions with
  | nil =>
    refine (tells_ofExcept (x := .ok none) fun t same => ?_).of_start fun a =>
      start_first_nil conditions
    simp
  | cons p rest =>
    have comment : memory.work.Tells ⟨q, r⟩ false Constant (titleComment o) :=
      tells_of_rule (x := r.comment o) fun t => start_titleComment o ⟨t, r⟩
    have query := tells_query p (tells_search language p.search r)
    -- what stands around the query does not go by the memory
    have enclosed : ∀ (f : Bool → Option String) (b : Option String), Writes p.search.openValues f →
        (some (b.getD "" ++ (f true).getD "" ++ ((commentEnd o).getD "")) =
          some (b.getD "" ++ (f false).getD "" ++ ((commentEnd o).getD "")) ↔
            ∀ p' ∈ (p :: rest).head?, p'.search.openValues = 0) := by
      intro f b written
      rw [Option.some_inj, append_left_inj, append_right_inj]
      simp only [List.head?_cons, Option.mem_some_iff, forall_eq']
      obtain ⟨bare, quoted, none⟩ | ⟨s, t, bare, quoted, h⟩ := written.cases
      · simp only [bare, quoted, none]
      · rw [bare, quoted, Option.getD_some, Option.getD_some]
        exact h.eq_iff
    have whole := query.both comment (Q := fun f => f true = f false ↔
        ∀ p' ∈ (p :: rest).head?, p'.search.openValues = 0)
      (fun t b => some (b.getD "" ++ t.getD "" ++ (commentEnd o).getD ""))
      (by rintro - f g v written ⟨b, rfl⟩; exact enclosed f b written)
      (by rintro - f g written ⟨b, rfl⟩; exact enclosed f b written)
    rw [Bool.or_false] at whole
    exact whole.of_start fun a => start_first conditions

end Elastic.QueryString

end SigmaQuery
