import SigmaQuery.Proofs.QueryText
import SigmaQuery.Target.Basic

/-!
# Query strings

Two languages write query strings: that of Elasticsearch and that of Graylog. They differ in how they
write values and in the fields they search, and agree in everything that `QueryText` asks for.
-/

namespace SigmaQuery

open FaultM List

/-! ## The common part of the languages -/

/-- The language of query strings, with quotes around its values. -/
def queryDialect (quote : String) : Dialect :=
  { Elastic.QueryString.dialect with value := some (.around quote quote) }

theorem Elastic.QueryString.dialect_eq : Elastic.QueryString.dialect = queryDialect "" := rfl

namespace Renderer

variable {σ τ : Type} {view : σ → τ} (quote : String) {value : Value → FaultM σ String}

theorem join_queryDialect (j : Junction) (parts : List (Option String)) :
    (queryDialect quote).join j parts = .ok (joinTexts j parts) := by
  unfold Dialect.join joinTexts
  cases parts.filterMap id with
  | nil => rfl
  | cons t ts => cases j <;> rfl

theorem negate_queryDialect (t : Option String) :
    (queryDialect quote).negate t = .ok (t.map ("NOT " ++ ·)) := by
  cases t <;> rfl

theorem bracket_queryDialect (t : Option String) :
    (queryDialect quote).bracket t = .ok (bracketText t) := by
  cases t with
  | none => rfl
  | some t =>
    by_cases empty : t = ""
    · subst empty
      rfl
    · rw [bracketText_of_ne empty, Dialect.bracket]
      · show Except.ok (some ("(" ++ (t ++ (")" ++ "")))) = _
        rw [String.append_empty, String.append_assoc]
      · exact empty

theorem isNull_queryDialect (f : Value) :
    Dialect.nullText (queryDialect quote).isNull (.value f) =
      .ok (some ("NOT _exists_:" ++ f.display)) := by
  show Except.ok (some ("NOT _exists_:" ++ (f.display ++ ("" ++ "")))) = _
  rw [String.append_empty, String.append_empty]

theorem notNull_queryDialect (f : Value) :
    Dialect.nullText (queryDialect quote).notNull (.value f) =
      .ok (some ("_exists_:" ++ f.display)) := by
  show Except.ok (some ("_exists_:" ++ (f.display ++ ("" ++ "")))) = _
  rw [String.append_empty, String.append_empty]

theorem listText_queryDialect (vs : List Value) :
    listText (queryDialect quote) value vs = if vs.all Value.isPlain then do
        return some ("(" ++ (" ".intercalate (← valueTexts value vs) ++ (")" ++ "")))
      else throw (.type .listValues) := rfl

theorem itemText_queryDialect (listed : Value → Value → FaultM σ (Option String)) (f v : Value) :
    itemText (queryDialect quote) value listed f v = if (queryDialect quote).takesValue v then do
        return some (f.display ++ (":" ++ ((← operandText (queryDialect quote) value v) ++ "")))
      else throw (.type (.mapValue v.typeText)) := by
  cases v <;> rfl

/-! ### No leaf is empty -/

variable {out : Option String} {listed : Value → Value → FaultM σ (Option String)} {f v : Value}

theorem listText_ne_empty {vs : List Value}
    (yields : (listText (queryDialect quote) value vs).Yields out) :
    ∃ s, out = some s ∧ s ≠ "" := by
  rw [listText_queryDialect] at yields
  split at yields
  · obtain ⟨texts, -, rfl⟩ := yields.map
    refine ⟨_, rfl, fun none => ?_⟩
    exact absurd (String.append_eq_empty_iff.mp none).1 (by decide)
  · obtain ⟨s, t, run⟩ := yields
    cases run

theorem itemText_ne_empty (yields : (itemText (queryDialect quote) value listed f v).Yields out) :
    ∃ s, out = some s ∧ s ≠ "" := by
  rw [itemText_queryDialect] at yields
  split at yields
  · obtain ⟨operand, -, rfl⟩ := yields.map
    refine ⟨_, rfl, fun none => ?_⟩
    have colon := (String.append_eq_empty_iff.mp none).2
    exact absurd (String.append_eq_empty_iff.mp colon).1 (by decide)
  · obtain ⟨s, t, run⟩ := yields
    cases run

/-! ### Whether a leaf can be written -/

section

variable (steady : ∀ v, Steady view (value v))
include steady

theorem steady_valueTexts (vs : List Value) : Steady view (valueTexts value vs) := by
  induction vs with
  | nil => exact steady_pure []
  | cons v rest ih => exact (steady v).both ih (· :: ·)

theorem steady_listText (vs : List Value) :
    Steady view (listText (queryDialect quote) value vs) := by
  rw [listText_queryDialect]
  split
  · exact (steady_valueTexts steady vs).map _
  · exact steady_throw _

theorem steady_operandText (v : Value) :
    Steady view (operandText (queryDialect quote) value v) := by
  cases v with
  | list vs => exact (steady_listText quote steady vs).map _
  | _ => exact steady _

theorem steady_itemText (listed : Value → Value → FaultM σ (Option String)) (f v : Value) :
    Steady view (itemText (queryDialect quote) value listed f v) := by
  rw [itemText_queryDialect]
  split
  · exact (steady_operandText quote steady v).map _
  · exact steady_throw _

end

theorem returns_itemText {s : σ} (h : (itemText (queryDialect quote) value listed f v).Returns s)
    (g : Value) : (itemText (queryDialect quote) value listed g v).Returns s := by
  rw [itemText_queryDialect] at h ⊢
  split
  · rename_i takes
    rw [if_pos takes, returns_map_iff] at h
    exact h.map _
  · rename_i takes
    rwa [if_neg takes] at h

end Renderer

/-! ## Graylog -/

namespace Graylog

open Renderer

theorem writesSigns : (renderer dialect).WritesSigns where
  enter _ _ := rfl
  keeps _ := rfl
  anyText := rfl
  join j parts := congrArg ofExcept (join_queryDialect "\"" j parts)
  negate t := congrArg ofExcept (negate_queryDialect "\"" t)
  bracket t := congrArg ofExcept (bracket_queryDialect "\"" t)
  isNull f := congrArg ofExcept (isNull_queryDialect "\"" f)
  notNull f := congrArg ofExcept (notNull_queryDialect "\"" f)
  value v t yields := by
    obtain ⟨s, s', run⟩ := yields
    cases run
    intro none
    exact absurd (String.append_eq_empty_iff.mp none).1 (by decide)
  list vs t yields := listText_ne_empty "\"" yields
  item f v t yields := itemText_ne_empty "\"" yields

theorem steadyLeaves : (renderer dialect).SteadyLeaves (id : TextQuery → TextQuery) where
  value _ := steady_ofExcept _
  list vs := steady_listText "\"" (fun _ => steady_ofExcept _) vs
  item f v := steady_itemText "\"" (fun _ => steady_ofExcept _) _ f v
  isNull _ := steady_ofExcept _
  notNull _ := steady_ofExcept _

end Graylog

/-! ## Elasticsearch -/

namespace Elastic.Keywords

/-- A value is searched for in the keyword field. -/
def isKeyword (k : Keywords) (f v : Value) : Bool :=
  !(f.memberOf (k.blacklist.map .text)) && hasWild v

/-- The field in which a value is searched for, if it has one. -/
def searched (k : Keywords) (f v : Value) : Except Fault Value :=
  if k.isKeyword f v then below f k.field else .ok f

theorem start_fieldName (f v : Value) (k : Keywords) :
    (fieldName f v).start k = (k.searched f v, { k with matched := k.isKeyword f v }) := by
  rw [fieldName, start_bind_of_ok (start_get k), searched, isKeyword]
  cases !(f.memberOf (k.blacklist.map .text)) && hasWild v <;> rfl

end Elastic.Keywords

namespace Elastic.QueryString

open Renderer

/-- A target that has looked at a field, which was a keyword field or not. -/
def afterField (matched : Bool) (q : QueryString) : QueryString :=
  { q with keywords := { q.keywords with matched } }

theorem eq_afterField {q q' : QueryString} (same : q'.afterField true = q.afterField true) :
    q' = q.afterField q'.keywords.matched := by
  obtain ⟨query, ⟨field, blacklist, matched⟩⟩ := q
  obtain ⟨query', ⟨field', blacklist', matched'⟩⟩ := q'
  simp_all [afterField]

theorem start_fieldName (f v : Value) (q : QueryString) :
    (fieldName f v).start q =
      if !(f.memberOf (q.keywords.blacklist.map .text)) && Keywords.hasWild v then
        (Keywords.below f q.keywords.field, q.afterField true)
      else (.ok f, q.afterField false) := by
  show (((Keywords.fieldName f v).start q.keywords).1,
    { q with keywords := ((Keywords.fieldName f v).start q.keywords).2 }) = _
  rw [Keywords.start_fieldName, Keywords.searched]
  show _ = if q.keywords.isKeyword f v then _ else _
  cases q.keywords.isKeyword f v <;> rfl

theorem steady_fieldName (f v : Value) : Steady (afterField true) (fieldName f v) where
  keeps q := by
    rw [start_fieldName]
    split <;> rfl
  returns q q' same h := by
    have field : q.keywords.field = q'.keywords.field := congrArg (·.keywords.field) same
    have blacklist : q.keywords.blacklist = q'.keywords.blacklist :=
      congrArg (·.keywords.blacklist) same
    obtain ⟨a, t, run⟩ := h
    rw [start_fieldName, field, blacklist] at run
    unfold Returns
    rw [start_fieldName]
    split at run
    · rename_i wild
      have named : Keywords.below f q'.keywords.field = .ok a := congrArg Prod.fst run
      exact ⟨a, _, by rw [if_pos wild, named]⟩
    · rename_i plain
      exact ⟨f, _, by rw [if_neg plain]⟩

/-- A value as it is written without quotes. -/
def bareText (v : Value) : String :=
  "" ++ (escape.text v.display ++ ("" ++ ""))

theorem start_valueText (v : Value) (q : QueryString) :
    (valueText dialect v).start q = (.ok (if (bareText v).toList.all Text.isBlank then "\"\""
        else if q.keywords.matched then bareText v else "\"" ++ bareText v ++ "\""), q) := by
  have text : (FaultM.ofExcept (dialect.valueText escape.text v) : FaultM QueryString String).start q =
      (.ok (bareText v), q) := rfl
  rw [valueText, start_bind_of_ok text]
  split
  · rfl
  · rw [start_bind_of_ok (start_get q)]
    split <;> rfl

theorem steady_valueText (v : Value) : Steady (afterField true) (valueText dialect v) where
  keeps q := by rw [start_valueText]
  returns q q' same h := ⟨_, _, start_valueText v q'⟩

theorem valueText_ne_empty {v : Value} {t : String} (yields : (valueText dialect v).Yields t) :
    t ≠ "" := by
  obtain ⟨q, q', run⟩ := yields
  rw [start_valueText] at run
  obtain rfl := Except.ok.inj (congrArg Prod.fst run)
  split
  · decide
  · rename_i visible
    split
    · intro empty
      rw [empty] at visible
      exact visible rfl
    · intro none
      have quoted := (String.append_eq_empty_iff.mp none).1
      exact absurd (String.append_eq_empty_iff.mp quoted).1 (by decide)

theorem writesSigns : (renderer dialect).WritesSigns where
  enter _ _ := rfl
  keeps _ := rfl
  anyText := rfl
  join j parts := congrArg ofExcept (join_queryDialect "" j parts)
  negate t := congrArg ofExcept (negate_queryDialect "" t)
  bracket t := congrArg ofExcept (bracket_queryDialect "" t)
  isNull f := congrArg ofExcept (isNull_queryDialect "" f)
  notNull f := congrArg ofExcept (notNull_queryDialect "" f)
  value v t yields := valueText_ne_empty yields
  list vs t yields := listText_ne_empty "" yields
  item f v t yields := by
    obtain ⟨g, -, written⟩ := yields.bind
    exact itemText_ne_empty "" written

theorem steadyLeaves : (renderer dialect).SteadyLeaves (afterField true) where
  value v := steady_valueText v
  list vs := steady_listText "" steady_valueText vs
  item f v := (steady_fieldName f v).bind (fun g => steady_itemText "" steady_valueText _ g v)
    fun _ h _ returns => returns_itemText "" returns h
  isNull _ := steady_ofExcept _
  notNull _ := steady_ofExcept _

end Elastic.QueryString

open Elastic.QueryString

namespace Target

/-- The target writes query strings, in the language of its kind. -/
def writesQueryStrings : Target → Prop
  | .esQs q => q.query.dialect = Elastic.QueryString.dialect
  | .graylog q => q.dialect = Graylog.dialect
  | _ => False

/-- A target that has looked at a field, which was a keyword field or not. -/
def afterField (matched : Bool) : Target → Target
  | .esQs q => .esQs (q.afterField matched)
  | t => t

/-- The signs are what a target writes for a tree, and are read back with its meaning. -/
structure WritesQuery (t : Target) (c : Cond) (signs : List (Sign Leaf)) (f : Formula Leaf) : Prop where
  /-- The text of the tree. -/
  text : (t.render c).1 = .ok (.text (Sign.spell signs))
  /-- How the text is read, by the rules of precedence. -/
  reading : Sign.readQuery signs = some f
  /-- The leaves are those of the tree, without their negations. -/
  atoms : (signs.filterMap Sign.leaf?).map Leaf.atom = c.leaves.map Cond.positive
  /-- A leaf is written as it is alone, after a keyword field or after another. -/
  leaves : ∀ l ∈ signs.filterMap Sign.leaf?, ∃ b,
    ((t.afterField b).render l.atom).1 = .ok (.text l.text)
  meaning : ∀ v, c.meaning v = some (f.eval (Leaf.holds v))

/-- The target renders with a renderer from a state. Another state that looks the same differs only
in the field that was looked at before. -/
structure RendersWith {σ τ : Type} (t : Target) (r : Renderer σ) (view : σ → τ) (s : σ) : Prop where
  here : ∀ c, (t.render c).1 = ((r.render c).start s).1.map optionValue
  after : ∀ s', view s' = view s → ∃ b, ∀ c,
    ((t.afterField b).render c).1 = ((r.render c).start s').1.map optionValue

theorem rendersWith_graylog {q : TextQuery} (language : q.dialect = Graylog.dialect) :
    (Target.graylog q).RendersWith (Graylog.renderer Graylog.dialect) id q := by
  have runs : ∀ c, ((Target.graylog q).render c).1 =
      (((Graylog.renderer Graylog.dialect).render c).start q).1.map optionValue := by
    intro c
    show ((((Graylog.renderer q.dialect).render c).start q).1.map id).map optionValue = _
    rw [language, Except.map_id]
    rfl
  refine ⟨runs, fun q' same => ⟨true, ?_⟩⟩
  obtain rfl : q' = q := same
  exact runs

theorem rendersWith_queryString {q : Elastic.QueryString} (language : q.query.dialect = dialect) :
    (Target.esQs q).RendersWith (Elastic.QueryString.renderer Elastic.QueryString.dialect)
      (Elastic.QueryString.afterField true) q := by
  have runs : ∀ q' : Elastic.QueryString, q'.query.dialect = Elastic.QueryString.dialect → ∀ c,
      ((Target.esQs q').render c).1 = (((renderer
        dialect).render c).start q').1.map optionValue := by
    intro q' language c
    show ((((renderer q'.query.dialect).render c).start q').1.map id).map
      optionValue = _
    rw [language, Except.map_id]
    rfl
  refine ⟨runs q language, fun q' same => ⟨q'.keywords.matched, ?_⟩⟩
  rw [afterField, ← eq_afterField same]
  apply runs
  have query : q'.query = q.query := congrArg (·.query) same
  rw [query, language]

theorem RendersWith.reading {σ τ : Type} {t : Target} {r : Renderer σ} {view : σ → τ} {s : σ}
    (h : t.RendersWith r view s) (writes : r.WritesSigns) (steady : r.SteadyLeaves view) {c : Cond}
    (bracketed : c.BracketedUnless (fun _ => False) true)
    (tests : ∀ l ∈ c.leaves, l.isTest = true) (accepted : ∀ l ∈ c.leaves, ∃ x, (t.render l).1 = .ok x) :
    (c.leaves = [] ∧ (t.render c).1 = .ok .null ∧ ∀ v, c.meaning v = none) ∨
      (c.leaves ≠ [] ∧ ∃ signs f, t.WritesQuery c signs f) := by
  have returns : ∀ l ∈ c.leaves, (r.render l).Returns s := by
    intro l member
    obtain ⟨x, same⟩ := accepted l member
    rw [h.here] at same
    rcases run : (r.render l).start s with ⟨e | a, s'⟩
    · rw [run] at same
      cases same
    · exact ⟨a, s', run⟩
  obtain ⟨out, s', run⟩ := (Renderer.returns_render_iff writes steady c s).mpr returns
  have known := (writes.renders steady (view s) bracketed tests s rfl).2 out s' run
  have rendered : (t.render c).1 = .ok (optionValue out) := by
    rw [h.here, run]
    rfl
  cases out with
  | none => exact .inl ⟨known.1, rendered, known.2⟩
  | some text =>
    obtain ⟨leaves, -, signs, f, rfl, query, spells⟩ := known
    refine .inr ⟨leaves, signs, f, rendered, Sign.IsQuery.readQuery_eq query, spells.atoms, ?_,
      spells.meaning⟩
    intro l member
    obtain ⟨s'', same, written⟩ := spells.texts l member
    obtain ⟨b, after⟩ := h.after s'' same
    exact ⟨b, by rw [after, written]; rfl⟩

theorem writesQuery_cases {t : Target} (language : t.writesQueryStrings) {c : Cond}
    (bracketed : c.BracketedUnless (fun _ => False) true)
    (tests : ∀ l ∈ c.leaves, l.isTest = true)
    (accepted : ∀ l ∈ c.leaves, ∃ x, (t.render l).1 = .ok x) :
    (c.leaves = [] ∧ (t.render c).1 = .ok .null ∧ ∀ v, c.meaning v = none) ∨
      (c.leaves ≠ [] ∧ ∃ signs f, t.WritesQuery c signs f) := by
  cases t with
  | esQs q =>
    exact (rendersWith_queryString language).reading Elastic.QueryString.writesSigns
      Elastic.QueryString.steadyLeaves bracketed tests accepted
  | graylog q =>
    exact (rendersWith_graylog language).reading Graylog.writesSigns Graylog.steadyLeaves bracketed
      tests accepted
  | _ => exact language.elim

/-- A tree whose inner junctions all stand in brackets, and whose leaves are tests that the target
takes, can be written. It has no text exactly if it has no leaf, and is no constraint then. Otherwise
its text is read back with its meaning. -/
theorem render_reading (t : Target) (language : t.writesQueryStrings) (c : Cond)
    (bracketed : c.BracketedUnless (fun _ => False) true)
    (tests : ∀ l ∈ c.leaves, l.isTest = true)
    (accepted : ∀ l ∈ c.leaves, ∃ x, (t.render l).1 = .ok x) :
    ((t.render c).1 = .ok .null ↔ c.leaves = []) ∧
      (c.leaves = [] → ∀ v, c.meaning v = none) ∧
      (c.leaves ≠ [] → ∃ signs f, t.WritesQuery c signs f) := by
  rcases writesQuery_cases language bracketed tests accepted with
    ⟨leafless, rendered, free⟩ | ⟨leaves, signs, f, written⟩
  · exact ⟨⟨fun _ => leafless, fun _ => rendered⟩, fun _ => free, fun leaves => absurd leafless leaves⟩
  · refine ⟨⟨fun null => ?_, fun leafless => absurd leafless leaves⟩,
      fun leafless => absurd leafless leaves, fun _ => ⟨signs, f, written⟩⟩
    rw [written.text] at null
    cases null

/-- A disjunction of a negated conjunction, of brackets around nothing, and of a value. -/
def sampleQuery : Cond :=
  .any [.not [.group (.all none [.item (.text "f") (.text "a*"), .isNull [.value (.text "g")]])],
    .group (.all none []), .value (.text "x")]

/-- A target without options, where every field has a keyword field below it. -/
def sampleTarget : Target :=
  .esQs { query := ⟨{}, Elastic.QueryString.dialect⟩
          keywords := { field := .text "keyword", blacklist := [] } }

/-- Nothing is left of the empty brackets. The value comes after a keyword field and is not quoted. -/
theorem render_reading_sample :
    (sampleTarget.render sampleQuery).1 =
        .ok (.text "NOT (f.keyword:a* AND NOT _exists_:g) OR x") ∧
      ∃ signs f, sampleTarget.WritesQuery sampleQuery signs f := by
  refine ⟨rfl, (render_reading sampleTarget rfl sampleQuery ?_ ?_ ?_).2.2 (List.cons_ne_nil _ _)⟩
  · simp [sampleQuery, Cond.BracketedUnless, Cond.BracketedAll, Cond.BracketedBelow]
  · decide
  · intro l member
    simp only [sampleQuery, Cond.leaves, Cond.leavesOfAll, List.nil_append, List.append_nil,
      List.cons_append, List.mem_cons, List.not_mem_nil, or_false] at member
    rcases member with rfl | rfl | rfl <;> exact ⟨_, rfl⟩

end Target

end SigmaQuery
