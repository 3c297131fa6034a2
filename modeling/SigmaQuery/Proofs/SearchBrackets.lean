import SigmaQuery.Proofs.DefinitionNodes
import SigmaQuery.Proofs.Precedence

/-!
# Brackets in parsed searches

Targets write parentheses where a tree has brackets, so a junction without them can be read wrong. A
parsed search has them around each junction, with one exception: the simplification does not look
below negations, and the tree of a negated definition stays as the definition gave it.

The invariant of the parsing is that operands of negations are finished trees: leaves, trees of
definitions, or groups that have been simplified before (`ensures_parseSearch`). It is kept over all
configurations that can come up, since their log sources have no negations (`Config.Reached.plain`).
-/

namespace SigmaQuery

open FaultM List Rule LogSource Cond Config Detection

/-! ## Searches -/

/-- The conditions of the log sources have no negation. -/
def Config.Plain (c : Config) : Prop :=
  ∀ s ∈ c.logSources, ∀ t, s.conditions = some t → t.Fits nothing .loose

/-- The states in which a rule is parsed. -/
def Config.Parsing (c s : Config) : Prop :=
  s.spent = c.spent ∧ s.Plain

theorem Config.holds_parsing (c : Config) : c.Holds c.Parsing where
  spent h := h.1
  setMapping {s field m m'} h found alike := by
    refine ⟨(spent_setMapping found alike).trans h.1, ?_⟩
    have same : (s.setMapping field m').logSources = s.logSources := by
      unfold setMapping
      split
      · split <;> rfl
      · rfl
    rw [Plain, same]
    exact h.2

variable {c : Config} {v index name method : Value} {rows : List (List Cond)} {entries : Entries}
  {sources : List LogSource} {s : LogSource} {t : Cond} {origin : Option Nat}

theorem Config.Plain.lose (plain : c.Plain) (ls : List Loss) : (c.lose ls).Plain := by
  intro s member t found
  obtain ⟨s', known, rfl⟩ := mem_map.mp member
  obtain ⟨t', found', rfl⟩ := Option.map_eq_some_iff.mp found
  exact (plain s' known t' found').after (fun _ _ none => none.elim) ls

theorem Cond.fits_pair (j : Junction) {raw : Cond → Prop} {a b : Cond} (left : a.Fits raw .loose)
    (right : b.Fits raw .loose) : (j.build none [a, b]).Fits raw .loose := by
  refine (fits_build_iff j none [a, b]).mpr ⟨.loose, rfl, ?_⟩
  simp [left, right]

section Searches

variable {c : Config} {d : Detection} {t : Cond} {raw : Cond → Prop} {elements : List Cond}

theorem ensures_simplify (loose : t.Fits (d.Branching c) .loose) :
    Ensures c.Parsing (fun u => u.Fits (d.Branching c) .wrapped) (Config.simplify t) := by
  intro s holds
  have run : (Config.simplify t).start s =
    ((s.current t).simplified.1, s.lose (s.current t).simplified.2) := rfl
  rw [run]
  refine ⟨⟨holds.1, holds.2.lose _⟩, fun u s' h => ?_⟩
  exact fits_simplified lossless_branching (congrArg Prod.fst h)
    (loose.after lossless_branching _)

theorem fitsOperand_of_defined {n : Cond} {flat : Prop}
    (h : ∃ t, n = .group t ∧ t.Defined flat .inside)
    (exempt : ¬ flat → d.Branching c n) : n.FitsOperand (d.Branching c) := by
  obtain ⟨t, rfl, defined⟩ := h
  by_cases is : flat
  · exact .inr (defined.fits is).of_nothing
  · exact .inl (exempt is)

theorem fitsOperand_parseSeveral (j : Junction) (operand : Cond) :
    Ensures c.Parsing (Cond.FitsOperand (d.Branching c)) (d.parseSeveral j operand) := by
  cases read : operand.tokenText with
  | error e =>
    unfold parseSeveral
    rw [read]
    exact ensures_throw e
  | ok text =>
    intro s holds
    obtain ⟨kept, shape⟩ := ensures_parseSeveral c.holds_parsing d j read s holds
    refine ⟨kept, fun n s' run => fitsOperand_of_defined (shape n s' run) fun uneven => ?_⟩
    exact ⟨s, s', operand, text, holds.1, read, .inr ⟨j, uneven, run⟩⟩

theorem fitsOperand_parseIdentifier (operand : Cond) :
    Ensures c.Parsing (Cond.FitsOperand (d.Branching c)) (d.parseIdentifier operand) := by
  cases read : operand.tokenText with
  | error e =>
    unfold parseIdentifier
    rw [read]
    exact ensures_throw e
  | ok text =>
    intro s holds
    obtain ⟨kept, shape⟩ := ensures_parseIdentifier c.holds_parsing d read s holds
    refine ⟨kept, fun n s' run => fitsOperand_of_defined (shape n s' run) fun uneven => ?_⟩
    exact ⟨s, s', operand, text, holds.1, read, .inl ⟨uneven, run⟩⟩

/-- Up to the negations the elements are operands, from there on they are loose trees. -/
theorem ensures_reduceOperators (operands : ∀ x ∈ elements, x.FitsOperand (d.Branching c)) :
    Ensures c.Parsing (fun ys => ∀ y ∈ ys, y.Fits (d.Branching c) .loose)
      (reduceOperators d elements) :=
  ensures_operators (fun j x _ => fitsOperand_parseSeveral j x)
    (fun x _ => fitsOperand_parseIdentifier x) (fun _ operand => ⟨operand, trivial⟩)
    (fun _ operand => operand.loose fun _ => Branching.loose) (fun j _ _ => fits_pair j)
    operands

theorem LogSource.fits_indexCondition {s : LogSource} (h : s.indexCondition = some t) :
    t.Fits raw .loose := by
  unfold indexCondition at h
  split at h
  · cases h
  · cases h
  · cases h
    refine (fits_build_iff .disj none _).mpr ⟨.loose, rfl, fun x member => ?_⟩
    obtain ⟨i, -, rfl⟩ := mem_map.mp member
    exact trivial

theorem fits_constrain {source : Option LogSource}
    (plain : ∀ s t, source = some s → s.conditions = some t → t.Fits nothing .loose)
    (fits : t.Fits raw .loose) : (constrain source t).Fits raw .loose := by
  cases source with
  | none => exact fits
  | some s =>
    have own : ∀ c, s.conditions = some c → c.Fits raw .loose := fun c found =>
      (plain s c rfl found).of_nothing
    have index : ∀ i, s.indexCondition = some i → i.Fits raw .loose := fun _ found =>
      fits_indexCondition found
    rcases conditions : s.conditions with _ | c <;> rcases indices : s.indexCondition with _ | i <;>
      simp only [constrain, conditions, indices]
    · exact fits
    · exact fits_pair .conj (index i indices) fits
    · exact fits_pair .conj (own c conditions) fits
    · exact fits_pair .conj (index i indices) (fits_pair .conj (own c conditions) fits)

theorem ensures_parseSearch {source : Except Fault (Option LogSource)}
    (plain : ∀ s t, source = .ok (some s) → s.conditions = some t → t.Fits nothing .loose)
    (operands : ∀ x ∈ elements, x.FitsOperand (d.Branching c)) :
    Ensures c.Parsing (fun u => u.Fits (d.Branching c) .wrapped)
      (parseSearch simplify source d elements) := by
  refine ensures_search ensures_reduceOperators (fun roots trees => ?_)
    (fun _ wrapped => .inr wrapped.inside) operands
  unfold finishSearch
  split
  · rename_i root
    refine (ensures_ofExcept fun s h => h).bind fun s found => ensures_simplify ?_
    exact fits_constrain (fun s' t same => plain s' t (same ▸ found)) (trees root (by simp))
  · exact ensures_throw _

end Searches

/-! ## Rules -/

theorem Cond.fitsOperand_ofValue (raw : Cond → Prop) (v : Value) :
    (Cond.ofValue v).FitsOperand raw := by
  cases v <;> rfl

theorem Rule.fitsOperand_elementsOf (raw : Cond → Prop) {elements : List Cond}
    (h : elementsOf v = .ok elements) : ∀ x ∈ elements, x.FitsOperand raw := by
  unfold elementsOf at h
  split at h
  · obtain ⟨tokens, -, rfl⟩ := map_eq_ok h
    intro x member
    obtain ⟨t, -, rfl⟩ := mem_map.mp member
    exact rfl
  · cases h
    intro x member
    obtain ⟨v, -, rfl⟩ := mem_map.mp member
    exact fitsOperand_ofValue raw v
  · cases h

theorem Rule.fitsOperand_elementsOfEach (raw : Cond → Prop) {vs : List Value}
    (h : elementsOfEach vs = .ok rows) :
    ∀ elements ∈ rows, ∀ x ∈ elements, x.FitsOperand raw := by
  induction vs generalizing rows with
  | nil =>
    cases h
    exact fun elements member => absurd member (by simp)
  | cons v rest ih =>
    unfold elementsOfEach at h
    split at h
    · cases h
    · rename_i first found
      obtain ⟨others, later, rfl⟩ := map_eq_ok h
      exact forall_mem_cons.mpr ⟨fitsOperand_elementsOf raw found, ih later⟩

theorem Rule.fitsOperand_conditionElements (raw : Cond → Prop)
    (h : conditionElements entries = .ok rows) :
    ∀ elements ∈ rows, ∀ x ∈ elements, x.FitsOperand raw := by
  unfold conditionElements at h
  split at h
  · cases h
  · exact fitsOperand_elementsOfEach raw h
  · exact fitsOperand_elementsOfEach raw h
  · cases h
    exact fun elements member => absurd member (by simp)

theorem LogSource.conditions_of_merge (h : merge sources index name method = .ok s)
    (own : s.conditions = some t) : ∃ j : Junction,
      t = j.build none (sources.filterMap LogSource.conditions) := by
  unfold merge at h
  simp only at h
  split at h
  · cases h
  · split at h
    · cases h
    · split at h
      · cases h
      · rename_i j _
        cases h
        dsimp only at own
        split at own
        · cases own
        · exact ⟨j, (Option.some.inj own).symm⟩

theorem LogSource.fits_merge
    (plain : ∀ s ∈ sources, ∀ t, s.conditions = some t → t.Fits nothing .loose)
    (h : merge sources index name method = .ok s) (own : s.conditions = some t) :
    t.Fits nothing .loose := by
  obtain ⟨j, rfl⟩ := conditions_of_merge h own
  refine (fits_build_iff j none _).mpr ⟨.loose, rfl, fun x member => ?_⟩
  obtain ⟨s', known, found⟩ := mem_filterMap.mp member
  exact plain s' known x found

/-- The log source of a rule joins conditions of the configuration's log sources. -/
theorem Config.Plain.logSourceOf (plain : c.Plain) {document : Value}
    (found : c.logSourceOf document = .ok (some s)) (own : s.conditions = some t) :
    t.Fits nothing .loose := by
  unfold Config.logSourceOf at found
  split at found
  · split at found
    · cases found
    · obtain ⟨s', merged, same⟩ := map_eq_ok found
      cases same
      exact fits_merge (fun s'' member => plain s'' (mem_filter.mp member).1)
        merged own
    · cases found
  · cases found

section Rules

variable {c : Config} {d : Detection} {source : Except Fault (Option LogSource)}
  (plain : ∀ s t, source = .ok (some s) → s.conditions = some t → t.Fits nothing .loose)
include plain

theorem ensures_parseCondition {elements : List Cond}
    (operands : ∀ x ∈ elements, x.FitsOperand (d.Branching c)) :
    Ensures c.Parsing (fun p => p.search.Fits (d.Branching c) .wrapped)
      (parseCondition source d elements) := by
  unfold parseCondition
  split
  · exact (ensures_parseSearch plain operands).map fun u wrapped => wrapped
  · rename_i before _ after split
    have first : ∀ x ∈ before, x.FitsOperand (d.Branching c) := fun x member =>
      operands x (by simp [eq_of_splitKind? split, member])
    refine (ensures_parseSearch plain first).bind fun u wrapped => ?_
    refine (ensures_get (I := c.Parsing)).bind fun s _ => ?_
    exact (ensures_ofExcept (P := fun _ => True) fun _ _ => trivial).map fun a _ => wrapped

theorem ensures_parseConditions {rows : List (List Cond)}
    (operands : ∀ elements ∈ rows, ∀ x ∈ elements, x.FitsOperand (d.Branching c)) :
    Ensures c.Parsing (fun ps => ∀ p ∈ ps, p.search.Fits (d.Branching c) .wrapped)
      (parseConditions source d rows) := by
  induction rows with
  | nil => exact ensures_pure fun p member => absurd member (by simp)
  | cons elements rest ih =>
    rw [forall_mem_cons] at operands
    refine (ensures_parseCondition plain operands.1).bind fun p here => ?_
    exact (ih operands.2).map fun ps later => forall_mem_cons.mpr ⟨here, later⟩

end Rules

theorem Rule.ensures_parse (c : Config) (document : Value) : Ensures c.Parsing
      (fun r => ∀ p ∈ r.conditions, p.search.Fits (r.detection.Branching c) .wrapped)
      (parse document) := by
  unfold parse
  refine (ensures_ofExcept (P := fun _ => True) fun _ _ => trivial).bind fun detection _ => ?_
  unfold parseOver
  refine (ensures_ofExcept (P := fun _ => True) fun _ _ => trivial).bind fun entries _ => ?_
  refine (ensures_ofExcept fun rows h => h).bind fun rows found => ?_
  refine (ensures_get (I := c.Parsing)).bind fun s holds => ?_
  have operands := fitsOperand_conditionElements
    ((ofEntries detection).Branching c) found
  refine (ensures_parseConditions (fun s' t is own => holds.2.logSourceOf is own)
    operands).bind fun ps wrapped => ?_
  refine (ensures_get (I := c.Parsing)).bind fun s' _ => ensures_pure fun p member => ?_
  obtain ⟨q, known, rfl⟩ := mem_map.mp member
  exact (wrapped q known).after lossless_branching _

/-! ## Configurations -/

/-- A configuration as it can come up: it is read from a document or empty, targets are chosen, and
rules are parsed. -/
inductive Config.Reached : Config → Prop
  | empty : Reached .empty
  | document {v : Value} {c : Config} (read : Config.ofDocument v = .ok c) : Reached c
  | target (indexField : Option String) {c : Config} (before : Reached c) :
      Reached ((Config.chooseTarget indexField).start c).2
  | rule (document : Value) {c : Config} (before : Reached c) :
      Reached ((parse document).start c).2

theorem LogSource.fits_readConditions (h : readConditions origin entries = .ok (some t)) :
    t.Fits nothing .loose := by
  unfold readConditions at h
  split at h
  · cases h
  · cases h
    refine (fits_build_iff .conj origin _).mpr ⟨.loose, rfl, fun x member => ?_⟩
    obtain ⟨entry, -, rfl⟩ := mem_map.mp member
    exact trivial
  · cases h

theorem LogSource.fits_ofValue {indexField : Option String}
    (h : ofValue origin v index name method indexField = .ok s)
    (own : s.conditions = some t) : t.Fits nothing .loose := by
  unfold ofValue at h
  split at h
  · cases h
    cases own
  · exact fits_merge (fun s member => absurd member (by simp)) h own
  · unfold ofEntries at h
    simp only at h
    split at h
    · cases h
    · split at h
      · cases h
      · split at h
        · cases h
        · obtain ⟨conditions, read, rfl⟩ := map_eq_ok h
          subst own
          exact fits_readConditions read
  · cases h

section

variable {I : Config → Prop}
  (adds : ∀ {c : Config} {v name : Value} {s : LogSource}, I c →
    ofValue (some c.logSources.length) v c.defaultIndex name c.merging c.indexField = .ok s →
      I { c with logSources := c.logSources ++ [s] })
include adds

theorem Config.stays_addLogSources (entries : Entries) : Stays I (addLogSources entries) := by
  induction entries with
  | nil => exact ensures_pure trivial
  | cons x rest ih =>
    obtain ⟨name, v⟩ := x
    intro c holds
    unfold addLogSources
    rw [start_bind_of_ok (start_get c)]
    split
    · exact stays_throw _ c holds
    · rename_i s read
      rw [start_bind_of_ok (start_set c _)]
      exact ih _ (adds holds read)

theorem Config.holds_chooseTarget {indexField : Option String} {c : Config}
    (still : I { c with indexField }) : I ((chooseTarget indexField).start c).2 := by
  have chosen : (modify fun c => { c with indexField } : ConfigM PUnit).start c =
    (.ok ⟨⟩, { c with indexField }) := rfl
  unfold chooseTarget
  rw [start_bind_of_ok chosen, start_bind_of_ok (start_get _)]
  split
  · exact still
  · split
    · exact still
    · exact (stays_addLogSources adds _ _ still).1
    · exact still

theorem Config.stays_chooseTarget {indexField : Option String}
    (chooses : ∀ {c : Config}, I c → I { c with indexField }) : Stays I (chooseTarget indexField) :=
  fun _ holds => ⟨holds_chooseTarget adds (chooses holds), fun _ _ _ => trivial⟩

end

theorem Config.plain_chooseTarget (indexField : Option String) :
    Stays Plain (chooseTarget indexField) := by
  refine stays_chooseTarget (fun plain read => ?_) (fun plain => plain)
  intro s member
  rcases mem_append.mp member with old | new
  · exact plain s old
  · rw [mem_singleton.mp new]
    exact fun t => fits_ofValue read

theorem Config.Reached.plain {c : Config} (reached : c.Reached) : c.Plain := by
  induction reached with
  | empty => exact fun s member => absurd member (by simp [Config.empty])
  | document read =>
    unfold ofDocument at read
    split at read
    · obtain ⟨mappings, -, rfl⟩ := map_eq_ok read
      exact fun s member => absurd member (by simp)
    · cases read
  | target indexField before plain => exact (plain_chooseTarget indexField _ plain).1
  | rule document before plain =>
    exact ((ensures_parse _ document) _ ⟨rfl, plain⟩).1.2

/-! ## Bracketed searches -/

/-- **Bracketing of parsed searches**: where a rule is parsed, each junction of each of its searches
stands directly in brackets, at any depth, also below negations. Exempt is only the inside of a
negated definition that is not flat. If all definitions are flat, nothing is. -/
theorem Rule.parse_brackets {document : Value} {c c' : Config} {r : Rule} (reached : c.Reached)
    (h : (Rule.parse document).start c = (.ok r, c')) : ∀ p ∈ r.conditions,
      p.search.BracketedUnless (r.detection.Branching c) false ∧
        (r.detection.FlatAll c (r.detection.definitions.map (·.2)) →
          p.search.BracketedUnless nothing false) := by
  intro p member
  have wrapped := (Rule.ensures_parse c document c ⟨rfl, reached.plain⟩).2 r c' h p member
  refine ⟨Cond.Fits.bracketed (b := false) wrapped, fun flat => ?_⟩
  -- With flat definitions there is no exempt tree, so every layout allows less.
  have none : Cond.Admits (r.detection.Branching c) nothing := fun inner node =>
    absurd node (Detection.not_branching flat _)
  exact Cond.Fits.bracketed (b := false) (wrapped.imp none (.inl rfl))

/-! ## A negated definition -/

theorem tokensFrom_of_lexeme {position n : Nat} {k : Option TokenKind} {cs : List Char}
    {tokens : List Token} (found : lexeme? cs = some (k, n))
    (rest : tokensFrom (position + n) (cs.drop n) = .ok tokens) :
    tokensFrom position cs = .ok (match k with
      | none => tokens
      | some kind => ⟨kind, String.ofList (cs.take n), position⟩ :: tokens) := by
  cases cs with
  | nil => cases found
  | cons c cs =>
    unfold tokensFrom
    split
    · rename_i none
      rw [found] at none
      cases none
    · rename_i kind' n' same
      rw [found] at same
      cases same
      rw [rest]
      cases k <;> rfl

/-- A configuration document with two targets for one field. -/
def branchingDocument : Value :=
  .map [("fieldmappings", .map [("f", .list ["x", "y"])])]

/-- The configuration of the document. -/
def branchingConfig : Config where
  document := some branchingDocument
  fieldMappings := [("f", some (.multi ["x", "y"]))]

theorem reached_branchingConfig : branchingConfig.Reached :=
  .document (v := branchingDocument) rfl

/-- Two fields, as the definition `sel`. -/
def selDetection : Detection where
  definitions := [("sel", .map [("f", "v"), ("g", "w")])]
  values := [("f", ["v"]), ("g", ["w"])]

/-- A rule with this definition. -/
def selRule (condition : Value) : Value :=
  .map [("detection", .map [("sel", .map [("f", "v"), ("g", "w")]), ("condition", condition)])]

/-- The condition of the definition if the first field has two targets. -/
def branchedFields : Cond :=
  .all none [.any [.item "x" "v", .item "y" "v"], .item "g" "w"]

/-- The negation of a definition with two targets is parsed to a negation with a disjunction that
has no brackets of its own. -/
theorem Rule.parse_negation_unbracketed :
    ∃ r, (Rule.parse (selRule "not sel")).start branchingConfig = (.ok r, branchingConfig) ∧
      ∃ p ∈ r.conditions, p.search = .not [.group branchedFields] ∧
        ¬ p.search.BracketedUnless nothing false := by
  refine ⟨⟨selRule "not sel", selDetection, [⟨.not [.group branchedFields], none⟩]⟩, by decide +kernel,
    _, List.mem_singleton_self _, rfl, ?_⟩
  -- the disjunction stands directly below the conjunction
  rintro ⟨none | ⟨-, ⟨outside, -⟩, -⟩, -⟩
  · exact none
  · cases outside

/-- Over two targets, the definition is bracketed where it stands alone and exempt where it is
negated. Over one target each, it is bracketed below the negation too. -/
theorem Rule.parse_brackets_sel :
    (∃ r, branchingConfig.Reached ∧
      (Rule.parse (selRule (.list ["sel", "not sel"]))).start branchingConfig =
        (.ok r, branchingConfig) ∧
      r.conditions.map (·.search) =
        [.group (.all none [.group (.any [.item "x" "v", .item "y" "v"]), .item "g" "w"]),
          .not [.group branchedFields]] ∧
      ∀ p ∈ r.conditions, p.search.BracketedUnless (r.detection.Branching branchingConfig) false) ∧
    ∃ r, Config.empty.Reached ∧
      (Rule.parse (selRule "not sel")).start .empty = (.ok r, .empty) ∧ 
      r.detection.FlatAll .empty (r.detection.definitions.map (·.2)) ∧
      r.conditions.map (·.search) = [.not [.group (.all none [.item "f" "v", .item "g" "w"])]] ∧
      ∀ p ∈ r.conditions, p.search.BracketedUnless nothing false := by
  have both : (Rule.parse (selRule (.list ["sel", "not sel"]))).start branchingConfig =
      (.ok ⟨selRule (.list ["sel", "not sel"]), selDetection,
        [⟨.group (.all none [.group (.any [.item "x" "v", .item "y" "v"]), .item "g" "w"]), none⟩,
          ⟨.not [.group branchedFields], none⟩]⟩, branchingConfig) := by decide +kernel
  have one : (Rule.parse (selRule "not sel")).start .empty = (.ok ⟨selRule "not sel", selDetection,
      [⟨.not [.group (.all none [.item "f" "v", .item "g" "w"])], none⟩]⟩, .empty) := by decide +kernel
  have flat : selDetection.FlatAll .empty (selDetection.definitions.map (·.2)) := by decide
  refine ⟨⟨_, reached_branchingConfig, both, rfl, fun p member => ?_⟩, _, .empty, one, flat, rfl,
    fun p member => ?_⟩
  · exact (Rule.parse_brackets reached_branchingConfig both p member).1
  · exact (Rule.parse_brackets .empty one p member).2 flat

end SigmaQuery
