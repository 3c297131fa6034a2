import SigmaQuery.Condition.Aggregation
import SigmaQuery.Proofs.Grammar
import SigmaQuery.Proofs.Tokenization

/-!
# The language of aggregations

An aggregation is written in one of two ways. A function of a field, or of none, is compared with a
threshold, perhaps for each group. Or a search is to be near others, and not near others again. The
machine that reads aggregations knows neither of the two: it has a table of moves, and what it stores
depends on where it stands. Here the two ways are data (`AggregationExpr`), with the tokens that they are
written with and the aggregation that they stand for.

The table with its actions is turned into a relation (`Reads`): one line for each move, with what the
move stores. Both directions are then read off this list. Going forward, the tokens of an expression are
read move by move. Going back, each state has few moves, and the tokens can only be those of an
expression. The searches behind a first one can be any number, so there both directions are inductions.
-/

namespace SigmaQuery

open List

/-! ## Aggregations as they are written -/

/-- The word as a token of a kind. -/
def Word.lexeme (k : TokenKind) (w : Word) : Token :=
  ⟨k, w.text, w.position⟩

/-- A search behind the first one of a near aggregation, with the words before it. -/
structure NearTerm where
  conjunction : Word
  negation : Option Word
  name : Word

/-- The tokens of a further search. -/
def NearTerm.tokens (t : NearTerm) : List Token :=
  t.conjunction.lexeme .and :: ((t.negation.map (Word.lexeme .not)).toList ++ [t.name.lexeme .id])

/-- The comparison at the end of an aggregation. -/
structure Threshold where
  sign : TokenKind
  isSign : sign ∈ comparisonKinds
  operator : Word
  value : Word

/-- The tokens of a comparison. -/
def Threshold.tokens (t : Threshold) : List Token :=
  [t.operator.lexeme t.sign, t.value.lexeme .id]

/-- The grouping of an aggregation: the word for it, and the field. -/
structure Grouping where
  sign : Word
  field : Word

/-- The tokens of a grouping. -/
def Grouping.tokens (g : Grouping) : List Token :=
  [g.sign.lexeme .by, g.field.lexeme .id]

/-- An aggregation as it is written. The name of its function is in small letters, whatever the kind of
its token. -/
inductive AggregationExpr where
  | comparison (function : AggregateFunction) (position : Nat) (opening : Word) (field : Option Word)
      (closing : Word) (group : Option Grouping) (threshold : Threshold)
  | near (function : AggregateFunction) (position : Nat) (first : Word) (others : List NearTerm)

namespace AggregationExpr

/-- The tokens of an aggregation. -/
def tokens : AggregationExpr → List Token
  | .comparison function position opening field closing group threshold =>
    ⟨.agg, function.name, position⟩ :: opening.lexeme .lpar ::
      ((field.map (Word.lexeme .id)).toList ++ closing.lexeme .rpar ::
        (group.toList.flatMap Grouping.tokens ++ threshold.tokens))
  | .near function position first others =>
    ⟨.near, function.name, position⟩ :: first.lexeme .id :: others.flatMap NearTerm.tokens

/-- The aggregation that is meant. A near aggregation has the first search and those without a negation
before them in one list, those with a negation in the other, both in their order. -/
def result : AggregationExpr → Aggregation
  | .comparison function _ _ field _ group threshold =>
    { state := .done
      function := some function
      functionText := some function.name
      field := field.map Word.text
      fieldText := field.map Word.text
      group := group.map (·.field.text)
      groupText := group.map (·.field.text)
      operator := some threshold.operator.text
      operatorText := some threshold.operator.text
      threshold := some threshold.value.text
      thresholdText := some threshold.value.text }
  | .near function _ first others =>
    { state := .nearNext
      function := some function
      functionText := some function.name
      near := some
        { included := first.text :: (others.filter (·.negation.isNone)).map (·.name.text)
          excluded := (others.filter (·.negation.isSome)).map (·.name.text)
          excluding := others.getLast?.any (·.negation.isSome) } }

end AggregationExpr

/-! ## Further searches -/

/-- Adds a further search. -/
def NearTerms.addTerm (terms : NearTerms) (t : NearTerm) : NearTerms :=
  add { terms with excluding := t.negation.isSome } t.name.text

theorem NearTerms.foldl_addTerm (others : List NearTerm) (terms : NearTerms) :
    others.foldl addTerm terms =
      { included := terms.included ++ (others.filter (·.negation.isNone)).map (·.name.text)
        excluded := terms.excluded ++ (others.filter (·.negation.isSome)).map (·.name.text)
        excluding := (others.getLast?.map (·.negation.isSome)).getD terms.excluding } := by
  induction others generalizing terms with
  | nil => simp
  | cons t rest ih =>
    rw [foldl_cons, ih, getLast?_cons]
    rcases t with ⟨conjunction, _ | negation, name⟩ <;> cases rest.getLast? <;> simp [addTerm, add]

/-! ## The spelling of a function -/

theorem eq_of_foldsTo_of_isLower {k c : Char} (stands : foldsTo k c = true)
    (small : c.isLower = true) : c = k := by
  obtain ⟨from_a, to_z⟩ := Bool.and_eq_true_iff.mp small
  have above : 97 ≤ c.toNat := UInt32.le_iff_toNat_le.mp (of_decide_eq_true from_a)
  have below : c.toNat ≤ 122 := UInt32.le_iff_toNat_le.mp (of_decide_eq_true to_z)
  have kept : c.toLower = c := by
    rcases toLower_cases c with same | ⟨upper, -⟩
    · exact same
    · have capital : c.toNat ≤ 90 := UInt32.le_iff_toNat_le.mp (of_decide_eq_true upper).2
      omega
  simp only [foldsTo, Bool.or_eq_true, Bool.and_eq_true, beq_iff_eq, kept] at stands
  rcases stands with (same | ⟨-, long⟩) | ⟨-, dotted⟩
  · exact same
  · omega
  · omega

variable {cs : List Char} {tokens : List Token} {t : Token} {condition : String}

theorem take_of_startsWord_of_isLower {word : List Char}
    (starts : startsWord foldsTo word cs = true)
    (small : (cs.take word.length).all Char.isLower = true) : cs.take word.length = word := by
  induction word generalizing cs with
  | nil => rfl
  | cons k ks ih =>
    cases cs with
    | nil => cases starts
    | cons c rest =>
      rw [startsWord, Bool.and_eq_true] at starts
      rw [length_cons, take_succ_cons, all_cons, Bool.and_eq_true] at small
      rw [length_cons, take_succ_cons, eq_of_foldsTo_of_isLower starts.1 small.1,
        ih starts.2 small.2]

theorem exists_lexeme_of_mem {position : Nat} (cut : tokensFrom position cs = .ok tokens)
    (member : t ∈ tokens) :
    ∃ rest n, lexeme? rest = some (some t.kind, n) ∧ t.text = String.ofList (rest.take n) := by
  fun_induction tokensFrom position cs generalizing tokens with
  | case1 position =>
    cases cut
    exact absurd member not_mem_nil
  | case2 | case3 => cases cut
  | case4 position c rest n later returned found _ ih =>
    cases cut
    exact ih returned member
  | case5 position c rest n later returned k found _ ih =>
    cases cut
    rcases mem_cons.mp member with rfl | member
    · exact ⟨c :: rest, n, found, rfl⟩
    · exact ih returned member

theorem exists_function_of_mem (cut : tokenize condition = .ok tokens) (member : t ∈ tokens)
    (kind : t.kind = .agg ∨ t.kind = .near) : ∃ (f : AggregateFunction) (rest : List Char),
      (t.kind = .near ↔ f = .near) ∧ startsWord foldsTo f.name.toList rest = true ∧
        t.text.toList = rest.take f.name.toList.length := by
  obtain ⟨rest, n, found, text⟩ := exists_lexeme_of_mem cut member
  obtain ⟨r, isRule, found⟩ := exists_of_findSome?_eq_some found
  obtain ⟨m, width, same⟩ := Option.map_eq_some_iff.mp found
  obtain ⟨ruleKind, rfl⟩ := Prod.mk.inj same
  have byName : ∀ f : AggregateFunction, keywordWidth f.name rest = some m →
      startsWord foldsTo f.name.toList rest = true ∧
        t.text.toList = rest.take f.name.toList.length := by
    intro f width
    rw [text, String.toList_ofList, ← wordWidth_eq_some width]
    exact ⟨startsWord_of_wordWidth width, rfl⟩
  rcases kind with kind | kind <;> rw [kind] at ruleKind
  · have rule : ∀ r ∈ lexRules, r.kind = some .agg →
        r = ⟨some .agg, keywordsWidth ["count", "min", "max", "avg", "sum"]⟩ := by
      simp [lexRules]
    rw [rule r isRule ruleKind] at width
    obtain ⟨word, isWord, width⟩ := exists_of_findSome?_eq_some width
    have named : ∃ f : AggregateFunction, f ≠ .near ∧ f.name = word := by
      simp only [mem_cons, not_mem_nil, or_false] at isWord
      rcases isWord with rfl | rfl | rfl | rfl | rfl
      · exact ⟨.count, by decide, rfl⟩
      · exact ⟨.min, by decide, rfl⟩
      · exact ⟨.max, by decide, rfl⟩
      · exact ⟨.avg, by decide, rfl⟩
      · exact ⟨.sum, by decide, rfl⟩
    obtain ⟨f, other, rfl⟩ := named
    exact ⟨f, rest, by simp [kind, other], byName f width⟩
  · have rule : ∀ r ∈ lexRules, r.kind = some .near → r = ⟨some .near, keywordWidth "near"⟩ := by
      simp [lexRules]
    rw [rule r isRule ruleKind] at width
    exact ⟨.near, rest, by simp [kind], byName .near width⟩

/-- The token of a function has the function's name as its text exactly if it is in small letters. -/
theorem function_spelling (cut : tokenize condition = .ok tokens) (member : t ∈ tokens)
    (kind : t.kind = .agg ∨ t.kind = .near) :
    (∃ f : AggregateFunction, t.text = f.name ∧ (t.kind = .near ↔ f = .near)) ↔
      t.text.toList.all Char.isLower = true := by
  constructor
  · rintro ⟨f, named, -⟩
    rw [named]
    cases f <;> decide
  · intro small
    obtain ⟨f, rest, same, starts, text⟩ := exists_function_of_mem cut member kind
    rw [text] at small
    exact ⟨f, String.toList_injective (text.trans (take_of_startsWord_of_isLower starts small)), same⟩

/-! ## Names and fields -/

theorem AggregateFunction.ofName?_eq_some_iff {s : String} {f : AggregateFunction} :
    AggregateFunction.ofName? s = some f ↔ s = f.name := by
  constructor
  · intro found
    have named := find?_some found
    exact (beq_iff_eq.mp named).symm
  · rintro rfl
    cases f <;> decide

theorem Config.fieldName_of_unmapped {c : Config} (unmapped : c.fieldMappings = []) (s : String) :
    c.fieldName (.text s) = .ok (.text s) := by
  simp [Config.fieldName, Config.fieldMapping, Value.keyUse, unmapped, lookup, FieldMapping.ofTarget,
    FieldMapping.fieldName]

namespace Aggregation

variable {s : String} {e : Fault} {c : Config} {a : Aggregation} {tokens : List Token}

theorem readFunction_eq_ok_iff {f : AggregateFunction} : readFunction s = .ok f ↔ s = f.name := by
  rw [← AggregateFunction.ofName?_eq_some_iff, readFunction]
  cases AggregateFunction.ofName? s <;> simp

theorem readFunction_name (f : AggregateFunction) : readFunction f.name = .ok f :=
  readFunction_eq_ok_iff.mpr rfl

theorem readFunction_eq_error (failed : readFunction s = .error e) :
    e = .parse (.unknownFunction s) := by
  unfold readFunction at failed
  split at failed
  · cases failed
  · exact (Except.error.inj failed).symm

theorem readField_of_unmapped (unmapped : c.fieldMappings = []) (s : String) :
    readField c s = .ok s := by
  rw [readField, Config.fieldName_of_unmapped unmapped]

theorem run_eq_error (unmapped : c.fieldMappings = []) (failed : run c a tokens = .error e) :
    ∃ cause, e = .parse cause := by
  have function : ∀ (s : String) (f : AggregateFunction → Aggregation) (e : Fault),
      (readFunction s).map f = .error e → ∃ cause, e = .parse cause := by
    intro s f e failed
    cases read : readFunction s with
    | error e' =>
      rw [read] at failed
      cases failed
      exact ⟨_, readFunction_eq_error read⟩
    | ok g =>
      rw [read] at failed
      cases failed
  induction tokens generalizing a with
  | nil =>
    unfold run at failed
    split at failed
    · cases failed
    · exact ⟨_, (Except.error.inj failed).symm⟩
  | cons t rest ih =>
    unfold run at failed
    split at failed
    · exact ⟨_, (Except.error.inj failed).symm⟩
    · split at failed
      · exact ⟨_, (Except.error.inj failed).symm⟩
      · rename_i action next _
        split at failed
        · -- of the actions only the reading of a function's name can fail
          rename_i e' notStored
          obtain rfl := Except.error.inj failed
          cases action with
          | setFunction | startNear => exact function _ _ _ notStored
          | setField | setGroup =>
            rw [act, readField_of_unmapped unmapped] at notStored
            cases notStored
          | _ => cases notStored
        · exact ih failed

/-! ## Moves -/

/-- The moves of the machine with what they store: from a state, by a token, to a state. -/
inductive Reads : AggregationState → Token → (Aggregation → Aggregation) → AggregationState → Prop
  | function (f : AggregateFunction) (p : Nat) : Reads .start ⟨.agg, f.name, p⟩
      (fun a => { a with function := some f, functionText := some f.name }) .function
  | near (f : AggregateFunction) (p : Nat) : Reads .start ⟨.near, f.name, p⟩
      (fun a => { a with near := some {}, function := some f, functionText := some f.name }) .nearTerm
  | opening (w : Word) : Reads .function (w.lexeme .lpar) id .opened
  | noField (w : Word) : Reads .opened (w.lexeme .rpar) id .closed
  | field (w : Word) : Reads .opened (w.lexeme .id)
      (fun a => { a with field := some w.text, fieldText := some w.text }) .field
  | closing (w : Word) : Reads .field (w.lexeme .rpar) id .closed
  | groupWord (w : Word) : Reads .closed (w.lexeme .by)
      (fun a => { a with operator := some w.text, operatorText := some w.text }) .by
  | sign {k : TokenKind} (isSign : k ∈ comparisonKinds) (w : Word) : Reads .closed (w.lexeme k)
      (fun a => { a with operator := some w.text, operatorText := some w.text }) .compared
  | group (w : Word) : Reads .by (w.lexeme .id)
      (fun a => { a with group := some w.text, groupText := some w.text }) .grouped
  | groupSign {k : TokenKind} (isSign : k ∈ comparisonKinds) (w : Word) :
      Reads .grouped (w.lexeme k)
        (fun a => { a with operator := some w.text, operatorText := some w.text }) .compared
  | threshold (w : Word) : Reads .compared (w.lexeme .id)
      (fun a => { a with threshold := some w.text, thresholdText := some w.text }) .done
  | name (w : Word) : Reads .nearTerm (w.lexeme .id)
      (fun a => { a with near := a.near.map (·.add w.text) }) .nearNext
  | and (w : Word) : Reads .nearNext (w.lexeme .and)
      (fun a => { a with near := a.near.map fun t => { t with excluding := false } }) .nearAnd
  | not (w : Word) : Reads .nearAnd (w.lexeme .not)
      (fun a => { a with near := a.near.map fun t => { t with excluding := true } }) .nearTerm
  | andName (w : Word) : Reads .nearAnd (w.lexeme .id)
      (fun a => { a with near := a.near.map (·.add w.text) }) .nearNext

/-- The aggregation in another state. -/
def inState (a : Aggregation) (s : AggregationState) : Aggregation :=
  { a with state := s }

section Runs

variable {c : Config} {a b : Aggregation} {s next : AggregationState} {t : Token} {tokens : List Token}

/-- A token that is read makes a move of the table, and its action stores what it stores. -/
theorem exists_move (read : run c a (t :: tokens) = .ok b) : a.state ≠ .done ∧ ∃ action next a',
    aggregationMove a.state t.kind = some (action, next) ∧ a.act c t.text action = .ok a' ∧
      run c (a'.inState next) tokens = .ok b := by
  rw [run] at read
  by_cases done : a.state = .done
  · simp [done] at read
  rw [if_neg done] at read
  split at read
  · cases read
  · rename_i action next move
    split at read
    · cases read
    · rename_i a' acted
      exact ⟨done, action, next, a', move, acted, read⟩

theorem reads_of_move (unmapped : c.fieldMappings = []) {action : AggregationAction}
    {a' : Aggregation} (move : aggregationMove s t.kind = some (action, next))
    (acted : act c (a.inState s) t.text action = .ok a') :
    ∃ f, Reads s t f next ∧ a'.inState next = (f a).inState next := by
  obtain ⟨k, text, position⟩ := t
  have field := readField_of_unmapped unmapped text
  -- the name of a function is read once for both kinds of aggregations
  have function : ∀ g : AggregateFunction → Aggregation, (readFunction text).map g = .ok a' →
      ∃ f, text = f.name ∧ g f = a' := by
    intro g read
    cases found : readFunction text with
    | error e =>
      rw [found] at read
      cases read
    | ok f =>
      rw [found] at read
      exact ⟨f, readFunction_eq_ok_iff.mp found, Except.ok.inj read⟩
  simp only at move acted
  revert move
  fun_cases aggregationMove s k <;> intro move <;> cases move
  case case1 =>
    obtain ⟨f, rfl, rfl⟩ := function _ acted
    exact ⟨_, .function f position, rfl⟩
  case case2 =>
    obtain ⟨f, rfl, rfl⟩ := function _ acted
    exact ⟨_, .near f position, rfl⟩
  case case3 =>
    cases acted
    exact ⟨_, .opening ⟨text, position⟩, rfl⟩
  case case4 =>
    cases acted
    exact ⟨_, .noField ⟨text, position⟩, rfl⟩
  case case5 =>
    rw [act, field] at acted
    cases acted
    exact ⟨_, .field ⟨text, position⟩, rfl⟩
  case case6 =>
    cases acted
    exact ⟨_, .closing ⟨text, position⟩, rfl⟩
  case case7 =>
    cases acted
    exact ⟨_, .groupWord ⟨text, position⟩, rfl⟩
  case case8 _ isSign =>
    cases acted
    exact ⟨_, .sign (contains_iff_mem.mp isSign) ⟨text, position⟩, rfl⟩
  case case10 =>
    rw [act, field] at acted
    cases acted
    exact ⟨_, .group ⟨text, position⟩, rfl⟩
  case case11 isSign =>
    cases acted
    exact ⟨_, .groupSign (contains_iff_mem.mp isSign) ⟨text, position⟩, rfl⟩
  case case13 =>
    cases acted
    exact ⟨_, .threshold ⟨text, position⟩, rfl⟩
  case case14 =>
    cases acted
    exact ⟨_, .name ⟨text, position⟩, rfl⟩
  case case15 =>
    cases acted
    exact ⟨_, .and ⟨text, position⟩, rfl⟩
  case case16 =>
    cases acted
    exact ⟨_, .not ⟨text, position⟩, rfl⟩
  case case17 =>
    cases acted
    exact ⟨_, .andName ⟨text, position⟩, rfl⟩

theorem move_sign {k : TokenKind} (isSign : k ∈ comparisonKinds) :
    aggregationMove .closed k = some (.setOperator, .compared) ∧
      aggregationMove .grouped k = some (.setOperator, .compared) := by
  revert k
  decide

theorem Reads.run_cons (unmapped : c.fieldMappings = []) {f : Aggregation → Aggregation}
    (move : Reads s t f next) (a : Aggregation) (tokens : List Token) :
    run c (a.inState s) (t :: tokens) = run c ((f a).inState next) tokens := by
  have field := readField_of_unmapped unmapped
  cases move with
  | function g p | near g p =>
    simp [run, inState, aggregationMove, act, readFunction_name, Except.map]
  | field w | group w => simp [run, inState, aggregationMove, act, field, Word.lexeme, Except.map]
  | sign isSign w | groupSign isSign w => simp [run, inState, move_sign isSign, act, Word.lexeme]
  | _ => rfl

theorem exists_reads (unmapped : c.fieldMappings = []) (more : s.isFinal = false)
    (read : run c (a.inState s) tokens = .ok b) : ∃ t rest f next, tokens = t :: rest ∧
      Reads s t f next ∧ run c ((f a).inState next) rest = .ok b := by
  cases tokens with
  | nil =>
    rw [run, inState, more] at read
    cases read
  | cons t rest =>
    obtain ⟨-, action, next, a', move, acted, later⟩ := exists_move read
    obtain ⟨f, reads, same⟩ := reads_of_move unmapped move acted
    exact ⟨t, rest, f, next, rfl, reads, same ▸ later⟩

variable (unmapped : c.fieldMappings = [])
include unmapped

/-! ## Comparisons -/

/-- Behind the closing bracket the machine reads a grouping, if there is one, and the comparison. The
word for a grouping is stored like an operator first, and the operator takes its place. -/
theorem run_closed (group : Option Grouping) (threshold : Threshold) (ungrouped : a.group = none)
    (ungroupedText : a.groupText = none) :
    run c (a.inState .closed) (group.toList.flatMap Grouping.tokens ++ threshold.tokens) =
      .ok { a with
        state := .done
        group := group.map (·.field.text)
        groupText := group.map (·.field.text)
        operator := some threshold.operator.text
        operatorText := some threshold.operator.text
        threshold := some threshold.value.text
        thresholdText := some threshold.value.text } := by
  cases group with
  | none =>
    show run c _ [threshold.operator.lexeme threshold.sign, threshold.value.lexeme .id] = _
    rw [(Reads.sign threshold.isSign _).run_cons unmapped, (Reads.threshold _).run_cons unmapped]
    simp only [inState, ungrouped, ungroupedText]
    rfl
  | some g =>
    show run c _ [g.sign.lexeme .by, g.field.lexeme .id,
      threshold.operator.lexeme threshold.sign, threshold.value.lexeme .id] = _
    rw [(Reads.groupWord _).run_cons unmapped, (Reads.group _).run_cons unmapped,
      (Reads.groupSign threshold.isSign _).run_cons unmapped, (Reads.threshold _).run_cons unmapped]
    rfl

theorem exists_value (read : run c (a.inState .compared) tokens = .ok b) :
    ∃ w : Word, tokens = [w.lexeme .id] := by
  obtain ⟨_, rest, f, next, rfl, move, later⟩ := exists_reads unmapped rfl read
  cases move with
  | threshold w =>
    cases rest with
    | nil => exact ⟨w, rfl⟩
    | cons t rest => exact absurd rfl (exists_move later).1

/-- All that the machine reads behind the closing bracket are a grouping and a comparison. -/
theorem exists_comparison (read : run c (a.inState .closed) tokens = .ok b) :
    ∃ (group : Option Grouping) (threshold : Threshold),
      tokens = group.toList.flatMap Grouping.tokens ++ threshold.tokens := by
  obtain ⟨_, rest, f, next, rfl, move, later⟩ := exists_reads unmapped rfl read
  cases move with
  | @sign k isSign operator =>
    obtain ⟨value, rfl⟩ := exists_value unmapped later
    exact ⟨none, ⟨k, isSign, operator, value⟩, rfl⟩
  | groupWord sign =>
    obtain ⟨_, rest, f, next, rfl, move, later⟩ := exists_reads unmapped rfl later
    cases move with
    | group field =>
      obtain ⟨_, rest, f, next, rfl, move, later⟩ := exists_reads unmapped rfl later
      cases move with
      | @groupSign k isSign operator =>
        obtain ⟨value, rfl⟩ := exists_value unmapped later
        exact ⟨some ⟨sign, field⟩, ⟨k, isSign, operator, value⟩, rfl⟩

/-! ## Searches that are near -/

theorem run_others (others : List NearTerm) {terms : NearTerms} (near : a.near = some terms) :
    run c (a.inState .nearNext) (others.flatMap NearTerm.tokens) =
      .ok (inState { a with near := some (others.foldl NearTerms.addTerm terms) } .nearNext) := by
  induction others generalizing a terms with
  | nil =>
    rw [foldl_nil, ← near]
    rfl
  | cons t rest ih =>
    rcases t with ⟨conjunction, _ | negation, name⟩
    · show run c _ (conjunction.lexeme .and :: name.lexeme .id :: rest.flatMap NearTerm.tokens) = _
      rw [(Reads.and conjunction).run_cons unmapped, (Reads.andName name).run_cons unmapped]
      exact ih (by simp only [near, Option.map_some]; rfl)
    · show run c _ (conjunction.lexeme .and :: negation.lexeme .not :: name.lexeme .id ::
        rest.flatMap NearTerm.tokens) = _
      rw [(Reads.and conjunction).run_cons unmapped, (Reads.not negation).run_cons unmapped,
        (Reads.name name).run_cons unmapped]
      exact ih (by simp only [near, Option.map_some]; rfl)

theorem exists_others (read : run c (a.inState .nearNext) tokens = .ok b) :
    ∃ others : List NearTerm, tokens = others.flatMap NearTerm.tokens := by
  -- each further search takes up tokens, so the induction is on their number
  induction len : tokens.length using Nat.strongRecOn generalizing a tokens with
  | ind n ih =>
    have further : ∀ (t : NearTerm) (rest : List Token) (a : Aggregation), rest.length < n →
        run c (a.inState .nearNext) rest = .ok b → ∃ others : List NearTerm,
          t.tokens ++ rest = others.flatMap NearTerm.tokens := by
      intro t rest a shorter later
      obtain ⟨others, rfl⟩ := ih _ shorter later rfl
      exact ⟨t :: others, rfl⟩
    cases tokens with
    | nil => exact ⟨[], rfl⟩
    | cons t rest =>
      rw [length_cons] at len
      obtain ⟨-, action, next, a', move, acted, later⟩ := exists_move read
      obtain ⟨f, reads, same⟩ := reads_of_move unmapped move acted
      rw [same] at later
      cases reads with
      | and conjunction =>
        obtain ⟨_, rest, f, next, rfl, reads, later⟩ := exists_reads unmapped rfl later
        rw [length_cons] at len
        cases reads with
        | andName name => exact further ⟨conjunction, none, name⟩ rest _ (by omega) later
        | not negation =>
          obtain ⟨_, rest, f, next, rfl, reads, later⟩ := exists_reads unmapped rfl later
          rw [length_cons] at len
          cases reads with
          | name name => exact further ⟨conjunction, some negation, name⟩ rest _ (by omega) later

end Runs

/-! ## The whole language -/

theorem ofTokens_tokens (unmapped : c.fieldMappings = []) (e : AggregationExpr) :
    ofTokens c e.tokens = .ok e.result := by
  cases e with
  | comparison f p opening field closing group threshold =>
    show run c (inState {} .start) (_ :: opening.lexeme .lpar :: _) = _
    rw [(Reads.function f p).run_cons unmapped, (Reads.opening opening).run_cons unmapped]
    cases field with
    | none =>
      show run c _ (closing.lexeme .rpar :: _) = _
      rw [(Reads.noField closing).run_cons unmapped]
      exact run_closed unmapped group threshold rfl rfl
    | some w =>
      show run c _ (w.lexeme .id :: closing.lexeme .rpar :: _) = _
      rw [(Reads.field w).run_cons unmapped, (Reads.closing closing).run_cons unmapped]
      exact run_closed unmapped group threshold rfl rfl
  | near f p first others =>
    show run c (inState {} .start) (_ :: first.lexeme .id :: _) = _
    rw [(Reads.near f p).run_cons unmapped, (Reads.name first).run_cons unmapped,
      run_others unmapped others rfl, NearTerms.foldl_addTerm]
    simp [AggregationExpr.result, inState, NearTerms.add]
    cases others.getLast? <;> rfl

theorem exists_expr (unmapped : c.fieldMappings = []) (read : ofTokens c tokens = .ok a) :
    ∃ e : AggregationExpr, tokens = e.tokens := by
  have start : run c (inState {} .start) tokens = .ok a := read
  obtain ⟨_, rest, f, next, rfl, move, later⟩ := exists_reads unmapped rfl start
  cases move with
  | function f p =>
    obtain ⟨_, rest, _, next, rfl, move, later⟩ := exists_reads unmapped rfl later
    cases move with
    | opening opening =>
      obtain ⟨_, rest, _, next, rfl, move, later⟩ := exists_reads unmapped rfl later
      cases move with
      | noField closing =>
        obtain ⟨group, threshold, rfl⟩ := exists_comparison unmapped later
        exact ⟨.comparison f p opening none closing group threshold, rfl⟩
      | field w =>
        obtain ⟨_, rest, _, next, rfl, move, later⟩ := exists_reads unmapped rfl later
        cases move with
        | closing closing =>
          obtain ⟨group, threshold, rfl⟩ := exists_comparison unmapped later
          exact ⟨.comparison f p opening (some w) closing group threshold, rfl⟩
  | near f p =>
    obtain ⟨_, rest, _, next, rfl, move, later⟩ := exists_reads unmapped rfl later
    cases move with
    | name first =>
      obtain ⟨others, rfl⟩ := exists_others unmapped later
      exact ⟨.near f p first others, rfl⟩

/-- **The language of aggregations**: without field mappings the tokens that are read are exactly those
of an aggregation as it is written, and what is stored is the aggregation that is meant. All other lists
of tokens are refused with a parse fault. A token of a condition that is to name a function does so
exactly if it is in small letters; the keywords themselves are found in any case. -/
theorem ofTokens_iff {c : Config} (unmapped : c.fieldMappings = []) :
    (∀ tokens a, ofTokens c tokens = .ok a ↔
      ∃ e : AggregationExpr, tokens = e.tokens ∧ a = e.result) ∧
    (∀ tokens, (¬ ∃ e : AggregationExpr, tokens = e.tokens) →
      ∃ cause, ofTokens c tokens = .error (.parse cause)) ∧
    ∀ condition all, tokenize condition = .ok all → ∀ t ∈ all, t.kind = .agg ∨ t.kind = .near →
      ((∃ f : AggregateFunction, t.text = f.name ∧ (t.kind = .near ↔ f = .near)) ↔
        t.text.toList.all Char.isLower = true) := by
  refine ⟨?_, ?_, ?_⟩
  · intro tokens a
    constructor
    · intro read
      obtain ⟨e, rfl⟩ := exists_expr unmapped read
      rw [ofTokens_tokens unmapped] at read
      exact ⟨e, rfl, (Except.ok.inj read).symm⟩
    · rintro ⟨e, rfl, rfl⟩
      exact ofTokens_tokens unmapped e
  · intro tokens outside
    cases outcome : ofTokens c tokens with
    | ok a => exact absurd (exists_expr unmapped outcome) outside
    | error e =>
      obtain ⟨cause, rfl⟩ := run_eq_error unmapped outcome
      exact ⟨cause, rfl⟩
  · intro condition all cut t member kind
    exact function_spelling cut member kind

/-- Two searches, of which one is not to be near, and one more. -/
theorem ofTokens_iff_near : (Config.empty.fieldMappings = []) ∧
    ∃ a, ofTokens Config.empty
      [⟨.near, "near", 1⟩, ⟨.id, "a", 6⟩, ⟨.and, "and", 8⟩, ⟨.not, "not", 12⟩, ⟨.id, "b", 16⟩,
        ⟨.and, "and", 18⟩, ⟨.id, "c", 22⟩] = .ok a ∧
      a.near.map (·.included) = some ["a", "c"] ∧ a.near.map (·.excluded) = some ["b"] := by
  refine ⟨rfl, _, ((ofTokens_iff rfl).1 _ _).mpr ⟨.near .near 1 ⟨"a", 6⟩
    [⟨⟨"and", 8⟩, some ⟨"not", 12⟩, ⟨"b", 16⟩⟩, ⟨⟨"and", 18⟩, none, ⟨"c", 22⟩⟩], rfl, rfl⟩, rfl, rfl⟩

end Aggregation

end SigmaQuery
