import SigmaQuery.Proofs.Identifiers

/-!
# Operators over several definitions

`1 of` and `all of` join the conditions of several definitions of a rule: of all of them, or of those
whose name fits a pattern. The selections of a rule are its definitions. The time frame stands among them
but is a setting, and it is taken for a definition all the same. A pattern that begins with a star is read
as the name of one definition.
-/

namespace SigmaQuery

open FaultM List

/-! ## Patterns -/

/-- The name fits the pattern: a star stands for any characters, any other character for itself. -/
def fitsPattern : List Char → List Char → Bool
  | [], name => name.isEmpty
  | p :: pattern, name =>
    if p = '*' then name.tails.any (fitsPattern pattern)
    else match name with
      | [] => false
      | c :: name => p == c && fitsPattern pattern name

theorem fitsPattern_star_nil (pattern : List Char) :
    fitsPattern ('*' :: pattern) [] = fitsPattern pattern [] :=
  Bool.or_false _

theorem fitsPattern_star_cons (pattern : List Char) (c : Char) (name : List Char) :
    fitsPattern ('*' :: pattern) (c :: name) =
      (fitsPattern pattern (c :: name) || fitsPattern ('*' :: pattern) name) := rfl

variable {p : Char} {line name pattern : List Char}

theorem fitsPattern_char_cons (plain : p ≠ '*') (pattern : List Char) (c : Char) (name : List Char) :
    fitsPattern (p :: pattern) (c :: name) = (p == c && fitsPattern pattern name) :=
  if_neg plain

theorem fitsPattern_char_nil (plain : p ≠ '*') (pattern : List Char) :
    fitsPattern (p :: pattern) [] = false :=
  if_neg plain

/-- The name is on one line, which may end in a line break. -/
def IsLine (name line : List Char) : Prop :=
  '\n' ∉ line ∧ (name = line ∨ name = line ++ ['\n'])

theorem isLine_nil : IsLine [] line ↔ line = [] := by
  constructor
  · rintro ⟨-, same | same⟩
    · exact same.symm
    · simp at same
  · rintro rfl
    exact ⟨by simp, .inl rfl⟩

theorem isLine_break : IsLine ('\n' :: name) line ↔ name = [] ∧ line = [] := by
  constructor
  · rintro ⟨oneLine, same | same⟩
    · simp [← same] at oneLine
    · cases line with
      | nil => exact ⟨(List.cons.inj same).2, rfl⟩
      | cons x xs => exact absurd ((List.cons.inj same).1 ▸ mem_cons_self) oneLine
  · rintro ⟨rfl, rfl⟩
    exact ⟨by simp, .inr rfl⟩

theorem isLine_cons {c : Char} (other : c ≠ '\n') :
    IsLine (c :: name) line ↔ ∃ rest, line = c :: rest ∧ IsLine name rest := by
  constructor
  · rintro ⟨oneLine, same⟩
    cases line with
    | nil => simp [other] at same
    | cons x xs =>
      rw [cons_append, List.cons.injEq, List.cons.injEq, ← and_or_left] at same
      obtain ⟨rfl, same⟩ := same
      exact ⟨xs, rfl, fun member => oneLine (mem_cons_of_mem _ member), same⟩
  · rintro ⟨rest, rfl, oneLine, same⟩
    refine ⟨by simp [oneLine, Ne.symm other], ?_⟩
    rwa [cons_append, List.cons.injEq, List.cons.injEq, ← and_or_left, and_iff_right rfl]

theorem nameMatches_iff (oneLine : '\n' ∉ pattern) (name : List Char) :
    nameMatches pattern name = true ↔ ∃ line, IsLine name line ∧ fitsPattern pattern line = true := by
  fun_induction nameMatches pattern name with
  | case1 name =>
    simp only [fitsPattern, List.isEmpty_iff, Bool.or_eq_true, beq_iff_eq]
    constructor
    · rintro (rfl | rfl)
      · exact ⟨[], isLine_nil.mpr rfl, rfl⟩
      · exact ⟨[], isLine_break.mpr ⟨rfl, rfl⟩, rfl⟩
    · rintro ⟨_, ⟨-, same⟩, rfl⟩
      exact same
  | case2 pattern ih =>
    rw [ih (by simp_all)]
    simp [isLine_nil, fitsPattern_star_nil]
  | case3 pattern c name ih ih' =>
    rw [Bool.or_eq_true, Bool.and_eq_true, ih (by simp_all), ih' oneLine]
    by_cases isBreak : c = '\n'
    · subst isBreak
      simp [isLine_break, fitsPattern_star_nil]
    · constructor
      · rintro (⟨line, isLine, fits⟩ | ⟨-, rest, isLine, fits⟩)
        · obtain ⟨rest, rfl, isRest⟩ := (isLine_cons isBreak).mp isLine
          exact ⟨_, isLine, by rw [fitsPattern_star_cons, fits, Bool.true_or]⟩
        · exact ⟨c :: rest, (isLine_cons isBreak).mpr ⟨rest, rfl, isLine⟩,
            by rw [fitsPattern_star_cons, fits, Bool.or_true]⟩
      · rintro ⟨line, isLine, fits⟩
        obtain ⟨rest, rfl, isRest⟩ := (isLine_cons isBreak).mp isLine
        rw [fitsPattern_star_cons, Bool.or_eq_true] at fits
        rcases fits with here | later
        · exact .inl ⟨_, isLine, here⟩
        · exact .inr ⟨bne_iff_ne.mpr isBreak, rest, isRest, later⟩
  | case4 p pattern plain =>
    simp [isLine_nil, fitsPattern_char_nil plain]
  | case5 p pattern c name plain ih =>
    rw [mem_cons, not_or] at oneLine
    rw [Bool.and_eq_true, ih oneLine.2, beq_iff_eq]
    constructor
    · rintro ⟨rfl, rest, isLine, fits⟩
      refine ⟨p :: rest, (isLine_cons (Ne.symm oneLine.1)).mpr ⟨rest, rfl, isLine⟩, ?_⟩
      rw [fitsPattern_char_cons plain, fits, beq_self_eq_true, Bool.true_and]
    · rintro ⟨line, isLine, fits⟩
      by_cases isBreak : c = '\n'
      · -- a line break stands for no character of the pattern
        subst isBreak
        obtain ⟨-, rfl⟩ := isLine_break.mp isLine
        rw [fitsPattern_char_nil plain] at fits
        cases fits
      · obtain ⟨rest, rfl, isRest⟩ := (isLine_cons isBreak).mp isLine
        rw [fitsPattern_char_cons plain, Bool.and_eq_true, beq_iff_eq] at fits
        exact ⟨fits.1, rest, isRest, fits.2⟩

/-- The name without a line break at its end. -/
def withoutBreak (name : List Char) : List Char :=
  if name.getLast? = some '\n' then name.dropLast else name

theorem isLine_iff : IsLine name line ↔ line = withoutBreak name ∧ '\n' ∉ line := by
  constructor
  · rintro ⟨oneLine, rfl | rfl⟩
    · have last : name.getLast? ≠ some '\n' := fun is => oneLine (mem_of_getLast? is)
      exact ⟨(if_neg last).symm, oneLine⟩
    · refine ⟨?_, oneLine⟩
      rw [withoutBreak, if_pos (getLast?_concat), dropLast_concat]
  · rintro ⟨rfl, oneLine⟩
    refine ⟨oneLine, ?_⟩
    by_cases last : name.getLast? = some '\n'
    · right
      rw [withoutBreak, if_pos last]
      exact (dropLast_append_getLast? '\n' last).symm
    · left
      rw [withoutBreak, if_neg last]

/-- The name, which may end in a line break, is on one line and fits the pattern. -/
def fitsOnLine (pattern name : List Char) : Bool :=
  !(withoutBreak name).contains '\n' && fitsPattern pattern (withoutBreak name)

theorem nameMatches_eq (oneLine : '\n' ∉ pattern) (name : List Char) :
    nameMatches pattern name = fitsOnLine pattern name := by
  rw [Bool.eq_iff_iff, nameMatches_iff oneLine, fitsOnLine]
  simp only [isLine_iff, Bool.and_eq_true, Bool.not_eq_true', contains_eq_mem, decide_eq_false_iff_not]
  constructor
  · rintro ⟨_, ⟨rfl, whole⟩, fits⟩
    exact ⟨whole, fits⟩
  · rintro ⟨whole, fits⟩
    exact ⟨_, ⟨rfl, whole⟩, fits⟩

theorem fitsOnLine_of_oneLine (oneLine : '\n' ∉ name) (pattern : List Char) :
    fitsOnLine pattern name = fitsPattern pattern name := by
  obtain ⟨same, -⟩ := isLine_iff.mp ⟨oneLine, .inl rfl⟩
  rw [fitsOnLine, ← same]
  simp [oneLine]

/-! ## Definitions by their names -/

/-- The operator that joins the conditions of several definitions, and the kind of its token. -/
def Junction.operator : Junction → String × TokenKind
  | .conj => ("all of", .all)
  | .disj => ("1 of", .one)

namespace Detection

/-- The entry is a definition of the rule, neither its condition nor its time frame. -/
def isSelection (k : Key) : Bool :=
  decide (k ≠ .text "condition") && decide (k ≠ .text "timeframe")

/-- The selections that an operand stands for: all of them, or those whose name fits a pattern. -/
def selected (entries : Entries) (operand : String) : Entries :=
  entries.filter fun e => isSelection e.1 &&
    (operand == "them" || fitsPattern operand.toList e.1.name.toList)

/-- The definitions that an operand takes: the time frame is one of them. -/
def taken (entries : Entries) (operand : String) : Entries :=
  (remove (.text "condition") entries).filter fun e =>
    operand == "them" || fitsOnLine operand.toList e.1.name.toList

/-- The condition of a definition, in brackets. -/
def bracketed (values : FieldValues) (e : Key × Value) : ConfigM Cond := do
  return .group (← parseDefinition values .disj e.2)

theorem parseEach_eq_mapM (d : Detection) (entries : Entries) :
    d.parseEach (entries.map (·.2)) = entries.mapM (bracketed d.values) := by
  induction entries with
  | nil => rfl
  | cons e rest ih =>
    rw [map_cons, parseEach, mapM_cons, ih, bracketed]
    simp only [bind_assoc, pure_bind]

variable {entries : Entries} {e : Key × Value} {x : String}

theorem parseMatching_eq_mapM (d : Detection) {pattern : String} (oneLine : '\n' ∉ pattern.toList)
    (texts : ∀ e ∈ entries, e.1.isNumber = false) : d.parseMatching pattern entries =
      (entries.filter fun e => fitsOnLine pattern.toList e.1.name.toList).mapM (bracketed d.values) := by
  fun_induction parseMatching d pattern entries with
  | case1 => rfl
  | case2 n v rest => cases texts (.num n, v) mem_cons_self
  | case3 name v rest fits ih =>
    have kept : fitsOnLine pattern.toList (Key.text name).name.toList = true := by
      rwa [nameMatches_eq oneLine] at fits
    rw [ih fun e member => texts e (mem_cons_of_mem _ member), filter_cons, if_pos kept,
      mapM_cons, bracketed]
    simp only [bind_assoc, pure_bind]
  | case4 name v rest unfit ih =>
    have left : ¬ fitsOnLine pattern.toList (Key.text name).name.toList = true := by
      rwa [nameMatches_eq oneLine] at unfit
    rw [ih fun e member => texts e (mem_cons_of_mem _ member), filter_cons, if_neg left]

theorem parseMatching_number (d : Detection) (pattern : String) (member : e ∈ entries)
    (number : e.1.isNumber = true) (c : Config) :
    ¬ (d.parseMatching pattern entries).Returns c := by
  fun_induction parseMatching d pattern entries generalizing c with
  | case1 => cases member
  | case2 n v rest =>
    rintro ⟨nodes, c', run⟩
    cases run
  | case3 name v rest fits ih =>
    have later : e ∈ rest := by
      rcases mem_cons.mp member with rfl | later
      · cases number
      · exact later
    rintro ⟨nodes, c', run⟩
    obtain ⟨_, s, -, run⟩ := start_bind_eq_ok.mp run
    obtain ⟨_, _, run, -⟩ := start_bind_eq_ok.mp run
    exact ih later s ⟨_, _, run⟩
  | case4 name v rest unfit ih =>
    rcases mem_cons.mp member with rfl | later
    · cases number
    · exact ih later c

/-! ## Operands -/

theorem isPattern_iff : isPattern x = true ↔ x.toList.head? ≠ some '*' ∧ '*' ∈ x.toList := by
  rw [isPattern]
  cases x.toList with
  | nil => simp
  | cons c cs =>
    by_cases star : c = '*'
    · simp [star]
    · simp [star, Ne.symm star]

theorem ne_them_of_head (star : x.toList.head? = some '*') : x ≠ "them" := by
  rintro rfl
  cases star

/-- What an operand that does not begin with a star takes, one definition after the other. -/
theorem parseSeveral_eq_mapM (oneLine : '\n' ∉ x.toList) (several : x = "them" ∨ '*' ∈ x.toList)
    (start : x.toList.head? ≠ some '*') (names : x = "them" ∨ ∀ e ∈ entries, e.1.isNumber = false)
    (j : Junction) (w : Word) (is : w.text = x) :
    (ofEntries entries).parseSeveral j (w.token .id) = do
      return .group (j.build none
        (← (taken entries x).mapM (bracketed (ofEntries entries).values))) := by
  subst is
  rw [parseSeveral, Word.token, Cond.tokenText, ofExcept_ok, pure_bind]
  by_cases them : w.text = "them"
  · have all : taken entries w.text = (ofEntries entries).definitions := by
      rw [taken, them]
      simp [ofEntries]
    rw [if_pos them, all, parseEach_eq_mapM]
  · have pattern := isPattern_iff.mpr ⟨start, several.resolve_left them⟩
    have texts : ∀ e ∈ (ofEntries entries).definitions, e.1.isNumber = false := fun e member =>
      names.resolve_left them e (mem_of_mem_filter member)
    have found : taken entries w.text = (ofEntries entries).definitions.filter fun e =>
        fitsOnLine w.text.toList e.1.name.toList := by
      have other : (w.text == "them") = false := beq_eq_false_iff_ne.mpr them
      simp only [taken, ofEntries, other, Bool.false_or]
    rw [if_neg them, if_pos pattern, found, parseMatching_eq_mapM _ oneLine texts]

theorem reduceOperators_several (d : Detection) (j : Junction) (sign name : Word) :
    reduceOperators d [sign.token j.operator.2, name.token .id] = do
      return [← d.parseSeveral j (name.token .id)] := by
  -- the other operators find a node in brackets and leave it as it is
  cases j with
  | conj =>
    rw [reduceOperators, Junction.operator, reduceBefore_token, parseSeveral_eq_group]
    simp only [bind_assoc, pure_bind]
    rfl
  | disj =>
    rw [reduceOperators, Junction.operator, leaves_reduceBefore_token rfl, leaves_reduceBefore_token rfl]
    have none : reduceBefore .all (d.parseSeveral .conj) [] = pure [] := by
      rw [reduceBefore]
    simp only [none, pure_bind]
    rw [reduceBefore_token, parseSeveral_eq_group]
    simp only [bind_assoc, pure_bind]
    rfl

/-! ## The selections of an operand -/

/-- The operand takes the selections that it stands for: it does not begin with a star, there is no time
frame that it takes for a selection, and a pattern finds names of one line only. -/
structure Served (entries : Entries) (x : String) : Prop where
  start : x.toList.head? ≠ some '*'
  timeless : x = "them" ∨ fitsPattern x.toList "timeframe".toList = true →
    ∀ e ∈ entries, e.1 ≠ .text "timeframe"
  names : x = "them" ∨ ∀ e ∈ entries, e.1.isNumber = false ∧ '\n' ∉ e.1.name.toList

theorem Served.taken_eq (served : Served entries x) : taken entries x = selected entries x := by
  rw [taken, remove, filter_filter, selected]
  refine filter_congr ?_
  intro e member
  have same : (x == "them" || fitsOnLine x.toList e.1.name.toList) =
      (x == "them" || fitsPattern x.toList e.1.name.toList) := by
    rcases served.names with rfl | names
    · rfl
    · rw [fitsOnLine_of_oneLine (names e member).2]
  rw [same, isSelection]
  by_cases timed : e.1 = .text "timeframe"
  · have unasked : (x == "them" || fitsPattern x.toList e.1.name.toList) = false := by
      by_contra asked
      rw [Bool.not_eq_false, Bool.or_eq_true, beq_iff_eq, timed] at asked
      exact served.timeless asked e member timed
    rw [unasked, Bool.false_and, Bool.and_false]
  · rw [decide_eq_true timed, Bool.and_true, Bool.and_comm]

theorem steady_bracketed (values : FieldValues) (e : Key × Value) :
    Steady Config.spent (bracketed values e) :=
  (steady_parseDefinition values .disj e.2).map Cond.group

theorem mapM_fails {σ τ α β : Type} {view : σ → τ} {f : α → FaultM σ β} (steady : ∀ a, Steady view (f a))
    (fault : α → Fault) {items : List α} {s : σ}
    (each : ∀ a ∈ items, (f a).Returns s ∨ ∀ t, (f a).start t = (.error (fault a), t))
    (failing : ∃ a ∈ items, ¬ (f a).Returns s) :
    ∃ a ∈ items, ¬ (f a).Returns s ∧ ((items.mapM f).start s).1 = .error (fault a) := by
  induction items generalizing s with
  | nil => simp at failing
  | cons a rest ih =>
    rw [forall_mem_cons] at each
    rw [mapM_cons]
    by_cases returns : (f a).Returns s
    · obtain ⟨b, t, run⟩ := returns
      have kept : view t = view s := by
        have := (steady a).keeps s
        rwa [run] at this
      have moved : ∀ x, (f x).Returns s ↔ (f x).Returns t := fun x =>
        ⟨(steady x).returns s t kept.symm, (steady x).returns t s kept⟩
      simp only [moved] at each failing ⊢
      obtain ⟨x, member, fails⟩ := failing
      have later : x ∈ rest := by
        rcases mem_cons.mp member with rfl | later
        · exact absurd ((moved x).mp ⟨b, t, run⟩) fails
        · exact later
      obtain ⟨y, known, stops, result⟩ := ih each.2 ⟨x, later, fails⟩
      refine ⟨y, mem_cons_of_mem _ known, stops, ?_⟩
      rcases run' : (rest.mapM f).start t with ⟨e | bs, u⟩
      · rw [run'] at result
        rw [start_bind_of_ok run, start_bind_of_error run', result]
      · rw [run'] at result
        cases result
    · refine ⟨a, mem_cons_self, returns, ?_⟩
      rw [start_bind_of_error (each.1.resolve_left returns s)]

theorem start_bracketed_scalar (values : FieldValues) (scalar : e.2.hashable = true) (c : Config) :
    (bracketed values e).start c = (.error (.parse (.notADefinition e.2)), c) := by
  have thrown : parseDefinition values .disj e.2 = throw (.parse (.notADefinition e.2)) := by
    cases value : e.2 <;> simp_all [parseDefinition, Value.hashable]
  rw [bracketed, thrown]
  rfl

theorem tokenize_several (j : Junction) (word : IsWord x.toList) (name : IsName x.toList) :
    tokenize (j.operator.1 ++ " " ++ x) =
      .ok [⟨j.operator.2, j.operator.1, 1⟩, ⟨.id, x, j.operator.1.length + 2⟩] := by
  have whole : ∀ p, tokensFrom p x.toList = .ok [⟨.id, x, p⟩] := by
    intro p
    have cut : WordCut p x.toList [⟨.id, String.ofList x.toList, p⟩] := .name word name
    rw [cut.tokensFrom_eq word, String.ofList_toList]
  have blank : ∀ p, tokensFrom p (' ' :: x.toList) = .ok [⟨.id, x, p + 1⟩] := fun p =>
    tokensFrom_of_lexeme (k := none) (n := 1) (lexeme?_blank_word word) (whole (p + 1))
  rw [tokenize, String.toList_append, String.toList_append, append_assoc]
  cases j with
  | conj => exact tokensFrom_of_lexeme (k := some .all) (n := 6) rfl (blank 7)
  | disj => exact tokensFrom_of_lexeme (k := some .one) (n := 4) rfl (blank 5)

/-- What an operator over several definitions of a rule and its operand are reduced to. -/
def quantified (entries : Entries) (j : Junction) (sign name : Word) : ConfigM (List Cond) :=
  reduceOperators (ofEntries entries) [sign.token j.operator.2, name.token .id]

section Quantified

variable {entries : Entries} {c : Config} {sign name : Word} {j : Junction}

theorem oneLine_of_isWord {cs : List Char} (word : IsWord cs) : '\n' ∉ cs := by
  intro member
  exact absurd (word.chars '\n' member) (by decide)

/-- An operand that does not begin with a star takes definitions by their names. -/
theorem quantified_eq_mapM (word : IsWord name.text.toList)
    (several : name.text = "them" ∨ '*' ∈ name.text.toList) (start : name.text.toList.head? ≠ some '*')
    (names : name.text = "them" ∨ ∀ e ∈ entries, e.1.isNumber = false) :
    quantified entries j sign name = do
      return [.group (j.build none
        (← (taken entries name.text).mapM (bracketed (ofEntries entries).values)))] := by
  rw [quantified, reduceOperators_several,
    parseSeveral_eq_mapM (oneLine_of_isWord word) several start names j name rfl]
  simp only [bind_assoc, pure_bind]

theorem returns_bracketed {e : Key × Value} {values : FieldValues}
    (parse : (parseDefinition values .disj e.2).Returns c) : (bracketed values e).Returns c :=
  parse.map Cond.group

theorem start_quantified_of_served (word : IsWord name.text.toList)
    (several : name.text = "them" ∨ '*' ∈ name.text.toList) (served : Served entries name.text)
    (parse : ∀ e ∈ entries, isSelection e.1 = true →
      (parseDefinition (ofEntries entries).values .disj e.2).Returns c) :
    ∃ nodes c', ((selected entries name.text).mapM (bracketed (ofEntries entries).values)).start c =
        (.ok nodes, c') ∧
      (quantified entries j sign name).start c = (.ok [.group (j.build none nodes)], c') := by
  have each : ∀ e ∈ selected entries name.text, (bracketed (ofEntries entries).values e).Returns c := by
    intro e member
    rw [selected, mem_filter, Bool.and_eq_true] at member
    exact returns_bracketed (parse e member.1 member.2.1)
  obtain ⟨nodes, c', run⟩ := returns_mapM (steady_bracketed _) each
  have names := served.names.imp_right fun names e member => (names e member).1
  refine ⟨nodes, c', run, ?_⟩
  rw [quantified_eq_mapM word several served.start names, served.taken_eq, start_map, run]
  rfl

theorem start_quantified_of_star (star : name.text.toList.head? = some '*')
    (absent : ∀ e ∈ entries, e.1 ≠ .text name.text) :
    (quantified entries j sign name).start c = (.error (.parse (.unknownDefinition name.text)), c) := by
  have noPattern : ¬ isPattern name.text = true := fun is => (isPattern_iff.mp is).1 star
  have unknown : lookup (.text name.text) (ofEntries entries).definitions = none := by
    cases found : lookup (.text name.text) (ofEntries entries).definitions with
    | none => rfl
    | some v => exact absurd rfl (absent _ (mem_of_mem_filter (mem_of_lookup found)))
  have fails : (ofEntries entries).parseSeveral j (name.token .id) =
      throw (.parse (.unknownDefinition name.text)) := by
    rw [parseSeveral, Word.token, Cond.tokenText, ofExcept_ok, pure_bind, if_neg (ne_them_of_head star),
      if_neg noPattern, parseNamed, unknown]
    rfl
  rw [quantified, reduceOperators_several, fails]
  rfl

theorem start_quantified_of_timeframe (word : IsWord name.text.toList)
    (several : name.text = "them" ∨ '*' ∈ name.text.toList) (start : name.text.toList.head? ≠ some '*')
    (names : name.text = "them" ∨ ∀ e ∈ entries, e.1.isNumber = false)
    (parse : ∀ e ∈ entries, isSelection e.1 = true →
      (parseDefinition (ofEntries entries).values .disj e.2).Returns c)
    (timed : ∃ e ∈ taken entries name.text, e.1 = .text "timeframe")
    (scalar : ∀ e ∈ entries, e.1 = .text "timeframe" → e.2.hashable = true) :
    ∃ v, (.text "timeframe", v) ∈ entries ∧
      ((quantified entries j sign name).start c).1 = .error (.parse (.notADefinition v)) := by
  have fails : ∀ e ∈ entries, e.1 = .text "timeframe" → ∀ t,
      (bracketed (ofEntries entries).values e).start t = (.error (.parse (.notADefinition e.2)), t) :=
    fun e member timed => start_bracketed_scalar _ (scalar e member timed)
  have inside : ∀ e ∈ taken entries name.text, e ∈ entries ∧ e.1 ≠ .text "condition" := by
    intro e member
    have kept := mem_filter.mp (mem_of_mem_filter member)
    exact ⟨kept.1, of_decide_eq_true kept.2⟩
  have stops : ∀ e ∈ entries, e.1 = .text "timeframe" →
      ¬ (bracketed (ofEntries entries).values e).Returns c := by
    rintro e member timed ⟨node, c', run⟩
    rw [fails e member timed] at run
    cases run
  have returns : ∀ e ∈ taken entries name.text, e.1 ≠ .text "timeframe" →
      (bracketed (ofEntries entries).values e).Returns c := by
    intro e member untimed
    obtain ⟨known, definition⟩ := inside e member
    have selection : isSelection e.1 = true := by
      rw [isSelection, decide_eq_true definition, decide_eq_true untimed, Bool.true_and]
    exact returns_bracketed (parse e known selection)
  have each : ∀ e ∈ taken entries name.text, (bracketed (ofEntries entries).values e).Returns c ∨
      ∀ t, (bracketed (ofEntries entries).values e).start t =
        (.error (.parse (.notADefinition e.2)), t) := by
    intro e member
    by_cases timed : e.1 = .text "timeframe"
    · exact .inr (fails e (inside e member).1 timed)
    · exact .inl (returns e member timed)
  obtain ⟨e, member, is⟩ := timed
  obtain ⟨⟨k, v⟩, known, unread, result⟩ := mapM_fails (steady_bracketed _)
    (fun e => .parse (.notADefinition e.2)) each ⟨e, member, stops e (inside e member).1 is⟩
  -- the entry that fails first is the time frame, as every selection parses
  have is : k = .text "timeframe" := by
    by_contra untimed
    exact unread (returns _ known untimed)
  subst is
  refine ⟨v, (inside _ known).1, ?_⟩
  rw [quantified_eq_mapM word several start names, start_map, result]
  rfl

theorem not_returns_quantified (several : name.text = "them" ∨ '*' ∈ name.text.toList)
    (pattern : name.text ≠ "them") (start : name.text.toList.head? ≠ some '*')
    (number : ∃ e ∈ entries, e.1.isNumber = true) : ¬ (quantified entries j sign name).Returns c := by
  obtain ⟨e, member, isNumber⟩ := number
  have definition : e ∈ (ofEntries entries).definitions := by
    refine mem_filter.mpr ⟨member, decide_eq_true ?_⟩
    rintro is
    rw [is] at isNumber
    cases isNumber
  have fails := parseMatching_number (ofEntries entries) name.text definition isNumber c
  have isPattern := isPattern_iff.mpr ⟨start, several.resolve_left pattern⟩
  have node : (ofEntries entries).parseSeveral j (name.token .id) = do
      return .group (j.build none (← (ofEntries entries).parseMatching name.text
        (ofEntries entries).definitions)) := by
    rw [parseSeveral, Word.token, Cond.tokenText, ofExcept_ok, pure_bind, if_neg pattern, if_pos isPattern]
  rw [quantified, reduceOperators_several, returns_map_iff, node, returns_map_iff]
  exact fails

/-- **Operators over several definitions**: let the selections of a rule be definitions that can be parsed.
An operator with an operand that is served gives the junction, in brackets, of the conditions of exactly
the selections that the operand stands for, in their order.

An operand that begins with a star is not served: it is taken for the name of a definition. A time frame
that an operand takes for a definition cannot be parsed, nor can a name that is a number be compared with
a pattern. In general the operand takes the definitions whose name it finds on one line. -/
theorem quantified_selections (word : IsWord name.text.toList)
    (several : name.text = "them" ∨ '*' ∈ name.text.toList)
    (parse : ∀ e ∈ entries, isSelection e.1 = true →
      (parseDefinition (ofEntries entries).values .disj e.2).Returns c) :
    (Served entries name.text → ∃ nodes c',
      ((selected entries name.text).mapM (bracketed (ofEntries entries).values)).start c =
        (.ok nodes, c') ∧
      (quantified entries j sign name).start c = (.ok [.group (j.build none nodes)], c')) ∧
    (IsName name.text.toList → tokenize (j.operator.1 ++ " " ++ name.text) =
      .ok [⟨j.operator.2, j.operator.1, 1⟩, ⟨.id, name.text, j.operator.1.length + 2⟩]) ∧
    (name.text.toList.head? = some '*' → (∀ e ∈ entries, e.1 ≠ .text name.text) →
      (quantified entries j sign name).start c =
        (.error (.parse (.unknownDefinition name.text)), c)) ∧
    (name.text.toList.head? ≠ some '*' →
      (name.text = "them" ∨ ∀ e ∈ entries, e.1.isNumber = false) →
        quantified entries j sign name = (do return [.group (j.build none
          (← (taken entries name.text).mapM (bracketed (ofEntries entries).values)))]) ∧
        ((∃ e ∈ taken entries name.text, e.1 = .text "timeframe") →
          (∀ e ∈ entries, e.1 = .text "timeframe" → e.2.hashable = true) →
          ∃ v, (.text "timeframe", v) ∈ entries ∧
            ((quantified entries j sign name).start c).1 = .error (.parse (.notADefinition v)))) ∧
    (name.text ≠ "them" → name.text.toList.head? ≠ some '*' →
      (∃ e ∈ entries, e.1.isNumber = true) → ¬ (quantified entries j sign name).Returns c) := by
  refine ⟨fun served => start_quantified_of_served word several served parse, tokenize_several j word,
    start_quantified_of_star, fun start names => ⟨quantified_eq_mapM word several start names, ?_⟩,
    not_returns_quantified several⟩
  exact start_quantified_of_timeframe word several start names parse

end Quantified

/-- Two selections and a time frame. -/
def timedEntries : Entries :=
  [("sel_a", .map [("f", "v")]), ("timeframe", "5m"), ("sel_b", .list ["w", .int 1]),
    ("condition", "sel_a")]

theorem returns_timedEntries : ∀ e ∈ timedEntries, isSelection e.1 = true →
    (parseDefinition (ofEntries timedEntries).values .disj e.2).Returns .empty := by
  simp only [timedEntries, forall_mem_cons]
  exact ⟨fun _ => ⟨_, _, rfl⟩, nofun, fun _ => ⟨_, _, rfl⟩, nofun, nofun⟩

/-- A pattern that does not fit the time frame. -/
theorem quantified_selections_pattern : Served timedEntries "sel*" ∧
    (quantified timedEntries .disj ⟨"1 of", 1⟩ ⟨"sel*", 6⟩).start .empty =
      (.ok [.group (.any [.group (.all none [.item "f" "v"]),
        .group (.any [.value "w", .value (.int 1)])])], .empty) ∧
    tokenize "1 of sel*" = .ok [⟨.one, "1 of", 1⟩, ⟨.id, "sel*", 6⟩] := by
  have served : Served timedEntries "sel*" := ⟨by decide, by decide, .inr (by decide)⟩
  obtain ⟨serves, cut, -⟩ := @quantified_selections timedEntries .empty ⟨"1 of", 1⟩ ⟨"sel*", 6⟩ .disj
    ⟨by decide, List.all_eq_true.mp (by decide)⟩ (.inr (by decide)) returns_timedEntries
  obtain ⟨nodes, c', run, reduced⟩ := serves served
  have nodes_eq : ((selected timedEntries "sel*").mapM (bracketed (ofEntries timedEntries).values)).start
      .empty = (.ok [.group (.all none [.item "f" "v"]), .group (.any [.value "w", .value (.int 1)])],
        .empty) := rfl
  rw [nodes_eq] at run
  cases run
  exact ⟨served, reduced, cut (by decide)⟩

/-- The selections of a rule with a time frame cannot be taken together, and not by the ends of their
names. -/
theorem quantified_unserved :
    (∀ e ∈ timedEntries, isSelection e.1 = true →
      (parseDefinition (ofEntries timedEntries).values .disj e.2).Returns .empty) ∧
    (selected timedEntries "them").map (·.1) = ["sel_a", "sel_b"] ∧
    ((quantified timedEntries .disj ⟨"1 of", 1⟩ ⟨"them", 6⟩).start .empty).1 =
      .error (.parse (.notADefinition "5m")) ∧
    (selected timedEntries "*a").map (·.1) = ["sel_a"] ∧
    ((quantified timedEntries .disj ⟨"1 of", 1⟩ ⟨"*a", 6⟩).start .empty).1 =
      .error (.parse (.unknownDefinition "*a")) := by
  refine ⟨returns_timedEntries, by decide, rfl, by decide, ?_⟩
  rw [start_quantified_of_star rfl (by decide)]

end Detection

end SigmaQuery
