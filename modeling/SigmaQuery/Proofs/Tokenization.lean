import SigmaQuery.Condition.Token

/-!
# The language of the tokens

A condition can be cut into tokens where all its characters are blanks, word characters or signs, and
where equals signs come in pairs: a single one belongs to no token, because the signs `<` and `>` are
tried before `<=` and `>=`.
-/

namespace SigmaQuery

open List Text

/-! ## The language -/

/-- A character that a condition may have. -/
def isConditionChar (c : Char) : Bool :=
  Text.isBlank c || Text.isWordChar c || ['*', '<', '>', '|', '(', ')', '='].contains c

/-- Every maximal run of equals signs has an even length. -/
def EvenRuns (cs : List Char) : Prop :=
  ∀ before n after, cs = before ++ List.replicate n '=' ++ after →
    before.getLast? ≠ some '=' → after.head? ≠ some '=' → n % 2 = 0

/-- The texts that can be cut into tokens. -/
structure IsCondition (cs : List Char) : Prop where
  chars : ∀ c ∈ cs, isConditionChar c = true
  runs : EvenRuns cs

theorem evenRuns_nil : EvenRuns [] := by
  intro before n after whole _ _
  have none := congrArg List.length whole
  simp only [length_append, length_replicate, length_nil] at none
  omega

variable {c k : Char} {cs word : List Char} {eq : Char → Char → Bool} {n : Nat}

theorem evenRuns_cons_iff (other : c ≠ '=') (cs : List Char) :
    EvenRuns (c :: cs) ↔ EvenRuns cs := by
  constructor
  · intro even before n after whole left right
    refine even (c :: before) n after (by rw [whole]; rfl) ?_ right
    cases before with
    | nil => simpa using other
    | cons x xs => rwa [getLast?_cons_cons]
  · intro even before n after whole left right
    cases before with
    | nil =>
      cases n with
      | zero => rfl
      | succ n =>
        rw [replicate_succ] at whole
        exact absurd (List.cons.inj whole).1 other
    | cons x xs =>
      refine even xs n after (List.cons.inj whole).2 ?_ right
      cases xs with
      | nil => simp
      | cons y ys => rwa [getLast?_cons_cons] at left

theorem evenRuns_pair_iff (cs : List Char) : EvenRuns ('=' :: '=' :: cs) ↔ EvenRuns cs := by
  constructor
  · intro even before n after whole left right
    cases before with
    | nil =>
      have longer := even [] (n + 2) after (by rw [whole]; rfl) (by simp) right
      omega
    | cons x xs =>
      refine even ('=' :: '=' :: x :: xs) n after (by rw [whole]; rfl) ?_ right
      rwa [getLast?_cons_cons, getLast?_cons_cons]
  · intro even before n after whole left right
    match before, n with
    | [], 0 =>
      rfl
    | [], 1 =>
      have next : after = '=' :: cs := (List.cons.inj whole).2.symm
      exact absurd (by rw [next]; rfl) right
    | [], n + 2 =>
      have shorter := even [] n after (List.cons.inj (List.cons.inj whole).2).2 (by simp) right
      omega
    | [x], n =>
      have first : '=' = x := (List.cons.inj whole).1
      exact absurd (by rw [← first]; rfl) left
    | x :: y :: ys, n =>
      have second : '=' = y := (List.cons.inj (List.cons.inj whole).2).1
      refine even ys n after (List.cons.inj (List.cons.inj whole).2).2 ?_ right
      cases ys with
      | nil => simp
      | cons z zs => rwa [getLast?_cons_cons, getLast?_cons_cons] at left

theorem not_evenRuns_of_single (next : cs.head? ≠ some '=') : ¬ EvenRuns ('=' :: cs) := by
  intro even
  have odd := even [] 1 cs rfl (by simp) next
  omega

theorem evenRuns_append_iff {lexeme : List Char} (others : '=' ∉ lexeme) (cs : List Char) :
    EvenRuns (lexeme ++ cs) ↔ EvenRuns cs := by
  induction lexeme with
  | nil => rfl
  | cons c rest ih =>
    rw [mem_cons, not_or] at others
    rw [cons_append, evenRuns_cons_iff (Ne.symm others.1), ih others.2]

/-! ## What a rule takes -/

/-- What the rule takes is a part of the text with characters of the language, and with blanks only if
it gives no token. An equals sign is among them only for two equals signs, or after `<` or `>`. -/
def LexRule.Sound (r : LexRule) : Prop :=
  ∀ cs n, r.width cs = some n → n ≤ cs.length ∧
    (∀ c ∈ cs.take n, isConditionChar c = true ∧ (r.kind = none → Text.isBlank c = true)) ∧
    ('=' ∈ cs.take n → cs.take n = ['=', '='] ∨ cs.head? = some '<' ∨ cs.head? = some '>')

/-- A word at the start of the text is a part of it, and each of its characters stands for one of the
word. -/
theorem startsWord_spec (h : startsWord eq word cs = true) : word.length ≤ cs.length ∧
      ∀ c ∈ cs.take word.length, ∃ k ∈ word, eq k c = true := by
  induction word generalizing cs with
  | nil => simp
  | cons k ks ih =>
    cases cs with
    | nil => cases h
    | cons c cs =>
      simp only [startsWord, Bool.and_eq_true] at h
      obtain ⟨fits, others⟩ := ih h.2
      refine ⟨Nat.succ_le_succ fits, fun x member => ?_⟩
      rcases mem_cons.mp member with rfl | later
      · exact ⟨k, mem_cons_self, h.1⟩
      · obtain ⟨k', known, is⟩ := others x later
        exact ⟨k', mem_cons_of_mem _ known, is⟩

theorem startsWord_of_wordWidth (h : wordWidth eq word cs = some n) :
    startsWord eq word cs = true := by
  unfold wordWidth at h
  split at h
  · assumption
  · cases h

theorem take_of_startsWord {sign : List Char} (h : startsWord (· == ·) sign cs = true) :
    cs.take sign.length = sign := by
  induction sign generalizing cs with
  | nil => rfl
  | cons k ks ih =>
    cases cs with
    | nil => cases h
    | cons c cs =>
      simp only [startsWord, Bool.and_eq_true, beq_iff_eq] at h
      rw [length_cons, take_succ_cons, ih h.2, h.1]

/-- A capital letter becomes a small one, and every other character stays as it is. -/
theorem toLower_cases (c : Char) : c.toLower = c ∨ c.isUpper = true ∧ 97 ≤ c.toLower.toNat := by
  unfold Char.toLower
  split
  · rename_i upper
    refine .inr ⟨decide_eq_true upper, ?_⟩
    rw [ge_iff_le, UInt32.le_iff_toNat_le, UInt32.le_iff_toNat_le] at upper
    change 65 ≤ c.val.toNat ∧ c.val.toNat ≤ 90 at upper
    change 97 ≤ (c.val + 32).toNat
    rw [UInt32.toNat_add]
    change 97 ≤ (c.val.toNat + 32) % 2 ^ 32
    omega
  · exact .inl rfl

theorem isAlphanum_iff : c.isAlphanum = true ↔
    (c.isUpper = true ∨ c.isLower = true) ∨ c.isDigit = true := by
  rw [← Bool.or_eq_true, ← Bool.or_eq_true]
  rfl

theorem isWordChar_of_isAlphanum (h : c.isAlphanum = true) : isWordChar c = true := by
  have below : ∀ last : Char, c.val ≤ last.val → last.toNat < 128 → c.toNat < 128 :=
    fun last le => Nat.lt_of_le_of_lt (UInt32.le_iff_toNat_le.mp le)
  have small : c.toNat < 128 := by
    rcases isAlphanum_iff.mp h with (upper | lower) | digit
    · exact below 'Z' (of_decide_eq_true upper).2 (by decide)
    · exact below 'z' (of_decide_eq_true (Bool.and_eq_true_iff.mp lower).2) (by decide)
    · exact below '9' (of_decide_eq_true (Bool.and_eq_true_iff.mp digit).2) (by decide)
  simp [isWordChar, isAlphanumeric, small, h]

theorem isWordChar_of_foldsTo (letter : k.isAlphanum = true) (h : foldsTo k c = true) :
    isWordChar c = true := by
  have far : ∀ n, inRanges alphanumericRanges n = true → 128 ≤ n → c.toNat = n →
      isWordChar c = true := by
    intro n inside big same
    simp only [isWordChar, isAlphanumeric, same, if_neg (Nat.not_lt.mpr big), inside,
      Bool.or_true]
  simp only [foldsTo, Bool.or_eq_true, Bool.and_eq_true, beq_iff_eq] at h
  rcases h with (low | ⟨-, long⟩) | ⟨-, dotted | dotless⟩
  · rcases toLower_cases c with same | ⟨upper, -⟩
    · exact isWordChar_of_isAlphanum (by rwa [← same, low])
    · exact isWordChar_of_isAlphanum (isAlphanum_iff.mpr (.inl (.inl upper)))
  · exact far 0x17f rfl (by decide) long
  · exact far 0x130 rfl (by decide) dotted
  · exact far 0x131 rfl (by decide) dotless

theorem eq_of_foldsTo_blank (h : foldsTo ' ' c = true) : c = ' ' := by
  simp only [foldsTo, Bool.or_eq_true, Bool.and_eq_true, beq_iff_eq] at h
  rcases h with (low | ⟨other, -⟩) | ⟨other, -⟩
  · rcases toLower_cases c with same | ⟨-, high⟩
    · rw [← same, low]
    · rw [low] at high
      exact absurd high (by decide)
  · exact absurd other (by decide)
  · exact absurd other (by decide)

/-- The characters of keywords: letters, digits and the blank between two words. -/
def isKeywordChar (k : Char) : Bool :=
  k.isAlphanum || k == ' '

/-- What stands for a character of a keyword is in the language, and it is no equals sign. -/
theorem isConditionChar_of_foldsTo (keyword : isKeywordChar k = true) (h : foldsTo k c = true) :
    isConditionChar c = true ∧ c ≠ '=' := by
  rcases Bool.or_eq_true _ _ ▸ keyword with letter | blank
  · have word := isWordChar_of_foldsTo letter h
    refine ⟨by simp [isConditionChar, word], ?_⟩
    rintro rfl
    exact absurd word (by decide)
  · obtain rfl := beq_iff_eq.mp blank
    obtain rfl := eq_of_foldsTo_blank h
    decide

/-! ### The rules -/

namespace LexRule

theorem sound_keywords (k : TokenKind) {words : List String}
    (keyword : (words.all fun w => w.toList.all isKeywordChar) = true) :
    Sound ⟨some k, keywordsWidth words⟩ := by
  intro cs n h
  obtain ⟨w, member, found⟩ := exists_of_findSome?_eq_some h
  obtain ⟨fits, folds⟩ := startsWord_spec (startsWord_of_wordWidth found)
  obtain rfl := wordWidth_eq_some found
  have chars : ∀ c ∈ cs.take w.toList.length, isConditionChar c = true ∧ c ≠ '=' := by
    intro c taken
    obtain ⟨x, known, is⟩ := folds c taken
    have isKeyword := all_eq_true.mp (all_eq_true.mp keyword w member) x known
    exact isConditionChar_of_foldsTo isKeyword is
  exact ⟨fits, fun c taken => ⟨(chars c taken).1, nofun⟩,
    fun equals => absurd rfl (chars '=' equals).2⟩

theorem sound_keyword (k : TokenKind) {word : String}
    (keyword : word.toList.all isKeywordChar = true) : Sound ⟨some k, keywordWidth word⟩ := by
  intro cs n h
  have alone : ([word].all fun w => w.toList.all isKeywordChar) = true := by
    rw [all_cons, keyword, all_nil, Bool.and_true]
  refine sound_keywords k alone cs n ?_
  have found : keywordWidth word cs = some n := h
  simp [keywordsWidth, found]

theorem sound_sign (k : TokenKind) {sign : String}
    (chars : sign.toList.all isConditionChar = true)
    (equals : '=' ∈ sign.toList → sign.toList = ['=', '='] ∨
      sign.toList.head? = some '<' ∨ sign.toList.head? = some '>') :
    Sound ⟨some k, signWidth sign⟩ := by
  intro cs n h
  have starts := startsWord_of_wordWidth h
  obtain rfl := wordWidth_eq_some h
  have taken := take_of_startsWord starts
  refine ⟨(startsWord_spec starts).1, fun c member => ⟨?_, nofun⟩, fun member => ?_⟩
  · exact all_eq_true.mp chars c (taken ▸ member)
  · have first : ∀ x, sign.toList.head? = some x → cs.head? = some x := by
      intro x is
      rw [← taken] at is
      cases cs with
      | nil => simp at is
      | cons c rest =>
        cases signs : sign.toList with
        | nil => simp [signs] at is
        | cons y ys => simpa [signs] using is
    rw [taken] at member ⊢
    exact (equals member).imp_right (Or.imp (first '<') (first '>'))

theorem sound_run {kind : Option TokenKind} {p : Char → Bool}
    (chars : ∀ c, p c = true → isConditionChar c = true) (noEquals : p '=' = false)
    (blank : kind = none → ∀ c, p c = true → isBlank c = true) : Sound ⟨kind, runWidth p⟩ := by
  intro cs n h
  have width : n = (cs.takeWhile p).length := by
    change runWidth p cs = some n at h
    unfold runWidth at h
    split at h
    · cases h
    · rename_i m found
      rw [← Option.some.inj h, found]
  have taken : cs.take n = cs.takeWhile p := by
    rw [width]
    exact (prefix_iff_eq_take.mp ( takeWhile_prefix p)).symm
  have inRun : ∀ c ∈ cs.take n, p c = true := by
    intro c member
    rw [taken] at member
    exact (all_eq_true.mp all_takeWhile) c member
  refine ⟨?_, fun c member => ⟨chars c (inRun c member), fun none => ?_⟩, fun member => ?_⟩
  · rw [width]
    exact ( takeWhile_prefix p).length_le
  · exact blank none c (inRun c member)
  · rw [inRun '=' member] at noEquals
    cases noEquals

theorem sound_of_mem {r : LexRule} (member : r ∈ lexRules) : r.Sound := by
  have idChars : ∀ c, isIdChar c = true → isConditionChar c = true := by
    intro c is
    rcases Bool.or_eq_true _ _ ▸ is with star | word
    · obtain rfl := beq_iff_eq.mp star
      rfl
    · simp [isConditionChar, word]
  have blanks : ∀ c, isBlank c = true → isConditionChar c = true := fun c is => by
    simp [isConditionChar, is]
  revert r
  simp only [lexRules, forall_mem_cons]
  exact ⟨sound_keyword .one (by decide), sound_keyword .all (by decide),
    sound_run blanks rfl (fun _ _ is => is), sound_keywords .agg (by decide),
    sound_keyword .near (by decide), sound_keyword .by (by decide),
    sound_sign .eq (by decide) (by decide), sound_sign .lt (by decide) (by decide),
    sound_sign .lte (by decide) (by decide), sound_sign .gt (by decide) (by decide),
    sound_sign .gte (by decide) (by decide), sound_sign .pipe (by decide) (by decide),
    sound_keyword .and (by decide), sound_keyword .or (by decide), sound_keyword .not (by decide),
    sound_run idChars rfl (fun none => absurd none (Option.some_ne_none _)),
    sound_sign .lpar (by decide) (by decide), sound_sign .rpar (by decide) (by decide),
    fun r none => absurd none (by simp)⟩

end LexRule

/-! ## The first lexeme -/

/-- The first lexeme is a part of the text, with characters of the language. It gives no token only
if it is blank. Equals signs are in it only if it is a pair of them. -/
theorem lexeme?_spec {k : Option TokenKind} (h : lexeme? cs = some (k, n)) : n ≤ cs.length ∧
      (∀ c ∈ cs.take n, isConditionChar c = true ∧ (k = none → isBlank c = true)) ∧
      ('=' ∈ cs.take n → cs.take n = ['=', '=']) := by
  obtain ⟨r, member, found⟩ := exists_of_findSome?_eq_some h
  obtain ⟨m, width, same⟩ := Option.map_eq_some_iff.mp found
  obtain ⟨rfl, rfl⟩ := Prod.mk.inj same
  obtain ⟨fits, chars, equals⟩ := LexRule.sound_of_mem member cs m width
  refine ⟨fits, chars, fun inside => ?_⟩
  -- After `<` and `>` an equals sign is not reached: they are lexemes of their own.
  have single : ∀ c kind, cs.head? = some c → c ≠ '=' →
      (∀ rest, lexeme? (c :: rest) = some (kind, 1)) → '=' ∉ cs.take m := by
    intro c kind first other lexeme
    obtain ⟨rest, rfl⟩ : ∃ rest, cs = c :: rest := by
      cases cs with
      | nil => cases first
      | cons x rest => exact ⟨rest, by rw [Option.some.inj first]⟩
    rw [lexeme rest] at h
    obtain ⟨-, rfl⟩ := Prod.mk.inj (Option.some.inj h)
    simpa using Ne.symm other
  rcases equals inside with pair | less | greater
  · exact pair
  · exact absurd inside (single '<' (some .lt) less (by decide) fun _ => rfl)
  · exact absurd inside (single '>' (some .gt) greater (by decide) fun _ => rfl)

theorem runWidth_ne_none {p : Char → Bool} (first : p c = true) (rest : List Char) :
    runWidth p (c :: rest) ≠ none := by
  simp [runWidth, first]

theorem lexeme?_ne_none {rest : List Char} (condition : IsCondition (c :: rest)) :
    lexeme? (c :: rest) ≠ none := by
  intro unmatched
  have noRule : ∀ r ∈ lexRules, r.width (c :: rest) = none := by
    intro r member
    simpa using findSome?_eq_none_iff.mp unmatched r member
  have noBlank : runWidth isBlank (c :: rest) = none :=
    noRule ⟨none, runWidth isBlank⟩ (by simp [lexRules])
  have noId : runWidth isIdChar (c :: rest) = none :=
    noRule ⟨some .id, runWidth isIdChar⟩ (by simp [lexRules])
  have first := condition.chars c mem_cons_self
  simp only [isConditionChar, Bool.or_eq_true, contains_cons, beq_iff_eq,
    contains_nil, Bool.false_eq_true, or_false] at first
  rcases first with (blank | word) | rfl | rfl | rfl | rfl | rfl | rfl | rfl
  · exact runWidth_ne_none blank rest noBlank
  · exact runWidth_ne_none (by simp [isIdChar, word]) rest noId
  · exact runWidth_ne_none (c := '*') rfl rest noId
  · cases unmatched
  · cases unmatched
  · cases unmatched
  · cases unmatched
  · cases unmatched
  · -- An equals sign is followed by another one, and the two are a lexeme.
    by_cases pair : rest.head? = some '='
    · obtain ⟨more, rfl⟩ : ∃ more, rest = '=' :: more := by
        cases rest with
        | nil => cases pair
        | cons x more => exact ⟨more, by rw [Option.some.inj pair]⟩
      cases unmatched
    · exact not_evenRuns_of_single pair condition.runs

/-- A text is in the language if what is left after its first lexeme is. -/
theorem isCondition_drop_iff {k : Option TokenKind} (h : lexeme? cs = some (k, n)) :
    IsCondition (cs.drop n) ↔ IsCondition cs := by
  obtain ⟨-, chars, equals⟩ := lexeme?_spec h
  have runs : EvenRuns (cs.drop n) ↔ EvenRuns (cs.take n ++ cs.drop n) := by
    by_cases inside : '=' ∈ cs.take n
    · rw [equals inside]
      exact (evenRuns_pair_iff _).symm
    · exact (evenRuns_append_iff inside _).symm
  rw [take_append_drop] at runs
  constructor
  · intro later
    refine ⟨fun c member => ?_, runs.mp later.runs⟩
    rw [← take_append_drop n cs] at member
    rcases mem_append.mp member with first | last
    · exact (chars c first).1
    · exact later.chars c last
  · intro whole
    exact ⟨fun c member => whole.chars c (mem_of_mem_drop member), runs.mpr whole.runs⟩

/-! ## The tokens of a text -/

/-- The place after a token. -/
def Token.stop (t : Token) : Nat :=
  t.position + t.text.length

/-- Tokens, and runs of blanks between them, make up the text from a position on. -/
inductive Cut : Nat → List Char → List Token → Prop
  | nil (position : Nat) : Cut position [] []
  | blank {position : Nat} {run rest : List Char} {tokens : List Token}
      (blank : ∀ c ∈ run, Text.isBlank c = true)
      (later : Cut (position + run.length) rest tokens) : Cut position (run ++ rest) tokens
  | token {position : Nat} {lexeme rest : List Char} {tokens : List Token} (k : TokenKind)
      (nonempty : lexeme ≠ []) (later : Cut (position + lexeme.length) rest tokens) :
      Cut position (lexeme ++ rest) (⟨k, String.ofList lexeme, position⟩ :: tokens)

/-- Cutting a text either reports the place where a lexeme is missing, and then the text is not in
the language, or it cuts all of it. -/
theorem tokensFrom_cases (position : Nat) (cs : List Char) :
    (¬ IsCondition cs ∧ ∃ rest, rest ≠ [] ∧ rest <:+ cs ∧
        tokensFrom position cs = .error (.parse (.unexpectedText (String.ofList rest)))) ∨
      IsCondition cs ∧ ∃ tokens, tokensFrom position cs = .ok tokens ∧ Cut position cs tokens := by
  fun_induction tokensFrom position cs with
  | case1 position =>
    refine .inr ⟨⟨fun c member => absurd member (by simp), evenRuns_nil⟩, [], rfl, .nil position⟩
  | case2 position c rest none =>
    exact .inl ⟨fun condition => lexeme?_ne_none condition none, c :: rest, by simp,
      suffix_rfl, rfl⟩
  | case3 position c rest kind n found e failed ih =>
    rcases ih with ⟨outside, r, nonempty, suffix, error⟩ | ⟨-, tokens, ok, -⟩
    · rw [failed] at error
      refine .inl ⟨fun condition => outside ((isCondition_drop_iff found).mpr condition), r,
        nonempty, suffix.trans (drop_suffix n _), error⟩
    · rw [failed] at ok
      cases ok
  | case4 position c rest n tokens returned found _ ih =>
    rcases ih with ⟨-, r, -, -, error⟩ | ⟨inside, tokens', ok, cut⟩
    · rw [returned] at error
      cases error
    · rw [returned] at ok
      cases ok
      obtain ⟨fits, chars, -⟩ := lexeme?_spec found
      refine .inr ⟨(isCondition_drop_iff found).mp inside, tokens, rfl, ?_⟩
      rw [← take_append_drop n (c :: rest)]
      refine .blank (fun x member => (chars x member).2 rfl) ?_
      rwa [length_take, Nat.min_eq_left fits]
  | case5 position c rest n tokens returned k found _ ih =>
    rcases ih with ⟨-, r, -, -, error⟩ | ⟨inside, tokens', ok, cut⟩
    · rw [returned] at error
      cases error
    · rw [returned] at ok
      cases ok
      obtain ⟨fits, chars, -⟩ := lexeme?_spec found
      have positive := lexeme?_pos found
      refine .inr ⟨(isCondition_drop_iff found).mp inside, _, rfl, ?_⟩
      have nonempty : (c :: rest).take n ≠ [] := by
        rw [← length_pos_iff, length_take]
        omega
      have later : Cut (position + ((c :: rest).take n).length) ((c :: rest).drop n) tokens := by
        rwa [length_take, Nat.min_eq_left fits]
      have whole := Cut.token k nonempty later
      rwa [take_append_drop] at whole

namespace Cut

variable {position : Nat} {cs : List Char} {tokens : List Token}

theorem le_position (cut : Cut position cs tokens) : ∀ t ∈ tokens, position ≤ t.position := by
  induction cut with
  | nil => exact fun t member => absurd member (by simp)
  | blank _ _ ih =>
    intro t member
    have := ih t member
    omega
  | token k _ _ ih =>
    intro t member
    rcases mem_cons.mp member with rfl | later
    · exact Nat.le_refl _
    · have := ih t later
      omega

/-- Places after a part of the text, seen from the start of the text and from the end of the part. -/
theorem drop_append_sub {front : List Char} (rest : List Char) {position place : Nat}
    (after : position + front.length ≤ place) :
    (front ++ rest).drop (place - position) = rest.drop (place - (position + front.length)) := by
  obtain ⟨i, rfl⟩ := Nat.exists_eq_add_of_le after
  rw [Nat.add_sub_cancel_left, Nat.add_assoc, Nat.add_sub_cancel_left]
  exact drop_length_add_append i

/-- A token's text is not empty, and it is the part of the text that begins at its position. -/
theorem text_eq (cut : Cut position cs tokens) : ∀ t ∈ tokens, t.text ≠ "" ∧
    t.text.toList = (cs.drop (t.position - position)).take t.text.length := by
  induction cut with
  | nil => exact fun t member => absurd member (by simp)
  | blank _ later ih =>
    intro t member
    rw [drop_append_sub _ (later.le_position t member)]
    exact ih t member
  | @token position lexeme rest tokens k nonempty later ih =>
    intro t member
    rcases mem_cons.mp member with rfl | last
    · refine ⟨by simpa using nonempty, ?_⟩
      rw [Nat.sub_self, drop_zero, String.length_ofList, take_left, String.toList_ofList]
    · rw [drop_append_sub _ (later.le_position t last)]
      exact ih t last

theorem stop_le_position (cut : Cut position cs tokens) :
    tokens.Pairwise fun a b => a.stop ≤ b.position := by
  induction cut with
  | nil => exact .nil
  | blank _ _ ih => exact ih
  | token k _ later ih =>
    refine pairwise_cons.mpr ⟨fun t member => ?_, ih⟩
    rw [Token.stop, String.length_ofList]
    exact later.le_position t member

theorem isBlank_of_outside (cut : Cut position cs tokens) {i : Nat} {c : Char}
    (there : cs[i]? = some c)
    (outside : ∀ t ∈ tokens, ¬ (t.position ≤ position + i ∧ position + i < t.stop)) :
    isBlank c = true := by
  induction cut generalizing i with
  | nil => simp at there
  | @blank position run rest tokens blank later ih =>
    by_cases inside : i < run.length
    · rw [getElem?_append_left inside] at there
      exact blank c (mem_of_getElem? there)
    · rw [getElem?_append_right (Nat.le_of_not_lt inside)] at there
      refine ih there fun t member => ?_
      have := outside t member
      omega
  | @token position lexeme rest tokens k nonempty later ih =>
    rw [forall_mem_cons] at outside
    have here := outside.1
    rw [Token.stop, String.length_ofList] at here
    have after : lexeme.length ≤ i := by
      dsimp only at here
      omega
    rw [getElem?_append_right after] at there
    refine ih there fun t member => ?_
    have := outside.2 t member
    omega

end Cut

/-- **The language of the tokens**: a condition can be cut exactly if all its characters are blanks,
word characters or signs and every maximal run of equals signs has an even length; the cutting
always ends, and else it reports text that belongs to no token. The tokens stand in the order of
their positions and do not overlap, each has a text that is not empty and stands at its position,
and what is outside of them is blank. -/
theorem tokenize_isCondition (s : String) :
    ((∃ tokens, tokenize s = .ok tokens) ↔ IsCondition s.toList) ∧
      (¬ IsCondition s.toList → ∃ rest, tokenize s = .error (.parse (.unexpectedText rest)) ∧
        rest ≠ "" ∧ rest.toList <:+ s.toList) ∧
      ∀ tokens, tokenize s = .ok tokens →
        tokens.Pairwise (fun a b => a.position < b.position ∧ a.stop ≤ b.position) ∧
        (∀ t ∈ tokens, t.text ≠ "" ∧ 1 ≤ t.position ∧
          t.text.toList = (s.toList.drop (t.position - 1)).take t.text.length) ∧
        ∀ i c, s.toList[i]? = some c →
          (∀ t ∈ tokens, ¬ (t.position ≤ i + 1 ∧ i + 1 < t.stop)) → Text.isBlank c = true := by
  rcases tokensFrom_cases 1 s.toList with
    ⟨outside, rest, nonempty, suffix, error⟩ | ⟨inside, tokens, ok, cut⟩
  · have failed : tokenize s = .error (.parse (.unexpectedText (String.ofList rest))) := error
    refine ⟨⟨fun ⟨tokens, ok⟩ => ?_, fun inside => absurd inside outside⟩, fun _ => ?_,
      fun tokens ok => ?_⟩
    · rw [failed] at ok
      cases ok
    · exact ⟨_, failed, by simpa using nonempty, by simpa using suffix⟩
    · rw [failed] at ok
      cases ok
  · have returned : tokenize s = .ok tokens := ok
    refine ⟨⟨fun _ => inside, fun _ => ⟨tokens, returned⟩⟩, fun outside => absurd inside outside, ?_⟩
    intro tokens' ok'
    obtain rfl : tokens = tokens' := Except.ok.inj (returned.symm.trans ok')
    have texts := cut.text_eq
    refine ⟨?_, fun t member => ?_, fun i c there outside => ?_⟩
    · refine cut.stop_le_position.imp_of_mem fun {a b} first _ apart => ⟨?_, apart⟩
      have positive : 0 < a.text.length := by
        rw [← String.length_toList, List.length_pos_iff]
        simpa using (texts a first).1
      unfold Token.stop at apart
      omega
    · exact ⟨(texts t member).1, cut.le_position t member, (texts t member).2⟩
    · refine cut.isBlank_of_outside there fun t member => ?_
      rw [Nat.add_comm]
      exact outside t member

end SigmaQuery
