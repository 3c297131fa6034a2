import SigmaQuery.Proofs.SearchBrackets
import SigmaQuery.Proofs.Tokenization

/-!
# Names in a condition

A condition refers to definitions by their names. A name is cut out of the condition whole if no keyword
begins it, in any case. Keywords are tried before names and do not have to end where a word ends, so they
are taken off the front of a word one after the other, and what is left is the name.
-/

namespace SigmaQuery

open List

/-! ## Words and keywords -/

/-- The keywords in the order in which they are tried, with the kinds of their tokens. -/
def keywords : List (String × TokenKind) :=
  [("count", .agg), ("min", .agg), ("max", .agg), ("avg", .agg), ("sum", .agg), ("near", .near),
    ("by", .by), ("and", .and), ("or", .or), ("not", .not)]

/-- The letters are those of the word, in any case. -/
def Spells (word : String) (letters : List Char) : Prop :=
  Forall₂ (fun k c => foldsTo k c = true) word.toList letters

/-- The text begins with the word, in any case. -/
def BeginsWith (word : String) (text : List Char) : Prop :=
  ∃ letters, letters <+: text ∧ Spells word letters

/-- No keyword begins the text. -/
def IsName (text : List Char) : Prop :=
  ∀ k ∈ keywords, ¬ BeginsWith k.1 text

/-- A text of word characters and stars that is not empty. -/
structure IsWord (text : List Char) : Prop where
  nonempty : text ≠ []
  chars : ∀ c ∈ text, isIdChar c = true

variable {text rest cs : List Char} {c k : Char} {position : Nat} {tokens : List Token}

theorem startsWord_iff {word : List Char} : startsWord foldsTo word text = true ↔
    ∃ letters, letters <+: text ∧ Forall₂ (fun k c => foldsTo k c = true) word letters := by
  induction word generalizing text with
  | nil => exact iff_of_true rfl ⟨[], nil_prefix, .nil⟩
  | cons k ks ih =>
    constructor
    · intro starts
      cases text with
      | nil => cases starts
      | cons c cs =>
        simp only [startsWord, Bool.and_eq_true] at starts
        obtain ⟨letters, front, spells⟩ := ih.mp starts.2
        exact ⟨c :: letters, cons_prefix_cons.mpr ⟨rfl, front⟩, .cons starts.1 spells⟩
    · rintro ⟨letters, front, spells⟩
      cases spells with
      | @cons _ c _ cs first others =>
        obtain ⟨rest, rfl⟩ := front
        simp only [cons_append, startsWord, Bool.and_eq_true]
        exact ⟨first, ih.mpr ⟨cs, prefix_append cs rest, others⟩⟩

theorem beginsWith_iff {word : String} :
    BeginsWith word text ↔ startsWord foldsTo word.toList text = true :=
  startsWord_iff.symm

/-- The keyword that begins the text, if there is one. -/
def leadingKeyword? (text : List Char) : Option (String × TokenKind) :=
  keywords.find? fun k => startsWord foldsTo k.1.toList text

theorem leadingKeyword?_eq_none_iff : leadingKeyword? text = none ↔ IsName text := by
  rw [leadingKeyword?, find?_eq_none]
  simp only [IsName, beginsWith_iff]

/-! ## Blanks, signs and words -/

/-- The blanks, one by one. -/
def blankCodes : List Nat :=
  Text.blankRanges.flatMap fun r => List.range' r.1 (r.2 + 1 - r.1)

theorem mem_blankCodes (blank : Text.isBlank c = true) : c.toNat ∈ blankCodes := by
  rw [Text.isBlank, Text.inRanges, any_eq_true] at blank
  obtain ⟨r, member, inside⟩ := blank
  simp only [Bool.and_eq_true, decide_eq_true_eq] at inside
  refine mem_flatMap.mpr ⟨r, member, ?_⟩
  rw [mem_range'_1]
  omega

theorem isBlank_of_isIdChar (id : isIdChar c = true) : Text.isBlank c = false := by
  have none : ∀ n ∈ blankCodes, isIdChar (Char.ofNat n) = false := by decide +kernel
  by_contra blank
  rw [Bool.not_eq_false] at blank
  have other := none c.toNat (mem_blankCodes blank)
  rw [Char.ofNat_toNat, id] at other
  cases other

theorem isIdChar_of_foldsTo (letter : k.isAlphanum = true) (h : foldsTo k c = true) :
    isIdChar c = true := by
  rw [isIdChar, isWordChar_of_foldsTo letter h, Bool.or_true]

/-- What follows a word: it does not go on with the word, and does not make a quantifier of it. -/
structure FollowsWord (rest : List Char) : Prop where
  stops : ∀ c ∈ rest.head?, isIdChar c = false
  noQuantifier : startsWord foldsTo [' ', 'o', 'f'] rest = false

theorem followsWord_nil : FollowsWord [] :=
  ⟨by simp, rfl⟩

/-- Whether a keyword begins the text is decided within the first word. -/
theorem startsWord_append (letters cs : List Char) (alphanum : ∀ k ∈ letters, k.isAlphanum = true)
    (follows : FollowsWord rest) :
    startsWord foldsTo letters (cs ++ rest) = startsWord foldsTo letters cs := by
  induction letters generalizing cs with
  | nil => rfl
  | cons k ks ih =>
    rw [forall_mem_cons] at alphanum
    cases cs with
    | cons c cs => rw [cons_append, startsWord, startsWord, ih cs alphanum.2]
    | nil =>
      cases rest with
      | nil => rfl
      | cons x xs =>
        have stops := follows.stops x rfl
        have other : foldsTo k x = false := by
          by_contra folds
          rw [Bool.not_eq_false] at folds
          rw [isIdChar_of_foldsTo alphanum.1 folds] at stops
          cases stops
        rw [nil_append]
        show (foldsTo k x && startsWord foldsTo ks xs) = false
        rw [other, Bool.false_and]

/-- A quantifier is two words, so it does not begin in a word that is followed by another one. -/
theorem startsWord_quantifier (letters : List Char) (alphanum : ∀ k ∈ letters, k.isAlphanum = true)
    (chars : ∀ c ∈ cs, isIdChar c = true) (follows : FollowsWord rest) :
    startsWord foldsTo (letters ++ [' ', 'o', 'f']) (cs ++ rest) = false := by
  induction letters generalizing cs with
  | nil =>
    cases cs with
    | nil => exact follows.noQuantifier
    | cons c cs =>
      have other : foldsTo ' ' c = false := by
        by_contra folds
        rw [Bool.not_eq_false] at folds
        obtain rfl := eq_of_foldsTo_blank folds
        exact absurd (chars ' ' mem_cons_self) (by decide)
      rw [nil_append, cons_append, startsWord, other, Bool.false_and]
  | cons k ks ih =>
    rw [forall_mem_cons] at alphanum
    cases cs with
    | cons c cs =>
      rw [forall_mem_cons] at chars
      rw [cons_append, cons_append, startsWord, ih alphanum.2 chars.2, Bool.and_false]
    | nil =>
      have front := startsWord_append [k] [] (by simpa using alphanum.1) follows
      cases rest with
      | nil => rfl
      | cons x xs =>
        simp only [nil_append, startsWord, Bool.and_true] at front
        rw [nil_append, cons_append, startsWord, front, Bool.false_and]

/-! ## The first lexeme of a word -/

namespace LexRule

/-- What a lexical rule takes. -/
def lexeme? (cs : List Char) (r : LexRule) : Option (Option TokenKind × Nat) :=
  (r.width cs).map fun n => (r.kind, n)

theorem findSome?_lexeme?_eq_none {cs : List Char} {rules : List LexRule}
    (none : ∀ r ∈ rules, r.width cs = none) : rules.findSome? (lexeme? cs) = Option.none := by
  rw [findSome?_eq_none_iff]
  intro r member
  rw [lexeme?, none r member]
  rfl

end LexRule

/-- What is taken for a keyword. -/
def keywordLexeme? (cs : List Char) (k : String × TokenKind) : Option (Option TokenKind × Nat) :=
  (keywordWidth k.1 cs).map fun n => (some k.2, n)

theorem findSome?_functions (cs : List Char) :
    ((lexRules.drop 3).take 1).findSome? (LexRule.lexeme? cs) =
      (keywords.take 5).findSome? (keywordLexeme? cs) := by
  show List.findSome? _ [_] = _
  rw [findSome?_singleton]
  exact map_findSome?

/-- Where no quantifier, no blank and no sign begins the text, the keywords are tried one after the other,
and then a name. -/
theorem lexeme?_eq_or {n : Nat}
    (others : ∀ r ∈ lexRules.take 3 ++ (lexRules.drop 6).take 6, r.width cs = none)
    (name : runWidth isIdChar cs = some n) :
    lexeme? cs = (keywords.findSome? (keywordLexeme? cs)).or (some (some .id, n)) := by
  rw [forall_mem_append] at others
  have quantifiers := LexRule.findSome?_lexeme?_eq_none others.1
  have signs := LexRule.findSome?_lexeme?_eq_none others.2
  have last : (lexRules.drop 15).findSome? (LexRule.lexeme? cs) = some (some .id, n) := by
    have taken : LexRule.lexeme? cs ⟨some .id, runWidth isIdChar⟩ = some (some .id, n) :=
      congrArg (Option.map fun n => (some TokenKind.id, n)) name
    show List.findSome? _ (_ :: _) = _
    rw [findSome?_cons_of_isSome (by rw [taken]; rfl), taken]
  calc lexeme? cs
    _ = (lexRules.take 3 ++ ((lexRules.drop 3).take 1 ++ ((lexRules.drop 4).take 2 ++
          ((lexRules.drop 6).take 6 ++ ((lexRules.drop 12).take 3 ++ lexRules.drop 15))))).findSome?
            (LexRule.lexeme? cs) := rfl
    _ = ((keywords.take 5).findSome? (keywordLexeme? cs)).or
          ((((keywords.drop 5).take 2).findSome? (keywordLexeme? cs)).or
            (((keywords.drop 7).findSome? (keywordLexeme? cs)).or (some (some .id, n)))) := by
      simp only [findSome?_append, quantifiers, signs, last, Option.none_or, findSome?_functions]
      rfl
    _ = (keywords.findSome? (keywordLexeme? cs)).or (some (some .id, n)) := by
      rw [← Option.or_assoc, ← Option.or_assoc, ← findSome?_append, ← findSome?_append]
      rfl

theorem signWidth_eq_none {sign : String} {s : Char} {signs : List Char}
    (is : sign.toList = s :: signs) (other : isIdChar s = false) (id : isIdChar c = true)
    (rest : List Char) : signWidth sign (c :: rest) = none := by
  have different : (s == c) = false := by
    rw [beq_eq_false_iff_ne]
    rintro rfl
    rw [id] at other
    cases other
  rw [signWidth, wordWidth, is, startsWord, different]
  rfl

theorem runWidth_isBlank_eq_none (id : isIdChar c = true) (rest : List Char) :
    runWidth Text.isBlank (c :: rest) = none := by
  rw [runWidth, takeWhile_cons, isBlank_of_isIdChar id]
  rfl

theorem runWidth_isIdChar (word : IsWord cs) (follows : FollowsWord rest) :
    runWidth isIdChar (cs ++ rest) = some cs.length := by
  have stops : rest.takeWhile isIdChar = [] := by
    cases rest with
    | nil => rfl
    | cons x xs =>
      rw [takeWhile_cons, follows.stops x rfl]
      rfl
  have taken : (cs ++ rest).takeWhile isIdChar = cs := by
    rw [takeWhile_append_of_pos word.chars, stops, append_nil]
  have positive := length_pos_iff.mpr word.nonempty
  rw [runWidth, taken]
  split
  · omega
  · rename_i n long
    rw [long]

theorem others_of_isWord (word : IsWord cs) (follows : FollowsWord rest) :
    ∀ r ∈ lexRules.take 3 ++ (lexRules.drop 6).take 6, r.width (cs ++ rest) = none := by
  have one := startsWord_quantifier ['1'] (all_eq_true.mp rfl) word.chars follows
  have all := startsWord_quantifier ['a', 'l', 'l'] (all_eq_true.mp rfl) word.chars follows
  obtain ⟨c, front, rfl⟩ := exists_cons_of_ne_nil word.nonempty
  have id := word.chars c mem_cons_self
  have sign := fun {sign : String} {s : Char} {signs : List Char} (is : sign.toList = s :: signs)
    (other : isIdChar s = false) => signWidth_eq_none is other id (front ++ rest)
  simp only [lexRules, List.take, List.drop, cons_append, nil_append, forall_mem_cons]
  exact ⟨if_neg (Bool.eq_false_iff.mp one), if_neg (Bool.eq_false_iff.mp all),
    runWidth_isBlank_eq_none id _, sign rfl rfl, sign rfl rfl, sign rfl rfl, sign rfl rfl, sign rfl rfl,
    sign rfl rfl, forall_mem_nil _⟩

theorem findSome?_eq_map_find? {α β : Type} {f : α → Option β} {p : α → Bool} {g : α → β} {items : List α}
    (each : ∀ a ∈ items, f a = if p a = true then some (g a) else none) :
    items.findSome? f = (items.find? p).map g := by
  induction items with
  | nil => rfl
  | cons a rest ih =>
    rw [forall_mem_cons] at each
    rw [findSome?_cons, find?_cons, each.1, ih each.2]
    cases p a <;> rfl

/-- The first lexeme of a word is the keyword that begins it, or else the whole word as a name. -/
theorem lexeme?_word (word : IsWord cs) (follows : FollowsWord rest) :
    lexeme? (cs ++ rest) = ((leadingKeyword? cs).map fun k => (some k.2, k.1.toList.length)).or
      (some (some .id, cs.length)) := by
  have letters : ∀ k ∈ keywords, k.1.toList.all Char.isAlphanum = true := by decide
  have keyword : ∀ k ∈ keywords, keywordLexeme? (cs ++ rest) k =
      if startsWord foldsTo k.1.toList cs = true then some (some k.2, k.1.toList.length) else none := by
    intro k known
    have alphanum := all_eq_true.mp (letters k known)
    rw [keywordLexeme?, keywordWidth, wordWidth, startsWord_append _ cs alphanum follows, Option.map_if]
  rw [lexeme?_eq_or (others_of_isWord word follows) (runWidth_isIdChar word follows),
    findSome?_eq_map_find? keyword]
  rfl

/-! ## Words as tokens -/

theorem foldsTo_inj {k' : Char} (small : k.isLower = true) (small' : k'.isLower = true)
    (folds : foldsTo k c = true) (folds' : foldsTo k' c = true) : k = k' := by
  -- what stands for an s or an i without being one has no small letter of its own
  have special : ∀ k k' c : Char, k.isLower = true → c.toLower = k → foldsTo k' c = true → k = k' := by
    intro k k' c small low folds
    simp only [foldsTo, Bool.or_eq_true, Bool.and_eq_true, beq_iff_eq] at folds
    have far : ∀ x : Char, c.toNat = x.toNat → x.toLower.isLower = false → k = k' := by
      intro x same other
      obtain rfl : c = x := Char.toNat_inj.mp same
      rw [low, small] at other
      cases other
    rcases folds with (low' | ⟨-, long⟩) | ⟨-, dotted | dotless⟩
    · exact low.symm.trans low'
    · exact far 'ſ' long (by decide)
    · exact far 'İ' dotted (by decide)
    · exact far 'ı' dotless (by decide)
  by_cases low : c.toLower = k
  · exact special k k' c small low folds'
  · by_cases low' : c.toLower = k'
    · exact (special k' k c small' low' folds).symm
    · simp only [foldsTo, Bool.or_eq_true, Bool.and_eq_true, beq_iff_eq, low, low',
        false_or] at folds folds'
      rcases folds with ⟨rfl, long⟩ | ⟨rfl, dot⟩ <;> rcases folds' with ⟨rfl, long'⟩ | ⟨rfl, dot'⟩
      · rfl
      · omega
      · omega
      · rfl

theorem prefix_of_startsWord {ks ks' : List Char} (small : ∀ k ∈ ks, k.isLower = true)
    (small' : ∀ k ∈ ks', k.isLower = true) (starts : startsWord foldsTo ks cs = true)
    (starts' : startsWord foldsTo ks' cs = true) : ks <+: ks' ∨ ks' <+: ks := by
  induction ks generalizing ks' cs with
  | nil => exact .inl nil_prefix
  | cons k ks ih =>
    cases ks' with
    | nil => exact .inr nil_prefix
    | cons k' ks' =>
      cases cs with
      | nil => cases starts
      | cons c cs =>
        simp only [startsWord, Bool.and_eq_true] at starts starts'
        rw [forall_mem_cons] at small small'
        obtain rfl := foldsTo_inj small.1 small'.1 starts.1 starts'.1
        rw [cons_prefix_cons, cons_prefix_cons]
        exact (ih small.2 small'.2 starts.2 starts'.2).imp (⟨rfl, ·⟩) (⟨rfl, ·⟩)

theorem leadingKeyword?_eq_some {k : String × TokenKind} (known : k ∈ keywords)
    (begins : BeginsWith k.1 text) : leadingKeyword? text = some k := by
  have lower : ∀ k ∈ keywords, k.1.toList.all Char.isLower = true := by decide
  have apart : ∀ k ∈ keywords, ∀ k' ∈ keywords, k.1.toList <+: k'.1.toList → k = k' := by decide
  cases found : leadingKeyword? text with
  | none => exact absurd begins (leadingKeyword?_eq_none_iff.mp found k known)
  | some k' =>
    have known' := mem_of_find?_eq_some found
    have begins' := find?_some found
    have small := all_eq_true.mp (lower k known)
    have small' := all_eq_true.mp (lower k' known')
    rcases prefix_of_startsWord small small' (beginsWith_iff.mp begins) begins' with front | front
    · rw [apart k known k' known' front]
    · rw [apart k' known' k known front]

/-- A word as keywords and, after them, at most one name. -/
inductive WordCut : Nat → List Char → List Token → Prop
  | nil (position : Nat) : WordCut position [] []
  | name {position : Nat} {cs : List Char} (word : IsWord cs) (name : IsName cs) :
      WordCut position cs [⟨.id, String.ofList cs, position⟩]
  | keyword {position : Nat} {k : String × TokenKind} {letters rest : List Char} {tokens : List Token}
      (known : k ∈ keywords) (spells : Spells k.1 letters)
      (later : WordCut (position + letters.length) rest tokens) :
      WordCut position (letters ++ rest) (⟨k.2, String.ofList letters, position⟩ :: tokens)

theorem Spells.ne_nil {k : String × TokenKind} (known : k ∈ keywords) {letters : List Char}
    (spells : Spells k.1 letters) : letters ≠ [] := by
  have long : ∀ k ∈ keywords, k.1.toList ≠ [] := by decide
  rintro rfl
  exact long k known (forall₂_nil_right_iff.mp spells)

theorem exists_wordCut (position : Nat) (chars : ∀ c ∈ cs, isIdChar c = true) :
    ∃ tokens, WordCut position cs tokens := by
  induction long : cs.length using Nat.strongRecOn generalizing position cs with
  | ind n ih =>
    by_cases empty : cs = []
    · exact ⟨[], empty ▸ .nil position⟩
    · by_cases name : IsName cs
      · exact ⟨_, .name ⟨empty, chars⟩ name⟩
      · simp only [IsName, not_forall, not_not] at name
        obtain ⟨k, known, letters, ⟨rest, rfl⟩, spells⟩ := name
        have positive := length_pos_iff.mpr (spells.ne_nil known)
        rw [length_append] at long
        rw [forall_mem_append] at chars
        obtain ⟨tokens, later⟩ := ih rest.length (by omega) (position + letters.length) chars.2 rfl
        exact ⟨_, .keyword known spells later⟩

theorem WordCut.tokensFrom_append {more : List Token} (cut : WordCut position cs tokens)
    (chars : ∀ c ∈ cs, isIdChar c = true) (follows : FollowsWord rest)
    (after : tokensFrom (position + cs.length) rest = .ok more) :
    tokensFrom position (cs ++ rest) = .ok (tokens ++ more) := by
  induction cut with
  | nil position => exact after
  | @name position cs word name =>
    have found : lexeme? (cs ++ rest) = some (some .id, cs.length) := by
      rw [lexeme?_word word follows, leadingKeyword?_eq_none_iff.mpr name]
      rfl
    have tokens : tokensFrom position (cs ++ rest) = _ :=
      tokensFrom_of_lexeme found (by rwa [drop_left])
    rwa [take_left] at tokens
  | @keyword position k letters others tokens known spells later ih =>
    rw [length_append, ← Nat.add_assoc] at after
    have word : IsWord (letters ++ others) := ⟨by simp [spells.ne_nil known], chars⟩
    rw [forall_mem_append] at chars
    have begins : BeginsWith k.1 (letters ++ others) := ⟨letters, prefix_append _ _, spells⟩
    have found : lexeme? (letters ++ (others ++ rest)) = some (some k.2, letters.length) := by
      rw [← append_assoc, lexeme?_word word follows, leadingKeyword?_eq_some known begins,
        ← Forall₂.length_eq spells]
      rfl
    have tokens := tokensFrom_of_lexeme found (by rw [drop_left]; exact ih chars.2 after)
    rw [take_left] at tokens
    rw [append_assoc]
    exact tokens

/-- The cut of a word is one name exactly if no keyword begins the word. -/
theorem WordCut.eq_name_iff (cut : WordCut position cs tokens) (word : IsWord cs) :
    tokens = [⟨.id, String.ofList cs, position⟩] ↔ IsName cs := by
  cases cut with
  | nil => exact absurd rfl word.nonempty
  | name _ name => exact iff_of_true rfl name
  | @keyword _ k letters rest tokens known spells later =>
    have kinds : ∀ k ∈ keywords, k.2 ≠ .id := by decide
    refine iff_of_false ?_ ?_
    · intro same
      exact kinds k known (congrArg Token.kind (List.cons.inj same).1)
    · intro name
      exact name k known ⟨letters, prefix_append _ _, spells⟩

/-! ## Words in a condition -/

theorem tokensFrom_nil (position : Nat) : tokensFrom position [] = .ok [] := by
  unfold tokensFrom
  rfl

theorem WordCut.tokensFrom_eq (cut : WordCut position cs tokens) (word : IsWord cs) :
    tokensFrom position cs = .ok tokens := by
  have whole := cut.tokensFrom_append word.chars followsWord_nil (tokensFrom_nil _)
  rwa [append_nil, append_nil] at whole

theorem lexeme?_blank_word (word : IsWord cs) : lexeme? (' ' :: cs) = some (none, 1) := by
  obtain ⟨c, front, rfl⟩ := exists_cons_of_ne_nil word.nonempty
  have run : runWidth Text.isBlank (' ' :: c :: front) = some 1 := by
    rw [runWidth, takeWhile_cons, takeWhile_cons, isBlank_of_isIdChar (word.chars c mem_cons_self)]
    rfl
  have one : keywordWidth "1 of" (' ' :: c :: front) = none := rfl
  have all : keywordWidth "all of" (' ' :: c :: front) = none := rfl
  simp only [lexeme?, lexRules, findSome?_cons, one, all, run, Option.map_none, Option.map_some]

theorem WordCut.tokensFrom_and (word : IsWord cs) (cut : WordCut (position + 5) cs tokens) :
    tokensFrom position (" and ".toList ++ cs) = .ok (⟨.and, "and", position + 1⟩ :: tokens) := by
  have second : tokensFrom (position + 4) (' ' :: cs) = .ok tokens :=
    tokensFrom_of_lexeme (k := none) (n := 1) (lexeme?_blank_word word) (cut.tokensFrom_eq word)
  have sign : tokensFrom (position + 1) ("and".toList ++ ' ' :: cs) =
      .ok (⟨.and, "and", position + 1⟩ :: tokens) :=
    tokensFrom_of_lexeme (k := some .and) (n := 3) rfl second
  exact tokensFrom_of_lexeme (k := none) (n := 1) rfl sign

theorem followsWord_and (cs : List Char) : FollowsWord (" and ".toList ++ cs) where
  stops c first := by
    obtain rfl : ' ' = c := Option.some.inj first
    decide
  noQuantifier := rfl

/-- **Names in a condition**: a word is cut into keywords and, after them, at most one name, alone and as
an operand of a conjunction. So it is one name exactly if no keyword begins it, in any case. -/
theorem tokenize_word {a n : String} (left : IsWord a.toList) (right : IsWord n.toList) :
    (tokenize n = .ok [⟨.id, n, 1⟩] ↔ IsName n.toList) ∧
    (tokenize (a ++ " and " ++ n) =
        .ok [⟨.id, a, 1⟩, ⟨.and, "and", a.length + 2⟩, ⟨.id, n, a.length + 6⟩] ↔
      IsName a.toList ∧ IsName n.toList) ∧
    ∃ alone first second, WordCut 1 n.toList alone ∧ WordCut 1 a.toList first ∧
      WordCut (a.length + 6) n.toList second ∧ tokenize n = .ok alone ∧
      tokenize (a ++ " and " ++ n) = .ok (first ++ ⟨.and, "and", a.length + 2⟩ :: second) := by
  obtain ⟨alone, cut⟩ := exists_wordCut 1 right.chars
  obtain ⟨first, cutLeft⟩ := exists_wordCut 1 left.chars
  obtain ⟨second, cutRight⟩ := exists_wordCut (a.length + 6) right.chars
  have single : tokenize n = .ok alone := cut.tokensFrom_eq right
  have both : tokenize (a ++ " and " ++ n) =
      .ok (first ++ ⟨.and, "and", a.length + 2⟩ :: second) := by
    have place : 1 + a.toList.length = a.length + 1 := by
      rw [String.length_toList, Nat.add_comm]
    rw [tokenize, String.toList_append, String.toList_append, List.append_assoc]
    refine cutLeft.tokensFrom_append left.chars (followsWord_and _) ?_
    rw [place]
    exact WordCut.tokensFrom_and right cutRight
  refine ⟨?_, ?_, alone, first, second, cut, cutLeft, cutRight, single, both⟩
  · rw [single, ← cut.eq_name_iff right, String.ofList_toList, Except.ok.injEq]
  · rw [both, ← cutLeft.eq_name_iff left, ← cutRight.eq_name_iff right, String.ofList_toList,
      String.ofList_toList, Except.ok.injEq]
    -- the tokens of the two names stand on the two sides of the conjunction
    constructor
    · intro same
      rcases first with _ | ⟨x, _ | ⟨y, _ | ⟨z, more⟩⟩⟩ <;> simp_all
    · rintro ⟨rfl, rfl⟩
      rfl

instance (text : List Char) : Decidable (IsName text) :=
  decidable_of_iff _ leadingKeyword?_eq_none_iff

/-- Two names that begin with letters of keywords only. -/
theorem tokenize_word_names : IsWord "selection_by".toList ∧ IsWord "Nanny*".toList ∧
    tokenize "Nanny*" = .ok [⟨.id, "Nanny*", 1⟩] ∧ tokenize "selection_by and Nanny*" =
      .ok [⟨.id, "selection_by", 1⟩, ⟨.and, "and", 14⟩, ⟨.id, "Nanny*", 18⟩] := by
  have left : IsWord "selection_by".toList := ⟨by decide, List.all_eq_true.mp (by decide)⟩
  have right : IsWord "Nanny*".toList := ⟨by decide, List.all_eq_true.mp (by decide)⟩
  obtain ⟨single, both, -⟩ := tokenize_word left right
  exact ⟨left, right, single.mpr (by decide), both.mpr ⟨by decide, by decide⟩⟩

/-- A word that is no keyword is no name either if a keyword begins it. -/
theorem tokenize_android : IsWord "android".toList ∧ (¬ ∃ k ∈ keywords, Spells k.1 "android".toList) ∧
    tokenize "android" = .ok [⟨.and, "and", 1⟩, ⟨.id, "roid", 4⟩] := by
  refine ⟨⟨by decide, List.all_eq_true.mp (by decide)⟩, ?_, ?_⟩
  · rintro ⟨k, known, spells⟩
    have short : ∀ k ∈ keywords, k.1.toList.length < 7 := by decide
    have long := short k known
    rw [spells.length_eq] at long
    exact absurd long (by decide)
  · have name : tokensFrom 4 "roid".toList = .ok [⟨.id, "roid", 4⟩] :=
      tokensFrom_of_lexeme (k := some .id) (n := 4) rfl (tokensFrom_nil _)
    exact tokensFrom_of_lexeme (k := some .and) (n := 3) rfl name

end SigmaQuery
