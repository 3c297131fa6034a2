import SigmaQuery.Fault
import SigmaQuery.Text.Alphanumeric
import SigmaQuery.Text.Blank

/-!
# Tokens of a condition

A condition is cut into tokens from left to right. At each place the first rule of a fixed list that
matches gives the token. Keywords are found without regard to case, and also at the start of a
longer word. Blanks give no token.

Main statement: every rule takes at least one character (`lexeme?_pos`), so the cutting ends.
-/

namespace SigmaQuery

inductive TokenKind where
  | and | or | not | id | lpar | rpar | pipe | one | all | agg
  | eq | lt | lte | gt | gte | by | near
deriving DecidableEq, Repr, Inhabited

namespace TokenKind

def number : TokenKind → Nat
  | .and => 1 | .or => 2 | .not => 3 | .id => 4 | .lpar => 5 | .rpar => 6 | .pipe => 7
  | .one => 8 | .all => 9 | .agg => 10 | .eq => 11 | .lt => 12 | .lte => 13 | .gt => 14
  | .gte => 15 | .by => 16 | .near => 17

def name : TokenKind → String
  | .and => "AND" | .or => "OR" | .not => "NOT" | .id => "ID" | .lpar => "LPAR"
  | .rpar => "RPAR" | .pipe => "PIPE" | .one => "ONE" | .all => "ALL" | .agg => "AGG"
  | .eq => "EQ" | .lt => "LT" | .lte => "LTE" | .gt => "GT" | .gte => "GTE"
  | .by => "BY" | .near => "NEAR"

end TokenKind

/-- A token: its kind, its text, and the place of its first character, counted from one. -/
structure Token where
  kind : TokenKind
  text : String
  position : Nat
deriving DecidableEq, Repr, Inhabited

namespace Token

def display (t : Token) : String :=
  "[ Token: " ++ t.kind.name ++ ": '" ++ t.text ++ "' ]"

/-- Comparison with a value. A number is compared with the kind, a text with the token's text. -/
def equals (t : Token) : Value → Except Fault Bool
  | .int n => .ok (n == t.kind.number)
  | .text s => .ok (s == t.text)
  | _ => .error (.unoffered .tokenComparison)

end Token

/-! ## Lexical rules -/

/-- The character is the small letter `k` in some case. The long s counts as an s, and the i
without and the I with a dot count as an i. -/
def foldsTo (k c : Char) : Bool :=
  c.toLower == k || (k == 's' && c.toNat == 0x17f) ||
    (k == 'i' && (c.toNat == 0x130 || c.toNat == 0x131))

/-- The text begins with the word, letter by letter under `matches`. -/
def startsWord (eq : Char → Char → Bool) : List Char → List Char → Bool
  | [], _ => true
  | _ :: _, [] => false
  | k :: ks, c :: cs => eq k c && startsWord eq ks cs

/-- The width of a word at the start of the text. -/
def wordWidth (eq : Char → Char → Bool) (word : List Char) (cs : List Char) : Option Nat :=
  if startsWord eq word cs then some word.length else none

/-- The width of a keyword at the start of the text, in any case. -/
def keywordWidth (word : String) (cs : List Char) : Option Nat :=
  wordWidth foldsTo word.toList cs

/-- The width of a sign at the start of the text. -/
def signWidth (sign : String) (cs : List Char) : Option Nat :=
  wordWidth (· == ·) sign.toList cs

/-- The width of the first of some keywords at the start of the text. -/
def keywordsWidth (words : List String) (cs : List Char) : Option Nat :=
  words.findSome? (keywordWidth · cs)

/-- The width of a non-empty run of characters of a class. -/
def runWidth (p : Char → Bool) (cs : List Char) : Option Nat :=
  match (cs.takeWhile p).length with
  | 0 => none
  | n + 1 => some (n + 1)

/-- A character of an identifier: a word character or a star. -/
def isIdChar (c : Char) : Bool :=
  c == '*' || Text.isWordChar c

/-- The kind of the token that a rule gives, if it gives one, and the rule itself. -/
structure LexRule where
  kind : Option TokenKind
  width : List Char → Option Nat

/-- The rules, in the order in which they are tried. -/
def lexRules : List LexRule :=
  [⟨some .one, keywordWidth "1 of"⟩,
   ⟨some .all, keywordWidth "all of"⟩,
   ⟨none, runWidth Text.isBlank⟩,
   ⟨some .agg, keywordsWidth ["count", "min", "max", "avg", "sum"]⟩,
   ⟨some .near, keywordWidth "near"⟩,
   ⟨some .by, keywordWidth "by"⟩,
   ⟨some .eq, signWidth "=="⟩,
   ⟨some .lt, signWidth "<"⟩,
   ⟨some .lte, signWidth "<="⟩,
   ⟨some .gt, signWidth ">"⟩,
   ⟨some .gte, signWidth ">="⟩,
   ⟨some .pipe, signWidth "|"⟩,
   ⟨some .and, keywordWidth "and"⟩,
   ⟨some .or, keywordWidth "or"⟩,
   ⟨some .not, keywordWidth "not"⟩,
   ⟨some .id, runWidth isIdChar⟩,
   ⟨some .lpar, signWidth "("⟩,
   ⟨some .rpar, signWidth ")"⟩]

/-- The kind and the width of the first lexeme of a text. -/
def lexeme? (cs : List Char) : Option (Option TokenKind × Nat) :=
  lexRules.findSome? fun r => (r.width cs).map fun n => (r.kind, n)

/-! ## Every rule takes a character -/

theorem wordWidth_eq_some {eq : Char → Char → Bool} {word cs : List Char} {n : Nat}
    (h : wordWidth eq word cs = some n) : n = word.length := by
  unfold wordWidth at h
  split at h
  · exact (Option.some.inj h).symm
  · exact absurd h (by simp)

theorem runWidth_pos {p : Char → Bool} {cs : List Char} {n : Nat}
    (h : runWidth p cs = some n) : 0 < n := by
  unfold runWidth at h
  split at h
  · exact absurd h (by simp)
  · have := Option.some.inj h
    omega

theorem keywordsWidth_pos {words : List String} (nonempty : ∀ w ∈ words, 0 < w.toList.length)
    {cs : List Char} {n : Nat} (h : keywordsWidth words cs = some n) : 0 < n := by
  obtain ⟨w, member, found⟩ := List.exists_of_findSome?_eq_some h
  rw [wordWidth_eq_some found]
  exact nonempty w member

/-- Each rule of the list takes at least one character. -/
theorem lexRule_pos {r : LexRule} (member : r ∈ lexRules) {cs : List Char} {n : Nat}
    (h : r.width cs = some n) : 0 < n := by
  simp only [lexRules, List.mem_cons, List.not_mem_nil, or_false] at member
  rcases member with rfl | rfl | rfl | rfl | rfl | rfl | rfl | rfl | rfl | rfl | rfl | rfl |
    rfl | rfl | rfl | rfl | rfl | rfl
  case inr.inr.inl => exact runWidth_pos h
  case inr.inr.inr.inl => exact keywordsWidth_pos (by decide) h
  case inr.inr.inr.inr.inr.inr.inr.inr.inr.inr.inr.inr.inr.inr.inr.inl => exact runWidth_pos h
  all_goals
    have := wordWidth_eq_some h
    rw [this]
    decide

theorem lexeme?_pos {cs : List Char} {k : Option TokenKind} {n : Nat}
    (h : lexeme? cs = some (k, n)) : 0 < n := by
  obtain ⟨r, member, found⟩ := List.exists_of_findSome?_eq_some h
  obtain ⟨m, width, same⟩ := Option.map_eq_some_iff.mp found
  obtain rfl : m = n := (Prod.mk.inj same).2
  exact lexRule_pos member width

/-! ## Cutting -/

/-- The tokens of a text whose first character stands at `position`. -/
def tokensFrom (position : Nat) (cs : List Char) : Except Fault (List Token) :=
  match cs with
  | [] => .ok []
  | c :: rest => match _found : lexeme? (c :: rest) with
    | none => .error (.parse (.unexpectedText (String.ofList (c :: rest))))
    | some (kind, n) => match tokensFrom (position + n) ((c :: rest).drop n) with
      | .error e => .error e
      | .ok tokens => match kind with
        | none => .ok tokens
        | some k => .ok (⟨k, String.ofList ((c :: rest).take n), position⟩ :: tokens)
termination_by cs.length
decreasing_by
  have := lexeme?_pos _found
  simp only [List.length_drop, List.length_cons]
  omega

def tokenize (condition : String) : Except Fault (List Token) :=
  tokensFrom 1 condition.toList

/-- Tokens as shown, with a blank between them. -/
def displayTokens (tokens : List Token) : String :=
  " ".intercalate (tokens.map Token.display)

end SigmaQuery
