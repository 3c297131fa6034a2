import SigmaQuery.Text.Blank

/-!
# Escaping

Target languages put a backslash before characters that have a meaning to them. A backslash of the
text is escaped as well, unless it stands before a star or a question mark: there it already takes
away the meaning of a wildcard.
-/

namespace SigmaQuery.Text

/-- What a language escapes. -/
structure EscapeRule where
  /-- Characters with a meaning of their own. -/
  special : Char → Bool
  /-- Backslashes are escaped where they stand before no wildcard. -/
  backslash : Bool := false
  /-- Characters with a meaning when they stand twice. -/
  doubled : Char → Bool := fun _ => false
  /-- Characters that are left out in the end. -/
  dropped : Char → Bool := fun _ => false

def startsWildcard : List Char → Bool
  | c :: _ => c == '*' || c == '?'
  | [] => false

namespace EscapeRule

/-- The first character of a text is escaped by itself. -/
def marks (r : EscapeRule) (c : Char) (rest : List Char) : Bool :=
  r.special c || (r.backslash && c == '\\' && !startsWildcard rest)

/-- Puts a backslash before everything that has a meaning. -/
def mark (r : EscapeRule) : List Char → List Char
  | [] => []
  | [c] => if r.marks c [] then ['\\', c] else [c]
  | c :: d :: rest =>
    if r.marks c (d :: rest) then '\\' :: c :: mark r (d :: rest)
    else if r.doubled c && d == c then '\\' :: c :: d :: mark r rest
    else c :: mark r (d :: rest)

def apply (r : EscapeRule) (cs : List Char) : List Char :=
  (r.mark cs).filter fun c => !r.dropped c

def text (r : EscapeRule) (s : String) : String :=
  String.ofList (r.apply s.toList)

end EscapeRule

def noEscape : EscapeRule := ⟨fun _ => false, false, fun _ => false, fun _ => false⟩

def quoteEscape : EscapeRule := { special := (· == '"'), backslash := true }

def plainQuoteEscape : EscapeRule := { special := (· == '"') }

def replaceEach (f : Char → List Char) (s : String) : String :=
  String.ofList (s.toList.flatMap f)

def replaceChar (old : Char) (new : String) (s : String) : String :=
  replaceEach (fun c => if c == old then new.toList else [c]) s

/-! ## Wildcards -/

def hasStar (s : String) : Bool :=
  s.toList.contains '*'

/-- A star stands between the first and the last character. -/
def hasInnerStar (s : String) : Bool :=
  (s.toList.drop 1).dropLast.contains '*'

def startsWithStar (s : String) : Bool :=
  s.toList.head? == some '*'

def endsWithStar (s : String) : Bool :=
  s.toList.getLast? == some '*'

/-- What has a meaning in a regular expression or a quoted text. -/
def regexEscape : EscapeRule :=
  { special := fun c => c == '"' || c == '.' || c == '^' || c == '$', backslash := true }

/-- A text with wildcards as a regular expression: a star is any characters, a question mark one. -/
def regexOf (s : String) : String :=
  replaceEach (fun c => if c == '*' then ['.', '*'] else if c == '?' then ['.'] else [c])
    (regexEscape.text s)

/-- Leaves out the stars, each with a backslash that follows it. -/
def dropStars : List Char → List Char
  | '*' :: '\\' :: rest => dropStars rest
  | '*' :: rest => dropStars rest
  | c :: rest => c :: dropStars rest
  | [] => []

def withoutStars (s : String) : String :=
  String.ofList (dropStars s.toList)

/-- A star or a question mark stands in the text with no backslash before it. -/
def hasWildcard (s : String) : Bool :=
  go false s.toList
where
  /-- The characters after one that is a backslash or not. -/
  go (escaped : Bool) : List Char → Bool
    | [] => false
    | c :: rest => (!escaped && (c == '*' || c == '?')) || go (c == '\\') rest

end SigmaQuery.Text
