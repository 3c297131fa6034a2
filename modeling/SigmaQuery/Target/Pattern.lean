import SigmaQuery.Fault
import SigmaQuery.Text.Padding

/-!
# Patterns

A pattern is a text with places that are filled with other texts, from left to right. The number of
texts must be that of the places. A place may have a layout: the text is quoted, cut or filled up with
blanks.

Written down, a place is a percent sign, a layout and a letter. Places for numbers can be written, but
no text fits into them.
-/

namespace SigmaQuery

/-- How the text of a place is laid out. -/
structure Layout where
  /-- The text stands in quotes. -/
  quoted : Bool := false
  /-- Only a single character fits. -/
  single : Bool := false
  /-- How much of the text is kept. -/
  limit : Option Nat := none
  /-- The length that blanks fill the text up to. -/
  width : Nat := 0
  /-- The blanks come after the text. -/
  blanksAfter : Bool := false
deriving DecidableEq, Repr, Inhabited

/-- A part of a pattern. -/
inductive Piece where
  | text (s : String)
  | slot
  /-- A place with a layout. -/
  | laidOut (l : Layout)
  /-- A place that no text fits into. -/
  | unfit
  /-- A place of an unknown kind. -/
  | unknown
  /-- A place that the end of the pattern cuts off. -/
  | cutOff
deriving DecidableEq, Repr, Inhabited

/-- A text with places. -/
abbrev Pattern := List Piece

namespace Layout

/-- The text as it is laid out, if it fits. -/
def write (l : Layout) (s : String) : Option String :=
  if l.single && s.length != 1 then none
  else
    let shown := if l.quoted then Text.quoted s else s
    let kept := match l.limit with
      | some n => if l.single then shown else String.ofList (shown.toList.take n)
      | none => shown
    some (if l.blanksAfter then Text.padEnd l.width kept else Text.padStart l.width kept)

end Layout

namespace Pattern

def fill : Pattern → List String → Except Fault String
  | [], [] => .ok ""
  | [], _ :: _ => .error .wrongType
  | .text s :: rest, args => (fill rest args).map (s ++ ·)
  | .unfit :: _, _ => .error .wrongType
  | .cutOff :: _, _ => .error .noValue
  | _ :: _, [] => .error .wrongType
  | .slot :: rest, a :: args => (fill rest args).map (a ++ ·)
  | .laidOut l :: rest, a :: args => match l.write a with
    | some s => (fill rest args).map (s ++ ·)
    | none => .error .wrongType
  | .unknown :: _, _ :: _ => .error .noValue

def around (before after : String) : Pattern :=
  [.text before, .slot, .text after]

def between (middle : String) : Pattern :=
  [.slot, .text middle, .slot]

/-! ## Reading -/

/-- The number at the start of a text. Without a digit it is zero. -/
def leadingNumber (cs : List Char) : Nat :=
  (cs.takeWhile Char.isDigit).foldl (fun n c => 10 * n + (c.toNat - 48)) 0

def pieceOf (l : Layout) (letter : Char) : Piece :=
  if letter = '%' then .text "%"
  else if letter = 's' then if l = {} then .slot else .laidOut l
  else if letter = 'r' || letter = 'a' then .laidOut { l with quoted := true }
  else if letter = 'c' then .laidOut { l with single := true }
  else if "diuoxXeEfFgG".toList.contains letter then .unfit
  else .unknown

/-- The limit in a layout, and what follows it. -/
def splitLimit : List Char → Option Nat × List Char
  | '.' :: cs => (some (leadingNumber cs), cs.dropWhile Char.isDigit)
  | cs => (none, cs)

/-- What follows a mark of a number's size, which means nothing for a text. -/
def dropSize : List Char → List Char
  | c :: cs => if "hlL".toList.contains c then cs else c :: cs
  | [] => []

/-- The place after a percent sign, and what follows it. A bracket asks for a text by its name, which
no text has, and a star asks for a number. -/
def splitPlace (cs : List Char) : Piece × List Char :=
  let flags := cs.takeWhile "-+ #0".toList.contains
  let sized := cs.dropWhile "-+ #0".toList.contains
  let (limit, rest) := splitLimit (sized.dropWhile Char.isDigit)
  match dropSize rest with
  | [] => (.cutOff, [])
  | letter :: rest =>
    if cs.head? = some '(' || letter = '*' then (.unfit, [])
    else (pieceOf { limit, width := leadingNumber sized, blanksAfter := flags.contains '-' } letter,
      rest)

theorem length_dropWhile_le (p : Char → Bool) (cs : List Char) :
    (cs.dropWhile p).length ≤ cs.length :=
  (List.dropWhile_suffix p).length_le

theorem length_splitLimit_le (cs : List Char) : (splitLimit cs).2.length ≤ cs.length := by
  unfold splitLimit
  split
  · exact Nat.le_succ_of_le (length_dropWhile_le _ _)
  · exact Nat.le_refl _

theorem length_dropSize_le (cs : List Char) : (dropSize cs).length ≤ cs.length := by
  unfold dropSize
  split
  · split
    · exact Nat.le_succ _
    · exact Nat.le_refl _
  · exact Nat.le_refl _

/-- Reading a place leaves no more than there was. -/
theorem length_splitPlace_le (cs : List Char) : (splitPlace cs).2.length ≤ cs.length := by
  have sized := length_dropWhile_le "-+ #0".toList.contains cs
  have digits := length_dropWhile_le Char.isDigit (cs.dropWhile "-+ #0".toList.contains)
  have limit := length_splitLimit_le ((cs.dropWhile "-+ #0".toList.contains).dropWhile Char.isDigit)
  have size := length_dropSize_le
    (splitLimit ((cs.dropWhile "-+ #0".toList.contains).dropWhile Char.isDigit)).2
  simp only [splitPlace]
  split
  · exact Nat.zero_le _
  · rename_i letter rest found
    rw [found, List.length_cons] at size
    split
    · exact Nat.zero_le _
    · dsimp only
      omega

def ofChars : List Char → Pattern
  | [] => []
  | '%' :: cs => (splitPlace cs).1 :: ofChars (splitPlace cs).2
  | c :: cs => .text c.toString :: ofChars cs
termination_by cs => cs.length
decreasing_by
  · have := length_splitPlace_le cs
    simp only [List.length_cons]
    omega
  · simp

def ofString (s : String) : Pattern :=
  ofChars s.toList

end Pattern

end SigmaQuery
