/-!
# Padding

Blanks that fill a text to a width. A text that is wider stays as it is.
-/

namespace SigmaQuery.Text

def blanks (n : Nat) : String :=
  String.ofList (List.replicate n ' ')

/-- The text at the right end of a column. -/
def padStart (width : Nat) (s : String) : String :=
  blanks (width - s.length) ++ s

def padEnd (width : Nat) (s : String) : String :=
  s ++ blanks (width - s.length)

end SigmaQuery.Text
