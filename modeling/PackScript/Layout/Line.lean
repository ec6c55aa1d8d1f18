import PackScript.Text.Blank

/-! # Lines of characters

What the layout of a source file needs to know of its lines: where blank space begins and
ends, and the pieces between separators.
-/
namespace PackScript.Layout

abbrev Line := List Char

/-- A character that only takes up space. -/
def isSpace (c : Char) : Bool := Blank.blanks.contains c.toNat

/-- A character that a line may be indented with. -/
def isIndent (c : Char) : Bool := c = ' ' || c = '\t'

namespace Line

def trimRight (l : Line) : Line := (l.reverse.dropWhile isSpace).reverse

def trim (l : Line) : Line := trimRight (l.dropWhile isSpace)

/-- A line that starts with a blank or a tab. -/
def isIndented : Line → Bool
  | c :: _ => isIndent c
  | [] => false

/-- A line as UTF-8. -/
def encode (l : Line) : Bytes := l.flatMap Utf8.encode

end Line

/-- The pieces between the elements that satisfy `p`: always one more than there are of those. -/
def piecesAt {α : Type} (p : α → Bool) : List α → List (List α)
  | [] => [[]]
  | a :: as =>
    if p a then [] :: piecesAt p as
    else match piecesAt p as with
      | [] => [[a]]
      | piece :: rest => (a :: piece) :: rest

/-- The lines of a text, without the line breaks between them. -/
def linesOf (cs : List Char) : List Line := piecesAt (· = '\n') cs

/-- The lines with a line break between neighbours. -/
def joinLines (ls : List Line) : List Char := List.intercalate ['\n'] ls

/-- The longest common beginning of two lines whose characters all satisfy `p`. -/
def commonStart (p : Char → Bool) : Line → Line → Line
  | a :: as, b :: bs => if a = b ∧ p a then a :: commonStart p as bs else []
  | _, _ => []

/-- The line without `tail` at its end, if it ends so. -/
def dropTail (tail l : Line) : Line :=
  if tail.isSuffixOf l then l.take (l.length - tail.length) else l

end PackScript.Layout
