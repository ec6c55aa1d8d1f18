import PackScript.Layout.Line

/-! # Comments of several lines

The lines of a comment between `/*` and `*/` are moved to the left together: what they
have in common at their start goes, so that text which was aligned stays aligned.
-/
namespace PackScript.Layout.BlockRemark

/-- A control character or a blank. -/
def isWhite (c : Char) : Bool := c.toNat ≤ 32

def isWhiteLine (l : Line) : Bool := l.all isWhite

/-- The common start of two lines as far as it is blank space and stars. -/
def margin (a b : Line) : Line := commonStart (fun c => isWhite c || c = '*') a b

/-- The margin of the lines between the first and the last; if they are all blank, that of the
last line. -/
def commonMargin (inner : List Line) (last : Line) : Line :=
  match inner.filter (fun l => !isWhiteLine l) with
  | [] => margin last last
  | l :: ls => ls.foldl margin (margin l l)

/-- What the space behind the opening of a comment with text on its first line amounts to in
the lines below: the opening counts as two blanks, unless a tab follows it. -/
def openingSpace (first : Line) : Line :=
  let space := (first.drop 2).takeWhile isWhite
  if space.head? = some '\t' then space else ' ' :: ' ' :: space

/-- How much of the margin remains when text stays indented against the opening: up to three
blanks, or a tab, are kept by the lines. -/
def openingMargin (m : Line) : Line :=
  let blanks := ((m.reverse.takeWhile (· = ' ')).take 3).length
  if blanks = 0 then dropTail ['\t'] m else m.take (m.length - blanks)

/-- The part of the line before the end of the comment. -/
def beforeClosing : Line → Line
  | '*' :: '/' :: _ => []
  | c :: cs => c :: beforeClosing cs
  | [] => []

/-- The margin that all lines but the first lose, and whether they start with stars, which
stay. -/
def finalMargin (first : Line) (m : Line) : Line × Bool :=
  if m.contains '*' then (dropTail [' '] (m.takeWhile (· ≠ '*')), true)
  else if isWhiteLine (first.drop 2) then (openingMargin m, false)
  else (dropTail (openingSpace first) m, false)

/-- The lines of a comment, moved to the left. A last line that only closes the comment is
aligned with its opening. -/
def unindent (lines : List Line) : List Line :=
  match lines with
  | first :: second :: rest =>
    let last := (second :: rest).getLast?.getD []
    let inner := (second :: rest).dropLast
    let (m, stars) := finalMargin first (commonMargin inner last)
    let (m, closing) :=
      if isWhiteLine (beforeClosing last) then (m, if stars then " */".toList else "*/".toList)
      else
        let m := margin m last
        (m, last.drop m.length)
    first :: inner.map (fun l => if isWhiteLine l then [] else l.drop m.length) ++ [closing]
  | _ => lines

end PackScript.Layout.BlockRemark
