import PackScript.Layout.Line

/-! # Glyphs and columns

A page of source text before its columns are set. A tab ends a cell, and the cells that
end in lines directly below one another form a column, as wide as its widest cell and one
blank. An empty line, a line without that cell, and a form feed end a column.
-/
namespace PackScript.Layout

inductive Glyph where
  /-- A piece of text that is kept as it is. -/
  | text (cs : List Char)
  /-- A comment that runs to the end of its line. -/
  | remark (cs : List Char)
  | blank
  | tab
  | newline
  /-- A line break that ends all columns. -/
  | formFeed
deriving DecidableEq, Repr

namespace Glyph

def endsLine : Glyph → Bool
  | .newline | .formFeed => true
  | _ => false

def isSpace : Glyph → Bool
  | .blank | .tab => true
  | _ => false

def chars : Glyph → List Char
  | .text cs | .remark cs => cs
  | .blank => [' ']
  | .tab => ['\t']
  | .newline | .formFeed => ['\n']

end Glyph

abbrev Cell := List Glyph

def Cell.width (c : Cell) : Nat := (c.flatMap Glyph.chars).length

/-- A line of which the cells in `placed` have their width and those in `cells` do not yet. The
last cell has none. -/
structure Row where
  placed : List Glyph := []
  /-- All cells so far are empty. -/
  leading : Bool := true
  cells : List Cell

namespace Row

def hasCell (r : Row) : Bool := 1 < r.cells.length

/-- The row with its next cell brought to this width. Empty cells at the start of a line are
its indentation and become tabs, which stand for eight blanks each. -/
def setCell (width : Nat) (r : Row) : Row :=
  match r.cells with
  | [] => r
  | cell :: cells =>
    let filling :=
      if cell.isEmpty && r.leading then List.replicate ((width + 7) / 8) Glyph.tab
      else List.replicate (width - cell.width) Glyph.blank
    { placed := r.placed ++ cell ++ filling, leading := r.leading && cell.isEmpty, cells }

def glyphs (r : Row) : List Glyph := r.placed ++ r.cells.flatten

end Row

/-- The rows with the next `columns` columns set. -/
def setColumns : (columns : Nat) → List Row → List Row
  | 0, rows => rows
  | n + 1, rows =>
    (rows.splitBy fun a b => a.hasCell == b.hasCell).flatMap fun block =>
      if block.any Row.hasCell then
        let width := (block.map fun r => (r.cells.headD []).width).foldl max 0 + 1
        setColumns n (block.map (Row.setCell width))
      else block

/-- The lines between two form feeds, columns set. -/
def setLines (gs : List Glyph) : List (List Glyph) :=
  let rows := (piecesAt (· = .newline) gs).map fun l => { cells := piecesAt (· = .tab) l : Row }
  (setColumns gs.length rows).map Row.glyphs

/-- The text of a line, without blank space at its end. -/
def lineText (gs : List Glyph) : Line := (gs.reverse.dropWhile Glyph.isSpace).reverse.flatMap Glyph.chars

/-- The text of a page. -/
def pageText (gs : List Glyph) : List Char :=
  joinLines (((piecesAt (· = .formFeed) gs).flatMap setLines).map lineText)

end PackScript.Layout
