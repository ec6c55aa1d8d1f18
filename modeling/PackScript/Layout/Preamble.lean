import PackScript.Layout.Constraint
import PackScript.Layout.ImportOrder
import PackScript.Layout.Page

/-! # The layout of the head of a file

The package clause and the imports of a file with their comments, on a page. Comments that
constrain when the file is built are taken out and gathered above the package clause.
-/
namespace PackScript.Layout

namespace Page

/-- The page of a file that starts with the word `package`. -/
def start (remarks : List Remarks) : Page :=
  { glyphs := [.text "package".toList], pending := [.blank], remarks }

/-- Writes an import: its label and its path. -/
def singleImport (bs : Breaks) (i : Import) (p : Page) : Page :=
  let p := match i.label with
    | some label => (p.word bs .name label i.offset).hold [.blank]
    | none => p
  let p := p.word bs .quoted i.written i.pathOffset
  if i.isPlaced then { p with line := bs.line i.stop } else p

/-- Writes the imports between parentheses, each on a line of its own. The import before them
starts at the line `height` of the page, if there is one. -/
def imports (bs : Breaks) : (height : Option Nat) → List Import → Page → Page
  | _, [], p => p
  | height, i :: is, p =>
    let p := match height with
      | some h => p.breakTo (bs.line i.offset) 1 (h < p.height)
      | none => p
    let q := p.singleImport bs i
    imports bs (some (q.height - breaksIn i.written)) is q

/-- Writes an import statement. -/
def importGroup (bs : Breaks) (g : ImportGroup) (p : Page) : Page :=
  let p := (p.word bs .importKeyword "import".toList g.offset).hold [.blank]
  match g.parentheses with
  | none => g.imports.foldl (fun p i => p.singleImport bs i) p
  | some (opening, closing) =>
    let p := p.word bs .opening ['('] opening
    let p := if g.imports.isEmpty then p
      else (imports bs none g.imports (p.hold [.indent, .formFeed])).hold [.unindent, .formFeed]
    p.word bs .closing [')'] closing

/-- Writes import statements, with an empty line before the first and before each that has a
documentation. -/
def importGroups (bs : Breaks) : (isFirst : Bool) → List ImportGroup → Page → Page
  | _, [], p => p
  | isFirst, g :: gs, p =>
    let least := if isFirst || g.isDocumented then 2 else 1
    importGroups bs false gs ((p.breakTo (bs.line g.offset) least false).importGroup bs g)

end Page

/-- The glyphs of a head, up to and with the first word of what the file goes on with. -/
def Head.glyphs (h : Head) : List Glyph :=
  let bs := h.breaks
  let p := (Page.start h.remarks).word bs .name h.name h.offset
  let p := Page.importGroups bs true h.groups p
  let p := p.breakTo (bs.line h.stop) (if h.groups.isEmpty then 2 else 1) false
  (p.word bs .importKeyword "import".toList h.stop).glyphs.reverse

namespace Gathered

def newer? : Glyph → Option Line
  | .remark cs => Constraint.newer? cs
  | _ => none

def older? : Glyph → Option Line
  | .remark cs => if (Constraint.newer? cs).isSome then none else Constraint.older? cs
  | _ => none

def isConstraint (g : Glyph) : Bool := (newer? g).isSome || (older? g).isSome

/-- How many glyphs there are up to the end of a line, the line break included. -/
def lineLength (gs : List Glyph) : Nat := (gs.takeWhile fun g => !g.endsLine).length + 1

/-- Whether a constraint comes next. The indentation of its line belongs to it. -/
def startsConstraint (isLineStart : Bool) (gs : List Glyph) : Bool :=
  (if isLineStart then gs.dropWhile (· = .tab) else gs).head?.any isConstraint

/-- The lines from each constraint on, and the pieces between them. -/
def cut : (isLineStart : Bool) → List Glyph → List (List Glyph) × List (List Glyph)
  | _, [] => ([], [[]])
  | isLineStart, g :: gs =>
    if startsConstraint isLineStart (g :: gs) then
      let (lines, pieces) := cut true (gs.drop (lineLength gs))
      ((g :: gs.take (lineLength gs)) :: lines, [] :: pieces)
    else match cut g.endsLine gs with
      | (lines, piece :: pieces) => (lines, (g :: piece) :: pieces)
      | (lines, []) => (lines, [[g]])
termination_by _ gs => gs.length
decreasing_by
  all_goals simp only [List.length_cons, List.length_drop]; omega

/-- Appends a piece, without a second empty line in a row. -/
def append (gs piece : List Glyph) : List Glyph :=
  let endsEmpty := gs.isEmpty || ((gs.drop (gs.length - 2)).all Glyph.endsLine && 2 ≤ gs.length)
  if endsEmpty && piece.head?.any Glyph.endsLine then gs ++ piece.drop 1 else gs ++ piece

/-- The expression in a line of the kind `kind?`, which cannot be read if the line is indented. -/
def expression? (kind? : Glyph → Option Line) (line : List Glyph) : Option Line :=
  line.head?.bind kind?

/-- The lines of the kind `kind?`. -/
def ofKind (kind? : Glyph → Option Line) (lines : List (List Glyph)) : List (List Glyph) :=
  lines.filter fun l => (l.find? isConstraint).any fun g => (kind? g).isSome

/-- The one constraint that all of them amount to: that of the newer form, or, without one, all
of the older form together. -/
def constraint? (newer older : List (List Glyph)) : Option Constraint :=
  match newer, older with
  | [l], _ => (expression? newer? l).bind Constraint.parse?
  | [], _ :: _ =>
    match older.mapM fun l => (expression? older? l).bind Constraint.parseOlder? with
    | some (x :: xs) => some (xs.foldl .and x)
    | _ => none
  | _, _ => none

/-- The lines of a constraint, in the older form too if it was given so. -/
def constraintLines (x : Constraint) (hasOlder : Bool) : List Line :=
  ("//go:build ".toList ++ x.render) ::
    if hasOlder then
      (x.older).getD ["// +build error: expression too complex for // +build lines".toList]
    else []

/-- The lines of the constraints, which stand above the package clause. Constraints that cannot
be read stay as they are. -/
def block (lines : List (List Glyph)) : List Glyph :=
  let newer := ofKind newer? lines
  let older := ofKind older? lines
  let shown := match constraint? newer older with
    | some x => (constraintLines x (!older.isEmpty)).flatMap fun l => [.text l, .newline]
    | none => (newer ++ older).flatten
  shown ++ [.newline]

/-- The head with its constraints at the top. -/
def arrange (gs : List Glyph) : List Glyph :=
  match cut false gs with
  | ([], _) => gs
  | (lines, pieces) => block lines ++ pieces.foldl append []

end Gathered

/-- The head of a file, given the text behind the word `package`: all up to and with the first
word of the import statement that the file goes on with. -/
def preamble? (t : Bytes) : Option Bytes := do
  let h ← Head.read? t
  return Line.encode (pageText (Gathered.arrange h.sorted.glyphs))

end PackScript.Layout
