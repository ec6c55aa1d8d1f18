import PackScript.Layout.BlockRemark
import PackScript.Layout.Documentation
import PackScript.Layout.Glyph

/-! # Pages

A page is written word by word. The blank space between two words is held back until the
next word comes, since comments may belong before it: those comments are written first,
with as much of the space as they leave in force, and line breaks of the source are kept
around them, up to one empty line.
-/
namespace PackScript.Layout

/-- Blank space between words, and changes of the indentation. -/
inductive Space where
  | blank
  | newline
  | formFeed
  | indent
  | unindent
deriving DecidableEq, Repr

namespace Space

def isBreak : Space → Bool
  | .newline | .formFeed => true
  | _ => false

end Space

/-- What of a word bears on the space and the comments around it. -/
inductive WordKind where
  | name
  | quoted
  | importKeyword
  | opening
  | closing
deriving DecidableEq, Repr

namespace WordKind

/-- A line break behind the word ends a statement. -/
def endsStatement : WordKind → Bool
  | .name | .quoted | .closing => true
  | .importKeyword | .opening => false

/-- Comments directly before the word are written as a documentation text. Those before a name
or an import statement are left as they are. -/
def isDocumentable : WordKind → Bool
  | .name | .importKeyword => false
  | .quoted | .opening | .closing => true

end WordKind

structure Page where
  /-- The glyphs so far, last first. -/
  glyphs : List Glyph
  pending : List Space := []
  indentation : Nat := 0
  /-- The line of the source that the page has come to. -/
  line : Nat := 0
  /-- The line of the source on which the last word or comment ended. -/
  lastLine : Nat := 0
  /-- How many lines the page has. -/
  height : Nat := 0
  /-- Nothing stands on the current line yet. -/
  isFresh : Bool := false
  /-- A text has ended the columns of the current line. -/
  isUnaligned : Bool := false
  /-- A line break here would end a statement. -/
  endsStatement : Bool := false
  /-- The last word opened a parenthesis. -/
  isOpened : Bool := false
  /-- The comments not yet written. -/
  remarks : List Remarks

namespace Page

def writeBlank (p : Page) : Page := { p with glyphs := .blank :: p.glyphs }

/-- Ends a cell, unless the columns of the line have ended. -/
def writeTab (p : Page) : Page :=
  { p with glyphs := (if p.isUnaligned then .blank else .tab) :: p.glyphs }

/-- Writes line breaks. -/
def writeBreaks (g : Glyph) (n : Nat) (p : Page) : Page :=
  if n = 0 then p
  else
    let g := if p.isUnaligned then .formFeed else g
    { p with
      glyphs := List.replicate n g ++ p.glyphs
      line := p.line + n
      height := p.height + n
      isFresh := true
      isUnaligned := false }

/-- A form feed counts as a line break, also inside a text. -/
def breaksIn (cs : List Char) : Nat := cs.countP fun c => c = '\n' || c = '\x0c'

/-- Writes a text that stands on this line of the source, indented if it is the first of its
line. -/
def writeText (g : Glyph) (line : Nat) (p : Page) : Page :=
  let n := breaksIn g.chars
  let indentation := if p.isFresh then List.replicate p.indentation Glyph.tab else []
  { p with
    glyphs := g :: indentation ++ p.glyphs
    isFresh := false
    isUnaligned := p.isUnaligned || 0 < n
    line := line + n
    lastLine := line + n
    height := p.height + n }

/-- Writes blank space. A line break directly before the end of an indented part comes behind
it. -/
def writeSpace : List Space → Page → Page
  | [], p => p
  | .blank :: ss, p => writeSpace ss p.writeBlank
  | .indent :: ss, p => writeSpace ss { p with indentation := p.indentation + 1 }
  | .unindent :: ss, p => writeSpace ss { p with indentation := p.indentation - 1 }
  | _ :: .unindent :: ss, p =>
    writeSpace (.formFeed :: ss) { p with indentation := p.indentation - 1 }
  | .newline :: ss, p => writeSpace ss (p.writeBreaks .newline 1)
  | .formFeed :: ss, p => writeSpace ss (p.writeBreaks .formFeed 1)
termination_by ss => ss.length

/-- Holds back more space. A line break in it ends the statement. -/
def hold (ss : List Space) (p : Page) : Page :=
  { p with pending := p.pending ++ ss, endsStatement := p.endsStatement && !ss.any Space.isBreak }

/-- At most one empty line is kept. -/
def atMostTwo (n : Nat) : Nat := min n 2

/-- The space before a comment on the line of what comes before it: a cell ends, unless the
next word is on that line too. -/
def approachBeside (isBeforeWord : Bool) (previous : Option Remark) (p : Page) : Page :=
  let p := if previous.isSome then p else
    let front := p.pending.takeWhile fun s => s = .blank || s = .indent
    let rest := p.pending.drop front.length
    if rest.isEmpty then { p with pending := front.filter (· ≠ Space.blank) }
    else { p with pending := rest, indentation := p.indentation + front.count .indent }
  if isBeforeWord then p.writeBlank else p.writeTab

/-- The space before a comment on a line of its own, as far as it is written now, and what
remains of it. The page is unindented before the comment if that stands in the column of
the next word. -/
def splitSpace (isInColumn : Bool) : List Space → Option (List Space × List Space)
  | [] => none
  | .blank :: ss => splitSpace isInColumn ss
  | .indent :: ss => (splitSpace isInColumn ss).map fun (now, later) => (.indent :: now, later)
  | .unindent :: ss =>
    if isInColumn || ss.head? = some .unindent then
      (splitSpace isInColumn ss).map fun (now, later) => (.unindent :: now, later)
    else some ([], .unindent :: ss)
  | s :: ss => some ([], s :: ss)

/-- The space before a comment below what comes before it. Of the space that is held back,
the first line break gives way. -/
def approachBelow (isInColumn : Bool) (line : Nat) (previous : Option Remark) (p : Page) : Page :=
  let (p, isDropped) : Page × Bool := match splitSpace isInColumn p.pending with
    | none => ({ p with pending := p.pending.filter (· ≠ Space.blank) }, false)
    | some (now, later) =>
      let isDropped := later.head?.any Space.isBreak
      (writeSpace now { p with pending := if isDropped then later.drop 1 else later },
        isDropped && previous.isNone)
  let n := line - p.lastLine + if p.indentation = 0 && isDropped then 1 else 0
  let n := if n = 0 && previous.any (fun r : Remark => !r.isBlock) then 1 else n
  p.writeBreaks .formFeed (atMostTwo n)

/-- The space before a comment that stands before the word at `next` and behind the comment
`previous`. -/
def approach (bs : Breaks) (next : Nat) (previous : Option Remark) (r : Remark) (p : Page) : Page :=
  let line := bs.line r.offset
  if line = p.lastLine && previous.all Remark.isBlock then
    p.approachBeside (line = bs.line next) previous
  else p.approachBelow (bs.column r.offset = bs.column next) line previous

/-- Writes lines below one another, of which the first stands on this line of the source. -/
def writeLines : List Line → (line : Nat) → Page → Page
  | [], _, p => p
  | l :: ls, line, p =>
    let p := if l.isEmpty then p else p.writeText (.text (Line.trimRight l)) line
    match ls with
    | [] => p
    | l' :: ls =>
      let p := p.writeBreaks .formFeed 1
      writeLines (l' :: ls) p.line p

/-- The lines of a block comment; a comment at the start of a line is indented as a whole. -/
def blockLines (isLineStart isIndented : Bool) (text : List Char) : List Line :=
  let ls := match linesOf text with
    | [] => []
    | l :: ls => l :: if isLineStart && isIndented then ls.map ([' ', ' ', ' '] ++ ·) else ls
  BlockRemark.unindent ls

/-- Writes a comment. One that names a place in a file stays at the start of its line. -/
def writeRemark (bs : Breaks) (r : Remark) (p : Page) : Page :=
  let line := bs.line r.offset
  let isLineStart := bs.isLineStart r.offset
  if r.isBlock then
    p.writeLines (blockLines isLineStart (0 < p.indentation) r.text) line
  else if isLineStart && "//line ".toList.isPrefixOf r.text then
    { { p with indentation := 0 }.writeText (.remark (Line.trimRight r.text)) line with
      indentation := p.indentation }
  else p.writeText (.remark (Line.trimRight r.text)) line

/-- Space behind comments: of the line breaks that are held back, one is kept if it
`isNeeded`. -/
def keptSpace : (isNeeded : Bool) → List Space → List Space
  | _, [] => []
  | isNeeded, .blank :: ss => keptSpace isNeeded ss
  | isNeeded, .indent :: ss => .indent :: keptSpace isNeeded ss
  | isNeeded, .unindent :: ss => .unindent :: keptSpace isNeeded ss
  | true, s :: ss => s :: keptSpace false ss
  | false, _ :: ss => keptSpace false ss

/-- What has become of the space before a word: whether a line break was written, and whether
one that ends columns was left out. -/
structure Break where
  isWritten : Bool := false
  isDropped : Bool := false

/-- Writes the space behind comments. -/
def leave (isNeeded : Bool) (p : Page) : Page × Break :=
  let breaks := p.pending.filter Space.isBreak
  let dropped := if isNeeded then breaks.drop 1 else breaks
  let kept := isNeeded && !breaks.isEmpty
  let p := writeSpace (keptSpace isNeeded p.pending) { p with pending := [] }
  let p := if isNeeded && !kept then p.writeBreaks .newline 1 else p
  (p, ⟨isNeeded, dropped.contains .formFeed⟩)

/-- Whether a group of comments comes before the word at `next`: one with a line break does not
if that would end a statement. -/
def isBefore (bs : Breaks) (next : Nat) (p : Page) (rs : Remarks) : Bool :=
  rs.offset < next && !(p.endsStatement && rs.hasBreak bs)

/-- Writes comments. -/
def writeRemarks (bs : Breaks) (next : Nat) : (previous : Option Remark) → Remarks → Page → Page
  | _, [], p => p
  | previous, r :: rs, p =>
    writeRemarks bs next (some r) rs ((p.approach bs next previous r).writeRemark bs r)

/-- Whether comments start a line and end directly before the word at `next`. -/
def documents (bs : Breaks) (next : Nat) (rs : Remarks) : Bool :=
  bs.isLineStart rs.offset && rs.stop + 1 = next

/-- Writes the groups of comments that come before a word, `previous` being the last comment
written. -/
def intersperse (bs : Breaks) (kind : WordKind) (next : Nat) :
    (previous : Option Remark) → List Remarks → Page → Page × Break
  | previous, groups, p =>
    match groups with
    | rs :: rest =>
      if p.isBefore bs next rs then
        if kind.isDocumentable && documents bs next rs then
          match Documentation.formatted rs with
          | [] =>
            let first : Remark := ⟨[], rs.offset⟩
            let p := p.approach bs next previous first
            leave false { p with line := bs.line next, lastLine := bs.line next, remarks := rest }
          | shown =>
            let p := writeRemarks bs next previous shown p
            let line := bs.line rs.stop
            intersperse bs kind next rs.getLast? rest { p with line, lastLine := line }
        else intersperse bs kind next rs.getLast? rest (writeRemarks bs next previous rs p)
      else finish previous groups p
    | [] => finish previous [] p
where
  /-- After a block comment on the line of the next word comes a blank, or a line break if one is
  held back, and after a comment that runs to the end of its line a line break. -/
  finish (previous : Option Remark) (rest : List Remarks) (p : Page) : Page × Break :=
    let p := { p with remarks := rest }
    match previous with
    | none => (writeSpace p.pending { p with pending := [] }, {})
    | some r =>
      if r.isBlock then
        if bs.line r.offset = bs.line next && (kind ≠ .closing || p.isOpened) then
          if p.pending.any Space.isBreak then p.leave true
          else p.writeBlank.leave false
        else p.leave false
      else p.leave true

/-- Writes a word that stands at `offset`. Line breaks before it are kept where comments came
first. -/
def word (bs : Breaks) (kind : WordKind) (text : List Char) (offset : Nat) (p : Page) : Page :=
  let line := bs.line offset
  let p := { p with line }
  let (p, b) := intersperse bs kind offset none p.remarks p
  let n := if p.endsStatement then 0 else atMostTwo (line - p.line)
  let n := if b.isWritten && n = 2 then 1 else n
  let p := p.writeBreaks (if b.isDropped then .formFeed else .newline) n
  { p.writeText (.text text) line with
    endsStatement := kind.endsStatement && n = 0
    isOpened := kind = .opening }

/-- Holds back line breaks up to a line of the source: at least `least` and at most two. -/
def breakTo (line least : Nat) (isSection : Bool) (p : Page) : Page :=
  let n := max (atMostTwo (line - p.line)) least
  p.hold (if isSection then .formFeed :: List.replicate (n - 1) .newline else List.replicate n .newline)

end Page
end PackScript.Layout
