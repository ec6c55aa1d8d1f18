import PackScript.Layout.Word
import PackScript.Text.Quoted

/-! # The head of a source file

A source file begins with its package clause, the word `package` and a name, and with its
imports. The text behind the word `package` is given, and the file goes on with an import
of its own below it; comments may stand anywhere between the words.
-/
namespace PackScript.Layout

/-- A word with the comments before it, in groups. -/
structure Mark where
  word : Word
  offset : Nat
  remarks : List Remarks := []
  /-- The comments that stand on the line of the word before. -/
  beside : Option Remarks := none
  /-- The last group ends on the line above the word. -/
  isDocumented : Bool := false

namespace Mark

def isSemicolon (w : Word) : Bool := match w with
  | .semicolon _ => true
  | _ => false

/-- A word and the comments `run` between it and the word before, which is at `previous`. -/
def make (ns : Numbering) (previous : Nat) (run : List Remark) (word : Word) (offset : Nat) : Mark :=
  match run with
  | [] => { word, offset }
  | r :: _ =>
    let onLine := ns.line r.offset = ns.line previous
    let (first, rest) := if onLine then Remarks.cluster ns 0 (ns.line r.offset) run else ([], run)
    let below := Remarks.clusters ns rest
    let lastLine (rs : Remarks) : Int := (rs.getLast?.map (Remark.lastLine ns)).getD 0
    let beside :=
      if onLine && (!rest.isEmpty || ns.line offset != lastLine first || isSemicolon word) then some first
      else none
    { word, offset, beside
      remarks := if first.isEmpty then below else first :: below
      isDocumented := match below.getLast? with
        | some rs => lastLine rs + 1 = ns.line offset
        | none => false }

/-- The words among the items, with the comments between them; `run` holds those since the word
at `previous`, last first. -/
def ofItems (ns : Numbering) : (previous : Nat) → (run : List Remark) → List Item → List Mark
  | _, _, [] => []
  | previous, run, .remark r :: is => ofItems ns previous (r :: run) is
  | previous, run, .lineNumber _ _ :: is => ofItems ns previous run is
  | previous, run, .word w offset :: is =>
    make ns previous run.reverse w offset :: ofItems ns offset [] is

end Mark

/-- One imported package. -/
structure Import where
  label : Option Line
  /-- The path with its quotes. -/
  path : List Char
  offset : Nat
  pathOffset : Nat
  stop : Nat
  /-- The comment that belongs to the import. -/
  beside : Option Remarks
  /-- The import has been given a place among others. -/
  isPlaced : Bool := false

/-- An import statement: a single import, or any number between parentheses. -/
structure ImportGroup where
  offset : Nat
  isDocumented : Bool
  parentheses : Option (Nat × Nat)
  imports : List Import

structure Head where
  name : Line
  offset : Nat
  groups : List ImportGroup
  /-- All comments. -/
  remarks : List Remarks
  breaks : Breaks
  /-- Where the file goes on. -/
  stop : Nat

namespace Head

/-- Takes the end of a statement, which may be left out before a closing parenthesis, and
gives the comment that belongs to the statement. -/
def ended? : List Mark → Option (Option Remarks × List Mark)
  | m :: ms => match m.word with
    | .semicolon true => some (m.beside, ms)
    | .semicolon false => some (ms.head?.bind Mark.beside, ms)
    | .closing => some (none, m :: ms)
    | _ => none
  | [] => none

def label? : List Mark → Option Line × List Mark
  | m :: ms => match m.word with
    | .name text => (some text, ms)
    | .dot => (some ['.'], ms)
    | _ => (none, m :: ms)
  | [] => (none, [])

def import? (ms : List Mark) : Option (Import × List Mark) := do
  let offset ← ms.head?.map Mark.offset
  let (label, ms) := label? ms
  match ms with
  | m :: ms => match m.word with
    | .quoted path =>
      let (beside, ms) ← ended? ms
      some ({ label, path, offset, pathOffset := m.offset, stop := m.offset + path.length, beside }, ms)
    | _ => none
  | [] => none

/-- Imports up to a closing parenthesis, and where that stands. The number bounds how many
there are. -/
def imports? : Nat → List Mark → Option (List Import × Nat × List Mark)
  | 0, _ => none
  | _, [] => none
  | n + 1, m :: ms =>
    if m.word = .closing then some ([], m.offset, ms)
    else do
      let (i, ms) ← import? (m :: ms)
      let (is, stop, ms) ← imports? n ms
      return (i :: is, stop, ms)

/-- An import statement behind its keyword `start`. -/
def group? (start : Mark) (ms : List Mark) : Option (ImportGroup × List Mark) := do
  let { offset, isDocumented, .. } := start
  match ms with
  | m :: ms =>
    if m.word = .opening then
      let (imports, closing, ms) ← imports? (ms.length + 1) ms
      let (_, ms) ← ended? ms
      return ({ offset, isDocumented, parentheses := some (m.offset, closing), imports }, ms)
    else
      let (i, ms) ← import? (m :: ms)
      return ({ offset, isDocumented, parentheses := none, imports := [i] }, ms)
  | [] => none

def importWord : Word := .keyword "import".toList

/-- Import statements up to the last word, which starts the one that the file goes on with. -/
def groups? : Nat → List Mark → Option (List ImportGroup)
  | 0, _ => none
  | _, [_] => some []
  | n + 1, m :: ms =>
    if m.word = importWord then do
      let (g, ms) ← group? m ms
      return g :: (← groups? n ms)
    else none
  | _, [] => none

/-- Reads the text behind the word `package` that a file begins with. An import statement
follows it below an empty line. -/
def read? (t : Bytes) : Option Head := do
  let cs ← Item.characters? t
  let stop := cs.length + 2
  let text := cs ++ ['\n', '\n']
  let breaks : Breaks := (text.zipIdx.filter fun (c, _) => c = '\n').map Prod.snd
  let items ← Item.read? false false 0 cs
  let named := items.filterMap fun
    | .lineNumber offset number => some (offset, number)
    | _ => none
  let marks := Mark.ofItems { breaks, named } 0 [] (items ++ [.word importWord stop])
  match marks with
  | m :: ms => match m.word with
    | .name name =>
      let (_, ms) ← ended? ms
      let groups ← groups? (ms.length + 1) ms
      return { name, offset := m.offset, groups, remarks := marks.flatMap Mark.remarks, breaks, stop }
    | _ => none
  | [] => none

end Head
end PackScript.Layout
