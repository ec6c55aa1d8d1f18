import PackScript.Layout.Documentation
import PackScript.Layout.Head

/-! # The order of imports

Imports between parentheses are sorted by their paths, each run of them without an empty
line for itself, and an import that stands there twice is left out once. The imports of a
run take over the places that the run had, in order, and comments go with the import that
they stand beside.
-/
namespace PackScript.Layout

namespace Import

/-- The path that the quoted text stands for. -/
def target (i : Import) : Bytes :=
  match i.path with
  | c :: cs =>
    if c = '"' then (Item.quotation? cs).elim [] Prod.fst else Line.encode cs.dropLast
  | [] => []

/-- The characters that no path may hold. -/
def illegal : List Char := "!\"#$%&'()*,:;<=>?[\\]^\x7b|\x7d`".toList ++ [Utf8.replacement]

def isLegal (target : Bytes) : Bool :=
  !target.isEmpty && (Utf8.chars target).all fun c =>
    CharacterClass.isPrintable c && !isSpace c && !illegal.contains c

/-- The path as it is written: in double quotes, if it is a legal path. -/
def written (i : Import) : List Char :=
  if isLegal i.target then Utf8.chars (Quoted.literal i.target) else i.path

/-- The text of the comment beside an import, for telling two imports apart. -/
def note (i : Import) : Bytes := Line.encode (Documentation.plainText (i.beside.getD []))

/-- What imports are sorted by: path, then label, then comment. -/
def le (a b : Import) : Bool :=
  let first := (a.target, Line.encode (a.label.getD []), a.note)
  let second := (b.target, Line.encode (b.label.getD []), b.note)
  if first.1 ≠ second.1 then Bytes.le first.1 second.1
  else if first.2.1 ≠ second.2.1 then Bytes.le first.2.1 second.2.1
  else Bytes.le first.2.2 second.2.2

/-- The first import says nothing that the second does not say too. -/
def isCoveredBy (a b : Import) : Bool :=
  a.target = b.target && a.label.getD [] = b.label.getD [] && a.beside.isNone

/-- Cuts a list of imports where an empty line, or a comment on lines of its own, stands
between two. -/
def runs (bs : Breaks) (is : List Import) : List (List Import) :=
  is.splitBy fun a b => bs.line b.offset ≤ bs.line a.stop + 1

end Import

/-- The comments and line breaks of a head while its imports are put in order. -/
structure Arrangement where
  breaks : Breaks
  remarks : List Remarks

namespace Arrangement

/-- A group of comments with the number of the import it goes with, and whether it stands
to the left of that. -/
structure Attached where
  remarks : Remarks
  index : Nat
  isLeft : Bool

/-- Attaches groups of comments to the imports of a run. -/
def attach (bs : Breaks) (run : Array Import) : (index : Nat) → List Remarks → List Attached
  | _, [] => []
  | index, rs :: rest =>
    let place (i : Nat) : Nat := (run[i]?.map Import.offset).getD 0
    let passed := (List.range run.size).filter fun i => index < i && place i ≤ rs.offset
    let index := passed.getLast?.getD index
    if index = 0 && rs.offset < place 0 then
      ⟨rs, 0, true⟩ :: attach bs run 0 rest
    else if index + 1 < run.size && bs.line (place index) + 1 = bs.line rs.offset then
      ⟨rs, index + 1, true⟩ :: attach bs run (index + 1) rest
    else ⟨rs, index, false⟩ :: attach bs run index rest

/-- The numbered imports in order, those left out apart. -/
def withoutCovered : List (Import × Nat) → List (Import × Nat) × List Import
  | [] => ([], [])
  | [i] => ([i], [])
  | a :: b :: rest =>
    let (kept, left) := withoutCovered (b :: rest)
    if a.1.isCoveredBy b.1 then (kept, a.1 :: left) else (a :: kept, left)

def isWithin (start stop : Nat) (rs : Remarks) : Bool := start ≤ rs.offset && rs.stop < stop

/-- Puts a run of imports in order. -/
def sortRun (a : Arrangement) (run : List Import) : Arrangement × List Import :=
  match run.head?, run.getLast? with
  | some first, some last =>
    if run.length ≤ 1 then (a, run)
    else
      let start := a.breaks.lineStart (a.breaks.line first.offset)
      let stop := a.breaks.lineStart (a.breaks.line last.stop + 1)
      let isInside := isWithin start stop
      let attached := attach a.breaks run.toArray 0 (a.remarks.filter isInside)
      let (kept, left) := withoutCovered (run.zipIdx.mergeSort fun i j => i.1.le j.1)
      let breaks := left.foldl (fun bs i => bs.mergeLine (bs.line i.offset)) a.breaks
      let places := run.map fun i => (i.offset, i.stop)
      let settled := kept.zip places
      let imports := settled.map fun ((i, _), offset, stop) =>
        { i with offset, pathOffset := offset, stop, isPlaced := true }
      let moved := attached.map fun x =>
        match settled.find? fun ((_, index), _) => index = x.index with
        | some (_, offset, stop) =>
          x.remarks.map fun r => { r with offset := if x.isLeft then offset - 1 else stop }
        | none => x.remarks
      let before := a.remarks.takeWhile fun rs => !isInside rs
      let after := (a.remarks.dropWhile fun rs => !isInside rs).dropWhile isInside
      let inOrder := moved.mergeSort fun rs rs' => rs.offset ≤ rs'.offset
      ({ breaks, remarks := before ++ inOrder ++ after }, imports)
  | _, _ => (a, run)

/-- Joins the lines between the last import and the closing parenthesis. -/
def closeUp (bs : Breaks) (last closing : Nat) : Breaks :=
  (List.range (bs.line closing - bs.line last - 1)).foldl
    (fun bs _ => bs.mergeLine (bs.line closing - 1)) bs

def sortGroup (a : Arrangement) (g : ImportGroup) : Arrangement × ImportGroup :=
  match g.parentheses with
  | none => (a, g)
  | some (_, closing) =>
    let (a, imports) := (Import.runs a.breaks g.imports).foldl
      (fun (a, done) run =>
        let (a, run) := a.sortRun run
        (a, done ++ run)) (a, [])
    let breaks := match imports.getLast? with
      | some last => closeUp a.breaks last.offset closing
      | none => a.breaks
    ({ a with breaks }, { g with imports })

end Arrangement

/-- The head with the imports of each statement in order. -/
def Head.sorted (h : Head) : Head :=
  let (a, groups) := h.groups.foldl
    (fun (a, done) g =>
      let (a, g) := a.sortGroup g
      (a, done ++ [g])) (({ breaks := h.breaks, remarks := h.remarks } : Arrangement), [])
  { h with groups, breaks := a.breaks, remarks := a.remarks }

end PackScript.Layout
