import PackScript.Layout.Line

/-! # Comments and where they stand

Places in a source text are offsets, counted in characters; the line and the column of a
place follow from the offsets of the line breaks. The first line has a start of its own:
the text begins behind the word `package`.
-/
namespace PackScript.Layout

/-- The offsets of the line breaks of a text, in ascending order. -/
abbrev Breaks := List Nat

namespace Breaks

def line (bs : Breaks) (offset : Nat) : Nat := bs.countP (· < offset)

/-- The place is the first of its line. -/
def isLineStart (bs : Breaks) (offset : Nat) : Bool := 0 < offset && bs.contains (offset - 1)

/-- How far the text is set in on its first line: behind the word `package` and a blank. -/
def firstColumn : Nat := 9

def column (bs : Breaks) (offset : Nat) : Nat :=
  match (bs.filter (· < offset)).getLast? with
  | some b => offset - b
  | none => offset + firstColumn

/-- The first place of a line. -/
def lineStart (bs : Breaks) : Nat → Nat
  | 0 => 0
  | line + 1 => match bs[line]? with
    | some b => b + 1
    | none => 0

/-- Joins a line with the one below it. -/
def mergeLine (bs : Breaks) (line : Nat) : Breaks := bs.eraseIdx line

end Breaks

/-- The numbers of lines as a reader is told them: from an offset on, lines are counted from a
number that a comment has named. The latest naming comes last. -/
structure Numbering where
  breaks : Breaks
  named : List (Nat × Int) := []

namespace Numbering

/-- The number of the line that the text starts on. -/
def first : Int := 3

def line (ns : Numbering) (offset : Nat) : Int :=
  match (ns.named.filter fun n => n.1 ≤ offset).getLast? with
  | some (start, number) => number + (ns.breaks.line offset - ns.breaks.line start : Nat)
  | none => first + ns.breaks.line offset

end Numbering

/-- A comment: its text without carriage returns, and where it starts. -/
structure Remark where
  text : List Char
  offset : Nat
deriving DecidableEq, Repr

namespace Remark

/-- The comment is closed by `*/` and not by the end of its line. -/
def isBlock (r : Remark) : Bool := r.text[1]? = some '*'

def stop (r : Remark) : Nat := r.offset + r.text.length

/-- The comment ends a line. -/
def hasBreak (r : Remark) : Bool := !r.isBlock || r.text.contains '\n'

/-- The number of the line on which the comment ends. -/
def lastLine (ns : Numbering) (r : Remark) : Int := ns.line r.offset + r.text.count '\n'

end Remark

/-- Comments that belong together. -/
abbrev Remarks := List Remark

namespace Remarks

def offset (rs : Remarks) : Nat := (rs.head?.map Remark.offset).getD 0

def stop (rs : Remarks) : Nat := (rs.getLast?.map Remark.stop).getD 0

/-- The comments end a line, or stand on several. -/
def hasBreak (bs : Breaks) (rs : Remarks) : Bool :=
  rs.any fun r => r.hasBreak || bs.line r.offset != bs.line rs.offset

/-- The comments that belong to the first: each starts at most `gap` lines below the end of
the one before, which is on line `last`. -/
def cluster (ns : Numbering) (gap : Nat) : (last : Int) → List Remark → Remarks × List Remark
  | _, [] => ([], [])
  | last, r :: rs =>
    if ns.line r.offset ≤ last + gap then
      let (group, rest) := cluster ns gap (r.lastLine ns) rs
      (r :: group, rest)
    else ([], r :: rs)

theorem cluster_rest_length (ns : Numbering) (gap : Nat) (last : Int) (rs : List Remark) :
    (cluster ns gap last rs).2.length ≤ rs.length := by
  induction rs generalizing last with
  | nil => simp [cluster]
  | cons r rs ih =>
    rw [cluster]
    split
    · exact Nat.le_succ_of_le (ih _)
    · exact Nat.le_refl _

/-- All comments, as groups without an empty line inside. -/
def clusters (ns : Numbering) : List Remark → List Remarks
  | [] => []
  | r :: rs =>
    let more := cluster ns 1 (r.lastLine ns) rs
    (r :: more.1) :: clusters ns more.2
termination_by rs => rs.length
decreasing_by
  exact Nat.lt_succ_of_le (cluster_rest_length ns 1 _ rs)

end Remarks
end PackScript.Layout
