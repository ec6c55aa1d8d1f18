import PackScript.Text.Folding

/-! # Suggesting a known name for an unknown one

A known name is close to the unknown one if the folded unknown one can be got from the
folded known one by leaving characters out. Of the close names the one at the
least edit distance is suggested, the first in byte order among equals.
-/
namespace PackScript.Suggestion

def isClose (target candidate : Bytes) : Bool :=
  let t := Folding.fold target
  let c := Folding.fold candidate
  t.length ≤ c.length && (Utf8.chars t).isSublist (Utf8.chars c)

/-- One row of the distance table: the distances from the text so far, extended by
`a`, to each beginning of `bs`, from `above`, the row before it. -/
def distanceRow (a : Char) : (left diagonal : Nat) → (bs : List Char) → (above : List Nat) → List Nat
  | left, diagonal, b :: bs, up :: above =>
    let here := min (min (left + 1) (up + 1)) (if a = b then diagonal else diagonal + 1)
    here :: distanceRow a here up bs above
  | _, _, _, _ => []

def distanceRows : (row : List Nat) → (as bs : List Char) → List Nat
  | row, [], _ => row
  | row, a :: as, bs =>
    match row with
    | [] => []
    | corner :: above =>
      distanceRows ((corner + 1) :: distanceRow a (corner + 1) corner bs above) as bs

/-- The least number of insertions, deletions and replacements of characters that
turn one text into the other. -/
def distance (s t : Bytes) : Nat :=
  let bs := Utf8.chars t
  (distanceRows (List.range (bs.length + 1)) (Utf8.chars s) bs).getLastD 0

/-- The first element with the least weight. -/
def argMin {α : Type} (weight : α → Nat) : List α → Option α
  | [] => none
  | a :: rest =>
    match argMin weight rest with
    | some b => if weight b < weight a then some b else some a
    | none => some a

/-- The closest name, unless that is the target itself. -/
def suggest? (target : Bytes) (candidates : List Bytes) : Option Bytes :=
  let close := (Bytes.sortBy id candidates).filter (isClose target)
  match argMin (distance target) close with
  | some c => if c = target then none else some c
  | none => none

end PackScript.Suggestion
