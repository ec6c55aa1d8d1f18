/-! # Texts as byte strings

Source programs, generated command lines and file contents are sequences of
bytes: offsets, lengths and columns count bytes, and a text need not be valid
UTF-8. A string literal stands for its UTF-8 bytes wherever a text is expected.
-/
namespace PackScript

abbrev Bytes := List UInt8

namespace Bytes

def ofString (s : String) : Bytes := s.toUTF8.data.toList

instance : Coe String Bytes := ⟨ofString⟩

def newline : UInt8 := 10

/-- The texts in order, with `sep` between neighbours. -/
def join (sep : Bytes) : List Bytes → Bytes
  | [] => []
  | [t] => t
  | t :: u :: rest => t ++ sep ++ join sep (u :: rest)

/-- The pieces between occurrences of `b`: always one more than the occurrences. -/
def splitOn (b : UInt8) : Bytes → List Bytes
  | [] => [[]]
  | c :: rest =>
    if c = b then [] :: splitOn b rest
    else match splitOn b rest with
      | [] => [[c]]
      | piece :: pieces => (c :: piece) :: pieces

/-- Drops the bytes at the end that satisfy `p`. -/
def trimRight (p : UInt8 → Bool) (t : Bytes) : Bytes := (t.reverse.dropWhile p).reverse

/-- What follows `head` in `t`, if `t` starts with it. -/
def dropHead? : (head t : Bytes) → Option Bytes
  | [], t => some t
  | _ :: _, [] => none
  | a :: head, b :: t => if a = b then dropHead? head t else none

/-- Whether two byte strings are equal, decided byte by byte. -/
def same : Bytes → Bytes → Bool
  | [], [] => true
  | a :: s, b :: t => if a = b then same s t else false
  | _, _ => false

theorem same_iff : (s t : Bytes) → (same s t = true ↔ s = t)
  | [], [] => by simp [same]
  | a :: s, b :: t => by
    rw [same]
    split
    · rename_i h
      simp [h, same_iff s t]
    · rename_i h
      simp [h]
  | [], _ :: _ => by simp [same]
  | _ :: _, [] => by simp [same]

/-- The order of byte strings: by the first byte that differs, a proper beginning first. -/
def le : Bytes → Bytes → Bool
  | [], _ => true
  | _ :: _, [] => false
  | a :: s, b :: t => if a = b then le s t else a < b

/-- Byte strings in ascending order; equal keys keep their places. -/
def sortBy {α : Type} (key : α → Bytes) (xs : List α) : List α :=
  xs.mergeSort fun a b => le (key a) (key b)

end Bytes
end PackScript
