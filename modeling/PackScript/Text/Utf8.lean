import PackScript.Text.Bytes

/-! # Reading bytes as UTF-8

A text is cut into pieces: a well-formed sequence gives its character, and every
byte that belongs to no well-formed sequence stands alone.
-/
namespace PackScript.Utf8

inductive Piece where
  | char (c : Char)
  | stray (b : UInt8)
deriving DecidableEq, Repr

def encode (c : Char) : Bytes := String.utf8EncodeChar c

/-- For the first byte of a longer sequence: how many bytes follow, the bits that
the byte itself carries, and the least value that needs a sequence this long. -/
def lead (b : UInt8) : Option (Nat × Nat × Nat) :=
  if 0xC0 ≤ b ∧ b < 0xE0 then some (1, b.toNat - 0xC0, 0x80)
  else if 0xE0 ≤ b ∧ b < 0xF0 then some (2, b.toNat - 0xE0, 0x800)
  else if 0xF0 ≤ b ∧ b < 0xF8 then some (3, b.toNat - 0xF0, 0x10000)
  else none

/-- Reads `n` continuation bytes after the bits `acc`. -/
def continued : (n acc : Nat) → Bytes → Option Nat
  | 0, acc, _ => some acc
  | _ + 1, _, [] => none
  | n + 1, acc, b :: rest =>
    if 0x80 ≤ b ∧ b < 0xC0 then continued n (64 * acc + (b.toNat - 0x80)) rest else none

/-- The character at the head of `b :: rest`, and how many bytes of `rest` it takes. -/
def first? (b : UInt8) (rest : Bytes) : Option (Char × Nat) :=
  if b < 0x80 then some (Char.ofNat b.toNat, 0)
  else match lead b with
    | none => none
    | some (n, high, least) =>
      match continued n high rest with
      | none => none
      | some v => if least ≤ v ∧ v.isValidChar then some (Char.ofNat v, n) else none

def pieces : Bytes → List Piece
  | [] => []
  | b :: rest =>
    match first? b rest with
    | some (c, n) => .char c :: pieces (rest.drop n)
    | none => .stray b :: pieces rest
termination_by t => t.length
decreasing_by
  all_goals simp only [List.length_cons, List.length_drop]; omega

/-- The character that stands for a byte that is not part of any. -/
def replacement : Char := Char.ofNat 0xFFFD

def Piece.toChar : Piece → Char
  | .char c => c
  | .stray _ => replacement

/-- The characters of a text, a stray byte read as the replacement character. -/
def chars (t : Bytes) : List Char := (pieces t).map Piece.toChar

theorem chars_cons (b : UInt8) (t : Bytes) : ∃ c cs, chars (b :: t) = c :: cs := by
  rw [chars, pieces]
  split <;> exact ⟨_, _, rfl⟩

end PackScript.Utf8
