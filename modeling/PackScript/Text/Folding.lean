import PackScript.Text.LowerCase
import PackScript.Text.Utf8

/-! # Folding the case of a text

Folding writes a text in lower case. It works in passes: each reads at most 128 bytes of
what is left of the text and writes into a buffer that is also 128 bytes long at first.
A text of up to 128 bytes is folded character by character as long as the buffer has room.
Where the buffer is full, the character at hand has been read and is lost; where a pass
ends inside a character, each of its bytes is folded as a stray byte. A stray byte becomes
the replacement character. A replacement character counts as one byte read, so that one
that stands in the text is followed by its own last two bytes as stray ones.
-/
namespace PackScript.Folding

def window : Nat := 128

/-- What one pass leaves: the bytes written, how many bytes it has read, and whether it
stopped for want of room. -/
structure Pass where
  written : Bytes
  read : Nat
  full : Bool
deriving DecidableEq, Repr

/-- The bytes that a character counts for once it is read. -/
def width (c : Char) : Nat := if c = Utf8.replacement then 1 else (Utf8.encode c).length

theorem width_pos (c : Char) : 0 < width c := by
  unfold width
  split
  · exact Nat.one_pos
  · rw [Utf8.encode, String.length_utf8EncodeChar]
    exact Char.utf8Size_pos c

/-- Writes the lower-case forms of the characters as far as there is room. -/
def pass : (room : Nat) → List Char → Pass
  | _, [] => ⟨[], 0, false⟩
  | room, c :: cs =>
    let lower := Utf8.encode (LowerCase.lower c)
    if room < lower.length then ⟨[], width c, true⟩
    else
      let next := pass (room - lower.length) cs
      ⟨lower ++ next.written, width c + next.read, next.full⟩

theorem pass_read_pos (room : Nat) (c : Char) (cs : List Char) : 0 < (pass room (c :: cs)).read := by
  rw [pass]
  split
  · exact width_pos c
  · exact Nat.add_pos_left (width_pos c) _

/-- The pass over the beginning of a text. -/
def start (room : Nat) (t : Bytes) : Pass := pass room (Utf8.chars (t.take window))

theorem start_read_pos (room : Nat) (b : UInt8) (t : Bytes) : 0 < (start room (b :: t)).read := by
  obtain ⟨c, cs, h⟩ := Utf8.chars_cons b (t.take 127)
  rw [start, window, List.take_succ_cons, h]
  exact pass_read_pos room c cs

/-- The capacity of a buffer of `n` bytes that has grown once. -/
def grown (n : Nat) : Nat := if n ≤ 32 then 64 else if n ≤ 256 then 2 * n else n + n / 2

/-- Folds the rest of a text into a buffer that holds `used` of its `capacity` bytes. The
buffer grows after a pass that found no room at all. -/
def continued (capacity used : Nat) : Bytes → Bytes
  | [] => []
  | b :: t =>
    let p := start (capacity - used) (b :: t)
    let next := if p.full && p.written.isEmpty then grown capacity else capacity
    p.written ++ continued next (used + p.written.length) ((b :: t).drop p.read)
termination_by t => t.length
decreasing_by
  have := start_read_pos (capacity - used) b t
  simp only [List.length_drop, List.length_cons]
  omega

/-- Folds the rest of a text whose first `used` bytes folding has left as they were. The
buffer is used afresh for each pass until one changes the text; from then on it holds all
that is written, and has room for the rest of the text if it had to be replaced. -/
def unchanged (used : Nat) : Bytes → Bytes
  | [] => []
  | b :: t =>
    let p := start window (b :: t)
    let rest := (b :: t).drop p.read
    let filled := used + p.written.length
    p.written ++
      if p.written = (b :: t).take p.read && !p.full then unchanged filled rest
      else continued (if window < filled then filled + rest.length else window) filled rest
termination_by t => t.length
decreasing_by
  have := start_read_pos window b t
  simp only [List.length_drop, List.length_cons]
  omega

def fold (t : Bytes) : Bytes := unchanged 0 t

end PackScript.Folding
