import PackScript.Text.Bytes

/-! # Places in a source text

A cursor is a place between two bytes; a span is a stretch of text that starts at
one. Offsets and columns count bytes from zero, lines count from one. All are words
of 64 bits: a place behind the largest number is a negative one.
-/
namespace PackScript

structure Span where
  offset : Int64 := 0
  length : Int64 := 0
  line : Int64 := 0
  column : Int64 := 0
deriving DecidableEq, Repr, Inhabited

structure Cursor where
  offset : Int64
  line : Int64
  column : Int64
deriving DecidableEq, Repr

namespace Cursor

/-- The beginning of a text. -/
def start : Cursor := ⟨0, 1, 0⟩

/-- The place behind one more byte. -/
def step (c : Cursor) (b : UInt8) : Cursor :=
  if b = Bytes.newline then ⟨c.offset + 1, c.line + 1, 0⟩
  else ⟨c.offset + 1, c.line, c.column + 1⟩

/-- The place behind the bytes of `t`. -/
def past (c : Cursor) (t : Bytes) : Cursor := t.foldl step c

@[simp] theorem past_nil (c : Cursor) : c.past [] = c := rfl

@[simp] theorem past_cons (c : Cursor) (b : UInt8) (t : Bytes) : c.past (b :: t) = (c.step b).past t := rfl

theorem past_append (c : Cursor) (s t : Bytes) : c.past (s ++ t) = (c.past s).past t :=
  List.foldl_append

/-- The stretch of `length` bytes that starts here. -/
def span (c : Cursor) (length : Nat) : Span := ⟨c.offset, .ofNat length, c.line, c.column⟩

end Cursor

namespace Span

/-- The offset behind the last byte. -/
def stop (s : Span) : Int64 := s.offset + s.length

/-- The stretch from the start of `s` to the end of `t`. -/
def through (s t : Span) : Span := { s with length := t.stop - s.offset }

def cursor (s : Span) : Cursor := ⟨s.offset, s.line, s.column⟩

end Span
end PackScript
