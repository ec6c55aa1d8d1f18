import PackScript.Text.Utf8

/-! # Blanks

The bytes that separate the words of a program, and the characters that count as blank
at the ends of a line typed by a person.
-/
namespace PackScript.Blank

/-- A blank, a tab, or part of a line break. -/
def isByte (b : UInt8) : Bool := b = 32 || b = 9 || b = 13 || b = 10

/-- The characters that only take up space. -/
def blanks : List Nat :=
  [0x9, 0xA, 0xB, 0xC, 0xD, 0x20, 0x85, 0xA0, 0x1680, 0x2000, 0x2001, 0x2002, 0x2003, 0x2004, 0x2005,
    0x2006, 0x2007, 0x2008, 0x2009, 0x200A, 0x2028, 0x2029, 0x202F, 0x205F, 0x3000]

def isBlank : Utf8.Piece → Bool
  | .char c => blanks.contains c.toNat
  | .stray _ => false

def bytes : Utf8.Piece → Bytes
  | .char c => Utf8.encode c
  | .stray b => [b]

/-- The text without the blanks at its start. -/
def trimStart : Bytes → Bytes
  | [] => []
  | b :: rest =>
    match Utf8.first? b rest with
    | some (c, n) => if blanks.contains c.toNat then trimStart (rest.drop n) else b :: rest
    | none => b :: rest
termination_by t => t.length
decreasing_by simp only [List.length_cons, List.length_drop]; omega

/-- The text without the blanks at both ends. -/
def trim (t : Bytes) : Bytes :=
  ((((Utf8.pieces t).dropWhile isBlank).reverse.dropWhile isBlank).reverse).flatMap bytes

end PackScript.Blank
