import PackScript.Text.CharacterClass
import PackScript.Text.Decimal
import PackScript.Text.Utf8

/-! # Quoted literals

A text or a single byte between quotes, on one line and readable: a character
without a visible form is named by an escape, and so is a byte that belongs to no
character.
-/
namespace PackScript.Quoted

/-- The control characters that have an escape letter of their own. -/
def controlLetter? (n : Nat) : Option Bytes :=
  [(7, "\\a"), (8, "\\b"), (12, "\\f"), (10, "\\n"), (13, "\\r"), (9, "\\t"), (11, "\\v")].lookup n
    |>.map Bytes.ofString

/-- One character of a literal whose delimiter is `quote`. -/
def escape (quote : Char) (c : Char) : Bytes :=
  if c = quote ∨ c = '\\' then "\\" ++ Utf8.encode c
  else if CharacterClass.isPrintable c then Utf8.encode c
  else match controlLetter? c.toNat with
    | some t => t
    | none =>
      if c.toNat < 0x20 ∨ c.toNat = 0x7F then "\\x" ++ Decimal.hex 2 c.toNat
      else if c.toNat < 0x10000 then "\\u" ++ Decimal.hex 4 c.toNat
      else "\\U" ++ Decimal.hex 8 c.toNat

/-- The character whose code is the byte, between single quotes. -/
def byteLiteral (b : UInt8) : Bytes :=
  let quote := Char.ofNat 39
  Utf8.encode quote ++ escape quote (Char.ofNat b.toNat) ++ Utf8.encode quote

/-- A text between double quotes. -/
def literal (t : Bytes) : Bytes :=
  "\"" ++ (Utf8.pieces t).flatMap (fun
    | .char c => escape '"' c
    | .stray b => "\\x" ++ Decimal.hex 2 b.toNat) ++ "\""

end PackScript.Quoted
