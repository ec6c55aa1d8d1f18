import PackScript.Text.Bytes

/-! # Decimal numerals

Writing numbers in base ten without leading zeros, and reading a signed numeral
that fits in 32 bits.
-/
namespace PackScript.Decimal

def isDigit (b : UInt8) : Bool := 48 ≤ b && b ≤ 57

def ofNat (n : Nat) : Bytes := (Nat.toDigits 10 n).map Char.toUInt8

def ofInt : Int → Bytes
  | .ofNat n => ofNat n
  | .negSucc n => "-" ++ ofNat (n + 1)

/-- The number that a run of digits denotes. -/
def value (ds : Bytes) : Nat := ds.foldl (fun n d => 10 * n + (d.toNat - 48)) 0

/-- A nonempty run of digits and nothing else. -/
def unsigned? (t : Bytes) : Option Nat :=
  if t ≠ [] ∧ t.all isDigit then some (value t) else none

/-- At most one sign, then digits. -/
def signed? : Bytes → Option Int
  | 43 :: ds => (unsigned? ds).map Int.ofNat
  | 45 :: ds => (unsigned? ds).map fun n => -Int.ofNat n
  | ds => (unsigned? ds).map Int.ofNat

/-- A signed numeral within 32 bits. -/
def int32? (t : Bytes) : Option Int32 :=
  match signed? t with
  | some i => if -2147483648 ≤ i ∧ i ≤ 2147483647 then some (Int32.ofInt i) else none
  | none => none

/-- A lower-case hexadecimal numeral of `width` digits, the low ones of `n`. -/
def hex : (width n : Nat) → Bytes
  | 0, _ => []
  | width + 1, n => hex width (n / 16) ++ [(Nat.digitChar (n % 16)).toUInt8]

/-- `n` in decimal, with blanks in front up to `width` bytes. -/
def padded (width n : Nat) : Bytes :=
  List.replicate (width - (ofNat n).length) 32 ++ ofNat n

end PackScript.Decimal
