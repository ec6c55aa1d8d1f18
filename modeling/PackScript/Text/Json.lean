import PackScript.Text.Decimal
import PackScript.Text.Utf8

/-! # JSON documents

The values that the project writes as JSON, on one line or indented by two blanks
a level. Inside strings the characters that matter to markup and the two Unicode
line separators are escaped, and a stray byte becomes the replacement character.
-/
namespace PackScript

inductive Json where
  | int (i : Int)
  | text (t : Bytes)
  | array (items : List Json)
  | object (fields : List (Bytes × Json))

namespace Json

def shortEscape? (c : Char) : Option Bytes :=
  [(34, "\\\""), (92, "\\\\"), (8, "\\b"), (12, "\\f"), (10, "\\n"), (13, "\\r"), (9, "\\t")].lookup c.toNat
    |>.map Bytes.ofString

def escape (c : Char) : Bytes :=
  match shortEscape? c with
  | some t => t
  | none =>
    if c.toNat < 0x20 ∨ c ∈ ['<', '>', '&', Char.ofNat 0x2028, Char.ofNat 0x2029] then
      "\\u" ++ Decimal.hex 4 c.toNat
    else Utf8.encode c

def quote (t : Bytes) : Bytes := "\"" ++ (Utf8.chars t).flatMap escape ++ "\""

mutual
/-- The document on one line, without blanks. -/
def compact : Json → Bytes
  | .int i => Decimal.ofInt i
  | .text t => quote t
  | .array items => "[" ++ Bytes.join "," (compactItems items) ++ "]"
  | .object fields => "\x7b" ++ Bytes.join "," (compactFields fields) ++ "\x7d"
def compactItems : List Json → List Bytes
  | [] => []
  | j :: js => compact j :: compactItems js
def compactFields : List (Bytes × Json) → List Bytes
  | [] => []
  | (name, j) :: fs => (quote name ++ ":" ++ compact j) :: compactFields fs
end

/-- A line break followed by the indentation of `level`. -/
def lineBreak (level : Nat) : Bytes := Bytes.newline :: List.replicate (2 * level) 32

/-- Items between brackets, each on a line of its own; no lines if there are none. -/
def bracketed (left right : Bytes) (level : Nat) (items : List Bytes) : Bytes :=
  if items.isEmpty then left ++ right
  else left ++ lineBreak (level + 1) ++ Bytes.join ("," ++ lineBreak (level + 1)) items ++
    lineBreak level ++ right

mutual
/-- The document over several lines, its first line already indented to `level`. -/
def indented (level : Nat) : Json → Bytes
  | .int i => Decimal.ofInt i
  | .text t => quote t
  | .array items => bracketed "[" "]" level (indentedItems (level + 1) items)
  | .object fields => bracketed "\x7b" "\x7d" level (indentedFields (level + 1) fields)
def indentedItems (level : Nat) : List Json → List Bytes
  | [] => []
  | j :: js => indented level j :: indentedItems level js
def indentedFields (level : Nat) : List (Bytes × Json) → List Bytes
  | [] => []
  | (name, j) :: fs => (quote name ++ ": " ++ indented level j) :: indentedFields level fs
end

end Json
end PackScript
