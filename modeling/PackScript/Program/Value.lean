import PackScript.Program.Signature

/-! # Static values

Integers have 32 bits and wrap. A value is written in two ways: bare, as it stands
inside a command line, and as a storage literal, which always fits on one line.
-/
namespace PackScript

inductive Value where
  | int (i : Int32)
  | string (s : Bytes)
  | bool (b : Bool)
  | untyped (s : Bytes)
deriving DecidableEq, Repr

namespace Value

def typing : Value → Typing
  | .int _ => .int
  | .string _ => .string
  | .bool _ => .bool
  | .untyped _ => .unknown

def render : Value → Bytes
  | .int i => Decimal.ofInt i.toInt
  | .string s => s
  | .bool true => "true"
  | .bool false => "false"
  | .untyped s => s

/-- The text that the value holds; numbers and truth values hold none. -/
def content : Value → Bytes
  | .string s => s
  | .untyped s => s
  | _ => []

def escapeByte (b : UInt8) : Bytes :=
  if b = 92 then "\\\\"
  else if b = 34 then "\\\""
  else if b = 10 then "\\n"
  else if b = 9 then "\\t"
  else if b = 13 then "\\r"
  else [b]

/-- The value as a storage literal. -/
def literal : Value → Bytes
  | .string s => "\"" ++ s.flatMap escapeByte ++ "\""
  | v => v.render

/-- The typing and the storage literal, which together identify the value. -/
def tagged (v : Value) : Bytes := v.typing.render ++ ":" ++ v.literal

end Value
end PackScript
