import PackScript.Text.Decimal

/-! # Places in storage

A running pack keeps its data in one storage: a stack of temporary values, a stack of
frames with the variables of the open scopes, and the last returned value. A place
names one cell of it that outlives the evaluation of an expression.
-/
namespace PackScript

inductive Place where
  /-- A variable of the frame at this distance from the end, the last frame being at one. -/
  | frame (distance : Nat) (var : Bytes)
  /-- A variable of the first frame. -/
  | rootFrame (var : Bytes)
  /-- The value last returned by a function. -/
  | result
deriving DecidableEq, Repr

def Place.render : Place → Bytes
  | .frame distance v => "frames[-" ++ Decimal.ofNat distance ++ "]." ++ v
  | .rootFrame v => "frames[0]." ++ v
  | .result => "return"

end PackScript
