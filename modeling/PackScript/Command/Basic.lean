import PackScript.Command.Place
import PackScript.Program.Value

/-! # Generated commands

What a generated file may say, apart from the command lines of the program itself. The
data of a pack lives in one storage and its arithmetic in the scores of one objective,
both named after the namespace of the pack.
-/
namespace PackScript

/-- Output files are numbered in the order of their creation. -/
abbrev FileId := Nat

inductive Register where
  | left
  | right
  | condition
deriving DecidableEq, Repr

inductive Operation where
  | add
  | multiply
deriving DecidableEq, Repr

inductive Command where
  /-- A command line of the program. -/
  | verbatim (line : Bytes)
  /-- Pushes a literal value. -/
  | pushValue (v : Value)
  /-- Pushes a copy of what a place holds. -/
  | pushFrom (place : Place)
  | pop
  | openFrame
  | closeFrame
  /-- Copies the top of the stack to a place without popping it. -/
  | storeTop (place : Place)
  | storeValue (place : Place) (v : Value)
  /-- Reads the value at this distance from the end of the stack into a register. -/
  | load (register : Register) (distance : Nat)
  /-- Combines both operand registers into the left one. -/
  | operate (op : Operation)
  /-- Overwrites the top of the stack with the left register. -/
  | writeBack
  | runIf (file : FileId)
  | runUnless (file : FileId)
  | call (file : FileId)
deriving DecidableEq, Repr

def Register.render : Register → Bytes
  | .left => "#lhs"
  | .right => "#rhs"
  | .condition => "#cond"

def Operation.render : Operation → Bytes
  | .add => "+="
  | .multiply => "*="

/-- The name of an output file. -/
def FileId.render (file : FileId) : Bytes := Decimal.ofNat file

namespace Command

def storage (ns : Bytes) : Bytes := ns ++ ":runtime"
def objective (ns : Bytes) : Bytes := ns ++ ".rt"

/-- A register together with the objective that holds it. -/
def score (ns : Bytes) (r : Register) : Bytes := r.render ++ " " ++ objective ns

/-- The function of the pack that a file becomes. -/
def target (ns : Bytes) (file : FileId) : Bytes := ns ++ ":" ++ FileId.render file

def render (ns : Bytes) : Command → Bytes
  | .verbatim line => line
  | .pushValue v => "data modify storage " ++ storage ns ++ " stack append value " ++ v.literal
  | .pushFrom place =>
    "data modify storage " ++ storage ns ++ " stack append from storage " ++ storage ns ++ " " ++
      place.render
  | .pop => "data remove storage " ++ storage ns ++ " stack[-1]"
  | .openFrame => "data modify storage " ++ storage ns ++ " frames append value \x7b\x7d"
  | .closeFrame => "data remove storage " ++ storage ns ++ " frames[-1]"
  | .storeTop place =>
    "data modify storage " ++ storage ns ++ " " ++ place.render ++ " set from storage " ++
      storage ns ++ " stack[-1]"
  | .storeValue place v =>
    "data modify storage " ++ storage ns ++ " " ++ place.render ++ " set value " ++ v.literal
  | .load r distance =>
    "execute store result score " ++ score ns r ++ " run data get storage " ++ storage ns ++
      " stack[-" ++ Decimal.ofNat distance ++ "]"
  | .operate op =>
    "scoreboard players operation " ++ score ns .left ++ " " ++ op.render ++ " " ++ score ns .right
  | .writeBack =>
    "execute store result storage " ++ storage ns ++
      " stack[-1] int 1 run scoreboard players get " ++ score ns .left
  | .runIf file =>
    "execute if score " ++ score ns .condition ++ " matches 1 run function " ++ target ns file
  | .runUnless file =>
    "execute unless score " ++ score ns .condition ++ " matches 1 run function " ++ target ns file
  | .call file => "function " ++ target ns file

end Command
end PackScript
