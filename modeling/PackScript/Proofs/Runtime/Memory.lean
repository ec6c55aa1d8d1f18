import PackScript.Command.Basic
import Mathlib.Logic.Function.Basic

/-! # What commands do to the data of a pack

A running pack keeps a stack of values, a stack of frames with the variables of the open
scopes, the value last returned, and the scores of its registers. `Memory.perform` gives the
meaning of every command that neither runs a file nor comes from the program as it stands. A
command has no meaning where the cell, the frame or the variable that it names is missing.
-/
namespace PackScript

/-- The score that reading a value gives; only numbers and truth values are read. -/
def Value.score? : Value → Option Int32
  | .int i => some i
  | .bool b => some (if b then 1 else 0)
  | .string _ | .untyped _ => none

/-- Scores have 32 bits and wrap. -/
def Operation.apply : Operation → Int32 → Int32 → Int32
  | .add, a, b => a + b
  | .multiply, a, b => a * b

structure Memory where
  /-- The last cell first. -/
  stack : List Value
  /-- The variables of each frame, the last frame first. -/
  frames : List (Bytes → Option Value)
  /-- The value last returned by a function. -/
  result : Option Value
  scores : Register → Int32

namespace Memory

/-- Where the item at a distance from the end is in a list with the last item first. There
is no distance of zero: that index is the first item. -/
def position (length : Nat) : (distance : Nat) → Nat
  | 0 => length - 1
  | distance + 1 => distance

def lookup? (m : Memory) (distance : Nat) (x : Bytes) : Option Value :=
  m.frames[position m.frames.length distance]?.bind (· x)

/-- What a place holds. -/
def read (m : Memory) : Place → Option Value
  | .frame distance x => m.lookup? distance x
  | .rootFrame x => m.lookup? 0 x
  | .result => m.result

def setVariable (m : Memory) (distance : Nat) (x : Bytes) (v : Value) : Option Memory :=
  let i := position m.frames.length distance
  if i < m.frames.length then
    some { m with frames := m.frames.modify i (Function.update · x (some v)) }
  else none

def write (m : Memory) (v : Value) : Place → Option Memory
  | .frame distance x => m.setVariable distance x v
  | .rootFrame x => m.setVariable 0 x v
  | .result => some { m with result := some v }

def setScore (m : Memory) (r : Register) (i : Int32) : Memory :=
  { m with scores := Function.update m.scores r i }

def perform (m : Memory) : Command → Option Memory
  | .pushValue v => some { m with stack := v :: m.stack }
  | .pushFrom place => (m.read place).map fun v => { m with stack := v :: m.stack }
  | .pop =>
    match m.stack with
    | [] => none
    | _ :: rest => some { m with stack := rest }
  | .openFrame => some { m with frames := (fun _ => none) :: m.frames }
  | .closeFrame =>
    match m.frames with
    | [] => none
    | _ :: rest => some { m with frames := rest }
  | .storeTop place => m.stack.head?.bind fun v => m.write v place
  | .storeValue place v => m.write v place
  | .load r distance =>
    (m.stack[position m.stack.length distance]?.bind Value.score?).map (m.setScore r)
  | .operate op => some (m.setScore .left (op.apply (m.scores .left) (m.scores .right)))
  | .writeBack =>
    match m.stack with
    | [] => none
    | _ :: rest => some { m with stack := .int (m.scores .left) :: rest }
  | .verbatim _ | .runIf _ | .runUnless _ | .call _ => none

/-- The commands one after another. -/
def performAll (m : Memory) (cs : List Command) : Option Memory := cs.foldlM perform m

theorem performAll_append (m : Memory) (cs ds : List Command) :
    m.performAll (cs ++ ds) = (m.performAll cs).bind (·.performAll ds) := List.foldlM_append

/-- With another stack and other scores. -/
def withStack (m : Memory) (stack : List Value) (scores : Register → Int32) : Memory :=
  { m with stack, scores }

@[simp] theorem read_withStack (m : Memory) (stack : List Value) (scores : Register → Int32)
    (place : Place) : (m.withStack stack scores).read place = m.read place := by
  cases place <;> rfl

/-- Over the frames and the returned value of `m`, the commands push one cell, whatever the
stack and the scores are, and change nothing else but scores. -/
def Pushes (m : Memory) (cs : List Command) (v : Value) : Prop :=
  ∀ stack scores, ∃ scores', (m.withStack stack scores).performAll cs =
    some (m.withStack (v :: stack) scores')

theorem pushes_pushValue (m : Memory) (v : Value) : m.Pushes [.pushValue v] v :=
  fun _ scores => ⟨scores, rfl⟩

theorem pushes_pushFrom {m : Memory} {place : Place} {v : Value} (h : m.read place = some v) :
    m.Pushes [.pushFrom place] v := by
  intro stack scores
  refine ⟨scores, ?_⟩
  simp only [performAll, List.foldlM_cons, List.foldlM_nil, perform, read_withStack, h]
  rfl

end Memory
end PackScript
