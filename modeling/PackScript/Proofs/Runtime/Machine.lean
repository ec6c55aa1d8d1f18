import PackScript.Command.Basic
import Mathlib.Logic.Relation

/-! # Running the files of a pack

What matters of a running pack is which files it is in, how many cells its stack of
values has, and which frames it has open. Frames are told apart by the order in which
they were opened. The outcome of a condition is left open, so a run here stands for what
can happen with any values and any scores; the command lines of the program itself touch
neither stack and run no file of the pack.
-/
namespace PackScript

namespace Command

/-- The file that a command runs, if it runs one. -/
def runs? : Command → Option FileId
  | .runIf file | .runUnless file | .call file => some file
  | _ => none

/-- Whether the file is run depends on the condition register. -/
def isConditional : Command → Bool
  | .runIf _ | .runUnless _ => true
  | _ => false

end Command

/-- The two stacks of a running pack. -/
structure Storage where
  cells : Nat
  /-- The open frames, last first, each by the number of frames opened before it. -/
  frames : List Nat
  /-- How many frames have been opened so far. -/
  opened : Nat

/-- What a command does to the stacks. Removing from an empty stack does nothing. -/
def Storage.after (st : Storage) : Command → Storage
  | .pushValue _ | .pushFrom _ => { st with cells := st.cells + 1 }
  | .pop => { st with cells := st.cells - 1 }
  | .openFrame => { st with frames := st.opened :: st.frames, opened := st.opened + 1 }
  | .closeFrame => { st with frames := st.frames.tail }
  | _ => st

/-- A file that is being run. -/
structure Activation where
  file : FileId
  /-- How many of its commands are done. -/
  done : Nat := 0
  /-- The frames that were open when it was entered, last first. -/
  entry : List Nat
  /-- The frames that it has opened itself and not closed since, last first. -/
  own : List Nat := []

/-- The activation past a command that is executed in a state of the stacks. -/
def Activation.after (a : Activation) (st : Storage) : Command → Activation
  | .openFrame => { a with done := a.done + 1, own := st.opened :: a.own }
  | .closeFrame => { a with done := a.done + 1, own := a.own.tail }
  | _ => { a with done := a.done + 1 }

structure Machine where
  /-- The files being run, innermost first. -/
  running : List Activation
  storage : Storage

namespace Machine

/-- A file entered from outside the pack. -/
def start (file : FileId) (st : Storage) : Machine := ⟨[{ file, entry := st.frames }], st⟩

inductive Step (files : List (List Command)) : Machine → Machine → Prop
  | perform {a : Activation} {outer : List Activation} {st : Storage} {c : Command}
      (hc : (files.getD a.file [])[a.done]? = some c) (hr : c.runs? = none) :
      Step files ⟨a :: outer, st⟩ ⟨a.after st c :: outer, st.after c⟩
  | enter {a : Activation} {outer : List Activation} {st : Storage} {c : Command} {g : FileId}
      (hc : (files.getD a.file [])[a.done]? = some c) (hr : c.runs? = some g) :
      Step files ⟨a :: outer, st⟩ ⟨{ file := g, entry := st.frames } :: a.after st c :: outer, st⟩
  | pass {a : Activation} {outer : List Activation} {st : Storage} {c : Command}
      (hc : (files.getD a.file [])[a.done]? = some c) (hr : c.isConditional = true) :
      Step files ⟨a :: outer, st⟩ ⟨a.after st c :: outer, st⟩
  | leave {a : Activation} {outer : List Activation} {st : Storage}
      (hend : (files.getD a.file [])[a.done]? = none) : Step files ⟨a :: outer, st⟩ ⟨outer, st⟩

/-- Any number of steps. -/
abbrev Steps (files : List (List Command)) : Machine → Machine → Prop :=
  Relation.ReflTransGen (Step files)

end Machine

namespace Activation

@[simp] theorem file_after (a : Activation) (st : Storage) (c : Command) : (a.after st c).file = a.file := by
  cases c <;> rfl

@[simp] theorem done_after (a : Activation) (st : Storage) (c : Command) :
    (a.after st c).done = a.done + 1 := by
  cases c <;> rfl

@[simp] theorem entry_after (a : Activation) (st : Storage) (c : Command) : (a.after st c).entry = a.entry := by
  cases c <;> rfl

end Activation
end PackScript
