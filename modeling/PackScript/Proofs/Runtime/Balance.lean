import PackScript.Command.Basic
import Mathlib.Algebra.Order.Ring.Int
import Mathlib.Algebra.BigOperators.Group.List.Basic

/-! # Balanced files

A file of commands is balanced if it only takes away from the two stacks what it has put
there itself, reads no deeper than that, and ends with nothing of its own on either. To
follow a file command by command, `climb` gives the level that a command leads to from a
level, if it does not go below the start of the file.
-/
namespace PackScript

namespace Command

/-- The change in the height of the stack of values. -/
def stackChange : Command → Int
  | .pushValue _ | .pushFrom _ => 1
  | .pop => -1
  | _ => 0

/-- The change in the number of frames. -/
def frameChange : Command → Int
  | .openFrame => 1
  | .closeFrame => -1
  | _ => 0

/-- The distance from the end of the stack at which a command reads or overwrites a value. -/
def stackReach : Command → Nat
  | .storeTop _ | .writeBack => 1
  | .load _ distance => distance
  | _ => 0

end Command

/-- The running sums of both stacks over some commands. -/
def stackSum (cs : List Command) : Int := (cs.map Command.stackChange).sum
def frameSum (cs : List Command) : Int := (cs.map Command.frameChange).sum

theorem stackSum_append (cs ds : List Command) : stackSum (cs ++ ds) = stackSum cs + stackSum ds := by
  simp [stackSum]

theorem frameSum_append (cs ds : List Command) : frameSum (cs ++ ds) = frameSum cs + frameSum ds := by
  simp [frameSum]

structure Balanced (file : List Command) : Prop where
  stack_nonneg : ∀ done, done <+: file → 0 ≤ stackSum done
  frame_nonneg : ∀ done, done <+: file → 0 ≤ frameSum done
  stack_end : stackSum file = 0
  frame_end : frameSum file = 0
  reach_le : ∀ done c rest, file = done ++ c :: rest → (c.stackReach : Int) ≤ stackSum done

/-- How high both stacks stand above their heights at the start of a file. -/
structure Level where
  cells : Nat := 0
  frames : Nat := 0

/-- Seen from a lower start. -/
def Level.above (base l : Level) : Level := ⟨base.cells + l.cells, base.frames + l.frames⟩

/-- Some commands lead from a level to a level, never below the start of the file. -/
inductive Climb : Level → List Command → Level → Prop
  | nil (l : Level) : Climb l [] l
  | cons {l l₁ l' : Level} {c : Command} {cs : List Command}
      (hcells : (l₁.cells : Int) = l.cells + c.stackChange)
      (hframes : (l₁.frames : Int) = l.frames + c.frameChange)
      (hreach : c.stackReach ≤ l.cells) (h : Climb l₁ cs l') : Climb l (c :: cs) l'

namespace Climb

variable {l l₁ l' : Level} {cs ds : List Command}

theorem one {c : Command} (hcells : (l'.cells : Int) = l.cells + c.stackChange)
    (hframes : (l'.frames : Int) = l.frames + c.frameChange) (hreach : c.stackReach ≤ l.cells) :
    Climb l [c] l' := .cons hcells hframes hreach (.nil l')

theorem append (h : Climb l cs l₁) (h' : Climb l₁ ds l') : Climb l (cs ++ ds) l' := by
  induction h with
  | nil _ => exact h'
  | cons hcells hframes hreach _ ih => exact .cons hcells hframes hreach (ih h')

theorem split (h : Climb l (cs ++ ds) l') : ∃ l₁, Climb l cs l₁ ∧ Climb l₁ ds l' := by
  induction cs generalizing l with
  | nil => exact ⟨l, .nil l, h⟩
  | cons c cs ih =>
    cases h with
    | cons hcells hframes hreach h =>
      obtain ⟨l₂, hcs, hds⟩ := ih h
      exact ⟨l₂, .cons hcells hframes hreach hcs, hds⟩

/-- What stays above its start does so from any higher start. -/
theorem above (base : Level) (h : Climb l cs l') : Climb (base.above l) cs (base.above l') := by
  induction h with
  | nil _ => exact .nil _
  | cons hcells hframes hreach _ ih =>
    refine .cons ?_ ?_ ?_ ih
    · simp only [Level.above]
      omega
    · simp only [Level.above]
      omega
    · simp only [Level.above]
      omega

theorem sum (h : Climb l cs l') :
    (l'.cells : Int) = l.cells + stackSum cs ∧ (l'.frames : Int) = l.frames + frameSum cs := by
  induction h with
  | nil l => simp [stackSum, frameSum]
  | cons hcells hframes _ _ ih =>
    simp only [stackSum, frameSum, List.map_cons, List.sum_cons] at ih ⊢
    omega

theorem sum_of_start (h : Climb {} cs l) : (l.cells : Int) = stackSum cs ∧ (l.frames : Int) = frameSum cs := by
  simpa using h.sum

/-- A file that leads from its start back to it is balanced. -/
theorem balanced {file : List Command} (h : Climb {} file {}) : Balanced file := by
  obtain ⟨hstack, hframe⟩ := h.sum_of_start
  constructor
  · rintro done ⟨rest, rfl⟩
    obtain ⟨l, hl, -⟩ := h.split
    have hdone := hl.sum_of_start.1
    omega
  · rintro done ⟨rest, rfl⟩
    obtain ⟨l, hl, -⟩ := h.split
    have hdone := hl.sum_of_start.2
    omega
  · exact hstack.symm
  · exact hframe.symm
  · rintro done c rest rfl
    obtain ⟨l, hl, hr⟩ := h.split
    have hdone := hl.sum_of_start.1
    cases hr with
    | cons _ _ hreach _ => omega

end Climb
end PackScript
