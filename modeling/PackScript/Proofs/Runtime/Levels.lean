import PackScript.Proofs.Generation.Heights
import PackScript.Proofs.Runtime.Machine
import Mathlib.Algebra.Order.BigOperators.Group.List

/-! # Heights of the stacks during a run

While balanced files run, the height of each stack is its height at the beginning plus
what each file being run has put there itself. So a file that has been run to its end
leaves both stacks as high as it found them.
-/
namespace PackScript

/-- What an activation has put on the stack of values, and opened of frames. -/
def Activation.stackShare (files : List (List Command)) (a : Activation) : Int :=
  stackSum ((files.getD a.file []).take a.done)
def Activation.frameShare (files : List (List Command)) (a : Activation) : Int :=
  frameSum ((files.getD a.file []).take a.done)

/-- A command that does not go below the bottom of a stack changes its height by its own amount. -/
theorem Storage.heights_after {st : Storage} {c : Command} (hcells : 0 ≤ (st.cells : Int) + c.stackChange)
    (hframes : 0 ≤ (st.frames.length : Int) + c.frameChange) :
    ((st.after c).cells : Int) = st.cells + c.stackChange ∧
      ((st.after c).frames.length : Int) = st.frames.length + c.frameChange := by
  cases c with
  | pop =>
    simp only [Command.stackChange, Command.frameChange, after] at hcells ⊢
    omega
  | closeFrame =>
    simp only [Command.stackChange, Command.frameChange, after, List.length_tail] at hframes ⊢
    omega
  | _ => simp [Command.stackChange, Command.frameChange, after]

/-- A command that runs a file leaves the stacks to that file. -/
theorem Command.changes_of_runs {c : Command} (h : c.runs?.isSome ∨ c.isConditional = true) :
    c.stackChange = 0 ∧ c.frameChange = 0 := by
  cases c <;> simp [Command.runs?, Command.isConditional, stackChange, frameChange] at h ⊢

namespace Machine

variable {files : List (List Command)} {m m' : Machine}

/-- The heights of both stacks, as far as they are due to the files being run. -/
def Held (files : List (List Command)) (st₀ : Storage) (m : Machine) : Prop :=
  (m.storage.cells : Int) = st₀.cells + (m.running.map (Activation.stackShare files)).sum ∧
  (m.storage.frames.length : Int) = st₀.frames.length + (m.running.map (Activation.frameShare files)).sum

section

variable (hfiles : ∀ i, Balanced (files.getD i []))
include hfiles

theorem stackShare_nonneg (a : Activation) : 0 ≤ a.stackShare files :=
  (hfiles a.file).stack_nonneg _ (List.take_prefix _ _)

theorem frameShare_nonneg (a : Activation) : 0 ≤ a.frameShare files :=
  (hfiles a.file).frame_nonneg _ (List.take_prefix _ _)

omit hfiles in
/-- Each command adds its own change to the share of its file. -/
theorem share_after {a : Activation} {c : Command} (st : Storage)
    (hc : (files.getD a.file [])[a.done]? = some c) :
    (a.after st c).stackShare files = a.stackShare files + c.stackChange ∧
      (a.after st c).frameShare files = a.frameShare files + c.frameChange := by
  have htake : (files.getD a.file []).take (a.done + 1) = (files.getD a.file []).take a.done ++ [c] := by
    rw [List.take_add_one, hc]
    rfl
  simp only [Activation.stackShare, Activation.frameShare, Activation.file_after, Activation.done_after,
    htake, stackSum_append, frameSum_append]
  simp [stackSum, frameSum]

/-- The share of a file at its end is nothing. -/
theorem share_end {a : Activation} (hend : (files.getD a.file [])[a.done]? = none) :
    a.stackShare files = 0 ∧ a.frameShare files = 0 := by
  have hlen := List.getElem?_eq_none_iff.1 hend
  simp only [Activation.stackShare, Activation.frameShare, List.take_of_length_le hlen]
  exact ⟨(hfiles a.file).stack_end, (hfiles a.file).frame_end⟩

omit hfiles in
theorem sum_nonneg {f : Activation → Int} (hf : ∀ a, 0 ≤ f a) (K : List Activation) :
    0 ≤ (K.map f).sum :=
  List.sum_nonneg (by simpa using fun a _ => hf a)

theorem Step.held {st₀ : Storage} (h : Step files m m') (hm : Held files st₀ m) : Held files st₀ m' := by
  obtain ⟨hcells, hframes⟩ := hm
  cases h with
  | @perform a outer st c hc hr =>
    obtain ⟨hstack, hframe⟩ := share_after st hc
    have hstack' := stackShare_nonneg hfiles (a.after st c)
    have hframe' := frameShare_nonneg hfiles (a.after st c)
    have houter := sum_nonneg (stackShare_nonneg hfiles) outer
    have houter' := sum_nonneg (frameShare_nonneg hfiles) outer
    simp only [List.map_cons, List.sum_cons] at hcells hframes
    have hcells' : 0 ≤ (st.cells : Int) + c.stackChange := by omega
    have hframes' : 0 ≤ (st.frames.length : Int) + c.frameChange := by omega
    obtain ⟨hc', hf'⟩ := Storage.heights_after hcells' hframes'
    simp only [Held, List.map_cons, List.sum_cons]
    omega
  | @enter a outer st c g hc hr =>
    obtain ⟨hstack, hframe⟩ := share_after st hc
    obtain ⟨hs, hf⟩ := Command.changes_of_runs (c := c) (.inl (by rw [hr]; rfl))
    have hnew : Activation.stackShare files { file := g, entry := st.frames } = 0 := rfl
    have hnew' : Activation.frameShare files { file := g, entry := st.frames } = 0 := rfl
    simp only [Held, List.map_cons, List.sum_cons, hstack, hframe, hnew, hnew', hs, hf] at hcells hframes ⊢
    omega
  | @pass a outer st c hc hr =>
    obtain ⟨hstack, hframe⟩ := share_after st hc
    obtain ⟨hs, hf⟩ := Command.changes_of_runs (c := c) (.inr hr)
    simp only [Held, List.map_cons, List.sum_cons, hstack, hframe, hs, hf] at hcells hframes ⊢
    omega
  | @leave a outer st hend =>
    obtain ⟨hstack, hframe⟩ := share_end hfiles hend
    simp only [List.map_cons, List.sum_cons, hstack, hframe, Int.zero_add] at hcells hframes
    exact ⟨hcells, hframes⟩

theorem Steps.held {st₀ : Storage} (h : Steps files m m') (hm : Held files st₀ m) : Held files st₀ m' := by
  induction h with
  | refl => exact hm
  | tail _ hstep ih => exact hstep.held hfiles ih

omit hfiles in
theorem held_start (i : FileId) (st : Storage) : Held files st (start i st) := by
  simp [Held, start, Activation.stackShare, Activation.frameShare, stackSum, frameSum]

/-- From the entry of a file to its end the heights of both stacks do not change. -/
theorem heights_of_return {i : FileId} {st₀ st₁ st₂ : Storage} {a : Activation} {K : List Activation}
    (hentry : a.done = 0) (hin : Steps files (start i st₀) ⟨a :: K, st₁⟩)
    (hout : Steps files ⟨a :: K, st₁⟩ ⟨K, st₂⟩) :
    st₂.cells = st₁.cells ∧ st₂.frames.length = st₁.frames.length := by
  have hbefore := Steps.held hfiles hin (held_start i st₀)
  obtain ⟨hcells, hframes⟩ := Steps.held hfiles hout hbefore
  obtain ⟨hcells', hframes'⟩ := hbefore
  have hstack : a.stackShare files = 0 := by
    simp [Activation.stackShare, hentry, stackSum]
  have hframe : a.frameShare files = 0 := by
    simp [Activation.frameShare, hentry, frameSum]
  simp only [List.map_cons, List.sum_cons, hstack, hframe] at hcells' hframes'
  dsimp only at hcells hframes
  omega

end
end Machine

/-- Every file of a generated pack is balanced. So however files call each other, each
leaves both stacks as high as it found them, whatever was on them before. -/
theorem generate_balanced {ns : Bytes} {p : Program} {g : Generated} (h : p.generate ns = .ok g) :
    (∀ file ∈ g.files, Balanced file) ∧
      ∀ {i : FileId} {st₀ st₁ st₂ : Storage} {a : Activation} {K : List Activation}, a.done = 0 →
        Machine.Steps g.files (.start i st₀) ⟨a :: K, st₁⟩ → Machine.Steps g.files ⟨a :: K, st₁⟩ ⟨K, st₂⟩ →
        st₂.cells = st₁.cells ∧ st₂.frames.length = st₁.frames.length := by
  have hfiles : ∀ i, Balanced (g.files.getD i []) := fun i => (Gen.climb_of_generate h i).balanced
  refine ⟨fun file hfile => ?_, fun ha hin hout => Machine.heights_of_return hfiles ha hin hout⟩
  obtain ⟨i, hi, rfl⟩ := List.mem_iff_getElem.1 hfile
  have hfile := hfiles i
  rwa [List.getD_eq_getElem?_getD, List.getElem?_eq_getElem hi, Option.getD_some] at hfile

/-- A program whose first file calls its second one, run from a stack that is in use. -/
theorem generate_balanced_call : ∃ p g, Program.parse "def $f($x) \x7b $x = 3; \x7d $f(2);" = .ok p ∧
    p.generate "demo" = .ok g ∧ (∀ file ∈ g.files, Balanced file) ∧
    ∃ a K st₁ st₂, a.file = 1 ∧ a.done = 0 ∧
      Machine.Steps g.files (.start 0 ⟨5, [0], 1⟩) ⟨a :: K, st₁⟩ ∧ Machine.Steps g.files ⟨a :: K, st₁⟩ ⟨K, st₂⟩ ∧
      st₂.cells = st₁.cells ∧ st₂.frames.length = st₁.frames.length := by
  have hfiles : ((Program.parse "def $f($x) \x7b $x = 3; \x7d $f(2);").bind
      (Program.generate "demo")).toOption.map Generated.files = some
        [[.pushValue (.int 2), .openFrame, .storeTop (.frame 1 "x"), .pop, .call 1, .closeFrame],
          [.storeValue (.frame 1 "x") (.int 3)]] := by
    decide +kernel
  obtain ⟨p, g, hp, hg, hfiles⟩ := Gen.exists_generated hfiles
  have hin : Machine.Steps g.files (.start 0 ⟨5, [0], 1⟩)
      ⟨[⟨1, 0, [1, 0], []⟩, ⟨0, 5, [0], [1]⟩], ⟨5, [1, 0], 2⟩⟩ := by
    rw [hfiles]
    refine .head (.perform rfl rfl) (.head (.perform rfl rfl) ?_)
    exact .head (.perform rfl rfl) (.head (.perform rfl rfl) (.head (.enter rfl rfl) .refl))
  have hout : Machine.Steps g.files ⟨[⟨1, 0, [1, 0], []⟩, ⟨0, 5, [0], [1]⟩], ⟨5, [1, 0], 2⟩⟩
      ⟨[⟨0, 5, [0], [1]⟩], ⟨5, [1, 0], 2⟩⟩ := by
    rw [hfiles]
    exact .head (.perform rfl rfl) (.head (.leave rfl) .refl)
  have hbalanced := generate_balanced hg
  exact ⟨p, g, hp, hg, hbalanced.1, _, _, _, _, rfl, rfl, hin, hout, hbalanced.2 rfl hin hout⟩

end PackScript
