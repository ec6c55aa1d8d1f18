import PackScript.Proofs.Runtime.Levels
import PackScript.Proofs.Runtime.Memory

/-! # Executing commands

An engine has the files of a pack and executes commands one after another. `Exec` says where
that leads, with the values on the stack, and which files it goes through. What the command
lines of the program do is left open, as long as they keep to the variables and the scores,
and so is the score that a text is read as.

As long as the files that are run leave a stack as they found it, commands that climb from one
level to another do so on that stack, and what lies below stays as it was.
-/
namespace PackScript

/-- What executes a pack. -/
structure Engine where
  files : FileId → List Command
  /-- The score that reading a cell gives. -/
  reading : Value → Int32
  /-- What a command line of the program may do to the memory. -/
  line : Bytes → Memory → Memory → Prop
  reading_of_score {v : Value} {i : Int32} (h : v.score? = some i) : reading v = i
  stack_of_line {text : Bytes} {m m' : Memory} (h : line text m m') : m'.stack = m.stack
  frames_of_line {text : Bytes} {m m' : Memory} (h : line text m m') : m'.frames.length = m.frames.length

namespace Memory

/-- Whether a command that runs a file does so. -/
def Fires (m : Memory) : Command → Prop
  | .runIf _ => m.scores .condition = 1
  | .runUnless _ => m.scores .condition ≠ 1
  | _ => True

variable {m m' : Memory} {v : Value}

@[simp] theorem stack_setScore (r : Register) (i : Int32) : (m.setScore r i).stack = m.stack := rfl

@[simp] theorem frames_setScore (r : Register) (i : Int32) : (m.setScore r i).frames = m.frames := rfl

/-- Storing a value changes one variable or the returned value. -/
theorem write_keeps {place : Place} (h : m.write v place = some m') :
    m'.stack = m.stack ∧ m'.frames.length = m.frames.length := by
  have hset {d : Nat} {x : Bytes} (h : m.setVariable d x v = some m') :
      m'.stack = m.stack ∧ m'.frames.length = m.frames.length := by
    unfold setVariable at h
    dsimp only at h
    split at h
    · cases h
      simp
    · cases h
  cases place with
  | frame d x => exact hset h
  | rootFrame x => exact hset h
  | result =>
    cases h
    exact ⟨rfl, rfl⟩

end Memory

namespace Engine

variable {E : Engine} {m m₁ m' : Memory} {c : Command} {cs ds : List Command} {log : List FileId} {g : FileId}

/-- What a command of the pack itself does. Reading a cell always gives a score. -/
def act (E : Engine) (m : Memory) : Command → Option Memory
  | .load r distance =>
    (m.stack[Memory.position m.stack.length distance]?).map fun v => m.setScore r (E.reading v)
  | c => m.perform c

/-- The commands lead from one memory to another, through the files of the log. A file is run by
executing its commands. -/
inductive Exec (E : Engine) : Memory → List Command → List FileId → Memory → Prop
  | nil (m : Memory) : Exec E m [] [] m
  | act {m m₁ m' : Memory} {c : Command} {cs : List Command} {log : List FileId}
      (hc : E.act m c = some m₁) (h : Exec E m₁ cs log m') : Exec E m (c :: cs) log m'
  | line {m m₁ m' : Memory} {text : Bytes} {cs : List Command} {log : List FileId}
      (hl : E.line text m m₁) (h : Exec E m₁ cs log m') : Exec E m (.verbatim text :: cs) log m'
  | enter {m m₁ m' : Memory} {c : Command} {g : FileId} {cs : List Command} {inside log : List FileId}
      (hr : c.runs? = some g) (hf : m.Fires c) (hg : Exec E m (E.files g) inside m₁)
      (h : Exec E m₁ cs log m') : Exec E m (c :: cs) (g :: inside ++ log) m'
  | pass {m m' : Memory} {c : Command} {g : FileId} {cs : List Command} {log : List FileId}
      (hr : c.runs? = some g) (hf : ¬m.Fires c) (h : Exec E m cs log m') : Exec E m (c :: cs) log m'

/-- A file that leaves the stack of values as it finds it. -/
def KeepsStack (E : Engine) (g : FileId) : Prop :=
  ∀ ⦃m log m'⦄, E.Exec m (E.files g) log m' → m'.stack = m.stack

/-- A file that leaves as many frames as it finds. -/
def KeepsFrames (E : Engine) (g : FileId) : Prop :=
  ∀ ⦃m log m'⦄, E.Exec m (E.files g) log m' → m'.frames.length = m.frames.length

/-! ## Stretches of commands -/

theorem exec_nil : E.Exec m [] log m' ↔ log = [] ∧ m' = m := by
  constructor
  · intro h
    cases h
    exact ⟨rfl, rfl⟩
  · rintro ⟨rfl, rfl⟩
    exact .nil _

theorem Exec.append {log₁ log₂ : List FileId} (h : E.Exec m cs log₁ m₁) (h' : E.Exec m₁ ds log₂ m') :
    E.Exec m (cs ++ ds) (log₁ ++ log₂) m' := by
  induction h with
  | nil m => exact h'
  | act hc _ ih => exact .act hc (ih h')
  | line hl _ ih => exact .line hl (ih h')
  | enter hr hf hg _ _ ih =>
    rw [List.append_assoc]
    exact .enter hr hf hg (ih h')
  | pass hr hf _ ih => exact .pass hr hf (ih h')

theorem Exec.split (h : E.Exec m (cs ++ ds) log m') :
    ∃ m₁ log₁ log₂, E.Exec m cs log₁ m₁ ∧ E.Exec m₁ ds log₂ m' ∧ log = log₁ ++ log₂ := by
  induction cs generalizing m log with
  | nil => exact ⟨m, [], log, .nil m, h, rfl⟩
  | cons c cs ih =>
    cases h with
    | act hc h =>
      obtain ⟨m₁, log₁, log₂, h₁, h₂, rfl⟩ := ih h
      exact ⟨m₁, log₁, log₂, .act hc h₁, h₂, rfl⟩
    | line hl h =>
      obtain ⟨m₁, log₁, log₂, h₁, h₂, rfl⟩ := ih h
      exact ⟨m₁, log₁, log₂, .line hl h₁, h₂, rfl⟩
    | @enter _ _ _ _ g _ inside _ hr hf hg h =>
      obtain ⟨m₁, log₁, log₂, h₁, h₂, rfl⟩ := ih h
      exact ⟨m₁, g :: inside ++ log₁, log₂, .enter hr hf hg h₁, h₂, by rw [List.append_assoc]⟩
    | pass hr hf h =>
      obtain ⟨m₁, log₁, log₂, h₁, h₂, rfl⟩ := ih h
      exact ⟨m₁, log₁, log₂, .pass hr hf h₁, h₂, rfl⟩

theorem exec_append : E.Exec m (cs ++ ds) log m' ↔
    ∃ m₁ log₁ log₂, E.Exec m cs log₁ m₁ ∧ E.Exec m₁ ds log₂ m' ∧ log = log₁ ++ log₂ := by
  constructor
  · exact Exec.split
  · rintro ⟨m₁, log₁, log₂, h₁, h₂, rfl⟩
    exact h₁.append h₂

/-- A command that runs a file does nothing by itself. -/
theorem act_of_runs (h : c.runs? = some g) : E.act m c = none := by
  cases c with
  | runIf file => rfl
  | runUnless file => rfl
  | call file => rfl
  | _ => cases h

theorem exec_act (hc : E.act m c = some m₁) : E.Exec m (c :: cs) log m' ↔ E.Exec m₁ cs log m' := by
  constructor
  · intro h
    cases h with
    | act hc' h =>
      obtain rfl := Option.some.inj (hc.symm.trans hc')
      exact h
    | line hl h => cases hc
    | enter hr hf hg h =>
      rw [act_of_runs hr] at hc
      cases hc
    | pass hr hf h =>
      rw [act_of_runs hr] at hc
      cases hc
  · intro h
    exact .act hc h

theorem exec_fires (hr : c.runs? = some g) (hf : m.Fires c) : E.Exec m (c :: cs) log m' ↔
    ∃ m₁ inside rest, E.Exec m (E.files g) inside m₁ ∧ E.Exec m₁ cs rest m' ∧ log = g :: inside ++ rest := by
  constructor
  · intro h
    cases h with
    | act hc h =>
      rw [act_of_runs hr] at hc
      cases hc
    | line hl h => cases hr
    | enter hr' hf' hg h =>
      obtain rfl := Option.some.inj (hr.symm.trans hr')
      exact ⟨_, _, _, hg, h, rfl⟩
    | pass hr' hf' h => exact absurd hf hf'
  · rintro ⟨m₁, inside, rest, hg, h, rfl⟩
    exact .enter hr hf hg h

theorem exec_passes (hr : c.runs? = some g) (hf : ¬m.Fires c) :
    E.Exec m (c :: cs) log m' ↔ E.Exec m cs log m' := by
  constructor
  · intro h
    cases h with
    | act hc h =>
      rw [act_of_runs hr] at hc
      cases hc
    | line hl h => cases hr
    | enter hr' hf' hg h => exact absurd hf' hf
    | pass hr' hf' h => exact h
  · intro h
    exact .pass hr hf h

/-- The meaning of a command is the one it has without an engine, wherever it has one. -/
theorem act_of_perform (h : m.perform c = some m₁) : E.act m c = some m₁ := by
  cases c with
  | load r distance =>
    simp only [Memory.perform, Option.map_eq_some_iff, Option.bind_eq_some_iff] at h
    obtain ⟨i, ⟨v, hv, hi⟩, rfl⟩ := h
    simp only [act, hv, Option.map_some, E.reading_of_score hi]
  | _ => exact h

theorem exec_performAll (h : m.performAll cs = some m₁) :
    E.Exec m (cs ++ ds) log m' ↔ E.Exec m₁ ds log m' := by
  induction cs generalizing m with
  | nil =>
    obtain rfl := Option.some.inj h
    rfl
  | cons c cs ih =>
    obtain ⟨m₂, hc, hcs⟩ := Option.bind_eq_some_iff.1 h
    rw [List.cons_append, exec_act (act_of_perform hc), ih hcs]

/-! ## Single commands -/

theorem exec_load {v : Value} {rest : List Value} (hm : m.stack = v :: rest) : E.Exec m (.load .condition 1 :: cs) log m' ↔
    E.Exec (m.setScore .condition (E.reading v)) cs log m' := by
  apply exec_act
  simp [act, Memory.position, hm]

theorem exec_pop {v : Value} {rest : List Value} (hm : m.stack = v :: rest) :
    E.Exec m [.pop] log m' ↔ log = [] ∧ m' = { m with stack := rest } := by
  have hact : E.act m .pop = some { m with stack := rest } := by simp [act, Memory.perform, hm]
  rw [exec_act hact, exec_nil]

theorem exec_closeFrame : E.Exec m (.closeFrame :: cs) log m' ↔
    ∃ frame below, m.frames = frame :: below ∧ E.Exec { m with frames := below } cs log m' := by
  constructor
  · intro h
    cases h with
    | act hact h =>
      simp only [act, Memory.perform] at hact
      split at hact
      · cases hact
      · rename_i frame below hm
        cases hact
        exact ⟨frame, below, hm, h⟩
    | enter hr _ _ _ => cases hr
    | pass hr _ _ => cases hr
  · rintro ⟨frame, below, hm, h⟩
    exact .act (by simp [act, Memory.perform, hm]) h

theorem exec_pushFrom {place : Place} : E.Exec m (.pushFrom place :: cs) log m' ↔
    ∃ v, m.read place = some v ∧ E.Exec { m with stack := v :: m.stack } cs log m' := by
  constructor
  · intro h
    cases h with
    | act hact h =>
      obtain ⟨v, hv, rfl⟩ := Option.map_eq_some_iff.1 hact
      exact ⟨v, hv, h⟩
    | enter hr _ _ _ => cases hr
    | pass hr _ _ => cases hr
  · rintro ⟨v, hv, h⟩
    exact .act (by simp [act, Memory.perform, hv]) h

/-! ## Levels -/

/-- A command changes the stack by its own amount, above what lies below its level. -/
theorem stack_of_act {l l₁ : Level} {top base : List Value} (h : E.act m c = some m₁)
    (hcells : (l₁.cells : Int) = l.cells + c.stackChange) (hreach : c.stackReach ≤ l.cells)
    (hm : m.stack = top ++ base) (htop : top.length = l.cells) :
    ∃ top₁, m₁.stack = top₁ ++ base ∧ top₁.length = l₁.cells := by
  -- most commands leave the stack alone
  have hsame (hs : m₁.stack = m.stack) (hc : c.stackChange = 0) :
      ∃ top₁, m₁.stack = top₁ ++ base ∧ top₁.length = l₁.cells :=
    ⟨top, hs.trans hm, by omega⟩
  cases c with
  | pushValue v =>
    cases h
    simp only [Command.stackChange] at hcells
    exact ⟨v :: top, by simp [hm], by simp; omega⟩
  | pushFrom place =>
    obtain ⟨v, -, rfl⟩ := Option.map_eq_some_iff.1 h
    simp only [Command.stackChange] at hcells
    exact ⟨v :: top, by simp [hm], by simp; omega⟩
  | pop =>
    simp only [Command.stackChange] at hcells
    cases top with
    | nil =>
      simp only [List.length_nil] at htop
      omega
    | cons v top =>
      simp only [act, Memory.perform, hm, List.cons_append] at h
      cases h
      simp only [List.length_cons] at htop
      exact ⟨top, rfl, by omega⟩
  | writeBack =>
    cases top with
    | nil =>
      simp only [Command.stackReach, List.length_nil] at hreach htop
      omega
    | cons v top =>
      simp only [act, Memory.perform, hm, List.cons_append] at h
      cases h
      simp only [Command.stackChange, List.length_cons] at hcells htop
      exact ⟨.int (m.scores .left) :: top, rfl, by simp only [List.length_cons]; omega⟩
  | openFrame =>
    cases h
    exact hsame rfl rfl
  | closeFrame =>
    simp only [act, Memory.perform] at h
    split at h
    · cases h
    · cases h
      exact hsame rfl rfl
  | storeTop place =>
    obtain ⟨v, -, hw⟩ := Option.bind_eq_some_iff.1 h
    exact hsame ((Memory.write_keeps hw).1) rfl
  | storeValue place v => exact hsame ((Memory.write_keeps h).1) rfl
  | load r distance =>
    obtain ⟨v, -, rfl⟩ := Option.map_eq_some_iff.1 h
    exact hsame rfl rfl
  | operate op =>
    cases h
    exact hsame rfl rfl
  | _ => cases h

theorem frames_of_act (h : E.act m c = some m₁) :
    (m₁.frames.length : Int) = m.frames.length + c.frameChange := by
  cases c with
  | openFrame =>
    cases h
    simp [Command.frameChange]
  | closeFrame =>
    simp only [act, Memory.perform] at h
    split at h
    · cases h
    · rename_i hm
      cases h
      simp [Command.frameChange, hm]
  | storeTop place =>
    obtain ⟨v, -, hw⟩ := Option.bind_eq_some_iff.1 h
    simp [Command.frameChange, (Memory.write_keeps hw).2]
  | storeValue place v => simp [Command.frameChange, (Memory.write_keeps h).2]
  | pushFrom place =>
    obtain ⟨v, -, rfl⟩ := Option.map_eq_some_iff.1 h
    simp [Command.frameChange]
  | load r distance =>
    obtain ⟨v, -, rfl⟩ := Option.map_eq_some_iff.1 h
    simp [Command.frameChange]
  | pop =>
    simp only [act, Memory.perform] at h
    split at h
    · cases h
    · cases h
      simp [Command.frameChange]
  | writeBack =>
    simp only [act, Memory.perform] at h
    split at h
    · cases h
    · cases h
      simp [Command.frameChange]
  | pushValue v =>
    cases h
    simp [Command.frameChange]
  | operate op =>
    cases h
    simp [Command.frameChange]
  | _ => cases h

/-- Commands that climb do so on the stack of values, and what lies below their start stays. -/
theorem Exec.stack_of_climb (hfiles : ∀ g, Climb {} (E.files g) {} ∨ E.KeepsStack g)
    (h : E.Exec m cs log m') {l l' : Level} (hclimb : Climb l cs l') {top base : List Value}
    (hm : m.stack = top ++ base) (htop : top.length = l.cells) :
    ∃ top', m'.stack = top' ++ base ∧ top'.length = l'.cells := by
  induction h generalizing l l' top base with
  | nil m =>
    cases hclimb
    exact ⟨top, hm, htop⟩
  | act hc _ ih =>
    cases hclimb with
    | cons hcells _ hreach hclimb =>
      obtain ⟨top₁, hm₁, htop₁⟩ := stack_of_act hc hcells hreach hm htop
      exact ih hclimb hm₁ htop₁
  | line hl _ ih =>
    cases hclimb with
    | cons hcells _ _ hclimb =>
      simp only [Command.stackChange] at hcells
      exact ih hclimb ((E.stack_of_line hl).trans hm) (by omega)
  | @enter m m₁ _ c g _ _ _ hr hf hg _ ihg ih =>
    cases hclimb with
    | cons hcells _ _ hclimb =>
      have hkept : m₁.stack = m.stack := by
        rcases hfiles g with hfile | hfile
        · obtain ⟨top', hm', htop'⟩ := ihg hfile (List.nil_append m.stack).symm rfl
          rw [hm', List.length_eq_zero_iff.1 htop', List.nil_append]
        · exact hfile hg
      rw [(Command.changes_of_runs (.inl (by simp [hr]))).1] at hcells
      exact ih hclimb (hkept.trans hm) (by omega)
  | pass hr hf _ ih =>
    cases hclimb with
    | cons hcells _ _ hclimb =>
      rw [(Command.changes_of_runs (.inl (by simp [hr]))).1] at hcells
      exact ih hclimb hm (by omega)

theorem Exec.frames_of_climb (hfiles : ∀ g, Climb {} (E.files g) {} ∨ E.KeepsFrames g)
    (h : E.Exec m cs log m') {l l' : Level} (hclimb : Climb l cs l') :
    m'.frames.length + l.frames = m.frames.length + l'.frames := by
  induction h generalizing l l' with
  | nil m =>
    cases hclimb
    rfl
  | act hc _ ih =>
    cases hclimb with
    | cons _ hframes _ hclimb =>
      have hlater := ih hclimb
      have hfirst := frames_of_act hc
      omega
  | line hl _ ih =>
    cases hclimb with
    | cons _ hframes _ hclimb =>
      have hlater := ih hclimb
      have hfirst := E.frames_of_line hl
      simp only [Command.frameChange] at hframes
      omega
  | @enter m m₁ _ c g _ _ _ hr hf hg _ ihg ih =>
    cases hclimb with
    | cons _ hframes _ hclimb =>
      have hkept : m₁.frames.length = m.frames.length := by
        rcases hfiles g with hfile | hfile
        · exact ihg hfile
        · exact hfile hg
      have hlater := ih hclimb
      rw [(Command.changes_of_runs (.inl (by simp [hr]))).2] at hframes
      omega
  | pass hr hf _ ih =>
    cases hclimb with
    | cons _ hframes _ hclimb =>
      have hlater := ih hclimb
      rw [(Command.changes_of_runs (.inl (by simp [hr]))).2] at hframes
      omega

/-- One more cell. -/
theorem Exec.pushes_of_climb (hfiles : ∀ g, Climb {} (E.files g) {} ∨ E.KeepsStack g)
    (h : E.Exec m cs log m') (hclimb : Climb {} cs ⟨1, 0⟩) : ∃ v, m'.stack = v :: m.stack := by
  obtain ⟨top, hm', htop⟩ := h.stack_of_climb hfiles hclimb (List.nil_append m.stack).symm rfl
  obtain ⟨v, rfl⟩ := List.length_eq_one_iff.1 htop
  exact ⟨v, hm'⟩

/-- A file that climbs back to its start keeps the stack, if the files that it runs do. -/
theorem keepsStack_of_climb (hfiles : ∀ g, Climb {} (E.files g) {} ∨ E.KeepsStack g) (g : FileId) :
    E.KeepsStack g := by
  intro m log m' h
  rcases hfiles g with hfile | hfile
  · obtain ⟨top, hm', htop⟩ := h.stack_of_climb hfiles hfile (List.nil_append m.stack).symm rfl
    rw [hm', List.length_eq_zero_iff.1 htop, List.nil_append]
  · exact hfile h

theorem keeps_of_climb (hfiles : ∀ g, Climb {} (E.files g) {}) (g : FileId) :
    E.KeepsStack g ∧ E.KeepsFrames g := by
  constructor
  · exact keepsStack_of_climb (fun g => .inl (hfiles g)) g
  · intro m log m' h
    exact h.frames_of_climb (fun g => .inl (hfiles g)) (hfiles g)

/-- The engine executes this pack. -/
def Loads (E : Engine) (pack : Generated) : Prop := ∀ i, E.files i = pack.files.getD i []

/-- The files of a generated pack keep both stacks. -/
theorem Loads.keeps {ns : Bytes} {p : Program} {pack : Generated} (h : E.Loads pack)
    (hpack : p.generate ns = .ok pack) (g : FileId) : E.KeepsStack g ∧ E.KeepsFrames g := by
  apply keeps_of_climb
  intro i
  rw [h i]
  exact Gen.climb_of_generate hpack i

end Engine
end PackScript
