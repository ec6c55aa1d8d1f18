import PackScript.Proofs.Generation.CurrentFile
import PackScript.Proofs.Runtime.Execution

/-! # Running conditionals

The arms of a conditional are spread over files: each body has one, and so has each further
condition, which is run when the conditions before it fail. `Cascade` says which files these are,
and `Takes` what a conditional means: its conditions are evaluated in their order up to the first
that reads 1, and the body of that one is run. The commands of a conditional do just that,
although they test each condition twice, with a body in between that may do what it likes to the
scores and the variables.
-/
namespace PackScript

/-- What is run when a condition fails, by files. -/
inductive Cascade where
  | nothing
  | block (body : FileId)
  /-- Another condition, evaluated by commands in a file of its own. -/
  | cond (file : FileId) (test : List Command) (body : FileId) (other : Cascade)

namespace Gen

/-- The commands that run a file if the condition on the stack has failed. -/
def otherwiseSequence : Option FileId → List Command
  | none => []
  | some file => [.load .condition 1, .runUnless file]

/-- The commands of a conditional. -/
def conditionalSequence (test : List Command) (body : FileId) (other : Option FileId) : List Command :=
  test ++ [.load .condition 1, .runIf body] ++ (otherwiseSequence other ++ [.pop])

end Gen

namespace Cascade

def file? : Cascade → Option FileId
  | .nothing => none
  | .block body => some body
  | .cond file _ _ _ => some file

/-- The files of the conditions. -/
def conditions : Cascade → List FileId
  | .cond file _ _ other => file :: other.conditions
  | _ => []

/-- Each condition stands in its file and leaves one cell. -/
def StandsIn (text : FileId → List Command) : Cascade → Prop
  | .cond file test body other =>
    text file = Gen.conditionalSequence test body other.file? ∧ Climb {} test ⟨1, 0⟩ ∧ other.StandsIn text
  | _ => True

theorem StandsIn.congr {text text' : FileId → List Command} {c : Cascade} (h : c.StandsIn text)
    (ht : ∀ i ∈ c.conditions, text' i = text i) : c.StandsIn text' := by
  induction c with
  | nothing => trivial
  | block body => trivial
  | cond file test body other ih =>
    obtain ⟨hfile, htest, hother⟩ := h
    rw [conditions, List.forall_mem_cons] at ht
    exact ⟨ht.1.trans hfile, htest, ih hother ht.2⟩

end Cascade

/-! ## How a conditional is laid out -/

namespace Gen

variable {ns : Bytes} {p : Program} {s s' : GenState} {n : Nat} {test : Expr} {b : Block} {other : Otherwise}

/-- The first half of a conditional, written from `s` to the current file `f`: the condition becomes the
commands `cs`, the block becomes the file `g`. -/
inductive Stage (n : Nat) (test : Expr) (b : Block) (s : GenState) :
    FileId → List Command → FileId → GenState → Prop
  | intro {f g : FileId} {cs : List Command} {s₁ s₂ : GenState} (hw : s.writing.head? = some f)
      (ht : push (levels n) test s = .ok () s₁) (hcs : s₁.text f = s.text f ++ cs)
      (hb : branch b (block (levels n) b) s₁ = .ok g s₂) :
      Stage n test b s f cs g (s₂.writeAll f [.load .condition 1, .runIf g])

/-- A conditional that is generated from `s` on is laid out as a cascade: conditions and blocks become
commands and files one after another. -/
inductive Lays (n : Nat) : Expr → Block → Otherwise → GenState → Cascade → Prop
  | nothing {test : Expr} {b : Block} {s s₁ : GenState} {f g : FileId} {cs : List Command}
      (h : Stage n test b s f cs g s₁) : Lays n test b .nothing s (.cond f cs g .nothing)
  | block {test : Expr} {b b' : Block} {s s₁ s₂ : GenState} {f g g' : FileId} {cs : List Command}
      (h : Stage n test b s f cs g s₁) (hb : branch b' (block (levels n) b') s₁ = .ok g' s₂) :
      Lays n test b (.block b') s (.cond f cs g (.block g'))
  | cond {span : Span} {test test' : Expr} {b b' : Block} {other : Otherwise} {s s₁ : GenState} {f g : FileId}
      {cs : List Command} {c : Cascade} (h : Stage n test b s f cs g s₁)
      (ho : Lays n test' b' other (inArm s₁ false) c) :
      Lays n test b (.cond span test' b' other) s (.cond f cs g c)

/-- The current file gets the condition and its first test; the second test follows what the
alternative writes to other files. -/
theorem conditional_stage (hr : Reached ns p (.conditional n test b other) s)
    (h : conditional (push (levels n) test) (branch b (block (levels n) b)) (otherwise (levels n) other) s =
      .ok () s') :
    ∃ f cs g s₁ o s₂, Stage n test b s f cs g s₁ ∧ Adds f s (cs ++ [.load .condition 1, .runIf g]) s₁ ∧
      Climb {} cs ⟨1, 0⟩ ∧ Reached ns p (.otherwise n other) s₁ ∧ otherwise (levels n) other s₁ = .ok o s₂ ∧
      (s₂.writing.head? = some f → s₂.writeAll f (otherwiseSequence o ++ [.pop]) = s') := by
  unfold conditional at h
  obtain ⟨_, s₁, htest, h⟩ := bind_ok.1 h
  obtain ⟨g, s₂, hbranch, h⟩ := bind_ok.1 h
  obtain ⟨_, s₃, hload, h⟩ := bind_ok.1 h
  obtain ⟨_, s₄, hrun, h⟩ := bind_ok.1 h
  obtain ⟨o, s₅, hother, h⟩ := bind_ok.1 h
  obtain ⟨f, cs, hadds, hclimb⟩ := (push_raises (deep ns p n) test).adds (.test hr) htest
  have hw₁ : s₁.writing.head? = some f := hadds.writing ▸ hadds.current
  have hbody := branch_adds (.branch hr htest) hbranch hw₁ (Nat.lt_of_lt_of_le hadds.file hadds.size)
  have hw₂ : s₂.writing.head? = some f := hbody.writing ▸ hw₁
  obtain ⟨fs, hfs⟩ := List.head?_eq_some_iff.1 hw₂
  obtain rfl := emit_writing hfs hload
  obtain rfl := emit_writing (s := s₂.write f _) hfs hrun
  have hfirst := (hadds.trans hbody).then_writeAll [.load .condition 1, .runIf g]
  rw [List.append_nil] at hfirst
  refine ⟨f, cs, g, _, o, s₅, .intro hadds.current htest hadds.text hbranch, hfirst, hclimb,
    .otherwise hr htest hbranch hload hrun, hother, fun hw₅ => ?_⟩
  obtain ⟨fs', hfs'⟩ := List.head?_eq_some_iff.1 hw₅
  cases o with
  | none => exact emit_writing hfs' h
  | some file =>
    obtain ⟨_, s₆, hload', h⟩ := bind_ok.1 h
    obtain ⟨_, s₇, hrun', h⟩ := bind_ok.1 h
    obtain rfl := emit_writing hfs' hload'
    obtain rfl := emit_writing (s := s₅.write f _) hfs' hrun'
    exact emit_writing (s := (s₅.write f _).write f _) hfs' h

/-- By induction on the alternative: what a conditional adds to the current file, and what it leaves
in the files of its further conditions. -/
theorem conditional_lays (other : Otherwise) {test : Expr} {b : Block} {s s' : GenState}
    (hr : Reached ns p (.conditional n test b other) s)
    (h : conditional (push (levels n) test) (branch b (block (levels n) b)) (otherwise (levels n) other) s =
      .ok () s') :
    ∃ f cs g c, Lays n test b other s (.cond f cs g c) ∧ Adds f s (conditionalSequence cs g c.file?) s' ∧
      Climb {} cs ⟨1, 0⟩ ∧ c.StandsIn s'.text ∧ ∀ i ∈ c.conditions, s.files.size ≤ i := by
  obtain ⟨f, cs, g, s₁, o, s₂, hstage, hadds, hclimb, hro, ho, hrest⟩ := conditional_stage hr h
  have hw₁ : s₁.writing.head? = some f := hadds.writing ▸ hadds.current
  have hf₁ : f < s₁.files.size := Nat.lt_of_lt_of_le hadds.file hadds.size
  -- all alternatives leave the current file alone
  have hwhole (ha : Adds f s₁ [] s₂) : s₂.writeAll f (otherwiseSequence o ++ [.pop]) = s' ∧
      Adds f s (conditionalSequence cs g o) s' := by
    have hs' := hrest (ha.writing ▸ hw₁)
    have hall := (hadds.trans ha).then_writeAll (otherwiseSequence o ++ [.pop])
    rw [List.append_nil, hs'] at hall
    exact ⟨hs', hall⟩
  cases other with
  | nothing =>
    rw [otherwise] at ho
    obtain ⟨rfl, rfl⟩ := pure_ok.1 ho
    have hnone : Adds f s₁ [] s₁ := .of_text hw₁ hf₁ (fun _ _ => rfl) rfl (Nat.le_refl _)
    exact ⟨f, cs, g, .nothing, .nothing hstage, (hwhole hnone).2, hclimb, trivial, List.forall_mem_nil _⟩
  | block b' =>
    rw [otherwise] at ho
    obtain ⟨g', _, hbranch, ho⟩ := bind_ok.1 ho
    obtain ⟨rfl, rfl⟩ := pure_ok.1 ho
    have hblock := branch_adds (.otherBranch hro) hbranch hw₁ hf₁
    exact ⟨f, cs, g, .block g', .block hstage hbranch, (hwhole hblock).2, hclimb, trivial,
      List.forall_mem_nil _⟩
  | cond span test' b' other' =>
    rw [otherwise] at ho
    obtain ⟨g', _, hnew, ho⟩ := bind_ok.1 ho
    obtain ⟨rfl, rfl⟩ := pure_ok.1 ho
    obtain ⟨rfl, s₃, hin, rfl⟩ := inNewFile_ok.1 hnew
    obtain ⟨f', cs', g', c', hlays, hadds', hclimb', hstands, hnewer⟩ :=
      conditional_lays other' (.otherCond hro) hin
    obtain rfl : s₁.files.size = f' := Option.some.inj hadds'.current
    have hsize : s₁.files.size + 1 ≤ s₃.files.size := size_inArm s₁ false ▸ hadds'.size
    have hcond : Adds f s₁ [] s₃.leave := by
      refine .of_text hw₁ hf₁ (fun i hi => ?_) (congrArg List.tail hadds'.writing) (Nat.le_of_succ_le hsize)
      have hne : i ≠ s₁.files.size := Nat.ne_of_lt hi
      exact (hadds'.others i (aside_of_inArm false hi).1 hne).trans (text_inArm_of_ne s₁ false hne)
    obtain ⟨hs', hall⟩ := hwhole hcond
    -- what is written at the end goes to the current file, which is an older one
    have hkept {i : FileId} (hi : s₁.files.size ≤ i) : s'.text i = s₃.text i := by
      rw [← hs']
      exact GenState.text_writeAll_of_ne _ (Nat.ne_of_gt (Nat.lt_of_lt_of_le hf₁ hi)) _
    have hnewer' : ∀ i ∈ c'.conditions, s₁.files.size + 1 ≤ i := size_inArm s₁ false ▸ hnewer
    refine ⟨f, cs, g, .cond s₁.files.size cs' g' c', .cond hstage hlays, hall, hclimb, ⟨?_, hclimb', ?_⟩, ?_⟩
    · rw [hkept (Nat.le_refl _), hadds'.text, text_inArm_self]
      rfl
    · exact hstands.congr fun i hi => hkept (Nat.le_of_succ_le (hnewer' i hi))
    · rw [Cascade.conditions, List.forall_mem_cons]
      exact ⟨hadds.size, fun i hi => Nat.le_trans hadds.size (Nat.le_of_succ_le (hnewer' i hi))⟩

end Gen

/-! ## What a conditional does -/

/-- The same variables, returned value and operands. -/
def Memory.Agrees (m m' : Memory) : Prop :=
  m'.frames = m.frames ∧ m'.result = m.result ∧ ∀ r, r ≠ .condition → m'.scores r = m.scores r

namespace Engine

variable {E : Engine} {m m' : Memory} {log : List FileId}

/-- The conditions are evaluated in their order up to the first that reads 1. Its body is run; if there is
none, the last block is run, if there is one. The log has the files that are gone through. -/
inductive Takes (E : Engine) : Cascade → Memory → List FileId → Memory → Prop
  | nothing (m : Memory) : Takes E .nothing m [] m
  | block {m m' : Memory} {g : FileId} {log : List FileId} (h : E.Exec m (E.files g) log m') :
      Takes E (.block g) m log m'
  | first {m m₁ m' : Memory} {f g : FileId} {test : List Command} {other : Cascade} {v : Value}
      {log₁ log : List FileId} (ht : E.Exec m test log₁ m₁) (hv : m₁.stack = v :: m.stack)
      (hone : E.reading v = 1) (hb : E.Exec (m₁.setScore .condition 1) (E.files g) log m') :
      Takes E (.cond f test g other) m (log₁ ++ g :: log) m'
  | later {m m₁ m' : Memory} {f g : FileId} {test : List Command} {other : Cascade} {v : Value}
      {log₁ log : List FileId} (ht : E.Exec m test log₁ m₁) (hv : m₁.stack = v :: m.stack)
      (hone : E.reading v ≠ 1) (ho : Takes E other (m₁.setScore .condition (E.reading v)) log m') :
      Takes E (.cond f test g other) m (log₁ ++ (other.file?.toList ++ log)) m'

/-- What stands in the file of a cascade is executed. -/
def Runs (E : Engine) : Cascade → Memory → List FileId → Memory → Prop
  | .nothing, m, log, m' => log = [] ∧ m' = m
  | .block body, m, log, m' => E.Exec m (E.files body) log m'
  | .cond _ test body other, m, log, m' =>
    E.Exec m (Gen.conditionalSequence test body other.file?) log m'

section

variable {v : Value} {rest : List Value} {cs : List Command} {g : FileId} {o : Option FileId} {c : Cascade}

/-- After the body of a condition that reads 1 nothing else is run, whatever the body has left in the
register. -/
theorem exec_otherwise_of_one (hm : m.stack = v :: rest) (hone : E.reading v = 1) (o : Option FileId) :
    ∃ m₁, (∀ log m', E.Exec m (Gen.otherwiseSequence o ++ [.pop]) log m' ↔ log = [] ∧ m' = m₁) ∧
      m₁.stack = rest ∧ m.Agrees m₁ := by
  cases o with
  | none => exact ⟨_, fun log m' => exec_pop hm, rfl, rfl, rfl, fun r _ => rfl⟩
  | some file =>
    refine ⟨{ m.setScore .condition 1 with stack := rest }, fun log m' => ?_, rfl, rfl, rfl, fun r hr => ?_⟩
    · have hpass : ¬(m.setScore .condition 1).Fires (.runUnless file) := by
        simp [Memory.Fires, Memory.setScore]
      rw [Gen.otherwiseSequence, List.cons_append, exec_load hm, hone, List.singleton_append,
        exec_passes rfl hpass]
      exact exec_pop (m := m.setScore .condition 1) hm
    · simp [Memory.setScore, hr]

/-- If the condition does not read 1, what follows it is run. -/
theorem exec_otherwise_of_ne (hm : m.stack = v :: rest) (hscore : m.scores .condition = E.reading v)
    (hone : E.reading v ≠ 1) (hc : c.StandsIn E.files) :
    E.Exec m (Gen.otherwiseSequence c.file? ++ [.pop]) log m' ↔
      ∃ m₁ inside rest, E.Runs c m inside m₁ ∧ E.Exec m₁ [.pop] rest m' ∧
        log = c.file?.toList ++ inside ++ rest := by
  have hsame : m.setScore .condition (E.reading v) = m := by
    rw [Memory.setScore, ← hscore, Function.update_eq_self]
  have hfires (file : FileId) : m.Fires (.runUnless file) := by
    rw [Memory.Fires, hscore]
    exact hone
  cases c with
  | nothing =>
    constructor
    · intro h
      exact ⟨m, [], log, ⟨rfl, rfl⟩, h, rfl⟩
    · rintro ⟨_, _, rest, ⟨rfl, rfl⟩, h, rfl⟩
      exact h
  | block body =>
    rw [Cascade.file?, Gen.otherwiseSequence, List.cons_append, exec_load hm, hsame, List.singleton_append,
      exec_fires rfl (hfires body)]
    rfl
  | cond file test body other =>
    rw [Cascade.file?, Gen.otherwiseSequence, List.cons_append, exec_load hm, hsame, List.singleton_append,
      exec_fires rfl (hfires file), hc.1]
    rfl

/-- A conditional evaluates its condition and goes on by what it reads. -/
theorem exec_conditional (htest : ∀ ⦃m log m'⦄, E.Exec m cs log m' → ∃ v, m'.stack = v :: m.stack)
    (hbody : E.KeepsStack g) : E.Exec m (Gen.conditionalSequence cs g o) log m' ↔
      ∃ m₁ v log₁, E.Exec m cs log₁ m₁ ∧ m₁.stack = v :: m.stack ∧
        ((E.reading v = 1 ∧ ∃ m₂ inside rest, E.Exec (m₁.setScore .condition 1) (E.files g) inside m₂ ∧
            m₂.stack = v :: m.stack ∧ E.Exec m₂ (Gen.otherwiseSequence o ++ [.pop]) rest m' ∧
            log = log₁ ++ (g :: inside ++ rest)) ∨
          (E.reading v ≠ 1 ∧ ∃ rest, E.Exec (m₁.setScore .condition (E.reading v))
            (Gen.otherwiseSequence o ++ [.pop]) rest m' ∧ log = log₁ ++ rest)) := by
  have hfires (m : Memory) : (m.setScore .condition 1).Fires (.runIf g) := by
    simp [Memory.Fires, Memory.setScore]
  have hpasses (m : Memory) {i : Int32} (hi : i ≠ 1) : ¬(m.setScore .condition i).Fires (.runIf g) := by
    simpa [Memory.Fires, Memory.setScore] using hi
  rw [Gen.conditionalSequence, List.append_assoc, exec_append]
  constructor
  · rintro ⟨m₁, log₁, log₂, h₁, h₂, rfl⟩
    obtain ⟨v, hv⟩ := htest h₁
    refine ⟨m₁, v, log₁, h₁, hv, ?_⟩
    rw [List.cons_append, exec_load hv, List.singleton_append] at h₂
    by_cases hone : E.reading v = 1
    · rw [hone, exec_fires rfl (hfires m₁)] at h₂
      obtain ⟨m₂, inside, rest, hg, hrest, rfl⟩ := h₂
      exact .inl ⟨hone, m₂, inside, rest, hg, (hbody hg).trans hv, hrest, rfl⟩
    · rw [exec_passes rfl (hpasses m₁ hone)] at h₂
      exact .inr ⟨hone, log₂, h₂, rfl⟩
  · rintro ⟨m₁, v, log₁, h₁, hv, ⟨hone, m₂, inside, rest, hg, -, hrest, rfl⟩ | ⟨hone, rest, hrest, rfl⟩⟩
    · refine ⟨m₁, log₁, _, h₁, ?_, rfl⟩
      rw [List.cons_append, exec_load hv, hone, List.singleton_append, exec_fires rfl (hfires m₁)]
      exact ⟨m₂, inside, rest, hg, hrest, rfl⟩
    · refine ⟨m₁, log₁, _, h₁, ?_, rfl⟩
      rw [List.cons_append, exec_load hv, List.singleton_append, exec_passes rfl (hpasses m₁ hone)]
      exact hrest

end

theorem climb_conditionalSequence {cs : List Command} (h : Climb {} cs ⟨1, 0⟩) (g : FileId) (o : Option FileId) :
    Climb {} (Gen.conditionalSequence cs g o) {} := by
  have hload : Climb ⟨1, 0⟩ [.load .condition 1] ⟨1, 0⟩ := Gen.climb_read rfl (Nat.le_refl 1) 0
  have hrest : Climb ⟨1, 0⟩ (Gen.otherwiseSequence o) ⟨1, 0⟩ := by
    cases o with
    | none => exact .nil _
    | some file => exact hload.append (Gen.climb_run (.inr (.inl rfl)) _)
  have hfirst : Climb ⟨1, 0⟩ [.load .condition 1, .runIf g] ⟨1, 0⟩ :=
    hload.append (Gen.climb_run (.inl rfl) _)
  exact (h.append hfirst).append (hrest.append (Gen.climb_pop 0 0))

/-- The files of further conditions keep the stack too. -/
theorem keepsStack_of_standsIn {c : Cascade} (hc : c.StandsIn E.files)
    (hothers : ∀ i ∉ c.conditions, E.KeepsStack i) (i : FileId) : E.KeepsStack i := by
  have hclimb : ∀ i ∈ c.conditions, Climb {} (E.files i) {} := by
    clear hothers
    induction c with
    | nothing => exact List.forall_mem_nil _
    | block body => exact List.forall_mem_nil _
    | cond file test body other ih =>
      rw [Cascade.conditions, List.forall_mem_cons, hc.1]
      exact ⟨climb_conditionalSequence hc.2.1 body other.file?, ih hc.2.2⟩
  apply keepsStack_of_climb
  intro g
  by_cases hg : g ∈ c.conditions
  · exact .inl (hclimb g hg)
  · exact .inr (hothers g hg)

/-- Running a cascade is what the cascade means, but for the condition register. -/
def Follows (E : Engine) (c : Cascade) : Prop :=
  (∀ m log m', E.Runs c m log m' → ∃ m₁, E.Takes c m log m₁ ∧ m₁.Agrees m') ∧
    ∀ m log m₁, E.Takes c m log m₁ → ∃ m', E.Runs c m log m' ∧ m₁.Agrees m'

theorem runs_stack (hkeeps : ∀ i, E.KeepsStack i) {c : Cascade} (hc : c.StandsIn E.files)
    (h : E.Runs c m log m') : m'.stack = m.stack := by
  cases c with
  | nothing => rw [h.2]
  | block body => exact hkeeps body h
  | cond file test body other =>
    apply hkeeps file
    rw [hc.1]
    exact h

/-- One condition more. -/
theorem Follows.cond (hkeeps : ∀ i, E.KeepsStack i) {f g : FileId} {cs : List Command} {c : Cascade}
    (hcs : Climb {} cs ⟨1, 0⟩) (hc : c.StandsIn E.files) (h : E.Follows c) : E.Follows (.cond f cs g c) := by
  have htest ⦃m : Memory⦄ ⦃log : List FileId⦄ ⦃m' : Memory⦄ (hrun : E.Exec m cs log m') :
      ∃ v, m'.stack = v :: m.stack := hrun.pushes_of_climb (fun i => .inr (hkeeps i)) hcs
  have hscore (m : Memory) (i : Int32) : (m.setScore .condition i).scores .condition = i := by
    simp [Memory.setScore]
  constructor
  · intro m log m' hrun
    obtain ⟨m₁, v, log₁, ht, hv, hcases⟩ := (exec_conditional htest (hkeeps g)).1 hrun
    rcases hcases with ⟨hone, m₂, inside, rest, hg, hm₂, hrest, rfl⟩ | ⟨hone, rest, hrest, rfl⟩
    · obtain ⟨m₃, hend, -, hagrees⟩ := exec_otherwise_of_one hm₂ hone c.file?
      obtain ⟨rfl, rfl⟩ := (hend _ _).1 hrest
      rw [List.append_nil]
      exact ⟨m₂, .first ht hv hone hg, hagrees⟩
    · obtain ⟨m₂, inside, rest, hother, hpop, rfl⟩ :=
        (exec_otherwise_of_ne (m := m₁.setScore .condition _) hv (hscore _ _) hone hc).1 hrest
      obtain ⟨rfl, rfl⟩ := (exec_pop ((runs_stack hkeeps hc hother).trans hv)).1 hpop
      obtain ⟨m₃, htakes, hagrees⟩ := h.1 _ _ _ hother
      rw [List.append_nil]
      exact ⟨m₃, .later ht hv hone htakes, hagrees⟩
  · intro m log m₂ htakes
    cases htakes with
    | @first _ m₁ _ _ _ _ _ v log₁ inside ht hv hone hg =>
      have hm₂ : m₂.stack = v :: m.stack := (hkeeps g hg).trans hv
      obtain ⟨m₃, hend, -, hagrees⟩ := exec_otherwise_of_one hm₂ hone c.file?
      refine ⟨m₃, (exec_conditional htest (hkeeps g)).2 ⟨m₁, v, log₁, ht, hv, .inl ⟨hone, ?_⟩⟩, hagrees⟩
      exact ⟨m₂, inside, [], hg, hm₂, (hend _ _).2 ⟨rfl, rfl⟩, by rw [List.append_nil]⟩
    | @later _ m₁ _ _ _ _ _ v log₁ inside ht hv hone ho =>
      obtain ⟨m₃, hother, hagrees⟩ := h.2 _ _ _ ho
      have hpop : E.Exec m₃ [.pop] [] { m₃ with stack := m.stack } :=
        (exec_pop ((runs_stack hkeeps hc hother).trans hv)).2 ⟨rfl, rfl⟩
      refine ⟨{ m₃ with stack := m.stack }, ?_, hagrees⟩
      refine (exec_conditional htest (hkeeps g)).2 ⟨m₁, v, log₁, ht, hv, .inr ⟨hone, _, ?_, rfl⟩⟩
      refine (exec_otherwise_of_ne (m := m₁.setScore .condition _) hv (hscore _ _) hone hc).2 ?_
      exact ⟨m₃, inside, [], hother, hpop, by rw [List.append_nil]⟩

theorem follows_of_standsIn (hkeeps : ∀ i, E.KeepsStack i) {c : Cascade} (hc : c.StandsIn E.files) :
    E.Follows c := by
  have hsame (m : Memory) : m.Agrees m := ⟨rfl, rfl, fun _ _ => rfl⟩
  induction c with
  | nothing =>
    constructor
    · rintro m _ _ ⟨rfl, rfl⟩
      exact ⟨_, .nothing _, hsame _⟩
    · intro m log m₁ h
      cases h
      exact ⟨m, ⟨rfl, rfl⟩, hsame m⟩
  | block body =>
    constructor
    · intro m log m' h
      exact ⟨m', .block h, hsame m'⟩
    · intro m log m₁ h
      cases h with
      | block h => exact ⟨m₁, h, hsame m₁⟩
  | cond file test body other ih => exact (ih hc.2.2).cond hkeeps hc.2.1 hc.2.2

end Engine

/-- Wherever a run comes to a conditional and generates it, the commands that the current file gets for it
do what the conditional means, in every memory, as long as the files of its blocks and all other files
but those of its own conditions leave the stack of values as they find it: the body of the first condition
that reads 1 is run once, or the last block if there is none, no condition is evaluated behind one that
reads 1, and the stack is as before. Whenever conditions and body have a run, so have the commands. -/
theorem Gen.conditional_takes {ns : Bytes} {p : Program} {n : Nat} {test : Expr} {b : Block}
    {other : Otherwise} {s s' : GenState} (h : Reached ns p (.conditional n test b other) s)
    (hok : (Task.conditional n test b other).run s = .ok () s') :
    ∃ f code cs g c, s.writing.head? = some f ∧ s'.text f = s.text f ++ code ∧
      Lays n test b other s (.cond f cs g c) ∧
      ∀ E : Engine, (∀ i ∈ c.conditions, E.files i = s'.text i) → (∀ i ∉ c.conditions, E.KeepsStack i) →
        ∀ m log,
          (∀ m', E.Exec m code log m' → m'.stack = m.stack ∧
            ∃ m₁, E.Takes (.cond f cs g c) m log m₁ ∧ m₁.Agrees m') ∧
          ∀ m₁, E.Takes (.cond f cs g c) m log m₁ → ∃ m', E.Exec m code log m' ∧ m₁.Agrees m' := by
  obtain ⟨f, cs, g, c, hlays, hadds, hcs, hstands, -⟩ := conditional_lays other h hok
  refine ⟨f, _, cs, g, c, hadds.current, hadds.text, hlays, fun E hfiles hothers m log => ?_⟩
  have hc : c.StandsIn E.files := hstands.congr hfiles
  have hkeeps := Engine.keepsStack_of_standsIn hc hothers
  have hfollows : E.Follows (.cond f cs g c) := (Engine.follows_of_standsIn hkeeps hc).cond hkeeps hcs hc
  refine ⟨fun m' hrun => ⟨?_, hfollows.1 m log m' hrun⟩, fun m₁ htakes => hfollows.2 m log m₁ htakes⟩
  obtain ⟨top, hm', htop⟩ := hrun.stack_of_climb (fun i => .inr (hkeeps i))
    (Engine.climb_conditionalSequence hcs g c.file?) (List.nil_append m.stack).symm rfl
  rw [hm', List.length_eq_zero_iff.1 htop, List.nil_append]

/-- A chain in which the second condition reads 1. The command in its body spoils the condition register,
and still the last block is not run. -/
theorem Gen.conditional_takes_chain : ∃ p test b other s s' f code cs g c, ∃ E : Engine,
    other = .cond {} (.number {} 1) [.command {} [] "say b"] (.block [.command {} [] "say c"]) ∧
    Reached "demo" p (.conditional maxNesting test b other) s ∧
    (Task.conditional maxNesting test b other).run s = .ok () s' ∧
    s.writing.head? = some f ∧ s'.text f = s.text f ++ code ∧
    Lays maxNesting test b other s (.cond f cs g c) ∧
    (∀ i, E.files i = s'.text i) ∧ (∀ i, E.KeepsStack i) ∧
    (∀ text m m', E.line text m m' ↔ m' = m.setScore .condition 0) ∧
    ∀ m, ∃ m', E.Exec m code [2, 3] m' ∧ m'.stack = m.stack ∧
      ∃ m₁, E.Takes (.cond f cs g c) m [2, 3] m₁ ∧ m₁.Agrees m' := by
  have hblock : Reached "demo" ⟨[.cond {} (.number {} 0) [.command {} [] "say a"]
      (.cond {} (.number {} 1) [.command {} [] "say b"] (.block [.command {} [] "say c"]))], {}⟩
      (.block maxNesting _) _ := .program rfl
  have hstatements := Reached.statements hblock rfl (ok_after (a := [none]) (by decide +kernel))
    (ok_after (a := ()) (by decide +kernel))
  obtain ⟨s, s', hr, hok, hw, hsize, hfirst, hroot, hcond, hbody⟩ : ∃ s s',
      Reached "demo" _ (.conditional maxNesting (.number {} 0) [.command {} [] "say a"]
        (.cond {} (.number {} 1) [.command {} [] "say b"] (.block [.command {} [] "say c"]))) s ∧
      (Task.conditional maxNesting (.number {} 0) [.command {} [] "say a"]
        (.cond {} (.number {} 1) [.command {} [] "say b"] (.block [.command {} [] "say c"]))).run s = .ok () s' ∧
      s.writing.head? = some 0 ∧ s.files.size = 1 ∧ s.text 0 = [] ∧
      s'.text 0 = [.pushValue (.int 0), .load .condition 1, .runIf 1, .load .condition 1, .runUnless 2, .pop] ∧
      s'.text 2 = [.pushValue (.int 1), .load .condition 1, .runIf 3, .load .condition 1, .runUnless 4, .pop] ∧
      s'.text 3 = [.verbatim "say b"] :=
    ⟨_, _, .cond (.firstStatement hstatements), ok_after (by decide +kernel), by decide +kernel,
      by decide +kernel, by decide +kernel, by decide +kernel, by decide +kernel, by decide +kernel⟩
  have hempty : ∀ i, s.text i = [] := by
    intro i
    by_cases hi : i = 0
    · rw [hi, hfirst]
    · exact s.text_of_size_le (hsize ▸ Nat.pos_of_ne_zero hi)
  obtain ⟨f, code, cs, g, c, hf, hcode, hlays, hruns⟩ := conditional_takes hr hok
  obtain rfl : 0 = f := Option.some.inj (hw.symm.trans hf)
  rw [hempty, List.nil_append, hroot] at hcode
  let E : Engine := { files := s'.text
                      reading := fun v => v.score?.getD 0
                      line := fun _ m m' => m' = m.setScore .condition 0
                      reading_of_score := fun h => by rw [h]; rfl
                      stack_of_line := fun h => by rw [h]; rfl
                      frames_of_line := fun h => by rw [h]; rfl }
  have hkeeps : ∀ i, E.KeepsStack i := by
    intro i
    refine (Engine.keeps_of_climb (fun j => ?_) i).1
    obtain ⟨B, hs⟩ := exists_named s.scopes
    obtain ⟨B', hpath⟩ := conditional_raises (deep _ _ _) (deep _ _ (maxNesting + 1) maxNesting rfl _)
      (otherwise_alternative (deep _ _ _) _) _ hr hs hok
    obtain ⟨ds, hds, hclimb⟩ := ((hpath 0 []).ascends ⟨hr.regular.1.files, by simp⟩).steady j
    rw [hempty, List.nil_append] at hds
    rw [show E.files j = ds from hds]
    exact hclimb
  refine ⟨_, _, _, _, s, s', 0, code, cs, g, c, E, rfl, hr, hok, hw, ?_, hlays, fun i => rfl, hkeeps,
    fun _ _ _ => Iff.rfl, fun m => ?_⟩
  · rw [hempty, List.nil_append, hroot, hcode]
  · have hsay (m : Memory) : E.Exec m (E.files 3) [] (m.setScore .condition 0) := by
      rw [show E.files 3 = _ from hbody]
      exact .line rfl (.nil _)
    have hinner (m : Memory) : ∃ m', E.Exec m (E.files 2) [3] m' := by
      rw [show E.files 2 = _ from hcond]
      refine ⟨_, .act rfl ((Engine.exec_load rfl).2 ((Engine.exec_fires rfl ?_).2
        ⟨_, [], [], hsay _, (Engine.exec_load rfl).2 ((Engine.exec_passes rfl ?_).2
          ((Engine.exec_pop rfl).2 ⟨rfl, rfl⟩)), rfl⟩))⟩
      · rfl
      · exact fun h => h rfl
    have houter : ∃ m', E.Exec m code [2, 3] m' := by
      let m₀ := Memory.setScore { m with stack := .int 0 :: m.stack } .condition 0
      obtain ⟨m₁, hm₁⟩ := hinner (m₀.setScore .condition 0)
      rw [← hcode]
      refine ⟨_, .act rfl ((Engine.exec_load rfl).2 ((Engine.exec_passes rfl ?_).2
        ((Engine.exec_load rfl).2 ((Engine.exec_fires rfl ?_).2 ⟨m₁, [3], [], ?_,
          (Engine.exec_pop (hkeeps 2 hm₁)).2 ⟨rfl, rfl⟩, rfl⟩))))⟩
      · change ¬(0 : Int32) = 1
        decide
      · change (0 : Int32) ≠ 1
        decide
      · exact hm₁
    obtain ⟨m', hm'⟩ := houter
    exact ⟨m', hm', (hruns E (fun _ _ => rfl) (fun i _ => hkeeps i) m _).1 m' hm'⟩

end PackScript
