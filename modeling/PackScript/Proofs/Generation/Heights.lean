import PackScript.Proofs.Generation.BlockCourse
import PackScript.Proofs.Runtime.Balance
import PackScript.Program.Parser

/-! # What a run adds to its files

A course adds commands at the end of files and changes nothing that is written. In the
current file they lead from the cells at its start to those at its end; in every other
file they lead back to where they began.
-/
namespace PackScript

namespace GenState

@[simp] theorem size_writeAll (s : GenState) (f : FileId) (cs : List Command) :
    (s.writeAll f cs).files.size = s.files.size := by
  induction cs generalizing s with
  | nil => rfl
  | cons c cs ih => rw [writeAll_cons, ih, size_write]

theorem text_writeAll_self (s : GenState) {f : FileId} (h : f < s.files.size) (cs : List Command) :
    (s.writeAll f cs).text f = s.text f ++ cs := by
  induction cs generalizing s with
  | nil => exact (List.append_nil _).symm
  | cons c cs ih =>
    rw [writeAll_cons, ih _ (by rwa [size_write]), text_write_self s h, List.append_assoc]
    rfl

theorem text_writeAll_of_ne (s : GenState) {f i : FileId} (h : i ≠ f) (cs : List Command) :
    (s.writeAll f cs).text i = s.text i := by
  induction cs generalizing s with
  | nil => rfl
  | cons c cs ih => rw [writeAll_cons, ih, text_write_of_ne s h]

theorem text_of_size_le (s : GenState) {i : FileId} (h : s.files.size ≤ i) : s.text i = [] := by
  simp [text, Array.getD_eq_getD_getElem?, h]

end GenState

namespace Gen

@[simp] theorem size_inArm (s : GenState) (opens : Bool) :
    (inArm s opens).files.size = s.files.size + 1 := by
  cases opens
  · exact s.size_mint
  · exact (GenState.size_write _ _ _).trans s.size_mint

@[simp] theorem size_endArm (s : GenState) (g : FileId) (opens : Bool) :
    (endArm s g opens).files.size = s.files.size := by
  cases opens
  · rfl
  · exact GenState.size_write _ _ _

/-- The new file of an arm starts with its frame, if it has one. -/
theorem text_inArm_self (s : GenState) (opens : Bool) :
    (inArm s opens).text s.files.size = if opens then [.openFrame] else [] := by
  have hnew : s.mint.text s.files.size = [] := (s.text_mint _).trans (s.text_of_size_le (Nat.le_refl _))
  cases opens
  · exact hnew
  · have hlt : s.files.size < (s.mint.enter s.files.size).files.size := by
      simp [GenState.enter]
    exact (GenState.text_write_self ((s.mint.enter s.files.size).openScope .block s.files.size) hlt
      .openFrame).trans (congrArg (· ++ [Command.openFrame]) hnew)

theorem text_inArm_of_ne (s : GenState) (opens : Bool) {i : FileId} (h : i ≠ s.files.size) :
    (inArm s opens).text i = s.text i := by
  cases opens
  · exact s.text_mint i
  · exact (GenState.text_write_of_ne _ h _).trans (s.text_mint i)

theorem text_endArm_self (s : GenState) {g : FileId} (opens : Bool) (h : g < s.files.size) :
    (endArm s g opens).text g = s.text g ++ if opens then [.closeFrame] else [] := by
  cases opens
  · exact (List.append_nil _).symm
  · exact s.text_write_self h _

theorem text_endArm_of_ne (s : GenState) (opens : Bool) {g i : FileId} (h : i ≠ g) :
    (endArm s g opens).text i = s.text i := by
  cases opens
  · rfl
  · exact s.text_write_of_ne h _

theorem GenState.Alike.text {s s' : GenState} (h : s.Alike s') (i : FileId) : s'.text i = s.text i := by
  unfold GenState.text
  rw [h.files]

theorem text_recorded (s : GenState) (e : Entry FileId) (key : Bytes) (i : FileId) :
    (recorded s e key).text i = s.text i := s.text_mint i

/-- The files being written and those reserved exist. -/
structure Point.Exists (a : Point) : Prop where
  writing : ∀ f ∈ a.state.writing, f < a.state.files.size
  pending : ∀ f ∈ a.pending, f < a.state.files.size

namespace Point.Exists

variable {s : GenState} {k : Nat} {R B : List FileId}

theorem current {f : FileId} {fs : List FileId} (h : Point.Exists ⟨s, k, R, B⟩) (hw : s.writing = f :: fs) :
    f < s.files.size := h.writing f (by rw [hw]; exact List.mem_cons_self)

theorem inArm {B' : List FileId} (h : Point.Exists ⟨s, k, R, B⟩) (opens : Bool) :
    Point.Exists ⟨Gen.inArm s opens, 0, [], B'⟩ := by
  refine ⟨fun f hf => ?_, by simp⟩
  rw [writing_inArm] at hf
  rw [size_inArm]
  rcases List.mem_cons.1 hf with rfl | hf
  · exact Nat.lt_succ_self _
  · exact Nat.lt_succ_of_lt (h.writing f hf)

theorem inRecorded {e : Entry FileId} {key : Bytes} {B' : List FileId} (h : Point.Exists ⟨s, k, R, B⟩) :
    Point.Exists ⟨inBody (recorded s e key) s.files.size, 0, [], B'⟩ := by
  refine ⟨fun f hf => ?_, by simp⟩
  change f < s.mint.files.size
  rw [s.size_mint]
  rcases List.mem_cons.1 hf with rfl | hf
  · exact Nat.lt_succ_self _
  · exact Nat.lt_succ_of_lt (h.writing f hf)

end Point.Exists

namespace Course

variable {N : Notes} {a b : Point}

theorem size_le (h : Course N a b) : a.state.files.size ≤ b.state.files.size := by
  induction h with
  | trans _ _ ih ih' => exact Nat.le_trans ih ih'
  | aside h => exact Nat.le_of_eq (by rw [h.files])
  | reserve h => exact Nat.le_trans (Nat.le_succ _) (Nat.le_of_eq (GenState.size_mint _).symm)
  | @arm s s₁ s₂ f fs opens c k R B B' hw hb he hc ih =>
    have hs₂ : s₂.files.size = s₁.files.size := by rw [he.files, size_endArm]
    have hin : s.files.size + 1 ≤ s₁.files.size := size_inArm s opens ▸ ih
    rw [GenState.size_writeAll, hs₂]
    exact Nat.le_of_succ_le hin
  | expansion _ _ ih => exact ih
  | fill _ ih => exact ih
  | @specialize s s₁ s₂ e key _ _ _ _ _ _ hs ih =>
    have hin : s.files.size + 1 ≤ s₁.files.size := s.size_mint ▸ ih
    rw [hs.files]
    exact Nat.le_of_succ_le hin
  | _ => simp

theorem preserves_exists (h : Course N a b) (ha : a.Exists) : b.Exists := by
  refine ⟨fun f hf => ?_, ?_⟩
  · rw [h.writing_eq] at hf
    exact Nat.lt_of_lt_of_le (ha.writing f hf) h.size_le
  · have hpending := ha.pending
    clear ha
    induction h with
    | trans _ _ ih ih' => exact ih' (ih hpending)
    | aside h =>
      intro f hf
      rw [h.files]
      exact hpending f hf
    | @reserve s _ _ _ _ _ _ h =>
      intro f hf
      change f < s.mint.files.size
      rw [s.size_mint]
      rcases List.mem_append.1 hf with hf | hf
      · exact Nat.lt_succ_of_lt (hpending f hf)
      · rw [List.mem_singleton.1 hf]
        exact Nat.lt_succ_self _
    | arm hw hb he hc _ =>
      intro f hf
      exact Nat.lt_of_lt_of_le (hpending f hf) (Course.arm hw hb he hc).size_le
    | expansion hw hb _ =>
      intro f hf
      exact Nat.lt_of_lt_of_le (hpending f hf) (Course.expansion hw hb).size_le
    | @fill s s₁ g k R R' B B' hb _ =>
      intro f hf
      have hmem : f ∈ R ++ g :: R' := by
        rcases List.mem_append.1 hf with hf | hf
        · exact List.mem_append_left _ hf
        · exact List.mem_append_right _ (List.mem_cons_of_mem _ hf)
      exact Nat.lt_of_lt_of_le (hpending f hmem) (Course.fill (k := k) hb).size_le
    | specialize hb hn hs _ =>
      intro f hf
      exact Nat.lt_of_lt_of_le (hpending f hf) (Course.specialize hb hn hs).size_le
    | _ => simpa using hpending

end Course

/-- The level of a file at a moment: the current file has cells on the stack. -/
def Point.level (a : Point) (i : FileId) : Level :=
  { cells := if a.state.writing.head? = some i then a.cells else 0 }

/-- Each file gets commands that lead from its level before to its level after. -/
def Ascends (a b : Point) : Prop :=
  ∀ i, ∃ cs, b.state.text i = a.state.text i ++ cs ∧ Climb (a.level i) cs (b.level i)

/-- Each file gets commands that lead from its start back to it. -/
def Steady (s s' : GenState) : Prop :=
  ∀ i, ∃ cs, s'.text i = s.text i ++ cs ∧ Climb {} cs {}

theorem Ascends.trans {a b c : Point} (h : Ascends a b) (h' : Ascends b c) : Ascends a c := by
  intro i
  obtain ⟨cs, hcs, hup⟩ := h i
  obtain ⟨ds, hds, hup'⟩ := h' i
  exact ⟨cs ++ ds, by rw [hds, hcs, List.append_assoc], hup.append hup'⟩

/-- Nothing is written, and the current file stays the current one. -/
theorem Ascends.of_text {s s' : GenState} {k : Nat} {R R' B B' : List FileId}
    (hw : s'.writing = s.writing) (ht : ∀ i, s'.text i = s.text i) :
    Ascends ⟨s, k, R, B⟩ ⟨s', k, R', B'⟩ := by
  intro i
  refine ⟨[], by rw [ht, List.append_nil], ?_⟩
  have hlevel : Point.level ⟨s', k, R', B'⟩ i = Point.level ⟨s, k, R, B⟩ i := by
    simp only [Point.level, hw]
  rw [hlevel]
  exact .nil _

/-- Commands written to the current file. -/
theorem Ascends.of_climb {s : GenState} {f : FileId} {fs : List FileId} {k k' : Nat}
    {R R' B B' : List FileId} {cs : List Command} (hw : s.writing = f :: fs) (hf : f < s.files.size)
    (hc : Climb ⟨k, 0⟩ cs ⟨k', 0⟩) : Ascends ⟨s, k, R, B⟩ ⟨s.writeAll f cs, k', R', B'⟩ := by
  intro i
  by_cases hi : i = f
  · subst hi
    refine ⟨cs, s.text_writeAll_self hf cs, ?_⟩
    simpa [Point.level, hw] using hc
  · refine ⟨[], by rw [s.text_writeAll_of_ne hi, List.append_nil], ?_⟩
    have hne : f ≠ i := fun h => hi h.symm
    simpa [Point.level, hw, hne] using Climb.nil {}

/-- One command written to the current file. -/
theorem Ascends.of_write {s : GenState} {f : FileId} {fs : List FileId} {k k' : Nat}
    {R R' B B' : List FileId} {c : Command} (hw : s.writing = f :: fs) (hf : f < s.files.size)
    (hc : Climb ⟨k, 0⟩ [c] ⟨k', 0⟩) : Ascends ⟨s, k, R, B⟩ ⟨s.write f c, k', R', B'⟩ :=
  Ascends.of_climb hw hf hc

/-- Inside a stretch of their own, commands do not touch what the current file has on the stack. -/
theorem Steady.ascends {s s' : GenState} {k : Nat} {R R' B B' : List FileId} (h : Steady s s')
    (hw : s'.writing = s.writing) : Ascends ⟨s, k, R, B⟩ ⟨s', k, R', B'⟩ := by
  intro i
  obtain ⟨cs, hcs, hup⟩ := h i
  refine ⟨cs, hcs, ?_⟩
  have hlevel : Point.level ⟨s', k, R', B'⟩ i = Point.level ⟨s, k, R, B⟩ i := by
    simp only [Point.level, hw]
  rw [hlevel]
  exact hup.above (Point.level ⟨s, k, R, B⟩ i)

/-- A stretch that starts and ends without cells is steady. -/
theorem Ascends.steady {s s' : GenState} {R R' B B' : List FileId}
    (h : Ascends ⟨s, 0, R, B⟩ ⟨s', 0, R', B'⟩) : Steady s s' := by
  intro i
  obtain ⟨cs, hcs, hup⟩ := h i
  refine ⟨cs, hcs, ?_⟩
  simpa [Point.level] using hup

theorem Steady.of_text {s s₁ s₂ s' : GenState} (h : Steady s₁ s₂) (hs : ∀ i, s₁.text i = s.text i)
    (hs' : ∀ i, s'.text i = s₂.text i) : Steady s s' := by
  intro i
  obtain ⟨cs, hcs, hup⟩ := h i
  exact ⟨cs, by rw [hs', hcs, hs], hup⟩

/-! ## One kind of event at a time -/

theorem climb_plain {c : Command} (hc : c.isPlain = true) (l : Level) : Climb l [c] l := by
  cases c with
  | storeValue place v => exact .one (by simp [Command.stackChange]) (by simp [Command.frameChange]) (Nat.zero_le _)
  | verbatim line => exact .one (by simp [Command.stackChange]) (by simp [Command.frameChange]) (Nat.zero_le _)
  | operate op => exact .one (by simp [Command.stackChange]) (by simp [Command.frameChange]) (Nat.zero_le _)
  | _ => cases hc

theorem climb_push {c : Command} (hc : c.isPush = true) (k : Nat) : Climb ⟨k, 0⟩ [c] ⟨k + 1, 0⟩ := by
  cases c with
  | pushValue v => exact .one (by simp [Command.stackChange]) (by simp [Command.frameChange]) (Nat.zero_le _)
  | pushFrom place => exact .one (by simp [Command.stackChange]) (by simp [Command.frameChange]) (Nat.zero_le _)
  | _ => cases hc

theorem climb_read {c : Command} {d k : Nat} (hc : c.depthRead? = some d) (hd : d ≤ k) (m : Nat) :
    Climb ⟨k, m⟩ [c] ⟨k, m⟩ := by
  cases c with
  | storeTop place =>
    cases place with
    | result =>
      cases hc
      exact .one (by simp [Command.stackChange]) (by simp [Command.frameChange]) hd
    | _ => cases hc
  | load r distance =>
    cases hc
    exact .one (by simp [Command.stackChange]) (by simp [Command.frameChange]) hd
  | writeBack =>
    cases hc
    exact .one (by simp [Command.stackChange]) (by simp [Command.frameChange]) hd
  | _ => cases hc

theorem climb_pop (k m : Nat) : Climb ⟨k + 1, m⟩ [.pop] ⟨k, m⟩ :=
  .one (by simp [Command.stackChange]) (by simp [Command.frameChange]) (Nat.zero_le _)

theorem climb_storeTop (place : Place) (k m : Nat) : Climb ⟨k + 1, m⟩ [.storeTop place] ⟨k + 1, m⟩ :=
  .one (by simp [Command.stackChange]) (by simp [Command.frameChange]) (Nat.le_add_left 1 k)

theorem climb_pushFrom (place : Place) (k : Nat) : Climb ⟨k, 0⟩ [.pushFrom place] ⟨k + 1, 0⟩ :=
  .one (by simp [Command.stackChange]) (by simp [Command.frameChange]) (Nat.zero_le _)

theorem climb_storeValue (place : Place) (v : Value) (l : Level) : Climb l [.storeValue place v] l :=
  .one (by simp [Command.stackChange]) (by simp [Command.frameChange]) (Nat.zero_le _)

theorem climb_run {c : Command} {g : FileId} (hc : c = .runIf g ∨ c = .runUnless g ∨ c = .call g)
    (l : Level) : Climb l [c] l := by
  rcases hc with rfl | rfl | rfl
  all_goals exact .one (by simp [Command.stackChange]) (by simp [Command.frameChange]) (Nat.zero_le _)

theorem climb_openFrame (k m : Nat) : Climb ⟨k, m⟩ [.openFrame] ⟨k, m + 1⟩ :=
  .one (by simp [Command.stackChange]) (by simp [Command.frameChange]) (Nat.zero_le _)

theorem climb_closeFrame (k m : Nat) : Climb ⟨k, m + 1⟩ [.closeFrame] ⟨k, m⟩ :=
  .one (by simp [Command.stackChange]) (by simp [Command.frameChange]) (Nat.zero_le _)

/-- A call takes one cell off the stack for each dynamic parameter. -/
theorem climb_callSequence (params : List Param) (g : FileId) (k : Nat) :
    Climb ⟨k + params.countP (·.name.dynamic), 0⟩ (callSequence params g) ⟨k, 0⟩ := by
  have hfill : Climb ⟨k + params.countP (·.name.dynamic), 1⟩ (fillSequence params) ⟨k, 1⟩ := by
    induction params with
    | nil => exact .nil _
    | cons q params ih =>
      rw [fillSequence, List.flatMap_cons, List.countP_cons]
      by_cases hq : q.name.dynamic = true
      · rw [if_pos hq, if_pos hq]
        exact ((climb_storeTop _ _ 1).append (climb_pop _ 1)).append ih
      · rw [if_neg hq, if_neg hq]
        exact ih
  have hend : Climb ⟨k, 1⟩ [.call g, .closeFrame] ⟨k, 0⟩ :=
    (climb_run (.inr (.inr rfl)) ⟨k, 1⟩).append (climb_closeFrame k 0)
  exact ((climb_openFrame _ 0).append hfill).append hend

/-- An arm adds a whole file, and what its own arms and calls add. -/
theorem steady_arm {s s₁ s₂ : GenState} {opens : Bool} (hb : Steady (inArm s opens) s₁)
    (hsize : s.files.size < s₁.files.size) (he : (endArm s₁ s.files.size opens).Alike s₂) : Steady s s₂ := by
  intro i
  obtain ⟨cs, hcs, hup⟩ := hb i
  by_cases hi : i = s.files.size
  · subst hi
    rw [text_inArm_self] at hcs
    refine ⟨(if opens then [.openFrame] else []) ++ cs ++ if opens then [.closeFrame] else [], ?_, ?_⟩
    · rw [GenState.Alike.text he, text_endArm_self s₁ opens hsize, hcs,
        s.text_of_size_le (Nat.le_refl _), List.nil_append]
    · cases opens with
      | false =>
        rw [if_neg Bool.false_ne_true, if_neg Bool.false_ne_true, List.nil_append, List.append_nil]
        exact hup
      | true => exact ((climb_openFrame 0 0).append (hup.above ⟨0, 1⟩)).append (climb_closeFrame 0 0)
  · refine ⟨cs, ?_, hup⟩
    rw [GenState.Alike.text he, text_endArm_of_ne s₁ opens hi, hcs, text_inArm_of_ne s opens hi]

theorem Course.ascends {N : Notes} {a b : Point} (h : Course N a b) (ha : a.Exists) : Ascends a b := by
  induction h with
  | refl a => exact .of_text rfl fun _ => rfl
  | trans h _ ih ih' => exact (ih ha).trans (ih' (h.preserves_exists ha))
  | aside h => exact .of_text h.writing (GenState.Alike.text h)
  | reserve h => exact .of_text rfl (GenState.text_mint _)
  | plain hw hc => exact .of_write hw (ha.current hw) (climb_plain hc _)
  | push hw hc => exact .of_write hw (ha.current hw) (climb_push hc _)
  | read hw hc hd => exact .of_write hw (ha.current hw) (climb_read hc hd 0)
  | pop hw => exact .of_write hw (ha.current hw) (climb_pop _ 0)
  | pushVariable hw hn hp => exact .of_write hw (ha.current hw) (climb_pushFrom _ _)
  | storeVariable hw hn hp => exact .of_write hw (ha.current hw) (climb_storeTop _ _ 0)
  | setVariable hw hn hp => exact .of_write hw (ha.current hw) (climb_storeValue _ _ _)
  | call hw hg => exact .of_climb hw (ha.current hw) (climb_callSequence _ _ _)
  | @arm s s₁ s₂ f fs opens c k R B B' hw hb he hc ih =>
    have hsize : s.files.size + 1 ≤ s₁.files.size := size_inArm s opens ▸ hb.size_le
    have hin : Steady (inArm s opens) s₁ := (ih (ha.inArm opens)).steady
    have hwriting : s₂.writing = s.writing := by
      rw [he.writing, writing_endArm, hb.writing_eq, writing_inArm, List.tail_cons]
    have harm : Ascends ⟨s, k + 1, R, B⟩ ⟨s₂, k + 1, R, B'⟩ := (steady_arm hin hsize he).ascends hwriting
    have hf : f < s₂.files.size := by
      rw [he.files, size_endArm]
      exact Nat.lt_trans (ha.current hw) hsize
    have hrun : Climb ⟨k + 1, 0⟩ [.load .condition 1, c] ⟨k + 1, 0⟩ := by
      refine (climb_read rfl (Nat.le_add_left 1 k) 0).append (climb_run (g := s.files.size) ?_ _)
      rcases hc with hc | hc
      · exact .inl hc
      · exact .inr (.inl hc)
    exact harm.trans (.of_climb (hwriting.trans hw) hf hrun)
  | @expansion s s₁ f fs k R B B' hw hb ih =>
    have hin : Steady (s.openScope .expansion f) s₁ := (ih ⟨ha.writing, by simp⟩).steady
    have hout : Steady s s₁.closeScope := hin.of_text (fun _ => rfl) fun _ => rfl
    exact hout.ascends hb.writing_eq
  | @fill s s₁ g k R R' B B' hb ih =>
    have hg : g < s.files.size := ha.pending g (List.mem_append_right _ List.mem_cons_self)
    have hin : Steady (inBody s g) s₁ := (ih ⟨List.forall_mem_cons.2 ⟨hg, ha.writing⟩, by simp⟩).steady
    have hout : Steady s s₁.closeScope.leave := hin.of_text (fun _ => rfl) fun _ => rfl
    exact hout.ascends (congrArg List.tail hb.writing_eq)
  | @specialize s s₁ s₂ e key k R B B' hb hn hs ih =>
    have hin : Steady (inBody (recorded s e key) s.files.size) s₁ := (ih ha.inRecorded).steady
    have hout : Steady s s₂ := hin.of_text (text_recorded s e key) fun i => GenState.Alike.text hs i
    exact hout.ascends (hs.writing.trans (congrArg List.tail hb.writing_eq))
  | _ => exact .of_text rfl fun _ => rfl

/-- The files of a pack are those of the run that generated it. -/
theorem generate_ok {ns : Bytes} {p : Program} {g : Generated} (h : p.generate ns = .ok g) :
    ∃ statics s, program ns p {} = .ok statics s ∧ g.files.length = s.files.size ∧
      ∀ i, g.files.getD i [] = s.text i := by
  unfold Program.generate at h
  split at h
  · rename_i statics s hrun
    cases h
    refine ⟨statics, s, hrun, by simp, fun i => ?_⟩
    simp only [GenState.text, List.getD_eq_getElem?_getD, List.getElem?_map, Array.getElem?_toList,
      Array.getD_eq_getD_getElem?]
    cases s.files[i]? <;> rfl
  · cases h

/-- To know the files that come from a source is to know that it is a program with a pack. -/
theorem exists_generated {ns src : Bytes} {files : List (List Command)}
    (h : ((Program.parse src).bind (Program.generate ns)).toOption.map Generated.files = some files) :
    ∃ p g, Program.parse src = .ok p ∧ p.generate ns = .ok g ∧ g.files = files := by
  cases hp : Program.parse src with
  | error e =>
    rw [hp] at h
    cases h
  | ok p =>
    rw [hp] at h
    cases hg : p.generate ns with
    | error e => simp [Except.bind, hg, Except.toOption] at h
    | ok g => exact ⟨p, g, rfl, hg, by simpa [Except.bind, hg, Except.toOption] using h⟩

theorem exists_atRoot : Point.Exists ⟨atRoot, 0, [], []⟩ := by
  refine ⟨fun f hf => ?_, by simp⟩
  rw [List.mem_singleton.1 hf]
  exact Nat.zero_lt_one

/-- Every file of a pack leads from its start back to it. -/
theorem climb_of_generate {ns : Bytes} {p : Program} {g : Generated} (h : p.generate ns = .ok g)
    (i : FileId) : Climb {} (g.files.getD i []) {} := by
  obtain ⟨statics, s, hrun, -, htext⟩ := generate_ok h
  obtain ⟨s₁, B, hc, ha⟩ := program_course hrun
  obtain ⟨cs, hcs, hup⟩ := (hc.ascends exists_atRoot).steady i
  have hempty : atRoot.text i = [] := GenState.text_mint {} i
  rw [htext, GenState.Alike.text ha]
  change Climb {} (s₁.text i) {}
  rw [hcs, hempty]
  exact hup

end Gen
end PackScript
