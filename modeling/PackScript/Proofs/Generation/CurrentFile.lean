import PackScript.Proofs.Generation.Heights
import PackScript.Proofs.Generation.Isolation

/-! # Writing to the current file

Work that a run comes to adds commands to the current file. Of the other files that exist it
touches only those that wait for the body of a function, and they are filled by the block that
reserved them. So what stands in the current file after a piece of work is what stood there
before and the commands for that piece.
-/
namespace PackScript.Gen

variable {ns : Bytes} {p : Program} {N : Notes} {s s₁ s' : GenState} {f g : FileId} {n d : Nat}
  {cs ds : List Command}

/-- While an arm is generated, a file from before is not the current one. -/
theorem aside_of_inArm (opens : Bool) {i : FileId} (hi : i < s.files.size) :
    i < (inArm s opens).files.size ∧ (inArm s opens).writing.head? ≠ some i := by
  rw [size_inArm, writing_inArm]
  exact ⟨Nat.lt_succ_of_lt hi, fun h => Nat.ne_of_gt hi (Option.some.inj h)⟩

theorem text_of_arm {opens : Bool} (he : (endArm s₁ s.files.size opens).Alike s') {i : FileId}
    (hi : i < s.files.size) (ht : s₁.text i = (inArm s opens).text i) : s'.text i = s.text i := by
  have hne : i ≠ s.files.size := Nat.ne_of_lt hi
  calc s'.text i = s₁.text i := (GenState.Alike.text he i).trans (text_endArm_of_ne s₁ opens hne)
    _ = (inArm s opens).text i := ht
    _ = s.text i := text_inArm_of_ne s opens hne

/-- A file that is neither the current one nor reserved stays as it is. -/
theorem Course.untouched {a b : Point} (h : Course N a b) {i : FileId} (hi : i < a.state.files.size)
    (hw : a.state.writing.head? ≠ some i) (hp : i ∉ a.pending) :
    b.state.text i = a.state.text i ∧ i ∉ b.pending := by
  have hother {s : GenState} {f : FileId} {fs : List FileId} (hf : s.writing = f :: fs)
      (hne : s.writing.head? ≠ some i) : i ≠ f := by
    rintro rfl
    exact hne (by rw [hf]; rfl)
  induction h with
  | trans h _ ih ih' =>
    obtain ⟨htext, hpending⟩ := ih hi hw hp
    obtain ⟨htext', hpending'⟩ := ih' (Nat.lt_of_lt_of_le hi h.size_le) (h.writing_eq ▸ hw) hpending
    exact ⟨htext'.trans htext, hpending'⟩
  | aside h => exact ⟨GenState.Alike.text h i, hp⟩
  | @reserve s _ _ _ _ _ _ h =>
    have hne : i ≠ s.files.size := Nat.ne_of_lt hi
    exact ⟨GenState.text_mint s i, by simpa [hne] using hp⟩
  | call hf hg => exact ⟨GenState.text_writeAll_of_ne _ (hother hf hw) _, hp⟩
  | @arm s s₁ s₂ f fs opens c k R B B' hf hb he hc ih =>
    obtain ⟨hsize, hhead⟩ := aside_of_inArm opens hi
    obtain ⟨htext, -⟩ := ih hsize hhead List.not_mem_nil
    exact ⟨(GenState.text_writeAll_of_ne _ (hother hf hw) _).trans (text_of_arm he hi htext), hp⟩
  | expansion hf hb ih => exact ⟨(ih hi hw List.not_mem_nil).1, hp⟩
  | @fill s s₁ g k R R' B B' hb ih =>
    simp only [List.mem_append, List.mem_cons, not_or] at hp
    have hin : (inBody s g).writing.head? ≠ some i := fun h => hp.2.1 (Option.some.inj h).symm
    exact ⟨(ih hi hin List.not_mem_nil).1, by simp [hp.1, hp.2.2]⟩
  | @specialize s s₁ s₂ e key k R B B' hb hn hs ih =>
    have hne : i ≠ s.files.size := Nat.ne_of_lt hi
    have hin : (inBody (recorded s e key) s.files.size).writing.head? ≠ some i :=
      fun h => hne (Option.some.inj h).symm
    have hsize : i < s.mint.files.size := by
      rw [GenState.size_mint]
      exact Nat.lt_succ_of_lt hi
    obtain ⟨htext, -⟩ := ih hsize hin List.not_mem_nil
    exact ⟨(GenState.Alike.text hs i).trans (htext.trans (text_recorded s e key i)), hp⟩
  | plain hf _ | push hf _ | read hf _ _ | pop hf | pushVariable hf _ _ | storeVariable hf _ _
  | setVariable hf _ _ => exact ⟨GenState.text_write_of_ne _ (hother hf hw) _, hp⟩
  | _ => exact ⟨rfl, hp⟩

/-- From `s` to `s'` the current file `f` gets `cs`, and no other file of `s` gets anything. -/
structure Adds (f : FileId) (s : GenState) (cs : List Command) (s' : GenState) : Prop where
  current : s.writing.head? = some f
  file : f < s.files.size
  text : s'.text f = s.text f ++ cs
  others : ∀ i < s.files.size, i ≠ f → s'.text i = s.text i
  writing : s'.writing = s.writing
  size : s.files.size ≤ s'.files.size

namespace Adds

theorem trans (h : Adds f s cs s₁) (h' : Adds f s₁ ds s') : Adds f s (cs ++ ds) s' where
  current := h.current
  file := h.file
  text := by rw [h'.text, h.text, List.append_assoc]
  others i hi hne := (h'.others i (Nat.lt_of_lt_of_le hi h.size) hne).trans (h.others i hi hne)
  writing := h'.writing.trans h.writing
  size := Nat.le_trans h.size h'.size

theorem writeAll (hw : s.writing.head? = some f) (hf : f < s.files.size) (cs : List Command) :
    Adds f s cs (s.writeAll f cs) where
  current := hw
  file := hf
  text := s.text_writeAll_self hf cs
  others _ _ hne := s.text_writeAll_of_ne hne cs
  writing := s.writing_writeAll f cs
  size := Nat.le_of_eq (s.size_writeAll f cs).symm

theorem then_writeAll (h : Adds f s cs s') (ds : List Command) : Adds f s (cs ++ ds) (s'.writeAll f ds) :=
  h.trans (.writeAll (h.writing ▸ h.current) (Nat.lt_of_lt_of_le h.file h.size) ds)

/-- Work that the current file gets nothing of. -/
theorem of_text (hw : s.writing.head? = some f) (hf : f < s.files.size)
    (ht : ∀ i < s.files.size, s'.text i = s.text i) (hwriting : s'.writing = s.writing)
    (hsize : s.files.size ≤ s'.files.size) : Adds f s [] s' where
  current := hw
  file := hf
  text := by rw [ht f hf, List.append_nil]
  others i hi _ := ht i hi
  writing := hwriting
  size := hsize

end Adds

theorem emit_adds {c : Command} {u : Unit} (hw : s.writing.head? = some f) (hf : f < s.files.size)
    (h : emit c s = .ok u s') : Adds f s [c] s' := by
  obtain ⟨g, gs, hg, rfl⟩ := emit_ok.1 h
  rw [hg] at hw
  obtain rfl := Option.some.inj hw
  exact .writeAll (by rw [hg]; rfl) hf [c]

/-! ## Work that a run comes to -/

/-- The files that the functions in sight were given can be listed. -/
theorem exists_named (scopes : ScopeStack FileId) : ∃ B, Named scopes B := by
  refine ⟨scopes.entries.flatMap fun e => e.file.toList ++ e.specialized.map Prod.snd, fun e he => ?_⟩
  constructor
  · intro g hg
    exact List.mem_flatMap.2 ⟨e, he, List.mem_append_left _ (by simp [hg])⟩
  · intro kg hk
    exact List.mem_flatMap.2 ⟨e, he, List.mem_append_right _ (List.mem_map_of_mem hk)⟩

theorem Reached.exists_current {t : Task} (h : Reached ns p t s) :
    ∃ f, s.writing.head? = some f ∧ f < s.files.size := by
  obtain ⟨hs, -⟩ := h.regular
  obtain ⟨f, fs, hw⟩ := List.exists_cons_of_ne_nil hs.writing
  exact ⟨f, by rw [hw]; rfl, hs.files f (by rw [hw]; exact List.mem_cons_self)⟩

theorem Path.adds {t : Task} {B B' : List FileId} (h : Path N s B d s' B') (hr : Reached ns p t s) :
    ∃ f cs, Adds f s cs s' ∧ Climb {} cs ⟨d, 0⟩ := by
  obtain ⟨f, hw, hf⟩ := hr.exists_current
  have hexists : Point.Exists ⟨s, 0, [], B⟩ := ⟨hr.regular.1.files, by simp⟩
  have hcourse := h 0 []
  obtain ⟨cs, htext, hclimb⟩ := hcourse.ascends hexists f
  refine ⟨f, cs, ⟨hw, hf, htext, fun i hi hne => ?_, hcourse.writing_eq, hcourse.size_le⟩, ?_⟩
  · refine (hcourse.untouched hi ?_ List.not_mem_nil).1
    exact fun h => hne (Option.some.inj (h.symm.trans hw))
  · have hw' : s'.writing.head? = some f := hcourse.writing_eq ▸ hw
    simpa [Point.level, hw, hw'] using hclimb

theorem Raises.adds {t : Task} {α : Type} {m : Gen α} {a : α} (hm : Raises ns p t m d) (hr : Reached ns p t s)
    (h : m s = .ok a s') : ∃ f cs, Adds f s cs s' ∧ Climb {} cs ⟨d, 0⟩ := by
  obtain ⟨B, hs⟩ := exists_named s.scopes
  obtain ⟨B', hpath⟩ := hm hr hs h
  exact hpath.adds hr

/-- Nothing of an arm goes to a file that exists. -/
theorem Arm.adds {B B' : List FileId} (h : Arm N s B g s' B') (hw : s.writing.head? = some f)
    (hf : f < s.files.size) : Adds f s [] s' := by
  obtain ⟨rfl, opens, s₁, hbody, hend⟩ := h
  have hsize : s.files.size + 1 ≤ s₁.files.size := size_inArm s opens ▸ hbody.size_le
  refine .of_text hw hf (fun i hi => ?_) ?_ ?_
  · obtain ⟨hin, hhead⟩ := aside_of_inArm opens hi
    exact text_of_arm hend hi (hbody.untouched hin hhead List.not_mem_nil).1
  · rw [hend.writing, writing_endArm, hbody.writing_eq, writing_inArm, List.tail_cons]
  · rw [hend.files, size_endArm]
    exact Nat.le_of_succ_le hsize

theorem branch_adds {b : Block} (hr : Reached ns p (.branch n b) s)
    (h : branch b (block (levels n) b) s = .ok g s') (hw : s.writing.head? = some f) (hf : f < s.files.size) :
    Adds f s [] s' := by
  obtain ⟨B, hs⟩ := exists_named s.scopes
  obtain ⟨B', harm⟩ := branch_arm (deep ns p (n + 1) n rfl b) hr hs h
  exact harm.adds hw hf

end PackScript.Gen
