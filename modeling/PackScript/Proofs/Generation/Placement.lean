import PackScript.Proofs.Generation.Roles

/-! # Every command is in its place

Along a course each file keeps its role, and each command is written where its role
allows it: an arm is run while no more frames are open than the role says, a function is
called with its frame open, and a variable is looked up with the owners of frames in sight.
-/
namespace PackScript.Gen

section

variable {N : Notes} {roles : Roles} {f : FileId} {T : List Command}

theorem FitAll.nil : FitAll N roles f T [] := by
  intro pre c post h
  simp at h

theorem FitAll.cons {c : Command} {cs : List Command} (hc : Fits N roles f T c)
    (hcs : FitAll N roles f (T ++ [c]) cs) : FitAll N roles f T (c :: cs) := by
  intro pre d post h
  cases pre with
  | nil =>
    obtain ⟨rfl, -⟩ := List.cons.inj h
    rwa [List.append_nil]
  | cons x pre =>
    obtain ⟨rfl, -⟩ := List.cons.inj h
    have hd := hcs pre d post (List.cons.inj h).2
    rwa [List.append_assoc] at hd

theorem FitAll.append {cs ds : List Command} (hcs : FitAll N roles f T cs)
    (hds : FitAll N roles f (T ++ cs) ds) : FitAll N roles f T (cs ++ ds) := by
  induction cs generalizing T with
  | nil => simpa using hds
  | cons c cs ih =>
    refine .cons ?_ (ih ?_ ?_)
    · simpa using hcs [] c cs rfl
    · intro pre d post h
      have hd := hcs (c :: pre) d post (by rw [h]; rfl)
      simpa using hd
    · simpa using hds

theorem fits_plain {c : Command} (hc : c.isPlain = true) : Fits N roles f T c := by
  cases c with
  | storeValue place v =>
    cases place with
    | result => exact .silent rfl rfl
    | _ => cases hc
  | verbatim line => exact .silent rfl rfl
  | operate op => exact .silent rfl rfl
  | _ => cases hc

theorem fits_push {c : Command} (hc : c.isPush = true) : Fits N roles f T c := by
  cases c with
  | pushValue v => exact .silent rfl rfl
  | pushFrom place =>
    cases place with
    | result => exact .silent rfl rfl
    | _ => cases hc
  | _ => cases hc

theorem fits_read {c : Command} {d : Nat} (hc : c.depthRead? = some d) : Fits N roles f T c := by
  cases c with
  | storeTop place =>
    cases place with
    | result => exact .silent rfl rfl
    | _ => cases hc
  | load r k => exact .silent rfl rfl
  | writeBack => exact .silent rfl rfl
  | _ => cases hc

theorem frameChange_of_plain {c : Command} (hc : c.isPlain = true) : c.frameChange = 0 := by
  cases c <;> first | rfl | cases hc

theorem frameChange_of_push {c : Command} (hc : c.isPush = true) : c.frameChange = 0 := by
  cases c <;> first | rfl | cases hc

theorem frameChange_of_read {c : Command} {d : Nat} (hc : c.depthRead? = some d) : c.frameChange = 0 := by
  cases c <;> first | rfl | cases hc

theorem frameSum_fillSequence (params : List Param) : frameSum (fillSequence params) = 0 := by
  induction params with
  | nil => rfl
  | cons q params ih =>
    rw [fillSequence, List.flatMap_cons, frameSum_append, ← fillSequence, ih]
    by_cases hq : q.name.dynamic = true
    · simp [hq, frameSum, Command.frameChange]
    · simp [hq, frameSum]

theorem frameSum_filling {r : Role} (hd : frameSum T = r.base) (params : List Param) :
    frameSum (T ++ Command.openFrame :: fillSequence params) = r.base + 1 := by
  have hopen : frameSum [Command.openFrame] = 1 := rfl
  rw [List.append_cons, frameSum_append, frameSum_append, frameSum_fillSequence, hd, hopen, Int.add_zero]

/-- The parameters are filled behind the opening of a frame, one after the other. -/
theorem fitAll_fillSequence {r : Role} (params filled : List Param) (hi : (f, r) ∈ roles)
    (hd : frameSum T = r.base) :
    FitAll N roles f (T ++ .openFrame :: fillSequence filled) (fillSequence params) := by
  induction params generalizing filled with
  | nil => exact .nil
  | cons q params ih =>
    have hnext : T ++ .openFrame :: fillSequence (filled ++ [q]) =
        T ++ .openFrame :: fillSequence filled ++ fillSequence [q] := by
      simp [fillSequence]
    have hrest := ih (filled ++ [q])
    rw [hnext] at hrest
    have hsplit : fillSequence (q :: params) = fillSequence [q] ++ fillSequence params := by
      simp [fillSequence]
    rw [hsplit]
    refine .append ?_ hrest
    by_cases hq : q.name.dynamic = true
    · have hone : fillSequence [q] = [.storeTop (.frame 1 q.name.text), .pop] := by
        simp [fillSequence, hq]
      rw [hone]
      exact .cons (.argument filled _ hi hd rfl) (.cons (.silent rfl rfl) .nil)
    · have hone : fillSequence [q] = [] := by
        simp [fillSequence, hq]
      rw [hone]
      exact .nil

/-- The frame of the callee is open while its parameters are filled and it runs. -/
theorem fitAll_callSequence {r : Role} {g : FileId} (params : List Param) (hi : (f, r) ∈ roles)
    (hd : frameSum T = r.base) (hg : (g, Role.function) ∈ roles) :
    FitAll N roles f T (callSequence params g) := by
  have hfilled : frameSum (T ++ Command.openFrame :: fillSequence params) = r.base + 1 :=
    frameSum_filling hd params
  refine .append (.cons (.silent rfl rfl) (fitAll_fillSequence params [] hi hd)) ?_
  exact .cons (.call hi hfilled hg) (.cons (.silent rfl rfl) .nil)

theorem frameSum_callSequence (params : List Param) (g : FileId) : frameSum (callSequence params g) = 0 := by
  rw [callSequence, frameSum_append, ← List.singleton_append, frameSum_append, frameSum_fillSequence]
  rfl

end

/-- A command with a place that the scopes gave for a variable. -/
theorem Laid.located {N : Notes} {roles : Roles} {s : GenState} {k : Nat} {R B fs : List FileId} {f : FileId}
    {c : Command} {name : Name} {span : Span} {place : Place} {ty : Typing}
    (h : Laid N roles ⟨s, k, R, B⟩) (hw : s.writing = f :: fs) (hn : N.located name span s)
    (hp : s.scopes.place name span = .ok (place, ty)) (hr : c.runs? = none)
    (hc : c.variable? = none ∨ c.variable? = some place) : Fits N roles f (s.text f) c := by
  obtain ⟨r, hi, ho, hd⟩ := h.current f fs hw
  rcases hc with hc | hc
  · exact .silent hr hc
  · exact .located hi hd hn hw rfl hp h.tidy h.attributed ho hc hr

theorem Course.laid {N : Notes} {a b : Point} (h : Course N a b) (ha : a.Exists) {roles : Roles}
    (hl : Laid N roles a) : ∃ roles', roles ⊆ roles' ∧ Laid N roles' b := by
  have hkeeps := h.keeps
  induction h generalizing roles with
  | refl a => exact ⟨roles, List.Subset.refl _, hl⟩
  | trans h h' ih ih' =>
    obtain ⟨roles₁, hsub, hl₁⟩ := ih ha hl h.keeps
    obtain ⟨roles₂, hsub', hl₂⟩ := ih' (h.preserves_exists ha) hl₁ h'.keeps
    exact ⟨roles₂, List.Subset.trans hsub hsub', hl₂⟩
  | aside h =>
    refine ⟨roles, List.Subset.refl _, hl.congr (Nat.le_of_eq ?_) (GenState.Alike.text h) h.writing hkeeps rfl rfl⟩
    rw [h.files]
  | @reserve s fn i scopes k R B h =>
    have hnew := hl.mint .function
    have hempty : s.mint.text s.files.size = [] :=
      (s.text_mint _).trans (s.text_of_size_le (Nat.le_refl _))
    refine ⟨_, List.subset_cons_self _ _, hnew.distinct, hnew.known, fun f fs hf => ?_, hkeeps.tidy hnew.tidy,
      hnew.attributed.keeps hkeeps, ?_, ?_, hnew.fits⟩
    · obtain ⟨r, hr, ho, hd⟩ := hnew.current f fs hf
      exact ⟨r, hr, hkeeps.owners_eq.trans ho, hd⟩
    · exact List.forall_mem_cons.2 ⟨List.mem_cons_self, hnew.bodies⟩
    · intro g hg
      rcases List.mem_append.1 hg with hg | hg
      · exact hnew.pending g hg
      · rw [List.mem_singleton.1 hg]
        exact ⟨List.mem_cons_self, congrArg frameSum hempty⟩
  | plain hw hc =>
    exact ⟨roles, List.Subset.refl _, hl.write (ha.current hw) (frameChange_of_plain hc) (fits_plain hc)⟩
  | push hw hc =>
    exact ⟨roles, List.Subset.refl _, hl.write (ha.current hw) (frameChange_of_push hc) (fits_push hc)⟩
  | read hw hc hd =>
    exact ⟨roles, List.Subset.refl _, hl.write (ha.current hw) (frameChange_of_read hc) (fits_read hc)⟩
  | pop hw => exact ⟨roles, List.Subset.refl _, hl.write (ha.current hw) rfl (.silent rfl rfl)⟩
  | @pushVariable s f fs name span place ty k R B hw hn hp =>
    refine ⟨roles, List.Subset.refl _, hl.write (ha.current hw) rfl (hl.located hw hn hp rfl ?_)⟩
    cases place
    case result => exact .inl rfl
    all_goals exact .inr rfl
  | @storeVariable s f fs name span place ty k R B hw hn hp =>
    refine ⟨roles, List.Subset.refl _, hl.write (ha.current hw) rfl (hl.located hw hn hp rfl ?_)⟩
    cases place
    case result => exact .inl rfl
    all_goals exact .inr rfl
  | @setVariable s f fs name span place ty k R B v hw hn hp =>
    refine ⟨roles, List.Subset.refl _, hl.write (ha.current hw) rfl (hl.located hw hn hp rfl ?_)⟩
    cases place
    case result => exact .inl rfl
    all_goals exact .inr rfl
  | @call s f g fs params k R B hw hg =>
    obtain ⟨r, hi, ho, hd⟩ := hl.current f fs hw
    exact ⟨roles, List.Subset.refl _, hl.writeAll (ha.current hw) (frameSum_callSequence params g)
      (fitAll_callSequence params hi hd (hl.bodies g hg))⟩
  | @arm s s₁ s₂ f fs opens c k R B B' hw hb he hc ih =>
    obtain ⟨r, hi, ho, hd⟩ := hl.current f fs hw
    obtain ⟨roles', hsub, hin⟩ := ih (ha.inArm opens) (hl.inArm opens) hb.keeps
    have hold : roles ⊆ roles' := List.Subset.trans (List.subset_cons_self _ _) hsub
    have hgrow : s.files.size + 1 ≤ s₁.files.size := size_inArm s opens ▸ hb.size_le
    have hsize : s₂.files.size = s₁.files.size := by rw [he.files, size_endArm]
    have hwriting : s₂.writing = s.writing := by
      rw [he.writing, writing_endArm, hb.writing_eq, writing_inArm, List.tail_cons]
    -- behind the arm everything is as before it, and the new file is complete
    have hend : AllFit N roles' (endArm s₁ s.files.size opens) := by
      cases opens
      · exact hin.fits
      · refine AllFit.of_text (s := s₁.writeAll s.files.size [.closeFrame]) ?_ fun _ => rfl
        exact hin.fits.writeAll hgrow (FitAll.cons (.silent rfl rfl) .nil)
    have hsame : ∀ i, frameSum (s₂.text i) = frameSum (s.text i) := by
      intro i
      obtain ⟨cs, hcs, hup⟩ := steady_arm (hb.ascends (ha.inArm opens)).steady hgrow he i
      have hsum : (0 : Int) = 0 + frameSum cs := hup.sum.2
      rw [hcs, frameSum_append]
      omega
    have hback : Laid N roles' ⟨s₂, k + 1, R, B'⟩ := by
      refine hl.back hin hold (Nat.le_of_eq hsize.symm) hwriting ?_ ?_ ha (List.Subset.refl _)
        (hend.of_text (GenState.Alike.text he))
      · simpa using hkeeps
      · exact fun i _ => hsame i
    have hfresh : s.files.size ∉ r.owners f := by
      intro hmem
      rw [← ho] at hmem
      obtain ⟨r₀, hr₀⟩ := hl.attributed.owner_mem hmem
      exact Nat.lt_irrefl _ (hl.known _ hr₀)
    refine ⟨roles', hold, hback.writeAll ?_ ?_ (.cons (.silent rfl rfl) (.cons ?_ .nil))⟩
    · rw [hsize]
      exact Nat.lt_of_lt_of_le (ha.current hw) (Nat.le_of_succ_le hgrow)
    · rcases hc with rfl | rfl <;> rfl
    · refine .branch hc (hold hi) ?_ (ho ▸ hsub List.mem_cons_self) hfresh
      rw [frameSum_append, hsame, hd]
      rfl
  | @expansion s s₁ f fs k R B B' hw hb ih =>
    obtain ⟨roles', hsub, hin⟩ := ih ⟨ha.writing, by simp⟩ hl.inExpansion hb.keeps
    refine ⟨roles', hsub, hl.back hin hsub (Nat.le_refl _) hb.writing_eq hkeeps ?_ ha (List.Subset.refl _) hin.fits⟩
    exact fun i _ => (Course.expansion (k := k) (R := R) hw hb).frameSum_text ha i
  | @fill s s₁ g k R R' B B' hb ih =>
    have hmem : g ∈ R ++ g :: R' := List.mem_append_right _ List.mem_cons_self
    obtain ⟨hg, hd⟩ := hl.pending g hmem
    obtain ⟨roles', hsub, hin⟩ :=
      ih ⟨List.forall_mem_cons.2 ⟨ha.pending g hmem, ha.writing⟩, by simp⟩ (hl.inBody hg hd) hb.keeps
    refine ⟨roles', hsub, hl.back hin hsub (Nat.le_refl _) (congrArg List.tail hb.writing_eq) hkeeps ?_ ha ?_ hin.fits⟩
    · exact fun i _ => (Course.fill (k := k) hb).frameSum_text ha i
    · intro x hx
      rcases List.mem_append.1 hx with hx | hx
      · exact List.mem_append_left _ hx
      · exact List.mem_append_right _ (List.mem_cons_of_mem _ hx)
  | @specialize s s₁ s₂ e key k R B B' hb hn hs ih =>
    have hrec : Laid N ((s.files.size, .function) :: roles)
        ⟨recorded s e key, 0, [], s.files.size :: B⟩ := by
      have hnew := hl.mint .function
      have hkeep := ScopeStack.keeps_updateEntry s.scopes e.id fun e =>
        { e with specialized := (key, s.files.size) :: e.specialized }
      refine ⟨hnew.distinct, hnew.known, fun f fs hf => ?_, hkeep.tidy hnew.tidy, hnew.attributed.keeps hkeep,
        List.forall_mem_cons.2 ⟨List.mem_cons_self, hnew.bodies⟩, by simp, hnew.fits⟩
      obtain ⟨r, hr, ho, hd⟩ := hnew.current f fs hf
      exact ⟨r, hr, hkeep.owners_eq.trans ho, hd⟩
    have hempty : (recorded s e key).text s.files.size = [] :=
      (text_recorded s e key _).trans (s.text_of_size_le (Nat.le_refl _))
    obtain ⟨roles', hsub, hin⟩ := ih ha.inRecorded
      (hrec.inBody List.mem_cons_self (congrArg frameSum hempty)) hb.keeps
    have hold : roles ⊆ roles' := List.Subset.trans (List.subset_cons_self _ _) hsub
    have hwriting : s₂.writing = s.writing := hs.writing.trans (congrArg List.tail hb.writing_eq)
    refine ⟨roles', hold, hl.back hin hold (Nat.le_of_eq ?_) hwriting hkeeps ?_ ha (List.Subset.refl _) ?_⟩
    · rw [hs.files]
      rfl
    · exact fun i _ => (Course.specialize (k := k) (R := R) hb hn hs).frameSum_text ha i
    · exact hin.fits.of_text fun i => GenState.Alike.text hs i
  | _ => exact ⟨roles, List.Subset.refl _, hl.congr (Nat.le_refl _) (fun _ => rfl) rfl hkeeps rfl rfl⟩

/-- A run that succeeds has given every file a role. -/
theorem exists_laid {ns : Bytes} {p : Program} {statics : List (Name × Value)} {s : GenState}
    (h : program ns p {} = .ok statics s) :
    ∃ roles s₁ B, Laid (notes ns p) roles ⟨s₁, 0, [], B⟩ ∧ (0, Role.root) ∈ roles ∧
      s₁.closeScope.leave.Alike s := by
  obtain ⟨s₁, B, hc, ha⟩ := program_course h
  have hempty : ∀ i, atRoot.text i = [] := fun i => GenState.text_mint {} i
  have hroot : Laid (notes ns p) [(0, .root)] ⟨atRoot, 0, [], []⟩ := by
    refine ⟨by simp, fun x hx => ?_, fun f fs hf => ?_, ?_, ?_, by simp, by simp, ?_⟩
    · rw [List.mem_singleton.1 hx]
      exact Nat.zero_lt_one
    · obtain ⟨rfl, -⟩ := List.cons.inj hf
      exact ⟨.root, List.mem_singleton_self _, rfl, by rw [hempty]; rfl⟩
    · exact List.forall_mem_singleton.2 fun _ => rfl
    · exact List.forall_mem_singleton.2 (List.mem_singleton_self _)
    · intro i pre c post hi
      simp [hempty] at hi
  obtain ⟨roles, hsub, hl⟩ := hc.laid exists_atRoot hroot
  exact ⟨roles, s₁, B, hl, hsub (List.mem_singleton_self _), ha⟩

/-- In a generated pack every file has a role and every command is in its place. -/
theorem laid_of_generate {ns : Bytes} {p : Program} {g : Generated} (h : p.generate ns = .ok g) :
    ∃ roles : Roles, (roles.map Prod.fst).Nodup ∧ (0, Role.root) ∈ roles ∧
      ∀ i pre c post, g.files.getD i [] = pre ++ c :: post → Fits (notes ns p) roles i pre c := by
  obtain ⟨statics, s, hrun, -, htext⟩ := generate_ok h
  obtain ⟨roles, s₁, B, hl, hroot, ha⟩ := exists_laid hrun
  refine ⟨roles, hl.distinct, hroot, fun i pre c post hi => ?_⟩
  rw [htext, GenState.Alike.text ha] at hi
  exact hl.fits i pre c post hi

end PackScript.Gen
