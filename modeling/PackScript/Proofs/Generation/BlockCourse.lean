import PackScript.Proofs.Generation.ExprCourse

/-! # The course of statements and blocks

Every statement leaves the stack as it was. A block reserves files before it fills them,
and the arms of a conditional are written to files of their own.
-/
namespace PackScript.Gen

variable {ns : Bytes} {p : Program} {N : Notes} {s s' : GenState} {B : List FileId} {n k : Nat}
  {R : List FileId}

/-! ## Statements without parts of their own -/

theorem commandText_raises (hdeep : Deep ns p n) (parts : List (Bytes × Expr)) :
    Raises ns p (.text n parts) (commandText (levels n) parts) 0 := by
  induction parts with
  | nil =>
    intro s a s' B hr hs h
    rw [commandText] at h
    obtain ⟨_, rfl⟩ := pure_ok.1 h
    exact ⟨B, .refl _ _⟩
  | cons part parts ih =>
    intro s a s' B hr hs h
    obtain ⟨literal, e⟩ := part
    rw [commandText] at h
    obtain ⟨v, s₁, he, h⟩ := bind_ok.1 h
    obtain ⟨B₁, p₁⟩ := fold_raises hdeep e (.hole hr) hs he
    split at h
    · exact (throw_ok.1 h).elim
    · rename_i hv
      obtain ⟨text, s₂, hrest, h⟩ := bind_ok.1 h
      obtain ⟨_, rfl⟩ := pure_ok.1 h
      obtain ⟨B₂, p₂⟩ := ih (.laterHoles hr he (Bool.eq_false_iff.2 hv)) (p₁.named hs) hrest
      exact ⟨B₂, p₁.andThen p₂⟩

theorem checkTyping_path {target : Name} {ty got : Typing} {value : Expr} {u : Unit}
    (h : checkTyping target ty value got s = .ok u s') : Path N s B 0 s' B := by
  unfold checkTyping at h
  split at h
  · obtain ⟨_, rfl⟩ := pure_ok.1 h
    exact .refl _ _
  · obtain rfl := modify_ok.1 h
    exact .aside ⟨rfl, rfl, rfl, rfl⟩

theorem assignStatic_raises (hdeep : Deep ns p n) (span : Span) (target : Name) (ty : Typing)
    (value : Expr) (declare : Bool) (ht : target.isStatic = true) :
    Raises ns p (.statement n (.assign span target ty value declare))
      (assignStatic (levels n) span target ty value declare) 0 := by
  intro s a s' B hr hs h
  unfold assignStatic at h
  obtain ⟨v, s₁, hv, h⟩ := bind_ok.1 h
  obtain ⟨B₁, p₁⟩ := fold_raises hdeep value (.staticTarget hr ht) hs hv
  obtain ⟨_, s₂, hc, h⟩ := bind_ok.1 h
  obtain ⟨f, _, hf, h⟩ := bind_ok.1 h
  obtain ⟨⟨fs, hw⟩, rfl⟩ := currentFile_ok.1 hf
  have p₂ : Path (notes ns p) s B 0 s₂ B₁ := p₁.andThen (checkTyping_path hc)
  split at h
  · obtain ⟨scopes, hok, rfl⟩ := onScopes_ok.1 h
    exact ⟨B₁, p₂.andThen fun _ _ => .bind hw hok⟩
  · obtain ⟨scopes, hok, rfl⟩ := onScopes_ok.1 h
    exact ⟨B₁, p₂.andThen fun _ _ => .rebind hw hok⟩

/-- The target is declared if need be; then its place is the one that the scopes give. -/
theorem assignedPlace_ok {span : Span} {target : Name} {ty : Typing} {declare : Bool} {place : Place}
    (h : assignedPlace span target ty declare s = .ok place s') :
    declareTarget target ty declare s = .ok () s' ∧ ∃ ty', s'.scopes.place target span = .ok (place, ty') := by
  unfold assignedPlace at h
  unfold declareTarget
  split at h
  · rename_i hd
    rw [if_pos hd]
    obtain ⟨_, s₁, hok, h⟩ := bind_ok.1 h
    obtain ⟨_, _, hg, h⟩ := bind_ok.1 h
    obtain ⟨rfl, rfl⟩ := get_ok.1 hg
    obtain ⟨⟨_, ty'⟩, _, ho, h⟩ := bind_ok.1 h
    obtain ⟨hp, rfl⟩ := ofExcept_ok.1 ho
    obtain ⟨rfl, rfl⟩ := pure_ok.1 h
    exact ⟨hok, ty', hp⟩
  · rename_i hd
    rw [if_neg hd]
    obtain ⟨_, _, hg, h⟩ := bind_ok.1 h
    obtain ⟨rfl, rfl⟩ := get_ok.1 hg
    obtain ⟨⟨_, ty'⟩, _, ho, h⟩ := bind_ok.1 h
    obtain ⟨hp, rfl⟩ := ofExcept_ok.1 ho
    obtain ⟨rfl, rfl⟩ := pure_ok.1 h
    exact ⟨rfl, ty', hp⟩

theorem declareTarget_path {target : Name} {ty : Typing} {declare : Bool} {u : Unit}
    (h : declareTarget target ty declare s = .ok u s') : Path N s B 0 s' B := by
  unfold declareTarget at h
  split at h
  · obtain ⟨scopes, hok, rfl⟩ := onScopes_ok.1 h
    exact fun _ _ => .declare hok
  · obtain ⟨_, rfl⟩ := pure_ok.1 h
    exact .refl _ _

theorem assignRuntime_raises (hdeep : Deep ns p n) (span : Span) (target : Name) (ty : Typing)
    (value : Expr) (declare : Bool) (ht : target.isStatic = false) :
    Raises ns p (.statement n (.assign span target ty value declare))
      (assignRuntime (levels n) span target ty value declare) 0 := by
  intro s a s' B hr hs h
  unfold assignRuntime at h
  split at h
  · rename_i hv
    obtain ⟨v, s₁, hf, h⟩ := bind_ok.1 h
    obtain ⟨_, s₂, hc, h⟩ := bind_ok.1 h
    obtain ⟨place, s₃, hplace, h⟩ := bind_ok.1 h
    obtain ⟨f, fs, hw, rfl⟩ := emit_ok.1 h
    obtain ⟨hd, ty', hp⟩ := assignedPlace_ok hplace
    obtain ⟨B₁, p₁⟩ := fold_raises hdeep value (.staticValue hr ht hv) hs hf
    have p₂ : Path (notes ns p) s B 0 s₃ B₁ :=
      (p₁.andThen (checkTyping_path hc)).andThen (declareTarget_path hd)
    exact ⟨B₁, p₂.andThen fun _ _ => .setVariable hw (.targetOfStatic hr ht hv hf hc hd) hp⟩
  · rename_i hv
    have hv := Bool.eq_false_iff.2 hv
    obtain ⟨_, s₁, hpush, h⟩ := bind_ok.1 h
    obtain ⟨_, _, hg, h⟩ := bind_ok.1 h
    obtain ⟨rfl, rfl⟩ := get_ok.1 hg
    obtain ⟨_, s₂, hc, h⟩ := bind_ok.1 h
    obtain ⟨place, s₃, hplace, h⟩ := bind_ok.1 h
    obtain ⟨_, _, hstore, hpop⟩ := bind_ok.1 h
    obtain ⟨f, fs, hw, rfl⟩ := emit_ok.1 hstore
    obtain ⟨hd, ty', hp⟩ := assignedPlace_ok hplace
    obtain ⟨B₁, p₁⟩ := push_raises hdeep value (.dynamicValue hr ht hv) hs hpush
    have p₂ : Path (notes ns p) s B 1 s₃ B₁ :=
      p₁.trans ((checkTyping_path hc).andThen (declareTarget_path hd))
    refine ⟨B₁, fun k R => ?_⟩
    have hst : Course (notes ns p) ⟨s₃, k + 1, R, B₁⟩ ⟨s₃.write f (.storeTop place), k + 1, R, B₁⟩ :=
      .storeVariable hw (.targetOfDynamic hr ht hv hpush hc hd) hp
    exact (p₂ k R).trans (hst.trans (emit_pop hpop))

theorem deliver_raises (hdeep : Deep ns p n) (span : Span) (value : Expr) :
    Raises ns p (.statement n (.ret span value)) (deliver (levels n) span value) 0 := by
  intro s a s' B hr hs h
  unfold deliver at h
  obtain ⟨_, _, hg, h⟩ := bind_ok.1 h
  obtain ⟨rfl, rfl⟩ := get_ok.1 hg
  cases ht : s.target with
  | none =>
    simp only [ht] at h
    exact (throw_ok.1 h).elim
  | some target =>
    cases target with
    | expansion label file v =>
      simp only [ht] at h
      obtain ⟨f, _, hf, h⟩ := bind_ok.1 h
      obtain ⟨⟨fs, hw⟩, rfl⟩ := currentFile_ok.1 hf
      split at h
      · exact (throw_ok.1 h).elim
      · rename_i hne
        obtain rfl : f = file := Classical.not_not.1 hne
        obtain ⟨v, s₁, hv, h⟩ := bind_ok.1 h
        obtain rfl := modify_ok.1 h
        obtain ⟨B₁, p₁⟩ := fold_raises hdeep value (.returnExpanded hr ht hw) hs hv
        exact ⟨B₁, p₁.andThen (.aside ⟨rfl, rfl, rfl, rfl⟩)⟩
    | storage =>
      simp only [ht] at h
      split at h
      · rename_i hv
        obtain ⟨v, s₁, hf, he⟩ := bind_ok.1 h
        obtain ⟨B₁, p₁⟩ := fold_raises hdeep value (.returnStatic hr ht hv) hs hf
        exact ⟨B₁, p₁.andThen (emit_plain rfl he)⟩
      · rename_i hv
        obtain ⟨_, s₁, hpush, h⟩ := bind_ok.1 h
        obtain ⟨_, s₂, hstore, hpop⟩ := bind_ok.1 h
        obtain ⟨B₁, p₁⟩ := push_raises hdeep value (.returnDynamic hr ht (Bool.eq_false_iff.2 hv)) hs hpush
        exact ⟨B₁, fun k R => (p₁ k R).trans ((emit_read rfl (by omega) hstore).trans (emit_pop hpop))⟩

theorem callStatement_raises (hdeep : Deep ns p n) (span : Span) (name : Name) (args : List Expr) :
    Raises ns p (.statement n (.call span name args)) (callStatement (levels n) span name args) 0 := by
  intro s a s' B hr hs h
  unfold callStatement at h
  split at h
  · rename_i hn
    obtain ⟨e, s₁, hres, h⟩ := bind_ok.1 h
    obtain ⟨vs, s₂, hargs, h⟩ := bind_ok.1 h
    obtain ⟨v, s₃, hexp, h⟩ := bind_ok.1 h
    obtain ⟨_, rfl⟩ := pure_ok.1 h
    have p₁ : Path (notes ns p) s B 0 s₁ B := resolve_path hres
    obtain ⟨B₂, p₂⟩ := foldAll_raises hdeep args (.staticCall hr hn hres) (p₁.named hs) hargs
    have p₁₂ := p₁.andThen p₂
    obtain ⟨B₃, p₃⟩ := expand_raises hdeep span e vs (.expandCall hr hn hres hargs) (p₁₂.named hs) hexp
    exact ⟨B₃, p₁₂.andThen p₃⟩
  · rename_i hn
    exact invoke_raises hdeep (pushDynamics_raises hdeep args) span name false
      (.dynamicCall hr (Bool.eq_false_iff.2 hn)) hs h

/-! ## Conditionals -/

/-- A stretch in a file of its own, which becomes an arm of a conditional. -/
def Arm (N : Notes) (s : GenState) (B : List FileId) (g : FileId) (s' : GenState) (B' : List FileId) :
    Prop :=
  s.files.size = g ∧ ∃ opens s₁, Course N ⟨inArm s opens, 0, [], B⟩ ⟨s₁, 0, [], B'⟩ ∧
    (endArm s₁ g opens).Alike s'

/-- The current file runs the arm on a condition that is on the stack. -/
theorem Arm.run {s₁ s₂ : GenState} {B' : List FileId} {g : FileId} {c : Command} (h : Arm N s B g s₁ B')
    (hs : s.writing ≠ []) (hload : emit (.load .condition 1) s₁ = .ok () s₂) (hc : c = .runIf g ∨ c = .runUnless g)
    (hrun : emit c s₂ = .ok () s') : Course N ⟨s, k + 1, R, B⟩ ⟨s', k + 1, R, B'⟩ := by
  obtain ⟨rfl, opens, s₃, hbody, hend⟩ := h
  obtain ⟨f, fs, hw⟩ := List.exists_cons_of_ne_nil hs
  have hw₁ : s₁.writing = f :: fs := by
    rw [hend.writing, writing_endArm, hbody.writing_eq, writing_inArm, List.tail_cons, hw]
  obtain rfl := emit_writing hw₁ hload
  obtain rfl := emit_writing (s := s₁.write f _) hw₁ hrun
  exact .arm hw hbody hend hc

theorem branch_arm {b : Block} {g : FileId} (hb : Raises ns p (.block n b) (block (levels n) b) 0)
    (hr : Reached ns p (.branch n b) s) (hs : Named s.scopes B)
    (h : branch b (block (levels n) b) s = .ok g s') : ∃ B', Arm (notes ns p) s B g s' B' := by
  unfold branch at h
  obtain ⟨rfl, s₁, hin, rfl⟩ := inNewFile_ok.1 h
  have hstart := Reached.insideBranch hr
  cases hsc : Block.requiresScope b with
  | false =>
    rw [hsc] at hin hstart
    obtain ⟨B', hbody⟩ := hb hstart hs hin
    exact ⟨B', rfl, false, s₁, hbody 0 [], ⟨rfl, rfl, rfl, rfl⟩⟩
  | true =>
    rw [hsc] at hin hstart
    obtain ⟨f, fs, _, s₂, _, hw, rfl, hblock, ⟨g, gs, hg, rfl⟩, _, warnings, rfl⟩ := inScope_ok hin
    obtain ⟨rfl, rfl⟩ : s.files.size = f ∧ s.writing = fs := List.cons.inj hw
    obtain ⟨B', hbody⟩ := hb hstart (hs.push _ _ _) hblock
    have hw₂ : s₂.writing = s.files.size :: s.writing := hbody.writing_eq
    obtain ⟨rfl, rfl⟩ : s.files.size = g ∧ s.writing = gs := List.cons.inj (hw₂.symm.trans hg)
    exact ⟨B', rfl, true, s₂, hbody 0 [], ⟨rfl, rfl, rfl, rfl⟩⟩

/-- What the alternative of a conditional comes to: nothing, or an arm. -/
def Alternative (ns : Bytes) (p : Program) (n : Nat) (other : Otherwise) : Prop :=
  ∀ ⦃s o s' B⦄, Reached ns p (.otherwise n other) s → Named s.scopes B →
    otherwise (levels n) other s = .ok o s' →
    match o with
    | none => s = s'
    | some g => ∃ B', Arm (notes ns p) s B g s' B'

theorem conditional_raises (hdeep : Deep ns p n) {b : Block} {other : Otherwise}
    (hb : Raises ns p (.block n b) (block (levels n) b) 0) (ho : Alternative ns p n other) (test : Expr) :
    Raises ns p (.conditional n test b other)
      (conditional (push (levels n) test) (branch b (block (levels n) b)) (otherwise (levels n) other)) 0 := by
  intro s a s' B hr hs h
  unfold conditional at h
  obtain ⟨_, s₁, htest, h⟩ := bind_ok.1 h
  obtain ⟨g, s₂, hbranch, h⟩ := bind_ok.1 h
  obtain ⟨_, s₃, hload, h⟩ := bind_ok.1 h
  obtain ⟨_, s₄, hrun, h⟩ := bind_ok.1 h
  obtain ⟨o, s₅, hother, h⟩ := bind_ok.1 h
  obtain ⟨B₁, p₁⟩ := push_raises hdeep test (.test hr) hs htest
  have hs₁ := p₁.named hs
  obtain ⟨B₂, harm⟩ := branch_arm hb (.branch hr htest) hs₁ hbranch
  have hopen : s₁.writing ≠ [] := by
    rw [p₁.writing_eq]
    intro hnil
    obtain ⟨rfl, opens, s₆, hbody, hend⟩ := harm
    obtain ⟨f, fs, hw, _⟩ := emit_ok.1 hload
    rw [hend.writing, writing_endArm, hbody.writing_eq, writing_inArm, List.tail_cons, p₁.writing_eq,
      hnil] at hw
    cases hw
  have p₂ : ∀ k R, Course (notes ns p) ⟨s, k, R, B⟩ ⟨s₄, k + 1, R, B₂⟩ := fun k R =>
    (p₁ k R).trans (harm.run hopen hload (.inl rfl) hrun)
  have hs₄ : Named s₄.scopes B₂ := (p₂ 0 []).named hs
  have halt := ho (.otherwise hr htest hbranch hload hrun) hs₄ hother
  cases o with
  | none =>
    obtain rfl := halt
    exact ⟨B₂, fun k R => (p₂ k R).trans (emit_pop h)⟩
  | some g' =>
    obtain ⟨B₃, harm'⟩ := halt
    obtain ⟨_, s₆, hload', h⟩ := bind_ok.1 h
    obtain ⟨_, s₇, hrun', h⟩ := bind_ok.1 h
    have hopen' : s₄.writing ≠ [] := by
      rw [(p₂ 0 []).writing_eq, ← p₁.writing_eq]
      exact hopen
    exact ⟨B₃, fun k R => (p₂ k R).trans
      ((harm'.run hopen' hload' (.inr rfl) hrun').trans (emit_pop h))⟩

/-! ## Blocks -/

/-- A course on which these files are reserved. -/
def Reserves (N : Notes) (s : GenState) (B : List FileId) (files : List FileId) (s' : GenState)
    (B' : List FileId) : Prop := ∀ k R, Course N ⟨s, k, R, B⟩ ⟨s', k, R ++ files, B'⟩

theorem Path.reserves {B' : List FileId} (h : Path N s B 0 s' B') : Reserves N s B [] s' B' := by
  intro k R
  rw [List.append_nil]
  exact h k R

/-- Files are reserved for functions only. -/
inductive Reservation : Block → List (Option FileId) → Prop
  | nil : Reservation [] []
  | skip (d : Stmt) (h : Reservation b files) : Reservation (d :: b) (none :: files)
  | reserve (h : Reservation b files) : Reservation (.define span sig body :: b) (some g :: files)

theorem declareAhead_reserves {root : Bool} {d : Stmt} {o : Option FileId}
    (h : declareAhead root d s = .ok o s') :
    (∃ B', Reserves N s B o.toList s' B') ∧
      ∀ b files, Reservation b files → Reservation (d :: b) (o :: files) := by
  unfold declareAhead at h
  split at h
  · split at h
    · obtain ⟨_, s₁, hon, h⟩ := bind_ok.1 h
      obtain ⟨scopes, hok, rfl⟩ := onScopes_ok.1 hon
      obtain ⟨rfl, rfl⟩ := pure_ok.1 h
      exact ⟨⟨B, Path.reserves fun _ _ => .announce hok⟩, fun _ _ => .skip _⟩
    · obtain ⟨rfl, rfl⟩ := pure_ok.1 h
      exact ⟨⟨B, Path.reserves (.refl _ _)⟩, fun _ _ => .skip _⟩
  · obtain ⟨_, _, hg, h⟩ := bind_ok.1 h
    obtain ⟨rfl, rfl⟩ := get_ok.1 hg
    obtain ⟨⟨i, scopes⟩, _, ho, h⟩ := bind_ok.1 h
    obtain ⟨hreg, rfl⟩ := ofExcept_ok.1 ho
    obtain ⟨_, _, hm, h⟩ := bind_ok.1 h
    obtain rfl := modify_ok.1 hm
    split at h
    · obtain ⟨g, _, hnew, h⟩ := bind_ok.1 h
      obtain ⟨rfl, rfl⟩ := newFile_ok.1 hnew
      obtain ⟨_, _, hm, h⟩ := bind_ok.1 h
      obtain rfl := modify_ok.1 hm
      obtain ⟨rfl, rfl⟩ := pure_ok.1 h
      exact ⟨⟨_, fun k R => .reserve hreg⟩, fun _ _ => .reserve⟩
    · obtain ⟨rfl, rfl⟩ := pure_ok.1 h
      exact ⟨⟨B, Path.reserves fun _ _ => .register hreg⟩, fun _ _ => .skip _⟩
  · obtain ⟨rfl, rfl⟩ := pure_ok.1 h
    exact ⟨⟨B, Path.reserves (.refl _ _)⟩, fun _ _ => .skip _⟩

theorem declareAheads_reserve {root : Bool} {b : Block} {files : List (Option FileId)}
    (h : b.mapM (declareAhead root) s = .ok files s') :
    (∃ B', Reserves N s B (files.filterMap id) s' B') ∧ Reservation b files := by
  induction b generalizing s B files with
  | nil =>
    rw [List.mapM_nil] at h
    obtain ⟨rfl, rfl⟩ := pure_ok.1 h
    exact ⟨⟨B, Path.reserves (.refl _ _)⟩, .nil⟩
  | cons d b ih =>
    rw [List.mapM_cons] at h
    obtain ⟨o, s₁, hd, h⟩ := bind_ok.1 h
    obtain ⟨files', s₂, hrest, h⟩ := bind_ok.1 h
    obtain ⟨rfl, rfl⟩ := pure_ok.1 h
    obtain ⟨⟨B₁, hfirst⟩, hdef⟩ := declareAhead_reserves (N := N) (B := B) hd
    obtain ⟨⟨B₂, hlater⟩, hres⟩ := ih (B := B₁) hrest
    refine ⟨⟨B₂, fun k R => (hfirst k R).trans ?_⟩, hdef _ _ hres⟩
    have hc := hlater k (R ++ o.toList)
    rw [List.append_assoc] at hc
    cases o with
    | none => exact hc
    | some g => exact hc

/-- The reserved files are filled in their order. -/
def Fills (ns : Bytes) (p : Program) (n : Nat) (b : Block) : Prop :=
  ∀ ⦃files s s' B⦄, Reached ns p (.bodies n b files) s → Reservation b files → Named s.scopes B →
    reservedBodies (levels n) b files s = .ok () s' →
    ∃ B', ∀ k R, Course (notes ns p) ⟨s, k, R ++ files.filterMap id, B⟩ ⟨s', k, R, B'⟩

theorem reservedBodies_none (deeper : Deeper) (d : Stmt) (b : Block) (files : List (Option FileId)) :
    reservedBodies deeper (d :: b) (none :: files) = reservedBodies deeper b files := by
  cases d <;> rw [reservedBodies] <;> simp

theorem block_raises {b : Block} (hbodies : Fills ns p n b)
    (hstatements : Raises ns p (.statements n b) (statements (levels n) b) 0) :
    Raises ns p (.block n b) (block (levels n) b) 0 := by
  intro s a s' B hr hs h
  unfold block inOrder at h
  obtain ⟨_, _, hg, h⟩ := bind_ok.1 h
  obtain ⟨rfl, rfl⟩ := get_ok.1 hg
  obtain ⟨top, _, ht, h⟩ := bind_ok.1 h
  obtain ⟨htop, rfl⟩ := ofExcept_ok.1 ht
  obtain ⟨files, s₁, hahead, h⟩ := bind_ok.1 h
  obtain ⟨_, s₂, hb, h⟩ := bind_ok.1 h
  obtain ⟨⟨B₁, h₁⟩, hres⟩ := declareAheads_reserve (N := notes ns p) (B := B) hahead
  have hs₁ : Named s₁.scopes B₁ := (h₁ 0 []).named hs
  obtain ⟨B₂, h₂⟩ := hbodies (.bodies hr htop hahead) hres hs₁ hb
  have p₂ : Path (notes ns p) s B 0 s₂ B₂ := fun k R => (h₁ k R).trans (h₂ k R)
  obtain ⟨B₃, p₃⟩ := hstatements (.statements hr htop hahead hb) (p₂.named hs) h
  exact ⟨B₃, p₂.andThen p₃⟩

mutual
theorem statement_raises (hdeep : Deep ns p n) :
    (d : Stmt) → Raises ns p (.statement n d) (statement (levels n) d) 0
  | .command span parts tail => by
    intro s a s' B hr hs h
    rw [statement] at h
    obtain ⟨text, s₁, ht, he⟩ := bind_ok.1 h
    obtain ⟨B₁, p₁⟩ := commandText_raises hdeep parts (.command hr) hs ht
    exact ⟨B₁, p₁.andThen (emit_plain rfl he)⟩
  | .cond span test body other => by
    intro s a s' B hr hs h
    rw [statement] at h
    have hb := block_raises (reservedBodies_fill hdeep body) (statements_raises hdeep body)
    exact conditional_raises hdeep hb (otherwise_alternative hdeep other) test (.cond hr) hs h
  | .assign span target ty value declare => by
    intro s a s' B hr hs h
    rw [statement] at h
    cases ht : target.isStatic with
    | true =>
      rw [ht, if_pos rfl] at h
      exact assignStatic_raises hdeep span target ty value declare ht hr hs h
    | false =>
      rw [ht, if_neg Bool.false_ne_true] at h
      exact assignRuntime_raises hdeep span target ty value declare ht hr hs h
  | .define span sig body => by
    intro s a s' B hr hs h
    rw [statement] at h
    obtain ⟨_, rfl⟩ := pure_ok.1 h
    exact ⟨B, .refl _ _⟩
  | .call span name args => by
    intro s a s' B hr hs h
    rw [statement] at h
    exact callStatement_raises hdeep span name args hr hs h
  | .ret span value => by
    intro s a s' B hr hs h
    rw [statement] at h
    exact deliver_raises hdeep span value hr hs h
theorem otherwise_alternative (hdeep : Deep ns p n) : (other : Otherwise) → Alternative ns p n other
  | .nothing => by
    intro s o s' B hr hs h
    rw [otherwise] at h
    obtain ⟨rfl, rfl⟩ := pure_ok.1 h
    rfl
  | .block body => by
    intro s o s' B hr hs h
    rw [otherwise] at h
    obtain ⟨g, s₁, hbranch, h⟩ := bind_ok.1 h
    obtain ⟨rfl, rfl⟩ := pure_ok.1 h
    have hb := block_raises (reservedBodies_fill hdeep body) (statements_raises hdeep body)
    exact branch_arm hb (.otherBranch hr) hs hbranch
  | .cond span test body other => by
    intro s o s' B hr hs h
    rw [otherwise] at h
    obtain ⟨g, s₁, hnew, h⟩ := bind_ok.1 h
    obtain ⟨rfl, rfl⟩ := pure_ok.1 h
    obtain ⟨rfl, s₂, hin, rfl⟩ := inNewFile_ok.1 hnew
    have hb := block_raises (reservedBodies_fill hdeep body) (statements_raises hdeep body)
    obtain ⟨B', hbody⟩ := conditional_raises hdeep hb (otherwise_alternative hdeep other) test
      (.otherCond hr) hs hin
    exact ⟨B', rfl, false, s₂, hbody 0 [], ⟨rfl, rfl, rfl, rfl⟩⟩
theorem statements_raises (hdeep : Deep ns p n) :
    (b : Block) → Raises ns p (.statements n b) (statements (levels n) b) 0
  | [] => by
    intro s a s' B hr hs h
    rw [statements] at h
    obtain ⟨_, rfl⟩ := pure_ok.1 h
    exact ⟨B, .refl _ _⟩
  | d :: b => by
    intro s a s' B hr hs h
    rw [statements] at h
    obtain ⟨_, s₁, hd, h⟩ := bind_ok.1 h
    obtain ⟨B₁, p₁⟩ := statement_raises hdeep d (.firstStatement hr) hs hd
    obtain ⟨B₂, p₂⟩ := statements_raises hdeep b (.laterStatements hr hd) (p₁.named hs) h
    exact ⟨B₂, p₁.andThen p₂⟩
theorem reservedBodies_fill (hdeep : Deep ns p n) : (b : Block) → Fills ns p n b
  | [] => by
    intro files s s' B hr hres hs h
    cases hres
    rw [reservedBodies] at h
    · obtain ⟨_, rfl⟩ := pure_ok.1 h
      exact ⟨B, fun k R => by rw [List.filterMap_nil, List.append_nil]; exact .refl _⟩
    all_goals simp
  | d :: b => by
    intro files s s' B hr hres hs h
    cases hres with
    | @skip _ files _ hres =>
      rw [reservedBodies_none] at h
      have hnext : Reached ns p (.bodies n b files) s :=
        .skipBody hr fun _ _ _ _ _ => Option.some_ne_none _ |>.symm
      obtain ⟨B', hc⟩ := reservedBodies_fill hdeep b hnext hres hs h
      exact ⟨B', hc⟩
    | @reserve _ files span sig body g hres =>
      rw [reservedBodies] at h
      obtain ⟨_, s₁, hbody, h⟩ := bind_ok.1 h
      have hb := block_raises (reservedBodies_fill hdeep body) (statements_raises hdeep body)
      obtain ⟨s₂, B₁, hc, ha⟩ := functionBody_course hb (.nextBody hr) hs hbody
      have hfilled : ∀ k R R', Course (notes ns p) ⟨s, k, R ++ g :: R', B⟩ ⟨s₁, k, R ++ R', B₁⟩ :=
        fun k R R' => (Course.fill hc).trans (.aside ha)
      have hs₁ : Named s₁.scopes B₁ := (hfilled 0 [] []).named hs
      obtain ⟨B₂, hlater⟩ := reservedBodies_fill hdeep b (.laterBodies hr hbody) hres hs₁ h
      exact ⟨B₂, fun k R => (hfilled k R _).trans (hlater k R)⟩
end

/-- Blocks run their course on every level. -/
theorem deep (ns : Bytes) (p : Program) : ∀ n, Deep ns p n
  | 0 => fun _ h => by cases h
  | n + 1 => by
    rintro m hm b
    obtain rfl : n = m := Nat.succ.inj hm
    exact block_raises (reservedBodies_fill (deep ns p n) b) (statements_raises (deep ns p n) b)

/-- A successful run starts with one empty file and an empty scope; in between it runs a course. -/
theorem program_course {statics : List (Name × Value)} (h : program ns p {} = .ok statics s') :
    ∃ s₁ B, Course (notes ns p) ⟨atRoot, 0, [], []⟩ ⟨s₁, 0, [], B⟩ ∧ s₁.closeScope.leave.Alike s' := by
  unfold program at h
  obtain ⟨f, _, hnew, h⟩ := bind_ok.1 h
  obtain ⟨rfl, rfl⟩ := newFile_ok.1 hnew
  obtain ⟨s₁, hin, rfl⟩ := writingTo_ok.1 h
  obtain ⟨f, fs, _, s₂, _, hw, rfl, hbody, rfl, _, warnings, rfl⟩ := inScope_ok hin
  obtain ⟨rfl, rfl⟩ : 0 = f ∧ [] = fs := List.cons.inj hw
  obtain ⟨_, _, hns, hbody⟩ := bind_ok.1 hbody
  obtain ⟨scopes, hok, rfl⟩ := onScopes_ok.1 hns
  obtain ⟨_, s₃, hblock, hbody⟩ := bind_ok.1 hbody
  obtain ⟨_, _, hg, hbody⟩ := bind_ok.1 hbody
  obtain ⟨rfl, rfl⟩ := get_ok.1 hg
  obtain ⟨top, _, ht, hbody⟩ := bind_ok.1 hbody
  obtain ⟨_, rfl⟩ := ofExcept_ok.1 ht
  obtain ⟨_, rfl⟩ := pure_ok.1 hbody
  have hbind : Path (notes ns p) atRoot [] 0 { atRoot with scopes } [] := fun _ _ => .bind hw hok
  have hroot : Named atRoot.scopes [] := fun e he => by cases he
  obtain ⟨B, hrun⟩ := deep ns p (maxNesting + 1) maxNesting rfl p.body (.program hok) (hbind.named hroot) hblock
  exact ⟨s₃, B, (hbind.andThen hrun) 0 [], ⟨rfl, rfl, rfl, rfl⟩⟩

end PackScript.Gen
