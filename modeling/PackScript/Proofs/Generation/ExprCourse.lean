import PackScript.Proofs.Generation.CallCourse

/-! # The course of expressions

Folding leaves the stack as it was; pushing leaves one more cell on it. Calls inside an
expression may expand or generate any number of bodies in between.
-/
namespace PackScript.Gen

variable {ns : Bytes} {p : Program} {N : Notes} {s s' : GenState} {B : List FileId} {n k : Nat}
  {R : List FileId}

theorem emit_writing {f : FileId} {fs : List FileId} {c : Command} {u : Unit} (hw : s.writing = f :: fs)
    (h : emit c s = .ok u s') : s.write f c = s' := by
  obtain ⟨g, gs, hg, rfl⟩ := emit_ok.1 h
  obtain ⟨rfl, rfl⟩ : f = g ∧ fs = gs := List.cons.inj (hw.symm.trans hg)
  rfl

theorem emit_plain {c : Command} {u : Unit} (hc : c.isPlain = true) (h : emit c s = .ok u s') :
    Path N s B 0 s' B := by
  obtain ⟨f, fs, hw, rfl⟩ := emit_ok.1 h
  exact fun _ _ => .plain hw hc

theorem emit_push {c : Command} {u : Unit} (hc : c.isPush = true) (h : emit c s = .ok u s') :
    Path N s B 1 s' B := by
  obtain ⟨f, fs, hw, rfl⟩ := emit_ok.1 h
  exact fun _ _ => .push hw hc

theorem emit_read {c : Command} {u : Unit} {d : Nat} (hc : c.depthRead? = some d) (hd : d ≤ k)
    (h : emit c s = .ok u s') : Course N ⟨s, k, R, B⟩ ⟨s', k, R, B⟩ := by
  obtain ⟨f, fs, hw, rfl⟩ := emit_ok.1 h
  exact .read hw hc hd

theorem emit_pop {u : Unit} (h : emit .pop s = .ok u s') : Course N ⟨s, k + 1, R, B⟩ ⟨s', k, R, B⟩ := by
  obtain ⟨f, fs, hw, rfl⟩ := emit_ok.1 h
  exact .pop hw

theorem settle_state {span : Span} {r : Except Cause Value} {v : Value}
    (h : settle span r s = .ok v s') : s = s' := by
  cases r with
  | ok w => exact (pure_ok.1 h).2
  | error cause => exact (throw_ok.1 h).elim

/-- Only static expressions are folded; then the work goes by the shape of the expression. -/
theorem fold_static {d : Deeper} {e : Expr} {v : Value} (h : fold d e s = .ok v s') :
    e.isStatic = true := by
  rw [fold.eq_def] at h
  cases hst : e.isStatic with
  | true => rfl
  | false => simp only [hst, Bool.not_false, if_true, throw_ok] at h

mutual
theorem fold_raises (hdeep : Deep ns p n) : (e : Expr) → Raises ns p (.fold n e) (fold (levels n) e) 0
  | .number _ _ | .string _ _ | .bool _ _ => by
    intro s a s' B hr hs h
    rw [fold.eq_def] at h
    obtain ⟨_, rfl⟩ := pure_ok.1 h
    exact ⟨B, .refl _ _⟩
  | .paren _ inner => by
    intro s a s' B hr hs h
    have hst := fold_static h
    rw [fold.eq_def] at h
    simp only [hst, Bool.not_true, Bool.false_eq_true, if_false] at h
    exact fold_raises hdeep inner (.foldParen hr hst) hs h
  | .var span name => by
    intro s a s' B hr hs h
    have hst := fold_static h
    rw [fold.eq_def] at h
    simp only [hst, Bool.not_true, Bool.false_eq_true, if_false] at h
    obtain ⟨_, _, hg, ho⟩ := bind_ok.1 h
    obtain ⟨rfl, rfl⟩ := get_ok.1 hg
    obtain ⟨_, rfl⟩ := ofExcept_ok.1 ho
    exact ⟨B, .refl _ _⟩
  | .sum span l r => by
    intro s a s' B hr hs h
    have hst := fold_static h
    rw [fold.eq_def] at h
    simp only [hst, Bool.not_true, Bool.false_eq_true, if_false] at h
    obtain ⟨v, s₁, hl, hrest⟩ := bind_ok.1 h
    obtain ⟨w, s₂, hright, hsettle⟩ := bind_ok.1 hrest
    obtain ⟨B₁, p₁⟩ := fold_raises hdeep l (.foldSumLeft hr hst) hs hl
    obtain ⟨B₂, p₂⟩ := fold_raises hdeep r (.foldSumRight hr hst hl) (p₁.named hs) hright
    obtain rfl := settle_state hsettle
    exact ⟨B₂, p₁.trans p₂⟩
  | .product span l r => by
    intro s a s' B hr hs h
    have hst := fold_static h
    rw [fold.eq_def] at h
    simp only [hst, Bool.not_true, Bool.false_eq_true, if_false] at h
    obtain ⟨v, s₁, hl, hrest⟩ := bind_ok.1 h
    obtain ⟨w, s₂, hright, hsettle⟩ := bind_ok.1 hrest
    obtain ⟨B₁, p₁⟩ := fold_raises hdeep l (.foldProductLeft hr hst) hs hl
    obtain ⟨B₂, p₂⟩ := fold_raises hdeep r (.foldProductRight hr hst hl) (p₁.named hs) hright
    obtain rfl := settle_state hsettle
    exact ⟨B₂, p₁.trans p₂⟩
  | .call span name args => by
    intro s a s' B hr hs h
    have hst := fold_static h
    rw [fold.eq_def] at h
    simp only [hst, Bool.not_true, Bool.false_eq_true, if_false] at h
    obtain ⟨f, s₁, hres, hrest⟩ := bind_ok.1 h
    obtain ⟨vs, s₂, hargs, hrest⟩ := bind_ok.1 hrest
    obtain ⟨v, s₃, hexp, hv⟩ := bind_ok.1 hrest
    have p₁ : Path (notes ns p) s B 0 s₁ B := resolve_path hres
    obtain ⟨B₂, p₂⟩ := foldAll_raises hdeep args (.foldArguments hr hst hres) (p₁.named hs) hargs
    have p₁₂ := p₁.andThen p₂
    obtain ⟨B₃, p₃⟩ := expand_raises hdeep span f vs (.foldCall hr hst hres hargs) (p₁₂.named hs) hexp
    cases v with
    | none => exact (throw_ok.1 hv).elim
    | some v =>
      obtain ⟨_, rfl⟩ := pure_ok.1 hv
      exact ⟨B₃, p₁₂.andThen p₃⟩
theorem foldAll_raises (hdeep : Deep ns p n) :
    (es : List Expr) → Raises ns p (.foldAll n es) (foldAll (levels n) es) 0
  | [] => by
    intro s a s' B hr hs h
    rw [foldAll] at h
    obtain ⟨_, rfl⟩ := pure_ok.1 h
    exact ⟨B, .refl _ _⟩
  | e :: es => by
    intro s a s' B hr hs h
    rw [foldAll] at h
    obtain ⟨v, s₁, he, hrest⟩ := bind_ok.1 h
    obtain ⟨vs, s₂, hes, hp⟩ := bind_ok.1 hrest
    obtain ⟨_, rfl⟩ := pure_ok.1 hp
    obtain ⟨B₁, p₁⟩ := fold_raises hdeep e (.foldFirst hr) hs he
    obtain ⟨B₂, p₂⟩ := foldAll_raises hdeep es (.foldLater hr he) (p₁.named hs) hes
    exact ⟨B₂, p₁.andThen p₂⟩
end

theorem foldStatics_go_raises (hdeep : Deep ns p n) (args : List Expr) (params : List Param) :
    Raises ns p (.foldStatics n args params) (foldStatics.go (levels n) args params) 0 := by
  induction params generalizing args with
  | nil =>
    intro s a s' B hr hs h
    rw [foldStatics.go] at h
    obtain ⟨_, rfl⟩ := pure_ok.1 h
    exact ⟨B, .refl _ _⟩
  | cons q params ih =>
    intro s a s' B hr hs h
    cases args with
    | nil =>
      rw [foldStatics.go] at h
      exact (throw_ok.1 h).elim
    | cons e args =>
      rw [foldStatics.go] at h
      split at h
      · rename_i hq
        exact ih args (.skipDynamic hr hq) hs h
      · rename_i hq
        have hq : q.name.dynamic = false := Bool.eq_false_iff.2 hq
        obtain ⟨v, s₁, he, hrest⟩ := bind_ok.1 h
        obtain ⟨vs, s₂, hargs, hp⟩ := bind_ok.1 hrest
        obtain ⟨_, rfl⟩ := pure_ok.1 hp
        obtain ⟨B₁, p₁⟩ := fold_raises hdeep e (.foldStatic hr hq) hs he
        obtain ⟨B₂, p₂⟩ := ih args (.laterStatics hr hq he) (p₁.named hs) hargs
        exact ⟨B₂, p₁.andThen p₂⟩

/-- A static expression is folded, and its value is pushed. -/
theorem push_static_raises (hdeep : Deep ns p n) (e : Expr) (hst : e.isStatic = true) :
    Raises ns p (.push n e) (push (levels n) e) 1 := by
  intro s a s' B hr hs h
  rw [push.eq_def] at h
  simp only [hst, if_true] at h
  obtain ⟨v, s₁, hf, he⟩ := bind_ok.1 h
  obtain ⟨B₁, p₁⟩ := fold_raises hdeep e (.pushFolded hr hst) hs hf
  exact ⟨B₁, p₁.andThen (emit_push rfl he)⟩

/-- Two cells are combined into one. -/
theorem combine_course {op : Operation} {u : Unit} (h : combine op s = .ok u s') :
    Course N ⟨s, k + 2, R, B⟩ ⟨s', k + 1, R, B⟩ := by
  unfold combine at h
  obtain ⟨_, s₁, h₁, hr⟩ := bind_ok.1 h
  obtain ⟨_, s₂, h₂, hr⟩ := bind_ok.1 hr
  obtain ⟨_, s₃, h₃, hr⟩ := bind_ok.1 hr
  obtain ⟨_, s₄, h₄, hr⟩ := bind_ok.1 hr
  obtain ⟨_, s₅, h₅, hr⟩ := bind_ok.1 hr
  obtain ⟨_, s₆, h₆, hr⟩ := bind_ok.1 hr
  have left : Course N ⟨s, k + 2, R, B⟩ ⟨s₁, k + 2, R, B⟩ := emit_read rfl (by omega) h₁
  have right : Course N ⟨s₁, k + 2, R, B⟩ ⟨s₂, k + 2, R, B⟩ := emit_read rfl (by omega) h₂
  have first : Course N ⟨s₂, k + 2, R, B⟩ ⟨s₃, k + 1, R, B⟩ := emit_pop h₃
  have second : Course N ⟨s₃, k + 1, R, B⟩ ⟨s₄, k, R, B⟩ := emit_pop h₄
  have result : Course N ⟨s₄, k, R, B⟩ ⟨s₆, k + 1, R, B⟩ :=
    (emit_plain rfl h₅ k R).trans (emit_push rfl h₆ k R)
  have back : Course N ⟨s₆, k + 1, R, B⟩ ⟨s', k + 1, R, B⟩ := emit_read rfl (by omega) hr
  exact left.trans (right.trans (first.trans (second.trans (result.trans back))))

theorem refuseStrings_state {span : Span} {l r : Expr} {u : Unit}
    (h : refuseStrings span l r s = .ok u s') : s = s' := by
  unfold refuseStrings at h
  obtain ⟨_, _, hg, hr⟩ := bind_ok.1 h
  obtain ⟨rfl, rfl⟩ := get_ok.1 hg
  split at hr
  · exact (throw_ok.1 hr).elim
  · exact (pure_ok.1 hr).2

theorem fillFrame_ok {f : FileId} {fs : List FileId} {params : List Param} {u : Unit}
    (hw : s.writing = f :: fs) (h : fillFrame params s = .ok u s') :
    s.writeAll f (fillSequence params) = s' := by
  induction params generalizing s with
  | nil =>
    rw [fillFrame] at h
    exact (pure_ok.1 h).2
  | cons q params ih =>
    rw [fillFrame] at h
    rw [fillSequence, List.flatMap_cons, GenState.writeAll_append]
    split at h
    · rename_i hq
      obtain ⟨_, s₁, h₁, hr⟩ := bind_ok.1 h
      obtain ⟨_, s₂, h₂, hr⟩ := bind_ok.1 hr
      obtain rfl := emit_writing hw h₁
      obtain rfl := emit_writing (s := s.write f _) hw h₂
      rw [if_pos hq]
      exact ih (s := (s.write f _).write f _) hw hr
    · rename_i hq
      rw [if_neg hq]
      exact ih hw h

/-- The commands that follow the arguments of a call. -/
theorem callSequence_ok {f g : FileId} {fs : List FileId} {params : List Param} {s₁ s₂ s₃ : GenState}
    (hw : s.writing = f :: fs) (ho : emit .openFrame s = .ok () s₁) (hf : fillFrame params s₁ = .ok () s₂)
    (hc : emit (.call g) s₂ = .ok () s₃) (hx : emit .closeFrame s₃ = .ok () s') :
    s.writeAll f (callSequence params g) = s' := by
  obtain rfl := emit_writing hw ho
  obtain rfl := fillFrame_ok (s := s.write f .openFrame) hw hf
  have hfilled : ∀ cs, ((s.write f .openFrame).writeAll f cs).writing = f :: fs :=
    fun cs => (GenState.writing_writeAll _ f cs).trans hw
  obtain rfl := emit_writing (hfilled _) hc
  obtain rfl := emit_writing (s := GenState.write _ f (.call g)) (hfilled _) hx
  rw [callSequence, List.cons_append, GenState.writeAll_cons, GenState.writeAll_append]
  rfl

/-- The commands of a call that is used as a value push what was returned. -/
def returnSequence (isValue : Bool) : List Command := if isValue then [.pushFrom .result] else []

/-- The stages of a call. The function is resolved and its file settled, the dynamic arguments are
pushed, and the commands that run the file follow. -/
theorem invoke_stages (hdeep : Deep ns p n) {span : Span} {name : Name} {args : List Expr} {isValue : Bool}
    {u : Unit} (hr : Reached ns p (.invoke n span name args isValue) s) (hs : Named s.scopes B)
    (h : invoke (levels n) span name args (foldStatics (levels n) args) (pushDynamics (levels n) args) isValue s =
      .ok u s') :
    ∃ e s₁ g s₂ B₂ s₃ f fs, resolve span name args s = .ok e s₁ ∧
      Path (notes ns p) s B 0 s₂ B₂ ∧ g ∈ B₂ ∧ Reached ns p (.pushDynamics n args e.signature.params) s₂ ∧
      pushDynamics (levels n) args e.signature.params s₂ = .ok () s₃ ∧ s₃.writing = f :: fs ∧
      (s₃.writeAll f (callSequence e.signature.params g)).writeAll f (returnSequence isValue) = s' := by
  unfold invoke at h
  obtain ⟨e, s₁, hres, h⟩ := bind_ok.1 h
  have hcount : Path (notes ns p) s B 0 s₁ B := resolve_path hres
  have hs₁ := hcount.named hs
  have he := resolve_named hres hs
  split at h
  · exact (throw_ok.1 h).elim
  rename_i hval
  have hval := Bool.eq_false_iff.2 hval
  dsimp only at h
  -- whichever way the file of the function is found, it is a known one
  have hfound : ∃ g s₂ B₂ s₃, Path (notes ns p) s₁ B 0 s₂ B₂ ∧ g ∈ B₂ ∧
      Reached ns p (.pushDynamics n args e.signature.params) s₂ ∧
      pushDynamics (levels n) args e.signature.params s₂ = .ok () s₃ ∧
      (do
        emit .openFrame
        fillFrame e.signature.params
        emit (.call g)
        emit .closeFrame
        if isValue then emit (.pushFrom .result) else pure () : Gen Unit) s₃ = .ok u s' := by
    split at h
    · rename_i hst
      obtain ⟨statics, s₃, hfold, h⟩ := bind_ok.1 h
      obtain ⟨g, s₄, hspec, h⟩ := bind_ok.1 h
      obtain ⟨_, s₅, hdyn, h⟩ := bind_ok.1 h
      obtain ⟨B₁, p₁⟩ := foldStatics_go_raises hdeep args e.signature.params
        (.invokeStatics hr hres hval hst) hs₁ hfold
      obtain ⟨B₂, p₂, hg⟩ := specialize_path hdeep (.invokeSpecialized hr hres hval hst hfold)
        (p₁.named hs₁) (fun kg hk => p₁.bodies_subset (he.2 kg hk)) hspec
      exact ⟨g, s₄, B₂, s₅, p₁.andThen p₂, hg, .specializedArguments hr hres hval hst hfold hspec, hdyn, h⟩
    · rename_i hst
      cases hg : e.file with
      | some g =>
        simp only [hg] at h
        obtain ⟨_, _, hpure, h⟩ := bind_ok.1 h
        obtain ⟨rfl, rfl⟩ := pure_ok.1 hpure
        obtain ⟨_, s₅, hdyn, h⟩ := bind_ok.1 h
        exact ⟨g, s₁, B, s₅, .refl _ _, he.1 _ hg, .placedArguments hr hres hval hst hg, hdyn, h⟩
      | none =>
        simp only [hg] at h
        obtain ⟨_, _, hthrow, _⟩ := bind_ok.1 h
        exact (throw_ok.1 hthrow).elim
  obtain ⟨g, s₂, B₂, s₃, p₂, hg, hr₂, hdyn, h⟩ := hfound
  obtain ⟨_, s₄, hopen, h⟩ := bind_ok.1 h
  obtain ⟨_, s₅, hfill, h⟩ := bind_ok.1 h
  obtain ⟨_, s₆, hcall, h⟩ := bind_ok.1 h
  obtain ⟨_, s₇, hclose, h⟩ := bind_ok.1 h
  obtain ⟨f, fs, hw, -⟩ := emit_ok.1 hopen
  obtain rfl := callSequence_ok hw hopen hfill hcall hclose
  refine ⟨e, s₁, g, s₂, B₂, s₃, f, fs, hres, hcount.andThen p₂, hg, hr₂, hdyn, hw, ?_⟩
  cases isValue with
  | false => exact (pure_ok.1 h).2
  | true =>
    obtain rfl := emit_writing ((GenState.writing_writeAll s₃ f _).trans hw) h
    rfl

/-- A call takes its arguments off the stack and may leave the returned value there. -/
theorem invoke_raises (hdeep : Deep ns p n) {args : List Expr}
    (hpush : ∀ params, Raises ns p (.pushDynamics n args params) (pushDynamics (levels n) args params)
      (params.countP (·.name.dynamic)))
    (span : Span) (name : Name) (isValue : Bool) :
    Raises ns p (.invoke n span name args isValue)
      (invoke (levels n) span name args (foldStatics (levels n) args) (pushDynamics (levels n) args) isValue)
      isValue.toNat := by
  intro s a s' B hr hs h
  obtain ⟨e, _, g, s₂, B₂, s₃, f, fs, -, p₂, hg, hr₂, hdyn, hw, rfl⟩ := invoke_stages hdeep hr hs h
  obtain ⟨B₃, p₃⟩ := hpush _ hr₂ (p₂.named hs) hdyn
  have hrun : Path (notes ns p) s B 0 (s₃.writeAll f (callSequence e.signature.params g)) B₃ := by
    intro k R
    exact ((p₂.andThen p₃) k R).trans (.call hw (p₃.bodies_subset hg))
  cases isValue with
  | false => exact ⟨B₃, hrun⟩
  | true =>
    have hw' := (GenState.writing_writeAll s₃ f (callSequence e.signature.params g)).trans hw
    exact ⟨B₃, hrun.andThen fun _ _ => .push hw' rfl⟩

mutual
theorem push_raises (hdeep : Deep ns p n) : (e : Expr) → Raises ns p (.push n e) (push (levels n) e) 1
  | .number span i => push_static_raises hdeep (.number span i) rfl
  | .string span b => push_static_raises hdeep (.string span b) rfl
  | .bool span b => push_static_raises hdeep (.bool span b) rfl
  | .paren span inner => by
    cases hst : (Expr.paren span inner).isStatic with
    | true => exact push_static_raises hdeep _ hst
    | false =>
      intro s a s' B hr hs h
      rw [push.eq_def] at h
      simp only [hst, Bool.false_eq_true, if_false] at h
      exact push_raises hdeep inner (.pushParen hr hst) hs h
  | .var span name => by
    cases hst : (Expr.var span name).isStatic with
    | true => exact push_static_raises hdeep _ hst
    | false =>
      intro s a s' B hr hs h
      rw [push.eq_def] at h
      simp only [hst, Bool.false_eq_true, if_false] at h
      obtain ⟨_, _, hg, h⟩ := bind_ok.1 h
      obtain ⟨rfl, rfl⟩ := get_ok.1 hg
      obtain ⟨⟨place, ty⟩, _, ho, he⟩ := bind_ok.1 h
      obtain ⟨hp, rfl⟩ := ofExcept_ok.1 ho
      obtain ⟨f, fs, hw, rfl⟩ := emit_ok.1 he
      exact ⟨B, fun _ _ => .pushVariable hw (.pushVariable hr hst) hp⟩
  | .sum span l r => by
    cases hst : (Expr.sum span l r).isStatic with
    | true => exact push_static_raises hdeep _ hst
    | false =>
      intro s a s' B hr hs h
      rw [push.eq_def] at h
      simp only [hst, Bool.false_eq_true, if_false] at h
      obtain ⟨_, _, hno, h⟩ := bind_ok.1 h
      obtain rfl := refuseStrings_state hno
      obtain ⟨_, s₁, hl, h⟩ := bind_ok.1 h
      obtain ⟨_, s₂, hright, hop⟩ := bind_ok.1 h
      obtain ⟨B₁, p₁⟩ := push_raises hdeep l (.pushSumLeft hr hst hno) hs hl
      obtain ⟨B₂, p₂⟩ := push_raises hdeep r (.pushSumRight hr hst hno hl) (p₁.named hs) hright
      exact ⟨B₂, fun k R => ((p₁.trans p₂) k R).trans (combine_course hop)⟩
  | .product span l r => by
    cases hst : (Expr.product span l r).isStatic with
    | true => exact push_static_raises hdeep _ hst
    | false =>
      intro s a s' B hr hs h
      rw [push.eq_def] at h
      simp only [hst, Bool.false_eq_true, if_false] at h
      obtain ⟨_, _, hno, h⟩ := bind_ok.1 h
      obtain rfl := refuseStrings_state hno
      obtain ⟨_, s₁, hl, h⟩ := bind_ok.1 h
      obtain ⟨_, s₂, hright, hop⟩ := bind_ok.1 h
      obtain ⟨B₁, p₁⟩ := push_raises hdeep l (.pushProductLeft hr hst hno) hs hl
      obtain ⟨B₂, p₂⟩ := push_raises hdeep r (.pushProductRight hr hst hno hl) (p₁.named hs) hright
      exact ⟨B₂, fun k R => ((p₁.trans p₂) k R).trans (combine_course hop)⟩
  | .call span name args => by
    cases hst : (Expr.call span name args).isStatic with
    | true => exact push_static_raises hdeep _ hst
    | false =>
      intro s a s' B hr hs h
      rw [push.eq_def] at h
      simp only [hst, Bool.false_eq_true, if_false] at h
      exact invoke_raises hdeep (pushDynamics_raises hdeep args) span name true (.pushCall hr hst) hs h
theorem pushDynamics_raises (hdeep : Deep ns p n) : (args : List Expr) → (params : List Param) →
    Raises ns p (.pushDynamics n args params) (pushDynamics (levels n) args params)
      (params.countP (·.name.dynamic))
  | _, [] => by
    intro s a s' B hr hs h
    rw [pushDynamics] at h
    obtain ⟨_, rfl⟩ := pure_ok.1 h
    exact ⟨B, .refl _ _⟩
  | [], _ :: _ => by
    intro s a s' B hr hs h
    rw [pushDynamics] at h
    exact (throw_ok.1 h).elim
  | e :: args, q :: params => by
    intro s a s' B hr hs h
    rw [pushDynamics] at h
    obtain ⟨_, s₁, hlater, h⟩ := bind_ok.1 h
    obtain ⟨B₁, p₁⟩ := pushDynamics_raises hdeep args params (.pushLater hr) hs hlater
    rw [List.countP_cons]
    split at h
    · rename_i hq
      obtain ⟨B₂, p₂⟩ := push_raises hdeep e (.pushFirst hr hlater hq) (p₁.named hs) h
      rw [if_pos hq]
      exact ⟨B₂, p₁.trans p₂⟩
    · rename_i hq
      obtain ⟨_, rfl⟩ := pure_ok.1 h
      rw [if_neg hq]
      exact ⟨B₁, p₁⟩
end

end PackScript.Gen
