import PackScript.Proofs.Generation.Course

/-! # The course of calls

Resolving and expanding calls, and the bodies of functions. How a body one level deeper is
generated is left open here: all that matters of it is that it runs its course.
-/
namespace PackScript.Gen

/-- What is noted of the run for `p` under the namespace `ns`. -/
def notes (ns : Bytes) (p : Program) : Notes where
  located name span s := Reached ns p (.locate name span) s
  specialized s e key s' := ∃ n span statics, Reached ns p (.specialize (n + 1) span e statics) s ∧
    s.scopes.specializationKey e.function (statics.map Prod.snd) = key ∧
    (s.scopes.current e).specialized.lookup key = none ∧
    Gen.specialize (levels (n + 1)) span e statics s = .ok s.files.size s'

/-- A course, whatever is on the stack and reserved before, that leaves `d` more cells. -/
def Path (N : Notes) (s : GenState) (B : List FileId) (d : Nat) (s' : GenState) (B' : List FileId) :
    Prop := ∀ k R, Course N ⟨s, k, R, B⟩ ⟨s', k + d, R, B'⟩

namespace Path

variable {N : Notes} {s s₁ s₂ : GenState} {B B₁ B₂ : List FileId} {c d : Nat}

theorem refl (s : GenState) (B : List FileId) : Path N s B 0 s B := fun _ _ => .refl _

theorem trans (h : Path N s B c s₁ B₁) (h' : Path N s₁ B₁ d s₂ B₂) : Path N s B (c + d) s₂ B₂ := by
  intro k R
  have hc := h' (k + c) R
  rw [Nat.add_assoc] at hc
  exact (h k R).trans hc

/-- A stretch that moves nothing on the stack, then another one. -/
theorem andThen (h : Path N s B 0 s₁ B₁) (h' : Path N s₁ B₁ d s₂ B₂) : Path N s B d s₂ B₂ :=
  Nat.zero_add d ▸ h.trans h'

theorem aside (h : s.Alike s₁) : Path N s B 0 s₁ B := fun _ _ => .aside h

theorem named (h : Path N s B d s₁ B₁) (hs : Named s.scopes B) : Named s₁.scopes B₁ := (h 0 []).named hs

theorem writing_eq (h : Path N s B d s₁ B₁) : s₁.writing = s.writing := (h 0 []).writing_eq

theorem bodies_subset (h : Path N s B d s₁ B₁) : B ⊆ B₁ := (h 0 []).bodies_subset

end Path

/-- The task `t`, done by `m`, runs a course that leaves `d` more cells. -/
def Raises (ns : Bytes) (p : Program) (t : Task) {α : Type} (m : Gen α) (d : Nat) : Prop :=
  ∀ ⦃s a s' B⦄, Reached ns p t s → Named s.scopes B → m s = .ok a s' →
    ∃ B', Path (notes ns p) s B d s' B'

/-- Blocks run their course with any smaller number of levels. -/
def Deep (ns : Bytes) (p : Program) (n : Nat) : Prop :=
  ∀ m, n = m + 1 → ∀ b, Raises ns p (.block m b) (block (levels m) b) 0

variable {ns : Bytes} {p : Program} {N : Notes} {s s' : GenState} {B : List FileId} {n : Nat}

theorem resolve_ok {span : Span} {name : Name} {args : List Expr} {e : Entry FileId}
    (h : resolve span name args s = .ok e s') :
    s.scopes.resolve name (args.map s.scopes.argOf) span = .ok e ∧
      { s with scopes := s.scopes.updateEntry e.id fun e => { e with calls := e.calls + 1 } } = s' := by
  unfold resolve at h
  obtain ⟨_, _, hg, h⟩ := bind_ok.1 h
  obtain ⟨rfl, rfl⟩ := get_ok.1 hg
  obtain ⟨e', _, ho, h⟩ := bind_ok.1 h
  obtain ⟨hr, rfl⟩ := ofExcept_ok.1 ho
  obtain ⟨_, _, hm, h⟩ := bind_ok.1 h
  obtain rfl := modify_ok.1 hm
  obtain ⟨rfl, rfl⟩ := pure_ok.1 h
  exact ⟨hr, rfl⟩

theorem resolve_path {span : Span} {name : Name} {args : List Expr} {e : Entry FileId}
    (h : resolve span name args s = .ok e s') : Path N s B 0 s' B := by
  obtain ⟨_, rfl⟩ := resolve_ok h
  exact fun _ _ => .count _

/-- The files of a resolved function are known. -/
theorem resolve_named {span : Span} {name : Name} {args : List Expr} {e : Entry FileId}
    (h : resolve span name args s = .ok e s') (hs : Named s.scopes B) :
    (∀ g, e.file = some g → g ∈ B) ∧ ∀ kg ∈ e.specialized, kg.2 ∈ B :=
  hs e (ScopeStack.candidates_subset_entries _ _ (ScopeStack.resolve_mem (resolve_ok h).1))

theorem bindArguments_path {f : FileId} {fs : List FileId} {params : List Param} {vs : List Value}
    {u : Unit} (hw : s.writing = f :: fs) (h : bindArguments f params vs s = .ok u s') :
    Path N s B 0 s' B := by
  induction params generalizing s vs with
  | nil =>
    rw [bindArguments] at h
    obtain ⟨_, rfl⟩ := pure_ok.1 h
    exact .refl _ _
  | cons q params ih =>
    cases vs with
    | nil =>
      rw [bindArguments] at h
      exact (throw_ok.1 h).elim
    | cons v vs =>
      rw [bindArguments] at h
      obtain ⟨_, s₁, hd, hr⟩ := bind_ok.1 h
      obtain ⟨scopes, hok, rfl⟩ := onScopes_ok.1 hd
      have hp : Path N s B 0 { s with scopes } B := fun _ _ => .bind hw hok
      exact hp.andThen (ih hw hr)

theorem declareParams_path {f : FileId} {fs : List FileId} {statics : List (Name × Value)}
    {params : List Param} {u : Unit} (hw : s.writing = f :: fs)
    (h : declareParams f statics params s = .ok u s') : Path N s B 0 s' B := by
  induction params generalizing s with
  | nil =>
    rw [declareParams] at h
    obtain ⟨_, rfl⟩ := pure_ok.1 h
    exact .refl _ _
  | cons q params ih =>
    rw [declareParams] at h
    split at h
    · obtain ⟨_, s₁, hd, hr⟩ := bind_ok.1 h
      obtain ⟨scopes, hok, rfl⟩ := onScopes_ok.1 hd
      have hp : Path N s B 0 { s with scopes } B := fun _ _ => .declare hok
      exact hp.andThen (ih hw hr)
    · obtain ⟨_, s₁, hd, hr⟩ := bind_ok.1 h
      obtain ⟨scopes, hok, rfl⟩ := onScopes_ok.1 hd
      have hp : Path N s B 0 { s with scopes } B := fun _ _ => .bind hw hok
      exact hp.andThen (ih hw hr)

theorem expand_raises (hdeep : Deep ns p n) (span : Span) (e : Entry FileId) (arguments : List Value) :
    Raises ns p (.expand n span e arguments) (expand (levels n) span e arguments) 0 := by
  intro s a s' B hr hs h
  cases n with
  | zero =>
    rw [levels, expand] at h
    exact (throw_ok.1 h).elim
  | succ m =>
    rw [levels, expand] at h
    obtain ⟨f, _, hf, h⟩ := bind_ok.1 h
    obtain ⟨⟨fs, hw⟩, rfl⟩ := currentFile_ok.1 hf
    obtain ⟨s₀, hnested, rfl⟩ := nested_ok.1 h
    obtain ⟨s₁, hin, rfl⟩ := returningTo_ok.1 hnested
    obtain ⟨_, s₂, hi, hret⟩ := bind_ok.1 hin
    obtain ⟨_, _, hg, hpure⟩ := bind_ok.1 hret
    obtain ⟨rfl, rfl⟩ := get_ok.1 hg
    obtain ⟨_, rfl⟩ := pure_ok.1 hpure
    obtain ⟨f', fs', _, s₃, _, hw', rfl, hb, rfl, _, warnings, rfl⟩ := inScope_ok hi
    obtain ⟨rfl, rfl⟩ : f = f' ∧ fs = fs' := List.cons.inj (hw.symm.trans hw')
    obtain ⟨_, s₄, hargs, hblock⟩ := bind_ok.1 hb
    -- the parameters are bound inside the new scope, then the body follows
    have hbind : Path (notes ns p) (inExpansion s f e.signature.label) B 0 s₄ B :=
      bindArguments_path hw hargs
    have hnamed : Named (inExpansion s f e.signature.label).scopes B := hs.push _ _ _
    obtain ⟨B', hbody⟩ := hdeep m rfl _ (.insideExpansion hr hw hargs) (hbind.named hnamed) hblock
    refine ⟨B', fun k R => ?_⟩
    have hopen : Course (notes ns p) ⟨s, k, R, B⟩
        ⟨{ s.deepen with target := some (.expansion e.signature.label f none) }, k, R, B⟩ := .aside ⟨rfl, rfl, rfl, rfl⟩
    have hexp := Course.expansion (k := k) (R := R) hw' ((hbind.andThen hbody) 0 [])
    exact (hopen.trans hexp).trans (.aside ⟨rfl, rfl, rfl, rfl⟩)

/-- The body of a function is generated in its own file and scope. -/
theorem functionBody_course {g : FileId} {params : List Param} {statics : List (Name × Value)}
    {b : Block} {u : Unit} (hb : Raises ns p (.block n b) (block (levels n) b) 0)
    (hr : Reached ns p (.body n g params statics b) s) (hs : Named s.scopes B)
    (h : functionBody g params statics (block (levels n) b) s = .ok u s') :
    ∃ s₁ B', Course (notes ns p) ⟨inBody s g, 0, [], B⟩ ⟨s₁, 0, [], B'⟩ ∧
      s₁.closeScope.leave.Alike s' := by
  rw [functionBody] at h
  obtain ⟨s₁, hi, rfl⟩ := writingTo_ok.1 h
  obtain ⟨f, fs, _, s₂, _, hw, rfl, hbody, rfl, _, warnings, rfl⟩ := inScope_ok hi
  obtain ⟨rfl, rfl⟩ : g = f ∧ s.writing = fs := List.cons.inj hw
  obtain ⟨_, s₃, hd, hret⟩ := bind_ok.1 hbody
  obtain ⟨s₄, hblock, rfl⟩ := returningTo_ok.1 hret
  have hpar : Path (notes ns p) (inBody s g) B 0 s₃ B := declareParams_path hw hd
  have hin : Named (inBody s g).scopes B := hs.push _ _ _
  obtain ⟨B', hrest⟩ := hb (.insideBody hr hd) (hpar.named hin) hblock
  have haside : Path (notes ns p) s₃ B 0 { s₃ with target := some .storage } B := .aside ⟨rfl, rfl, rfl, rfl⟩
  exact ⟨s₄, B', ((hpar.andThen haside).andThen hrest) 0 [], ⟨rfl, rfl, rfl, rfl⟩⟩

theorem lookup_mem {key : Bytes} {g : FileId} {table : List (Bytes × FileId)}
    (h : table.lookup key = some g) : ∃ kg ∈ table, kg.2 = g := by
  induction table with
  | nil => cases h
  | cons x table ih =>
    rw [List.lookup_cons] at h
    split at h
    · exact ⟨x, List.mem_cons_self, Option.some.inj h⟩
    · obtain ⟨kg, hm, hg⟩ := ih h
      exact ⟨kg, List.mem_cons_of_mem _ hm, hg⟩

/-- The files that an entry has been given so far are known, if they were when it was found. -/
theorem current_named {e : Entry FileId} (hs : Named s.scopes B) (he : ∀ kg ∈ e.specialized, kg.2 ∈ B) :
    ∀ kg ∈ (s.scopes.current e).specialized, kg.2 ∈ B := by
  unfold ScopeStack.current
  cases hf : s.scopes.entries.find? fun e' => e'.id = e.id with
  | none => exact he
  | some e' => exact (hs e' (List.mem_of_find?_eq_some hf)).2

/-- Where no body is on record for a call, a new one is recorded and generated. -/
theorem specialize_missing_ok {span : Span} {e : Entry FileId} {statics : List (Name × Value)} {g : FileId}
    (hk : (s.scopes.current e).specialized.lookup
      (s.scopes.specializationKey e.function (statics.map Prod.snd)) = none)
    (h : specialize (levels n) span e statics s = .ok g s') :
    ∃ m s₁, n = m + 1 ∧ s.files.size = g ∧
      functionBody s.files.size e.signature.params statics (block (levels m) e.function.body)
        (recorded s e (s.scopes.specializationKey e.function (statics.map Prod.snd))) = .ok () s₁ ∧ s₁.rise = s' := by
  unfold specialize at h
  obtain ⟨_, _, hg, h⟩ := bind_ok.1 h
  obtain ⟨rfl, rfl⟩ := get_ok.1 hg
  simp only [hk] at h
  cases n with
  | zero => exact (throw_ok.1 h).elim
  | succ m =>
    obtain ⟨file, _, hnew, h⟩ := bind_ok.1 h
    obtain ⟨rfl, rfl⟩ := newFile_ok.1 hnew
    obtain ⟨_, _, hm, h⟩ := bind_ok.1 h
    obtain rfl := modify_ok.1 hm
    obtain ⟨_, s₁, hnested, h⟩ := bind_ok.1 h
    obtain ⟨rfl, rfl⟩ := pure_ok.1 h
    obtain ⟨s₀, hbody, rfl⟩ := nested_ok.1 hnested
    exact ⟨m, s₀, rfl, rfl, hbody, rfl⟩

theorem specialize_path (hdeep : Deep ns p n) {span : Span} {e : Entry FileId}
    {statics : List (Name × Value)} {g : FileId} (hr : Reached ns p (.specialize n span e statics) s)
    (hs : Named s.scopes B) (he : ∀ kg ∈ e.specialized, kg.2 ∈ B)
    (h : specialize (levels n) span e statics s = .ok g s') :
    ∃ B', Path (notes ns p) s B 0 s' B' ∧ g ∈ B' := by
  cases hk : (s.scopes.current e).specialized.lookup
      (s.scopes.specializationKey e.function (statics.map Prod.snd)) with
  | some file =>
    unfold specialize at h
    obtain ⟨_, _, hg, h⟩ := bind_ok.1 h
    obtain ⟨rfl, rfl⟩ := get_ok.1 hg
    simp only [hk] at h
    obtain ⟨rfl, rfl⟩ := pure_ok.1 h
    obtain ⟨kg, hm, rfl⟩ := lookup_mem hk
    exact ⟨B, .refl _ _, current_named hs he kg hm⟩
  | none =>
    obtain ⟨m, s₀, rfl, rfl, hbody, rfl⟩ := specialize_missing_ok hk h
    have hin : Named (recorded s e (s.scopes.specializationKey e.function (statics.map Prod.snd))).scopes
        (s.files.size :: B) := by
      refine Named.update (hs.mono (List.subset_cons_self _ _)) _ (fun _ _ => .inl) ?_
      intro e kg hk
      rcases List.mem_cons.1 hk with rfl | hk
      · exact .inr List.mem_cons_self
      · exact .inl hk
    obtain ⟨s₂, B', hc, ha⟩ :=
      functionBody_course (hdeep m rfl _) (.firstSpecialized hr hk) hin hbody
    have ha' : s₂.closeScope.leave.Alike s₀.rise := ⟨ha.files, ha.writing, ha.opened, ha.scopes⟩
    refine ⟨B', fun k R => .specialize hc ⟨m, span, statics, hr, rfl, hk, h⟩ ha', ?_⟩
    exact hc.bodies_subset List.mem_cons_self

end PackScript.Gen
