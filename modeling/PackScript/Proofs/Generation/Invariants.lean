import PackScript.Proofs.Generation.CurrentFile

/-! # Invariants of a run

What holds at the start of a run, along every course, and whenever a file or a scope is opened,
holds wherever the run gets to. A body that is about to be generated has a file but is not open
yet; what holds at such a moment may say something of that file.
-/
namespace PackScript.Gen

/-- `I` holds along a run, given the files that are reserved and not yet filled, and `J` when a body
is about to be generated, given its file. -/
structure Invariant (ns : Bytes) (p : Program) (I : List FileId → GenState → Prop)
    (J : FileId → GenState → Prop) : Prop where
  start : ∀ {scopes}, atRoot.scopes.declareStatic (.ofStatic "namespace") (.string ns) 0 = .ok scopes →
    I [] { atRoot with scopes }
  course : ∀ {a b}, Course (notes ns p) a b → a.Exists → I a.pending a.state → I b.pending b.state
  drop : ∀ {g R s}, I (g :: R) s → I R s
  arm : ∀ {s} (opens : Bool), I [] s → I [] (inArm s opens)
  expansion : ∀ {s} (f : FileId) (label : Bytes), I [] s → I [] (inExpansion s f label)
  reserved : ∀ {g R s}, I (g :: R) s → J g s
  recorded : ∀ {n span e statics s}, Reached ns p (.specialize (n + 1) span e statics) s →
    (s.scopes.current e).specialized.lookup (s.scopes.specializationKey e.function (statics.map Prod.snd)) = none →
    I [] s → J s.files.size (recorded s e (s.scopes.specializationKey e.function (statics.map Prod.snd)))
  body : ∀ {g s}, J g s → I [] (inBody s g)

/-- What an invariant says of the state in which a run comes to a task. -/
def Task.Keeps (I : List FileId → GenState → Prop) (J : FileId → GenState → Prop) : Task → GenState → Prop
  | .body _ g _ _ _, s => J g s
  | .bodies _ _ files, s => I (files.filterMap id) s
  | _, s => I [] s

namespace Invariant

variable {ns : Bytes} {p : Program} {I : List FileId → GenState → Prop} {J : FileId → GenState → Prop}
  {n d : Nat} {s s₁ : GenState} {t : Task}

theorem path {B B' : List FileId} (h : Invariant ns p I J) (hr : Reached ns p t s)
    (hpath : Path (notes ns p) s B d s₁ B') (hs : I [] s) : I [] s₁ :=
  h.course (hpath 0 []) ⟨hr.regular.1.files, by simp⟩ hs

theorem raises {α : Type} {m : Gen α} {a : α} (h : Invariant ns p I J) (hm : Raises ns p t m d)
    (hr : Reached ns p t s) (hok : m s = .ok a s₁) (hs : I [] s) : I [] s₁ := by
  obtain ⟨B, hB⟩ := exists_named s.scopes
  obtain ⟨B', hpath⟩ := hm hr hB hok
  exact h.path hr hpath hs

/-- Wherever a run gets to, an invariant holds. -/
theorem reached (h : Invariant ns p I J) (hr : Reached ns p t s) : t.Keeps I J s := by
  have hfold {n : Nat} (e : Expr) := fold_raises (deep ns p n) e
  have hpush {n : Nat} (e : Expr) := push_raises (deep ns p n) e
  have hfoldAll {n : Nat} (es : List Expr) := foldAll_raises (deep ns p n) es
  -- a call is resolved first; `m` is the stretch that follows
  have hresolved {t t' : Task} {s s₁ s₂ : GenState} {e : Entry FileId} {α : Type} {m : Gen α} {a : α}
      {span : Span} {name : Name} {args : List Expr} (hr : Reached ns p t s)
      (hres : resolve span name args s = .ok e s₁) (hm : Raises ns p t' m 0) (hr' : Reached ns p t' s₁)
      (hok : m s₁ = .ok a s₂) (hs : I [] s) : I [] s₂ := by
    obtain ⟨B, hB⟩ := exists_named s.scopes
    have hcount : Path (notes ns p) s B 0 s₁ B := resolve_path hres
    obtain ⟨B', hpath⟩ := hm hr' (hcount.named hB) hok
    exact h.path hr (hcount.andThen hpath) hs
  induction hr with
  | program hns => exact h.start hns
  | @bodies n b s top files s₁ hr htop hd ih =>
    obtain ⟨⟨B', hres⟩, -⟩ := declareAheads_reserve (N := notes ns p) (B := []) hd
    exact h.course (hres 0 []) ⟨hr.regular.1.files, by simp⟩ ih
  | @statements n b s top files s₁ s₂ hr htop hd hb ih =>
    obtain ⟨B, hB⟩ := exists_named s.scopes
    obtain ⟨⟨B₁, h₁⟩, hres⟩ := declareAheads_reserve (N := notes ns p) (B := B) hd
    obtain ⟨B₂, h₂⟩ := reservedBodies_fill (deep ns p n) b (.bodies hr htop hd) hres ((h₁ 0 []).named hB) hb
    exact h.course ((h₁ 0 []).trans (h₂ 0 [])) ⟨hr.regular.1.files, by simp⟩ ih
  | nextBody hr ih => exact h.reserved ih
  | @laterBodies n span sig b rest g files s s₁ hr hb ih =>
    obtain ⟨B, hB⟩ := exists_named s.scopes
    obtain ⟨s₂, B₁, hc, ha⟩ := functionBody_course (deep ns p (n + 1) n rfl b) (.nextBody hr) hB hb
    have hfill : Course (notes ns p) ⟨s, 0, [] ++ g :: files.filterMap id, B⟩ ⟨s₁, 0, files.filterMap id, B₁⟩ :=
      (Course.fill hc).trans (.aside ha)
    refine h.course hfill ⟨hr.regular.1.files, fun f hf => ?_⟩ ih
    refine (hr.regular.2 f ?_).reserved
    obtain ⟨o, ho, rfl⟩ := List.mem_filterMap.1 (show f ∈ (some g :: files).filterMap id from hf)
    exact ho
  | @skipBody n d rest o files s hr hd ih =>
    cases o with
    | none => exact ih
    | some g => exact h.drop ih
  | @insideBody n g params statics b s s₁ hr hp ih =>
    have hpar : Path (notes ns p) (inBody s g) [] 0 s₁ [] := declareParams_path rfl hp
    have hstorage : Path (notes ns p) s₁ [] 0 { s₁ with target := some .storage } [] := .aside ⟨rfl, rfl, rfl, rfl⟩
    have hfiles : ∀ f ∈ (inBody s g).writing, f < (inBody s g).files.size := by
      intro f hf
      rcases List.mem_cons.1 hf with rfl | hf
      · exact hr.regular.2.reserved
      · exact hr.regular.1.files f hf
    exact h.course ((hpar.andThen hstorage) 0 []) ⟨hfiles, by simp⟩ (h.body ih)
  | laterStatements hr hd ih => exact h.raises (statement_raises (deep ns p _) _) (.firstStatement hr) hd ih
  | laterHoles hr he hv ih => exact h.raises (hfold _) (.hole hr) he ih
  | branch hr ht ih => exact h.raises (hpush _) (.test hr) ht ih
  | @otherwise n test b other s s₁ g s₂ s₃ s₄ hr ht hb hl hrun ih =>
    have hs₁ := h.raises (hpush test) (.test hr) ht ih
    have hr₁ := Reached.branch hr ht
    obtain ⟨B, hB⟩ := exists_named s₁.scopes
    obtain ⟨B', harm⟩ := branch_arm (deep ns p (n + 1) n rfl b) hr₁ hB hb
    have hcourse : Course (notes ns p) ⟨s₁, 0 + 1, [], B⟩ ⟨s₄, 0 + 1, [], B'⟩ :=
      harm.run hr₁.regular.1.writing hl (.inl rfl) hrun
    exact h.course hcourse ⟨hr₁.regular.1.files, by simp⟩ hs₁
  | insideBranch hr ih => exact h.arm _ ih
  | otherCond hr ih => exact h.arm _ ih
  | @targetOfStatic n span target ty value declare s v s₁ s₂ s₃ hr ht hv hf hc hd ih =>
    obtain ⟨B, hB⟩ := exists_named s.scopes
    obtain ⟨B', hpath⟩ := hfold value (.staticValue hr ht hv) hB hf
    exact h.path hr ((hpath.andThen (checkTyping_path hc)).andThen (declareTarget_path hd)) ih
  | @targetOfDynamic n span target ty value declare s s₁ s₂ s₃ hr ht hv hf hc hd ih =>
    obtain ⟨B, hB⟩ := exists_named s.scopes
    obtain ⟨B', hpath⟩ := hpush value (.dynamicValue hr ht hv) hB hf
    exact h.path hr (hpath.trans ((checkTyping_path hc).andThen (declareTarget_path hd))) ih
  | staticCall hr hn hres ih => exact h.path (B := []) hr (resolve_path hres) ih
  | expandCall hr hn hres hf ih => exact hresolved hr hres (hfoldAll _) (.staticCall hr hn hres) hf ih
  | foldSumRight hr hs hl ih => exact h.raises (hfold _) (.foldSumLeft hr hs) hl ih
  | foldProductRight hr hs hl ih => exact h.raises (hfold _) (.foldProductLeft hr hs) hl ih
  | foldArguments hr hs hres ih => exact h.path (B := []) hr (resolve_path hres) ih
  | foldCall hr hs hres hf ih => exact hresolved hr hres (hfoldAll _) (.foldArguments hr hs hres) hf ih
  | foldLater hr he ih => exact h.raises (hfold _) (.foldFirst hr) he ih
  | laterStatics hr hq ha ih => exact h.raises (hfold _) (.foldStatic hr hq) ha ih
  | pushSumLeft hr hs hno ih =>
    obtain rfl := refuseStrings_state hno
    exact ih
  | pushSumRight hr hs hno hl ih =>
    obtain rfl := refuseStrings_state hno
    exact h.raises (hpush _) (.pushSumLeft hr hs hno) hl ih
  | pushProductLeft hr hs hno ih =>
    obtain rfl := refuseStrings_state hno
    exact ih
  | pushProductRight hr hs hno hl ih =>
    obtain rfl := refuseStrings_state hno
    exact h.raises (hpush _) (.pushProductLeft hr hs hno) hl ih
  | pushFirst hr hl hq ih => exact h.raises (pushDynamics_raises (deep ns p _) _ _) (.pushLater hr) hl ih
  | invokeStatics hr hres hv hs ih => exact h.path (B := []) hr (resolve_path hres) ih
  | invokeSpecialized hr hres hv hs hf ih =>
    exact hresolved hr hres (foldStatics_go_raises (deep ns p _) _ _) (.invokeStatics hr hres hv hs) hf ih
  | @specializedArguments n span name args isValue s e s₁ statics s₂ g s₃ hr hres hv hs hf hg ih =>
    obtain ⟨B, hB⟩ := exists_named s.scopes
    have hcount : Path (notes ns p) s B 0 s₁ B := resolve_path hres
    obtain ⟨B₁, h₁⟩ := foldStatics_go_raises (deep ns p n) args e.signature.params
      (.invokeStatics hr hres hv hs) (hcount.named hB) hf
    have h₂ := hcount.andThen h₁
    obtain ⟨B₂, h₃, -⟩ := specialize_path (deep ns p n) (.invokeSpecialized hr hres hv hs hf) (h₂.named hB)
      (fun kg hk => h₁.bodies_subset ((resolve_named hres hB).2 kg hk)) hg
    exact h.path hr (h₂.andThen h₃) ih
  | placedArguments hr hres hv hs hg ih => exact h.path (B := []) hr (resolve_path hres) ih
  | @insideExpansion n span e arguments s f fs s₁ hr hf hb ih =>
    have hbind : Path (notes ns p) (inExpansion s f e.signature.label) [] 0 s₁ [] := bindArguments_path hf hb
    exact h.course (hbind 0 []) ⟨hr.regular.1.files, by simp⟩ (h.expansion f _ ih)
  | firstSpecialized hr hk ih => exact h.recorded hr hk ih
  | _ => assumption

end Invariant
end PackScript.Gen
