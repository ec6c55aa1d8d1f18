import PackScript.Proofs.Generation.Orderly

/-! # Orderly calls and expressions

Overload resolution gives no dynamic argument to a static parameter and no call another number
of arguments than parameters, so what it is asked for is there. The bodies that calls lead to
are taken to be orderly here.
-/
namespace PackScript

/-- Arguments that a call may go with: as many as parameters, static where those are. -/
def Accepts (params : List Param) (args : List Expr) : Prop :=
  List.Forall₂ (fun p a => p.name.isStatic = true → a.isStatic = true) params args

namespace ScopeStack

variable {φ : Type} {s : ScopeStack φ}

theorem accepts_of_fit {params : List Param} {args : List Expr} {fit : Fit}
    (h : Fit.ofArgs? params (args.map s.argOf) = some fit) : Accepts params args := by
  induction params generalizing args fit with
  | nil =>
    cases args with
    | nil => exact .nil
    | cons a args => cases h
  | cons p params ih =>
    cases args with
    | nil => cases h
    | cons a args =>
      rw [List.map_cons, Fit.ofArgs?] at h
      split at h
      · cases h
      · rename_i hstatic
        obtain ⟨fit', hfit', -⟩ := Option.map_eq_some_iff.1 h
        refine .cons (fun hp => ?_) (ih hfit')
        rw [hp] at hstatic
        simpa [argOf] using hstatic

theorem accepts_of_resolve {name : Name} {args : List Expr} {span : Span} {e : Entry φ}
    (h : s.resolve name (args.map s.argOf) span = .ok e) : Accepts e.signature.params args := by
  obtain ⟨fit, hb⟩ := bestFit?_of_resolve h
  exact accepts_of_fit (bestFit?_some hb).2

theorem name_of_mem_candidates {name : Name} {e : Entry φ} (h : e ∈ s.candidates name) :
    e.signature.name = name := by
  obtain ⟨sc, -, hmem⟩ := List.mem_flatMap.1 h
  simpa using (List.mem_filter.1 hmem).2

end ScopeStack

/-- A block can be generated in a state: to an expansion only static statements deliver, and
a dynamic variable is declared only where a frame can hold it. -/
structure Block.Suits (b : Block) (s : GenState) : Prop where
  static : s.Expanding → Block.isStatic b = true
  framed : s.Framed ∨ Block.isStatic b = true ∨ Block.requiresScope b = false

/-- The bodies one level deeper are orderly. -/
def Deeper.Safe (deeper : Deeper) : Prop :=
  ∀ generate, deeper = some generate → ∀ (b : Block) (s : GenState), Block.Proper b → s.Ready →
    Block.Suits b s → Gen.Orderly s (fun _ => True) (generate b s)

namespace Gen

variable {α β : Type} {s : GenState} {Q : α → Prop} {R : β → Prop} {deeper : Deeper} {span : Span}

/-- Orderly from every state that is ready. -/
def Safe (Q : α → Prop) (m : Gen α) : Prop := ∀ ⦃s⦄, s.Ready → Orderly s Q (m s)

theorem Safe.bind {m : Gen α} {k : α → Gen β} (hm : Safe Q m) (hk : ∀ a, Q a → Safe R (k a)) :
    Safe R (m >>= k) :=
  fun _ hs => orderly_bind (hm hs) fun a _ hkept ha => hk a ha (hs.kept hkept)

/-- What does not depend on the state it is told. -/
theorem Safe.get {k : GenState → Gen β} (h : ∀ t, Safe R (k t)) : Safe R (get >>= k) :=
  fun s hs => orderly_get (h s hs)

theorem safe_pure {a : α} (ha : Q a) : Safe Q (pure a) := fun _ _ => orderly_pure ha

theorem safe_throw (span : Span) (cause : Cause) : Safe Q (throw (.ofCause span cause)) :=
  fun _ _ => orderly_throw span cause

theorem safe_ofExcept {r : Except Failure α} (hr : Faultless r) : Safe (fun _ => True) (ofExcept r) :=
  fun _ _ => orderly_ofExcept hr fun _ _ => trivial

theorem safe_emit (c : Command) : Safe (fun _ => True) (emit c) := fun _ hs => orderly_emit hs c

/-! ## Calls -/

theorem safe_resolve (span : Span) (name : Name) (args : List Expr) :
    Safe (fun e => e.Sound ∧ e.signature.name = name ∧ Accepts e.signature.params args)
      (resolve span name args) := by
  intro s hs
  unfold resolve
  refine orderly_get ?_
  cases hr : s.scopes.resolve name (args.map s.scopes.argOf) span with
  | error f =>
    have hf : ∃ d, f = .diagnostic d := by
      unfold ScopeStack.resolve at hr
      split at hr
      · cases hr
      · split at hr <;> cases hr <;> exact ⟨_, rfl⟩
    obtain ⟨d, rfl⟩ := hf
    exact .refl s
  | ok e =>
    have hmem := ScopeStack.resolve_mem hr
    have he := hs.entries e (ScopeStack.candidates_subset_entries _ _ hmem)
    have hcount : s.Kept
        { s with scopes := s.scopes.updateEntry e.id fun e => { e with calls := e.calls + 1 } } :=
      .of_scopes (ScopeStack.keeps_updateEntry _ _ _)
        fun h => h.updateEntry fun e' he' => ⟨he'.body, he'.static, he'.placed⟩
    exact ⟨hcount, he, ScopeStack.name_of_mem_candidates hmem, ScopeStack.accepts_of_resolve hr⟩

theorem safe_declareStatic (name : Name) (v : Value) (file : FileId) :
    Safe (fun _ => True) (onScopes fun s => s.declareStatic name v file) := by
  intro s hs
  refine orderly_onScopes ?_ fun scopes hr =>
    ⟨ScopeStack.keeps_declareStatic hr, ScopeStack.entries_declareStatic hr⟩
  intro d hd
  obtain ⟨t, outer, ht⟩ := List.exists_cons_of_ne_nil hs.scopes
  rw [ScopeStack.declareStatic, ScopeStack.top_ok.2 ⟨outer, ht⟩] at hd
  cases hd

theorem orderly_declareRuntime (hf : s.Framed) (name : Name) (ty : Typing) :
    Orderly s (fun _ => True) (onScopes (fun s => s.declareRuntime name ty) s) := by
  refine orderly_onScopes ?_ fun scopes hr =>
    ⟨ScopeStack.keeps_declareRuntime hr, ScopeStack.entries_declareRuntime hr⟩
  intro d hd
  obtain ⟨t, outer, ht, hframe⟩ := hf
  rw [ScopeStack.declareRuntime, ScopeStack.top_ok.2 ⟨outer, ht⟩] at hd
  simp only [bind, Except.bind, hframe, Bool.not_true, Bool.false_eq_true, if_false] at hd
  cases hd

theorem safe_bindArguments (file : FileId) {params : List Param} {vs : List Value}
    (h : params.length = vs.length) : Safe (fun _ => True) (bindArguments file params vs) := by
  induction params generalizing vs with
  | nil => exact safe_pure trivial
  | cons p params ih =>
    cases vs with
    | nil => cases h
    | cons v vs =>
      exact (safe_declareStatic p.name v file).bind fun _ _ => ih (Nat.succ.inj h)

theorem safe_expand (hdeep : deeper.Safe) (span : Span) {e : Entry FileId} (he : e.Sound)
    (hstatic : e.signature.name.isStatic = true) {arguments : List Value}
    (hlength : e.signature.params.length = arguments.length) :
    Safe (fun _ => True) (expand deeper span e arguments) := by
  cases deeper with
  | none => exact safe_throw span _
  | some generate =>
    have hbody := he.static hstatic
    intro s hs
    refine orderly_bind (orderly_currentFile hs) fun file s₁ hk _ => orderly_nested (orderly_returningTo ?_)
    have hready := (hs.kept hk).deepen.returning (some (.expansion e.signature.label file none))
    refine orderly_bind (Q := fun _ => True)
      (orderly_inScope hready.writing hready.entries fun f s₂ _ hs₂ => ?_) fun _ s₃ _ _ =>
      orderly_get (orderly_pure trivial)
    refine orderly_bind (safe_bindArguments file hlength hs₂) fun _ s₃ hk₃ _ => ?_
    exact hdeep generate rfl _ s₃ he.body (hs₂.kept hk₃) ⟨fun _ => hbody, .inr (.inl hbody)⟩

theorem orderly_declareParams (file : FileId) (statics : List (Name × Value)) (params : List Param)
    (hs : s.Ready) (hf : s.Framed) : Orderly s (fun _ => True) (declareParams file statics params s) := by
  induction params generalizing s with
  | nil => exact orderly_pure trivial
  | cons p params ih =>
    rw [declareParams]
    split
    · refine orderly_bind (orderly_declareRuntime hf p.name p.typing) fun _ s₁ hk _ => ?_
      exact ih (hs.kept hk) (hk.framed hf)
    · refine orderly_bind (safe_declareStatic p.name _ file hs) fun _ s₁ hk _ => ?_
      exact ih (hs.kept hk) (hk.framed hf)

/-- The body of a function has a frame, and its values go to storage. -/
theorem orderly_functionBody {file : FileId} {params : List Param} {statics : List (Name × Value)}
    {body : Gen Unit} (hs : s.Ready)
    (hb : ∀ s₁, s₁.Ready → s₁.Framed → ¬s₁.Expanding → Orderly s₁ (fun _ => True) (body s₁)) :
    Orderly s (fun _ => True) (functionBody file params statics body s) := by
  refine orderly_writingTo (orderly_inScope (List.cons_ne_nil _ _) hs.entries fun f s₁ hk hs₁ => ?_)
  have hf₁ : s₁.Framed := hk.framed ⟨_, _, rfl, rfl⟩
  refine orderly_bind (orderly_declareParams file statics params hs₁ hf₁) fun _ s₂ hk₂ _ => ?_
  have hs₂ := (hs₁.kept hk₂).returning (some .storage)
  refine orderly_returningTo (hb _ hs₂ (hk₂.framed hf₁) ?_)
  rintro ⟨label, file', value, ⟨⟩⟩

theorem safe_specialize (hdeep : deeper.Safe) (span : Span) {e : Entry FileId} (he : e.Sound)
    (statics : List (Name × Value)) : Safe (fun _ => True) (specialize deeper span e statics) := by
  refine Safe.get fun t => ?_
  dsimp only
  split
  · exact safe_pure trivial
  · cases deeper with
    | none => exact safe_throw span _
    | some generate =>
      intro s hs
      refine orderly_bind orderly_newFile fun file s₁ hk _ => ?_
      have hs₁ := hs.kept hk
      refine orderly_bind (orderly_modify ?_) fun _ s₂ hk₂ _ => ?_
      · exact .of_scopes (ScopeStack.keeps_updateEntry _ _ _)
          fun h => h.updateEntry fun e' he' => ⟨he'.body, he'.static, he'.placed⟩
      refine orderly_bind (orderly_nested (orderly_functionBody (hs₁.kept hk₂).deepen ?_))
        fun _ s₃ _ _ => orderly_pure trivial
      intro s₃ hs₃ hf₃ hx₃
      exact hdeep generate rfl _ s₃ he.body hs₃ ⟨fun hx => absurd hx hx₃, .inl hf₃⟩

theorem safe_fillFrame (params : List Param) : Safe (fun _ => True) (fillFrame params) := by
  induction params with
  | nil => exact safe_pure trivial
  | cons p params ih =>
    rw [fillFrame]
    split
    · exact (safe_emit _).bind fun _ _ => (safe_emit _).bind fun _ _ => ih
    · exact ih

theorem safe_invoke (hdeep : deeper.Safe) (span : Span) {name : Name} (hn : name.isStatic = false)
    {args : List Expr} {foldStatics : List Param → Gen (List (Name × Value))}
    {pushDynamics : List Param → Gen Unit}
    (hfold : ∀ params, Accepts params args → Safe (fun _ => True) (foldStatics params))
    (hpush : ∀ params, Accepts params args → Safe (fun _ => True) (pushDynamics params)) (isValue : Bool) :
    Safe (fun _ => True) (invoke deeper span name args foldStatics pushDynamics isValue) := by
  refine (safe_resolve span name args).bind fun e hresolved => ?_
  obtain ⟨he, rfl, haccepts⟩ := hresolved
  have hrun (file : FileId) : Safe (fun _ => True) (do
      pushDynamics e.signature.params
      emit .openFrame
      fillFrame e.signature.params
      emit (.call file)
      emit .closeFrame
      if isValue then emit (.pushFrom .result) else pure ()) := by
    refine (hpush _ haccepts).bind fun _ _ => (safe_emit _).bind fun _ _ => ?_
    refine (safe_fillFrame _).bind fun _ _ => (safe_emit _).bind fun _ _ => (safe_emit _).bind fun _ _ => ?_
    split
    · exact safe_emit _
    · exact safe_pure trivial
  dsimp only
  split
  · exact safe_throw span _
  split
  · refine (hfold _ haccepts).bind fun statics _ => ?_
    exact (safe_specialize hdeep span he statics).bind fun file _ => hrun file
  · rename_i hstatics
    have hplaced := he.placed hn (Nat.eq_zero_of_not_pos hstatics)
    cases hfile : e.file with
    | none =>
      rw [hfile] at hplaced
      cases hplaced
    | some file => exact hrun file

/-! ## Expressions -/

theorem safe_settle (span : Span) (r : Except Cause Value) : Safe (fun _ => True) (settle span r) := by
  cases r with
  | ok v => exact safe_pure trivial
  | error cause => exact safe_throw span cause

theorem safe_lookupStatic (span : Span) (n : Name) : Safe (fun _ => True) (do
    ofExcept ((← get).scopes.lookupStatic n span)) := by
  refine Safe.get fun t => safe_ofExcept fun d hd => ?_
  unfold ScopeStack.lookupStatic at hd
  split at hd <;> cases hd

theorem faultless_place (scopes : ScopeStack FileId) (n : Name) (span : Span) :
    Faultless (scopes.place n span) := by
  intro d hd
  unfold ScopeStack.place at hd
  split at hd <;> cases hd

mutual
theorem safe_fold (hdeep : deeper.Safe) : (e : Expr) → {k : Nat} → e.Proper k → e.isStatic = true →
    Safe (fun _ => True) (fold deeper e)
  | .number _ _, _, _, _ => by
    rw [fold.eq_def]
    exact safe_pure trivial
  | .string _ _, _, _, _ => by
    rw [fold.eq_def]
    exact safe_pure trivial
  | .bool _ _, _, _, _ => by
    rw [fold.eq_def]
    exact safe_pure trivial
  | .paren _ inner, _, h, hs => by
    rw [fold.eq_def, if_neg (by rw [hs]; decide)]
    exact safe_fold hdeep inner h hs
  | .var span n, _, _, hs => by
    rw [fold.eq_def, if_neg (by rw [hs]; decide)]
    exact safe_lookupStatic span n
  | .sum span l r, _, h, hs => by
    have hlr := Bool.and_eq_true_iff.1 hs
    rw [fold.eq_def, if_neg (by rw [hs]; decide)]
    refine (safe_fold hdeep l h.2.1 hlr.1).bind fun a _ => ?_
    exact (safe_fold hdeep r h.2.2 hlr.2).bind fun b _ => safe_settle span _
  | .product span l r, _, h, hs => by
    have hlr := Bool.and_eq_true_iff.1 hs
    rw [fold.eq_def, if_neg (by rw [hs]; decide)]
    refine (safe_fold hdeep l h.2.1 hlr.1).bind fun a _ => ?_
    exact (safe_fold hdeep r h.2.2 hlr.2).bind fun b _ => safe_settle span _
  | .call span n args, _, h, hs => by
    have hargs := safe_foldAll hdeep args h.2.1 (List.all_eq_true.1 (h.2.2 hs))
    rw [fold.eq_def, if_neg (by rw [hs]; decide)]
    refine (safe_resolve span n args).bind fun e hresolved => ?_
    obtain ⟨he, hname, haccepts⟩ := hresolved
    refine hargs.bind fun vs hvs => ?_
    have hlength := haccepts.length_eq.trans hvs.symm
    refine (safe_expand hdeep span he (by rw [hname]; exact hs) hlength).bind fun v _ => ?_
    cases v with
    | none => exact safe_throw span _
    | some v => exact safe_pure trivial
theorem safe_foldAll (hdeep : deeper.Safe) : (es : List Expr) → Expr.ProperAll es →
    (∀ e ∈ es, e.isStatic = true) → Safe (fun vs => vs.length = es.length) (foldAll deeper es)
  | [], _, _ => safe_pure rfl
  | e :: es, h, hs => by
    have hes := safe_foldAll hdeep es h.2 fun e' he' => hs e' (List.mem_cons_of_mem e he')
    rw [foldAll]
    refine (safe_fold hdeep e h.1 (hs e List.mem_cons_self)).bind fun v _ => ?_
    exact hes.bind fun vs hvs => safe_pure (congrArg Nat.succ hvs)
end

theorem safe_foldStatics (hdeep : deeper.Safe) {args : List Expr} (h : Expr.ProperAll args)
    {params : List Param} (haccepts : Accepts params args) :
    Safe (fun _ => True) (foldStatics deeper args params) := by
  change Safe _ (foldStatics.go deeper args params)
  induction haccepts with
  | nil => exact safe_pure trivial
  | @cons p a params args hp _ ih =>
    rw [foldStatics.go]
    split
    · exact ih h.2
    · rename_i hstatic
      have ha := hp (by simpa [Name.isStatic] using hstatic)
      refine (safe_fold hdeep a h.1 ha).bind fun v _ => ?_
      exact (ih h.2).bind fun vs _ => safe_pure trivial

theorem safe_combine (op : Operation) : Safe (fun _ => True) (combine op) := by
  unfold combine
  refine (safe_emit _).bind fun _ _ => (safe_emit _).bind fun _ _ => (safe_emit _).bind fun _ _ => ?_
  exact (safe_emit _).bind fun _ _ => (safe_emit _).bind fun _ _ => (safe_emit _).bind fun _ _ => safe_emit _

theorem safe_refuseStrings (span : Span) (l r : Expr) : Safe (fun _ => True) (refuseStrings span l r) := by
  refine Safe.get fun t => ?_
  dsimp only
  split
  · exact safe_throw span _
  · exact safe_pure trivial

theorem safe_push_static (hdeep : deeper.Safe) {e : Expr} {k : Nat} (h : e.Proper k)
    (hs : e.isStatic = true) : Safe (fun _ => True) (push deeper e) := by
  rw [push.eq_def, if_pos hs]
  exact (safe_fold hdeep e h hs).bind fun v _ => safe_emit _

mutual
theorem safe_push (hdeep : deeper.Safe) : (e : Expr) → {k : Nat} → e.Proper k →
    Safe (fun _ => True) (push deeper e)
  | .number span i, _, h => safe_push_static hdeep h rfl
  | .string span t, _, h => safe_push_static hdeep h rfl
  | .bool span b, _, h => safe_push_static hdeep h rfl
  | .paren span inner, _, h => by
    by_cases hs : (Expr.paren span inner).isStatic = true
    · exact safe_push_static hdeep h hs
    · rw [push.eq_def, if_neg hs]
      exact safe_push hdeep inner h
  | .var span n, _, h => by
    by_cases hs : (Expr.var span n).isStatic = true
    · exact safe_push_static hdeep h hs
    · rw [push.eq_def, if_neg hs]
      exact .get fun t => (safe_ofExcept (faultless_place t.scopes n span)).bind fun p _ => safe_emit _
  | .sum span l r, _, h => by
    by_cases hs : (Expr.sum span l r).isStatic = true
    · exact safe_push_static hdeep h hs
    · rw [push.eq_def, if_neg hs]
      refine (safe_refuseStrings span l r).bind fun _ _ => (safe_push hdeep l h.2.1).bind fun _ _ => ?_
      exact (safe_push hdeep r h.2.2).bind fun _ _ => safe_combine .add
  | .product span l r, _, h => by
    by_cases hs : (Expr.product span l r).isStatic = true
    · exact safe_push_static hdeep h hs
    · rw [push.eq_def, if_neg hs]
      refine (safe_refuseStrings span l r).bind fun _ _ => (safe_push hdeep l h.2.1).bind fun _ _ => ?_
      exact (safe_push hdeep r h.2.2).bind fun _ _ => safe_combine .multiply
  | .call span n args, _, h => by
    by_cases hs : (Expr.call span n args).isStatic = true
    · exact safe_push_static hdeep h hs
    · rw [push.eq_def, if_neg hs]
      exact safe_invoke hdeep span (Bool.eq_false_iff.2 hs) (fun _ => safe_foldStatics hdeep h.2.1)
        (fun params => safe_pushDynamics hdeep args params h.2.1) true
theorem safe_pushDynamics (hdeep : deeper.Safe) : (args : List Expr) → (params : List Param) →
    Expr.ProperAll args → Accepts params args → Safe (fun _ => True) (pushDynamics deeper args params)
  | [], [], _, _ => by
    rw [pushDynamics]
    exact safe_pure trivial
  | a :: args, p :: params, h, haccepts => by
    cases haccepts with
    | cons hp hrest =>
      rw [pushDynamics]
      refine (safe_pushDynamics hdeep args params h.2 hrest).bind fun _ _ => ?_
      split
      · exact safe_push hdeep a h.1
      · exact safe_pure trivial
end

end Gen
end PackScript
