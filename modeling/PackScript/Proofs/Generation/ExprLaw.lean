import PackScript.Proofs.Generation.Law

/-! # Lawful calls and expressions

The function that a call goes to is in sight, so that its body is lawful, and so are the values
bound to its parameters. Folding an expression gives a lawful value. The bodies that calls lead
to are taken to be lawful here.
-/
namespace PackScript

variable {L : Law}

/-- The bodies one level deeper keep the law. -/
def Deeper.Lawful (L : Law) (deeper : Deeper) : Prop :=
  ∀ generate, deeper = some generate → ∀ b, L.part (.block b) → Gen.Lawful L (fun _ => True) (generate b)

/-- Bodies one level below depth `d` are generated the same, or not at all on either side. -/
def Deeper.Mirrors (L : Law) (d : Nat) : Deeper → Deeper → Prop
  | none, none => True
  | some generate, some generate' => ∀ f : Function, L.part f.node →
    Gen.Mirrors L (d + 1) (fun _ => True) (generate f.body) (generate' f.body)
  | _, _ => False

namespace Law

theorem body {f : Function} (h : L.part f.node) : L.part (.block f.body) :=
  L.child h List.mem_cons_self

theorem param {f : Function} (h : L.part f.node) {p : Param} (hp : p ∈ f.signature.params) (d : Nat) :
    L.place (.frame d p.name.text) := by
  apply L.frame h
  exact List.mem_cons_of_mem _ (List.mem_map_of_mem hp)

theorem value_add {a b c : Value} (ha : L.value a) (hb : L.value b) (h : a.add b = .ok c) : L.value c := by
  revert h
  fun_cases Value.add a b with
  | case1 =>
    intro h
    cases h
    exact L.int _
  | case2 =>
    intro h
    cases h
    exact L.joined ha hb
  | case3 =>
    intro h
    cases h

theorem value_multiply {a b c : Value} (h : a.multiply b = .ok c) : L.value c := by
  revert h
  fun_cases Value.multiply a b with
  | case1 =>
    intro h
    cases h
    exact L.int _
  | case2 =>
    intro h
    cases h

end Law

theorem Deeper.Lawful.mirrors {deeper : Deeper} (h : deeper.Lawful L) (d : Nat) :
    Deeper.Mirrors L d deeper deeper := by
  cases deeper with
  | none => trivial
  | some generate => exact fun f hf => (h generate rfl f.body (Law.body hf)).mirrors

namespace Gen

variable {d : Nat} {deeper deeper' : Deeper}

/-! ## Calls -/

theorem lawful_updateEntry (id : Nat) {g : Entry FileId → Entry FileId}
    (hg : ∀ e, (g e).function = e.function) :
    Lawful L (fun _ => True) (modify fun s => { s with scopes := s.scopes.updateEntry id g }) :=
  lawful_modify (fun _ => rfl) fun _ hs => hs.withScopes (ScopeStack.obeys_updateEntry _ hg hs.scopes)

theorem lawful_resolve (span : Span) (name : Name) (args : List Expr) :
    Lawful L (fun e => L.part e.function.node) (resolve span name args) := by
  refine Lawful.get fun t ht => ?_
  have hfound : Lawful L (fun e => L.part e.function.node)
      (ofExcept (t.scopes.resolve name (args.map t.scopes.argOf) span)) := by
    apply lawful_ofExcept
    intro e he
    exact ScopeStack.part_of_mem_entries ht.scopes
      (ScopeStack.candidates_subset_entries _ _ (ScopeStack.resolve_mem he))
  exact hfound.bind fun e he => (lawful_updateEntry e.id fun _ => by rfl).bind fun _ _ => lawful_pure he

theorem lawful_declareStatic (name : Name) {v : Value} (hv : L.value v) (file : FileId) :
    Lawful L (fun _ => True) (onScopes fun s => s.declareStatic name v file) :=
  lawful_onScopes fun _ _ => ScopeStack.obeys_declareStatic hv

theorem lawful_declareRuntime (name : Name) (ty : Typing) :
    Lawful L (fun _ => True) (onScopes fun s => s.declareRuntime name ty) :=
  lawful_onScopes fun _ _ => ScopeStack.obeys_declareRuntime

theorem lawful_bindArguments (file : FileId) (params : List Param) {vs : List Value}
    (hvs : ∀ v ∈ vs, L.value v) : Lawful L (fun _ => True) (bindArguments file params vs) := by
  induction params generalizing vs with
  | nil =>
    rw [bindArguments]
    exact lawful_pure trivial
  | cons p params ih =>
    cases vs with
    | nil => exact lawful_throw _
    | cons v vs =>
      rw [List.forall_mem_cons] at hvs
      rw [bindArguments]
      exact (lawful_declareStatic p.name hvs.1 file).bind fun _ _ => ih hvs.2

theorem mirrors_expand (h : Deeper.Mirrors L d deeper deeper') (span : Span) {e : Entry FileId}
    (he : L.part e.function.node) {vs : List Value} (hvs : ∀ v ∈ vs, L.value v) :
    Mirrors L d (fun r => ∀ v, r = some v → L.value v) (expand deeper span e vs) (expand deeper' span e vs) := by
  cases deeper with
  | none =>
    cases deeper' with
    | none => exact mirrors_throw _
    | some _ => exact h.elim
  | some generate =>
    cases deeper' with
    | none => exact h.elim
    | some generate' =>
      refine lawful_currentFile.mirrors.bind fun file _ => mirrors_nested (mirrors_returningTo rfl ?_)
      refine Mirrors.bind (Q := fun _ => True) (mirrors_inScope .expansion ?_) fun _ _ =>
        (Lawful.get fun t ht => ?_).mirrors
      · exact (lawful_bindArguments file _ hvs).mirrors.bind fun _ _ => h e.function he
      · refine lawful_pure fun v hv => ?_
        obtain ⟨target, htarget, hvalue⟩ := Option.bind_eq_some_iff.1 hv
        exact ht.returned target v htarget hvalue

theorem lawful_expand (hdeep : deeper.Lawful L) (span : Span) {e : Entry FileId} (he : L.part e.function.node)
    {vs : List Value} (hvs : ∀ v ∈ vs, L.value v) :
    Lawful L (fun r => ∀ v, r = some v → L.value v) (expand deeper span e vs) :=
  (mirrors_expand (hdeep.mirrors 0) span he hvs).lawful

theorem lawful_declareParams (file : FileId) {statics : List (Name × Value)} (hv : ∀ b ∈ statics, L.value b.2)
    (params : List Param) : Lawful L (fun _ => True) (declareParams file statics params) := by
  induction params with
  | nil => exact lawful_pure trivial
  | cons p params ih =>
    have hvalue : L.value ((statics.lookup p.name).getD (.untyped [])) := by
      cases hl : statics.lookup p.name with
      | none => exact L.unset
      | some v =>
        obtain ⟨front, back, rfl, -⟩ := List.lookup_eq_some_iff.1 hl
        exact hv (p.name, v) (List.mem_append_right _ List.mem_cons_self)
    rw [declareParams]
    split
    · exact (lawful_declareRuntime _ _).bind fun _ _ => ih
    · exact (lawful_declareStatic _ hvalue _).bind fun _ _ => ih

theorem mirrors_functionBody (file : FileId) (params : List Param) {statics : List (Name × Value)}
    (hv : ∀ b ∈ statics, L.value b.2) {body body' : Gen Unit} (h : Mirrors L d (fun _ => True) body body') :
    Mirrors L d (fun _ => True) (functionBody file params statics body)
      (functionBody file params statics body') := by
  refine mirrors_writingTo file (mirrors_inScope .function ?_)
  exact (lawful_declareParams file hv params).mirrors.bind fun _ _ => mirrors_returningTo rfl h

theorem lawful_functionBody (file : FileId) (params : List Param) {statics : List (Name × Value)}
    (hv : ∀ b ∈ statics, L.value b.2) {body : Gen Unit} (hb : Lawful L (fun _ => True) body) :
    Lawful L (fun _ => True) (functionBody file params statics body) :=
  (mirrors_functionBody (d := 0) file params hv hb.mirrors).lawful

theorem mirrors_specialize (h : Deeper.Mirrors L d deeper deeper') (span : Span) {e : Entry FileId}
    (he : L.part e.function.node) {statics : List (Name × Value)} (hv : ∀ b ∈ statics, L.value b.2) :
    Mirrors L d (fun _ => True) (specialize deeper span e statics) (specialize deeper' span e statics) := by
  refine Mirrors.get fun t _ => ?_
  dsimp only
  split
  · exact (lawful_pure trivial).mirrors
  · cases deeper with
    | none =>
      cases deeper' with
      | none => exact mirrors_throw _
      | some _ => exact h.elim
    | some generate =>
      cases deeper' with
      | none => exact h.elim
      | some generate' =>
        refine lawful_newFile.mirrors.bind fun file _ => ?_
        refine (lawful_updateEntry e.id fun _ => by rfl).mirrors.bind fun _ _ => ?_
        have hbody := mirrors_functionBody file e.signature.params hv (h e.function he)
        exact (mirrors_nested hbody).bind fun _ _ => (lawful_pure trivial).mirrors

theorem lawful_specialize (hdeep : deeper.Lawful L) (span : Span) {e : Entry FileId}
    (he : L.part e.function.node) {statics : List (Name × Value)} (hv : ∀ b ∈ statics, L.value b.2) :
    Lawful L (fun _ => True) (specialize deeper span e statics) :=
  (mirrors_specialize (hdeep.mirrors 0) span he hv).lawful

theorem lawful_fillFrame {params : List Param} (hp : ∀ p ∈ params, L.place (.frame 1 p.name.text)) :
    Lawful L (fun _ => True) (fillFrame params) := by
  induction params with
  | nil => exact lawful_pure trivial
  | cons p params ih =>
    rw [List.forall_mem_cons] at hp
    rw [fillFrame]
    split
    · refine (lawful_emit (L.storeTop hp.1)).bind fun _ _ => ?_
      exact (lawful_emit (L.fixed rfl)).bind fun _ _ => ih hp.2
    · exact ih hp.2

theorem mirrors_invoke (h : Deeper.Mirrors L d deeper deeper') (span : Span) (name : Name) (args : List Expr)
    {foldStatics foldStatics' : List Param → Gen (List (Name × Value))}
    {pushDynamics pushDynamics' : List Param → Gen Unit}
    (hfold : ∀ params, Mirrors L d (fun statics => ∀ b ∈ statics, L.value b.2) (foldStatics params)
      (foldStatics' params))
    (hpush : ∀ params, Mirrors L d (fun _ => True) (pushDynamics params) (pushDynamics' params))
    (isValue : Bool) :
    Mirrors L d (fun _ => True) (invoke deeper span name args foldStatics pushDynamics isValue)
      (invoke deeper' span name args foldStatics' pushDynamics' isValue) := by
  refine (lawful_resolve span name args).mirrors.bind fun e he => ?_
  have hfixed {c : Command} (hc : c.isFixed = true) : Mirrors L d (fun _ => True) (emit c) (emit c) :=
    (lawful_emit (L.fixed hc)).mirrors
  have hrun (file : FileId) : Mirrors L d (fun _ => True)
      (do
        pushDynamics e.signature.params
        emit .openFrame
        fillFrame e.signature.params
        emit (.call file)
        emit .closeFrame
        if isValue then emit (.pushFrom .result) else pure ())
      (do
        pushDynamics' e.signature.params
        emit .openFrame
        fillFrame e.signature.params
        emit (.call file)
        emit .closeFrame
        if isValue then emit (.pushFrom .result) else pure ()) := by
    refine (hpush _).bind fun _ _ => (hfixed rfl).bind fun _ _ => ?_
    refine (lawful_fillFrame fun p hp => Law.param he hp 1).mirrors.bind fun _ _ => ?_
    refine (hfixed rfl).bind fun _ _ => (hfixed rfl).bind fun _ _ => ?_
    split
    · exact (lawful_emit (L.pushFrom L.result)).mirrors
    · exact (lawful_pure trivial).mirrors
  dsimp only
  split
  · exact mirrors_throw _
  split
  · refine (hfold _).bind fun statics hv => ?_
    exact (mirrors_specialize h span he hv).bind fun file _ => hrun file
  · cases e.file with
    | none => exact mirrors_throw _
    | some file => exact hrun file

theorem lawful_invoke (hdeep : deeper.Lawful L) (span : Span) (name : Name) (args : List Expr)
    {foldStatics : List Param → Gen (List (Name × Value))} {pushDynamics : List Param → Gen Unit}
    (hfold : ∀ params, Lawful L (fun statics => ∀ b ∈ statics, L.value b.2) (foldStatics params))
    (hpush : ∀ params, Lawful L (fun _ => True) (pushDynamics params)) (isValue : Bool) :
    Lawful L (fun _ => True) (invoke deeper span name args foldStatics pushDynamics isValue) :=
  (mirrors_invoke (hdeep.mirrors 0) span name args (fun params => (hfold params).mirrors)
    (fun params => (hpush params).mirrors) isValue).lawful

/-! ## Expressions -/

theorem lawful_settle (span : Span) {r : Except Cause Value} (h : ∀ v, r = .ok v → L.value v) :
    Lawful L L.value (settle span r) := by
  cases r with
  | ok v => exact lawful_pure (h v rfl)
  | error cause => exact lawful_throw _

mutual
theorem lawful_fold (hdeep : deeper.Lawful L) (e : Expr) (h : L.part (.expr e)) :
    Lawful L L.value (fold deeper e) := by
  rw [fold.eq_def]
  split
  · exact lawful_throw _
  match e, h with
  | .number _ i, _ => exact lawful_pure (L.int i)
  | .string _ _, h => exact lawful_pure (L.string h)
  | .bool _ b, _ => exact lawful_pure (L.bool b)
  | .paren _ inner, h => exact lawful_fold hdeep inner (L.child h List.mem_cons_self)
  | .var span n, _ =>
    refine Lawful.get fun t ht => lawful_ofExcept fun v hv => ?_
    rw [ScopeStack.lookupStatic] at hv
    split at hv
    · rename_i b hb
      cases hv
      exact ScopeStack.value_of_findStatic? ht.scopes hb
    · cases hv
  | .sum span l r, h =>
    have hl : L.part (.expr l) := L.child h List.mem_cons_self
    have hr : L.part (.expr r) := L.child h (List.mem_cons_of_mem _ List.mem_cons_self)
    refine (lawful_fold hdeep l hl).bind fun a ha => (lawful_fold hdeep r hr).bind fun b hb => ?_
    exact lawful_settle span fun v hv => Law.value_add ha hb hv
  | .product span l r, h =>
    have hl : L.part (.expr l) := L.child h List.mem_cons_self
    have hr : L.part (.expr r) := L.child h (List.mem_cons_of_mem _ List.mem_cons_self)
    refine (lawful_fold hdeep l hl).bind fun a ha => (lawful_fold hdeep r hr).bind fun b hb => ?_
    exact lawful_settle span fun v hv => Law.value_multiply hv
  | .call span n args, h =>
    have hargs : ∀ a ∈ args, L.part (.expr a) := fun a ha => L.child h (List.mem_map_of_mem ha)
    refine (lawful_resolve span n args).bind fun f hf => (lawful_foldAll hdeep args hargs).bind fun vs hvs => ?_
    refine (lawful_expand hdeep span hf hvs).bind fun v hv => ?_
    cases v with
    | none => exact lawful_throw _
    | some v => exact lawful_pure (hv v rfl)
theorem lawful_foldAll (hdeep : deeper.Lawful L) (es : List Expr) (h : ∀ e ∈ es, L.part (.expr e)) :
    Lawful L (fun vs => ∀ v ∈ vs, L.value v) (foldAll deeper es) := by
  match es, h with
  | [], _ => exact lawful_pure fun v hv => (by cases hv)
  | e :: es, h =>
    rw [List.forall_mem_cons] at h
    rw [foldAll]
    refine (lawful_fold hdeep e h.1).bind fun v hv => (lawful_foldAll hdeep es h.2).bind fun vs hvs => ?_
    exact lawful_pure (List.forall_mem_cons.2 ⟨hv, hvs⟩)
end

theorem lawful_foldStatics (hdeep : deeper.Lawful L) {args : List Expr} (h : ∀ a ∈ args, L.part (.expr a))
    (params : List Param) :
    Lawful L (fun statics => ∀ b ∈ statics, L.value b.2) (foldStatics deeper args params) := by
  change Lawful L _ (foldStatics.go deeper args params)
  have hnone : ∀ b ∈ ([] : List (Name × Value)), L.value b.2 := fun b hb => (by cases hb)
  induction params generalizing args with
  | nil =>
    cases args with
    | nil => exact lawful_pure hnone
    | cons a args => exact lawful_pure hnone
  | cons p params ih =>
    cases args with
    | nil => exact lawful_throw _
    | cons a args =>
      rw [List.forall_mem_cons] at h
      rw [foldStatics.go]
      split
      · exact ih h.2
      · refine (lawful_fold hdeep a h.1).bind fun v hv => (ih h.2).bind fun vs hvs => ?_
        exact lawful_pure (List.forall_mem_cons.2 ⟨hv, hvs⟩)

theorem lawful_combine (op : Operation) : Lawful L (fun _ => True) (combine op) := by
  have hfixed {c : Command} (hc : c.isFixed = true) : Lawful L (fun _ => True) (emit c) :=
    lawful_emit (L.fixed hc)
  unfold combine
  refine (hfixed rfl).bind fun _ _ => (hfixed rfl).bind fun _ _ => (hfixed rfl).bind fun _ _ => ?_
  refine (hfixed rfl).bind fun _ _ => (hfixed rfl).bind fun _ _ => ?_
  exact (lawful_emit (L.pushValue (L.int 0))).bind fun _ _ => hfixed rfl

theorem lawful_refuseStrings (span : Span) (l r : Expr) : Lawful L (fun _ => True) (refuseStrings span l r) := by
  refine Lawful.get fun t _ => ?_
  dsimp only
  split
  · exact lawful_throw _
  · exact lawful_pure trivial

mutual
theorem lawful_push (hdeep : deeper.Lawful L) (e : Expr) (h : L.part (.expr e)) :
    Lawful L (fun _ => True) (push deeper e) := by
  rw [push.eq_def]
  split
  · exact (lawful_fold hdeep e h).bind fun v hv => lawful_emit (L.pushValue hv)
  match e, h with
  | .number _ _, _ => exact lawful_throw _
  | .string _ _, _ => exact lawful_throw _
  | .bool _ _, _ => exact lawful_throw _
  | .paren _ inner, h => exact lawful_push hdeep inner (L.child h List.mem_cons_self)
  | .var span n, h =>
    refine Lawful.get fun t _ => ?_
    have hplace : Lawful L (fun p => L.place p.1) (ofExcept (t.scopes.place n span)) :=
      lawful_ofExcept fun p hp => ScopeStack.place_lawful h List.mem_cons_self hp
    exact hplace.bind fun p hp => lawful_emit (L.pushFrom hp)
  | .sum span l r, h =>
    have hl : L.part (.expr l) := L.child h List.mem_cons_self
    have hr : L.part (.expr r) := L.child h (List.mem_cons_of_mem _ List.mem_cons_self)
    refine (lawful_refuseStrings span l r).bind fun _ _ => (lawful_push hdeep l hl).bind fun _ _ => ?_
    exact (lawful_push hdeep r hr).bind fun _ _ => lawful_combine .add
  | .product span l r, h =>
    have hl : L.part (.expr l) := L.child h List.mem_cons_self
    have hr : L.part (.expr r) := L.child h (List.mem_cons_of_mem _ List.mem_cons_self)
    refine (lawful_refuseStrings span l r).bind fun _ _ => (lawful_push hdeep l hl).bind fun _ _ => ?_
    exact (lawful_push hdeep r hr).bind fun _ _ => lawful_combine .multiply
  | .call span n args, h =>
    have hargs : ∀ a ∈ args, L.part (.expr a) := fun a ha => L.child h (List.mem_map_of_mem ha)
    exact lawful_invoke hdeep span n args (lawful_foldStatics hdeep hargs)
      (fun params => lawful_pushDynamics hdeep args hargs params) true
theorem lawful_pushDynamics (hdeep : deeper.Lawful L) (args : List Expr) (h : ∀ a ∈ args, L.part (.expr a))
    (params : List Param) : Lawful L (fun _ => True) (pushDynamics deeper args params) := by
  match args, h, params with
  | args, _, [] =>
    rw [pushDynamics.eq_def]
    cases args <;> exact lawful_pure trivial
  | [], _, _ :: _ => exact lawful_throw _
  | a :: args, h, p :: params =>
    rw [List.forall_mem_cons] at h
    rw [pushDynamics]
    refine (lawful_pushDynamics hdeep args h.2 params).bind fun _ _ => ?_
    split
    · exact lawful_push hdeep a h.1
    · exact lawful_pure trivial
end

end Gen
end PackScript
