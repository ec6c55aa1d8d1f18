import PackScript.Proofs.Generation.Blame

/-! # Blamed calls and expressions

A call is blamed if no function fits it, if it nests too deep and if the function it goes to gives no
value. A variable is blamed where it is used, and an operation for its operands.
-/
namespace PackScript

variable {L : Law}

/-- The bodies one level deeper are blamed for parts of the program. -/
def Deeper.Blames (L : Law) (deeper : Deeper) : Prop :=
  ∀ generate, deeper = some generate → ∀ b, L.part (.block b) → Gen.Blames L (fun _ => True) (generate b)

namespace Gen

variable {deeper : Deeper} {span : Span} {node : Node}

/-! ## Calls -/

theorem blames_updateEntry (id : Nat) {g : Entry FileId → Entry FileId}
    (hg : ∀ e, (g e).function = e.function) :
    Blames L (fun _ => True) (modify fun s => { s with scopes := s.scopes.updateEntry id g }) :=
  (lawful_updateEntry id hg).blames (quiet_modify _)

theorem blames_resolve (hnode : L.part node) (hspan : node.span? = some span) (name : Name) (args : List Expr) :
    Blames L (fun e => L.part e.function.node) (resolve span name args) := by
  refine Blames.get fun t ht => ?_
  have hfound : Blames L (fun e => L.part e.function.node)
      (ofExcept (t.scopes.resolve name (args.map t.scopes.argOf) span)) := by
    refine blames_ofExcept (fun e he => ?_) fun f hf => ScopeStack.blames_resolve hnode hspan hf
    exact ScopeStack.part_of_mem_entries ht.scopes
      (ScopeStack.candidates_subset_entries _ _ (ScopeStack.resolve_mem he))
  exact hfound.bind fun e he => (blames_updateEntry e.id fun _ => by rfl).bind fun _ _ => blames_pure he

theorem quiet_declareStatic (name : Name) (v : Value) (file : FileId) :
    Quiet (onScopes fun s => s.declareStatic name v file) :=
  quiet_onScopes fun scopes => ScopeStack.declareStatic_ne_diagnostic scopes name v file

theorem quiet_declareRuntime (name : Name) (ty : Typing) : Quiet (onScopes fun s => s.declareRuntime name ty) :=
  quiet_onScopes fun scopes => ScopeStack.declareRuntime_ne_diagnostic scopes name ty

theorem quiet_bindArguments (file : FileId) (params : List Param) (vs : List Value) :
    Quiet (bindArguments file params vs) := by
  induction params generalizing vs with
  | nil =>
    rw [bindArguments]
    exact quiet_pure ()
  | cons p params ih =>
    cases vs with
    | nil => exact quiet_defect _
    | cons v vs =>
      rw [bindArguments]
      exact (quiet_declareStatic _ _ _).bind fun _ => ih vs

theorem blames_expand (hdeep : deeper.Blames L) (hnode : L.part node) (hspan : node.span? = some span)
    {e : Entry FileId} (he : L.part e.function.node) {vs : List Value} (hvs : ∀ v ∈ vs, L.value v) :
    Blames L (fun r => ∀ v, r = some v → L.value v) (expand deeper span e vs) := by
  cases deeper with
  | none => exact blames_throw (Law.blames_ofCause hnode hspan _)
  | some generate =>
    refine blames_currentFile.bind fun file _ => blames_nested (blames_returningTo rfl ?_)
    refine Blames.bind (Q := fun _ => True) (blames_inScope .expansion ?_) fun _ _ => Blames.get fun t ht => ?_
    · refine ((lawful_bindArguments file _ hvs).blames (quiet_bindArguments _ _ _)).bind fun _ _ => ?_
      exact hdeep generate rfl e.function.body (Law.body he)
    · refine blames_pure fun v hv => ?_
      obtain ⟨target, htarget, hvalue⟩ := Option.bind_eq_some_iff.1 hv
      exact ht.returned target v htarget hvalue

theorem quiet_declareParams (file : FileId) (statics : List (Name × Value)) (params : List Param) :
    Quiet (declareParams file statics params) := by
  induction params with
  | nil => exact quiet_pure ()
  | cons p params ih =>
    rw [declareParams]
    split
    · exact (quiet_declareRuntime _ _).bind fun _ => ih
    · exact (quiet_declareStatic _ _ _).bind fun _ => ih

theorem blames_functionBody (file : FileId) (params : List Param) {statics : List (Name × Value)}
    (hv : ∀ b ∈ statics, L.value b.2) {body : Gen Unit} (h : Blames L (fun _ => True) body) :
    Blames L (fun _ => True) (functionBody file params statics body) := by
  refine blames_writingTo file (blames_inScope .function ?_)
  refine ((lawful_declareParams file hv params).blames (quiet_declareParams _ _ _)).bind fun _ _ => ?_
  exact blames_returningTo rfl h

theorem blames_specialize (hdeep : deeper.Blames L) (hnode : L.part node) (hspan : node.span? = some span)
    {e : Entry FileId} (he : L.part e.function.node) {statics : List (Name × Value)}
    (hv : ∀ b ∈ statics, L.value b.2) : Blames L (fun _ => True) (specialize deeper span e statics) := by
  refine Blames.get fun t _ => ?_
  dsimp only
  split
  · exact blames_pure trivial
  · cases deeper with
    | none => exact blames_throw (Law.blames_ofCause hnode hspan _)
    | some generate =>
      refine (lawful_newFile.blames quiet_newFile).bind fun file _ => ?_
      refine (blames_updateEntry e.id fun _ => by rfl).bind fun _ _ => ?_
      have hbody := blames_functionBody file e.signature.params hv
        (hdeep generate rfl e.function.body (Law.body he))
      exact (blames_nested hbody).bind fun _ _ => blames_pure trivial

theorem quiet_fillFrame (params : List Param) : Quiet (fillFrame params) := by
  induction params with
  | nil => exact quiet_pure ()
  | cons p params ih =>
    rw [fillFrame]
    split
    · exact (quiet_emit _).bind fun _ => (quiet_emit _).bind fun _ => ih
    · exact ih

theorem blames_invoke (hdeep : deeper.Blames L) (hnode : L.part node) (hspan : node.span? = some span)
    (name : Name) (args : List Expr) {foldStatics : List Param → Gen (List (Name × Value))}
    {pushDynamics : List Param → Gen Unit}
    (hfold : ∀ params, Blames L (fun statics => ∀ b ∈ statics, L.value b.2) (foldStatics params))
    (hpush : ∀ params, Blames L (fun _ => True) (pushDynamics params)) (isValue : Bool) :
    Blames L (fun _ => True) (invoke deeper span name args foldStatics pushDynamics isValue) := by
  refine (blames_resolve hnode hspan name args).bind fun e he => ?_
  have hfixed {c : Command} (hc : c.isFixed = true) : Blames L (fun _ => True) (emit c) :=
    blames_emit (L.fixed hc)
  have hrun (file : FileId) : Blames L (fun _ => True)
      (do
        pushDynamics e.signature.params
        emit .openFrame
        fillFrame e.signature.params
        emit (.call file)
        emit .closeFrame
        if isValue then emit (.pushFrom .result) else pure ()) := by
    refine (hpush _).bind fun _ _ => (hfixed rfl).bind fun _ _ => ?_
    refine ((lawful_fillFrame fun p hp => Law.param he hp 1).blames (quiet_fillFrame _)).bind fun _ _ => ?_
    refine (hfixed rfl).bind fun _ _ => (hfixed rfl).bind fun _ _ => Blames.ite (fun _ => ?_) fun _ => ?_
    · exact blames_emit (L.pushFrom L.result)
    · exact blames_pure trivial
  dsimp only
  refine Blames.ite (fun _ => blames_throw (Law.blames_ofCause hnode hspan _)) fun _ => ?_
  split
  · refine (hfold _).bind fun statics hv => ?_
    exact (blames_specialize hdeep hnode hspan he hv).bind fun file _ => hrun file
  · cases e.file with
    | none => exact blames_defect _
    | some file => exact hrun file

/-! ## Expressions -/

theorem blames_settle (hnode : L.part node) (hspan : node.span? = some span) {r : Except Cause Value}
    (h : ∀ v, r = .ok v → L.value v) : Blames L L.value (settle span r) := by
  cases r with
  | ok v => exact blames_pure (h v rfl)
  | error cause => exact blames_throw (Law.blames_ofCause hnode hspan _)

mutual
theorem blames_fold (hdeep : deeper.Blames L) (e : Expr) (h : L.part (.expr e)) :
    Blames L L.value (fold deeper e) := by
  rw [fold.eq_def]
  refine Blames.ite (fun _ => blames_defect _) fun _ => ?_
  cases e with
  | number _ i => exact blames_pure (L.int i)
  | string _ _ => exact blames_pure (L.string h)
  | bool _ b => exact blames_pure (L.bool b)
  | paren _ inner => exact blames_fold hdeep inner (L.child h List.mem_cons_self)
  | var span n =>
    refine Blames.get fun t ht => blames_ofExcept (fun v hv => ?_) fun f hf => ?_
    · rw [ScopeStack.lookupStatic] at hv
      split at hv
      · rename_i b hb
        cases hv
        exact ScopeStack.value_of_findStatic? ht.scopes hb
      · cases hv
    · rw [ScopeStack.lookupStatic] at hf
      split at hf
      · cases hf
      · cases hf
        exact Law.blames_ofCause h rfl _
  | sum span l r =>
    have hl : L.part (.expr l) := L.child h List.mem_cons_self
    have hr : L.part (.expr r) := L.child h (List.mem_cons_of_mem _ List.mem_cons_self)
    refine (blames_fold hdeep l hl).bind fun a ha => (blames_fold hdeep r hr).bind fun b hb => ?_
    exact blames_settle h rfl fun v hv => Law.value_add ha hb hv
  | product span l r =>
    have hl : L.part (.expr l) := L.child h List.mem_cons_self
    have hr : L.part (.expr r) := L.child h (List.mem_cons_of_mem _ List.mem_cons_self)
    refine (blames_fold hdeep l hl).bind fun a ha => (blames_fold hdeep r hr).bind fun b hb => ?_
    exact blames_settle h rfl fun v hv => Law.value_multiply hv
  | call span n args =>
    have hargs : ∀ a ∈ args, L.part (.expr a) := fun a ha => L.child h (List.mem_map_of_mem ha)
    refine (blames_resolve h rfl n args).bind fun f hf => (blames_foldAll hdeep args hargs).bind fun vs hvs => ?_
    refine (blames_expand hdeep h rfl hf hvs).bind fun v hv => ?_
    cases v with
    | none => exact blames_throw (Law.blames_ofCause h rfl _)
    | some v => exact blames_pure (hv v rfl)
theorem blames_foldAll (hdeep : deeper.Blames L) (es : List Expr) (h : ∀ e ∈ es, L.part (.expr e)) :
    Blames L (fun vs => ∀ v ∈ vs, L.value v) (foldAll deeper es) := by
  cases es with
  | nil => exact blames_pure fun v hv => (by cases hv)
  | cons e es =>
    rw [List.forall_mem_cons] at h
    rw [foldAll]
    refine (blames_fold hdeep e h.1).bind fun v hv => (blames_foldAll hdeep es h.2).bind fun vs hvs => ?_
    exact blames_pure (List.forall_mem_cons.2 ⟨hv, hvs⟩)
end

theorem blames_foldStatics (hdeep : deeper.Blames L) {args : List Expr} (h : ∀ a ∈ args, L.part (.expr a))
    (params : List Param) :
    Blames L (fun statics => ∀ b ∈ statics, L.value b.2) (foldStatics deeper args params) := by
  change Blames L _ (foldStatics.go deeper args params)
  have hnone : ∀ b ∈ ([] : List (Name × Value)), L.value b.2 := fun b hb => (by cases hb)
  induction params generalizing args with
  | nil =>
    cases args with
    | nil => exact blames_pure hnone
    | cons a args => exact blames_pure hnone
  | cons p params ih =>
    cases args with
    | nil => exact blames_defect _
    | cons a args =>
      rw [List.forall_mem_cons] at h
      rw [foldStatics.go]
      refine Blames.ite (fun _ => ih h.2) fun _ => ?_
      refine (blames_fold hdeep a h.1).bind fun v hv => (ih h.2).bind fun vs hvs => ?_
      exact blames_pure (List.forall_mem_cons.2 ⟨hv, hvs⟩)

theorem quiet_combine (op : Operation) : Quiet (combine op) := by
  unfold combine
  refine (quiet_emit _).bind fun _ => (quiet_emit _).bind fun _ => (quiet_emit _).bind fun _ => ?_
  refine (quiet_emit _).bind fun _ => (quiet_emit _).bind fun _ => ?_
  exact (quiet_emit _).bind fun _ => quiet_emit _

theorem blames_refuseStrings (hnode : L.part node) (hspan : node.span? = some span) (l r : Expr) :
    Blames L (fun _ => True) (refuseStrings span l r) :=
  Blames.get fun _ _ => Blames.ite (fun _ => blames_throw (Law.blames_ofCause hnode hspan _))
    fun _ => blames_pure trivial

theorem blames_place {name : Name} {t : GenState} (hnode : L.part node) (hspan : node.span? = some span)
    (hname : name ∈ node.ownNames) : Blames L (fun p => L.place p.1) (ofExcept (t.scopes.place name span)) := by
  refine blames_ofExcept (fun p hp => ScopeStack.place_lawful hnode hname hp) fun f hf => ?_
  rw [ScopeStack.place] at hf
  split at hf
  · cases hf
  · cases hf
    exact Law.blames_ofCause hnode hspan _
  · cases hf
    exact Law.blames_ofCause hnode hspan _

mutual
theorem blames_push (hdeep : deeper.Blames L) (e : Expr) (h : L.part (.expr e)) :
    Blames L (fun _ => True) (push deeper e) := by
  rw [push.eq_def]
  refine Blames.ite (fun _ => ?_) fun _ => ?_
  · exact (blames_fold hdeep e h).bind fun v hv => blames_emit (L.pushValue hv)
  cases e with
  | number _ _ => exact blames_defect _
  | string _ _ => exact blames_defect _
  | bool _ _ => exact blames_defect _
  | paren _ inner => exact blames_push hdeep inner (L.child h List.mem_cons_self)
  | var span n =>
    refine Blames.get fun t _ => ?_
    exact (blames_place h rfl List.mem_cons_self).bind fun p hp => blames_emit (L.pushFrom hp)
  | sum span l r =>
    have hl : L.part (.expr l) := L.child h List.mem_cons_self
    have hr : L.part (.expr r) := L.child h (List.mem_cons_of_mem _ List.mem_cons_self)
    refine (blames_refuseStrings h rfl l r).bind fun _ _ => (blames_push hdeep l hl).bind fun _ _ => ?_
    exact (blames_push hdeep r hr).bind fun _ _ => (lawful_combine .add).blames (quiet_combine _)
  | product span l r =>
    have hl : L.part (.expr l) := L.child h List.mem_cons_self
    have hr : L.part (.expr r) := L.child h (List.mem_cons_of_mem _ List.mem_cons_self)
    refine (blames_refuseStrings h rfl l r).bind fun _ _ => (blames_push hdeep l hl).bind fun _ _ => ?_
    exact (blames_push hdeep r hr).bind fun _ _ => (lawful_combine .multiply).blames (quiet_combine _)
  | call span n args =>
    have hargs : ∀ a ∈ args, L.part (.expr a) := fun a ha => L.child h (List.mem_map_of_mem ha)
    exact blames_invoke hdeep h rfl n args (blames_foldStatics hdeep hargs)
      (fun params => blames_pushDynamics hdeep args hargs params) true
theorem blames_pushDynamics (hdeep : deeper.Blames L) (args : List Expr) (h : ∀ a ∈ args, L.part (.expr a))
    (params : List Param) : Blames L (fun _ => True) (pushDynamics deeper args params) := by
  cases params with
  | nil =>
    rw [pushDynamics.eq_def]
    cases args <;> exact blames_pure trivial
  | cons p params =>
    cases args with
    | nil => exact blames_defect _
    | cons a args =>
      rw [List.forall_mem_cons] at h
      rw [pushDynamics]
      refine (blames_pushDynamics hdeep args h.2 params).bind fun _ _ => Blames.ite (fun _ => ?_) fun _ => ?_
      · exact blames_push hdeep a h.1
      · exact blames_pure trivial
end

end Gen
end PackScript
