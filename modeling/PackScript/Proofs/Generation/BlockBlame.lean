import PackScript.Proofs.Generation.ExprBlame

/-! # Blamed programs

A command is blamed for the value of a hole, an assignment for its variable, a return statement for
where it stands, and a declaration for another one like it. So whatever way a lawful program fails,
the error has the place of one of its parts.
-/
namespace PackScript.Gen

variable {L : Law} {deeper : Deeper} {span : Span} {node : Node}

/-! ## Single statements -/

theorem blames_commandText (hdeep : deeper.Blames L) {parts : List (Bytes × Expr)}
    (h : ∀ part ∈ parts, L.part (.expr part.2)) : Blames L (Filled L.value parts) (commandText deeper parts) := by
  induction parts with
  | nil => exact blames_pure .nil
  | cons part parts ih =>
    obtain ⟨literal, e⟩ := part
    rw [List.forall_mem_cons] at h
    rw [commandText]
    refine (blames_fold hdeep e h.1).bind fun v hv => Blames.ite (fun _ => ?_) fun hline => ?_
    · exact blames_throw (Law.blames_ofCause h.1 rfl _)
    · exact (ih h.2).bind fun rest hrest => blames_pure (.cons hv (Bool.eq_false_iff.2 hline) hrest)

theorem blames_checkTyping (target : Name) (declared : Typing) (value : Expr) (got : Typing) :
    Blames L (fun _ => True) (checkTyping target declared value got) := by
  refine (lawful_checkTyping target declared value got).blames ?_
  unfold checkTyping
  split
  · exact quiet_pure ()
  · exact quiet_modify _

theorem blames_onScopes {g : ScopeStack FileId → Except Failure (ScopeStack FileId)}
    (h : Lawful L (fun _ => True) (onScopes g)) (hf : ∀ scopes f, g scopes = .error f → L.Blames f) :
    Blames L (fun _ => True) (onScopes g) := by
  refine ⟨h, fun s f s' _ herror => ?_⟩
  unfold onScopes at herror
  rcases bind_error herror with herror | ⟨t, s₁, -, herror⟩
  · cases herror
  rcases bind_error herror with herror | ⟨scopes, s₂, -, herror⟩
  · cases hg : g t.scopes with
    | ok scopes =>
      rw [hg] at herror
      cases herror
    | error f' =>
      rw [hg] at herror
      cases herror
      exact hf _ _ hg
  · cases herror

theorem blames_reassignStatic (hnode : L.part node) (hspan : node.span? = some span) (target : Name) {v : Value}
    (hv : L.value v) (file : FileId) :
    Blames L (fun _ => True) (onScopes fun s => s.reassignStatic target v file span) := by
  refine blames_onScopes (lawful_onScopes fun _ _ => ScopeStack.obeys_reassignStatic hv) fun scopes f hf => ?_
  rw [ScopeStack.reassignStatic] at hf
  split at hf
  · cases hf
    exact Law.blames_ofCause hnode hspan _
  · split at hf
    · cases hf
      exact Law.blames_ofCause hnode hspan _
    · cases hf

theorem blames_assignStatic (hdeep : deeper.Blames L) {target : Name} {ty : Typing} {value : Expr} {declare : Bool}
    (h : L.part (.stmt (.assign span target ty value declare))) :
    Blames L (fun _ => True) (assignStatic deeper span target ty value declare) := by
  have hvalue : L.part (.expr value) := L.child h List.mem_cons_self
  refine (blames_fold hdeep value hvalue).bind fun v hv => (blames_checkTyping _ _ _ _).bind fun _ _ => ?_
  refine blames_currentFile.bind fun file _ => Blames.ite (fun _ => ?_) fun _ => ?_
  · exact (lawful_declareStatic target hv file).blames (quiet_declareStatic _ _ _)
  · exact blames_reassignStatic h rfl target hv file

theorem blames_assignedPlace (hnode : L.part node) (hspan : node.span? = some span) {target : Name} (ty : Typing)
    (declare : Bool) (hname : target ∈ node.ownNames) :
    Blames L L.place (assignedPlace span target ty declare) := by
  have hplace : Blames L L.place (assignedPlace span target ty false) :=
    Blames.get fun t _ => (blames_place hnode hspan hname).bind fun p hp => blames_pure hp
  cases declare with
  | false => exact hplace
  | true =>
    exact ((lawful_declareRuntime target ty).blames (quiet_declareRuntime _ _)).bind fun _ _ => hplace

theorem blames_assignRuntime (hdeep : deeper.Blames L) {target : Name} {ty : Typing} {value : Expr} {declare : Bool}
    (h : L.part (.stmt (.assign span target ty value declare))) :
    Blames L (fun _ => True) (assignRuntime deeper span target ty value declare) := by
  have hvalue : L.part (.expr value) := L.child h List.mem_cons_self
  have hplace := blames_assignedPlace h rfl ty declare List.mem_cons_self
  refine Blames.ite (fun _ => ?_) fun _ => ?_
  · refine (blames_fold hdeep value hvalue).bind fun v hv => (blames_checkTyping _ _ _ _).bind fun _ _ => ?_
    exact hplace.bind fun place hp => blames_emit (L.storeValue hp hv)
  · refine (blames_push hdeep value hvalue).bind fun _ _ => Blames.get fun t _ => ?_
    refine (blames_checkTyping _ _ _ _).bind fun _ _ => hplace.bind fun place hp => ?_
    exact (blames_emit (L.storeTop hp)).bind fun _ _ => blames_emit (L.fixed rfl)

theorem blames_deliver (hdeep : deeper.Blames L) {value : Expr} (h : L.part (.stmt (.ret span value))) :
    Blames L (fun _ => True) (deliver deeper span value) := by
  have hvalue : L.part (.expr value) := L.child h List.mem_cons_self
  refine Blames.get fun t _ => ?_
  cases t.target with
  | none => exact blames_throw (Law.blames_ofCause h rfl _)
  | some target =>
    cases target with
    | expansion label file old =>
      refine blames_currentFile.bind fun here _ => Blames.ite (fun _ => ?_) fun _ => ?_
      · exact blames_throw (Law.blames_ofCause h rfl _)
      · refine (blames_fold hdeep value hvalue).bind fun v hv => ?_
        refine (lawful_modify (fun _ => by rfl) fun s hs => hs.withTarget ?_).blames (quiet_modify _)
        rintro target w ⟨⟩ ⟨⟩
        exact hv
    | storage =>
      refine Blames.ite (fun _ => ?_) fun _ => ?_
      · exact (blames_fold hdeep value hvalue).bind fun v hv => blames_emit (L.storeValue L.result hv)
      · refine (blames_push hdeep value hvalue).bind fun _ _ => (blames_emit (L.storeTop L.result)).bind fun _ _ => ?_
        exact blames_emit (L.fixed rfl)

theorem blames_callStatement (hdeep : deeper.Blames L) {name : Name} {args : List Expr}
    (h : L.part (.stmt (.call span name args))) :
    Blames L (fun _ => True) (callStatement deeper span name args) := by
  have hargs : ∀ a ∈ args, L.part (.expr a) := fun a ha => L.child h (List.mem_map_of_mem ha)
  refine Blames.ite (fun _ => ?_) fun _ => ?_
  · refine (blames_resolve h rfl name args).bind fun f hf => (blames_foldAll hdeep args hargs).bind fun vs hvs => ?_
    exact (blames_expand hdeep h rfl hf hvs).bind fun _ _ => blames_pure trivial
  · exact blames_invoke hdeep h rfl name args (blames_foldStatics hdeep hargs)
      (blames_pushDynamics hdeep args hargs) false

/-! ## Branches and what is declared ahead -/

theorem blames_branch (b : Block) {body : Gen Unit} (h : Blames L (fun _ => True) body) :
    Blames L (fun _ => True) (branch b body) :=
  blames_inNewFile (Blames.ite (fun _ => blames_inScope .block h) fun _ => h)

theorem blames_conditional {test : Gen Unit} {body : Gen FileId} {other : Gen (Option FileId)}
    (htest : Blames L (fun _ => True) test) (hbody : Blames L (fun _ => True) body)
    (hother : Blames L (fun _ => True) other) : Blames L (fun _ => True) (conditional test body other) := by
  have hfixed {c : Command} (hc : c.isFixed = true) : Blames L (fun _ => True) (emit c) :=
    blames_emit (L.fixed hc)
  refine htest.bind fun _ _ => hbody.bind fun file _ => (hfixed rfl).bind fun _ _ => ?_
  refine (hfixed rfl).bind fun _ _ => hother.bind fun o _ => ?_
  cases o with
  | none => exact hfixed rfl
  | some file => exact (hfixed rfl).bind fun _ _ => (hfixed rfl).bind fun _ _ => hfixed rfl

theorem hoist_ne_diagnostic (scopes : ScopeStack FileId) (name : Name) (ty : Typing) (d : Diagnostic) :
    scopes.hoist name ty ≠ .error (.diagnostic d) := by
  intro h
  rw [ScopeStack.hoist, ScopeStack.top] at h
  cases hs : scopes.scopes with
  | nil =>
    rw [hs] at h
    cases h
  | cons t outer =>
    rw [hs] at h
    dsimp only [Bind.bind, Except.bind] at h
    split at h
    · cases h
    · split at h <;> cases h

theorem blames_register {scopes : ScopeStack FileId} {fn : Function} {f : Failure} (hfn : L.part fn.node)
    (h : scopes.register fn = .error f) : L.Blames f := by
  rw [ScopeStack.register, ScopeStack.top] at h
  cases hs : scopes.scopes with
  | nil =>
    rw [hs] at h
    cases h
    exact fun d hd => by cases hd
  | cons t outer =>
    rw [hs] at h
    dsimp only [Bind.bind, Except.bind] at h
    split at h
    · cases h
      exact Law.blames_ofCause hfn rfl _
    · cases h

theorem blames_declareAhead (root : Bool) {st : Stmt} (h : L.part (.stmt st)) :
    Blames L (fun _ => True) (declareAhead root st) := by
  cases st with
  | assign span target ty value declare =>
    cases declare with
    | false => exact blames_pure trivial
    | true =>
      rw [declareAhead]
      refine Blames.ite (fun _ => ?_) fun _ => blames_pure trivial
      refine Blames.bind (Q := fun _ => True) ?_ fun _ _ => blames_pure trivial
      refine (lawful_onScopes fun _ _ => ScopeStack.obeys_hoist).blames ?_
      exact quiet_onScopes fun scopes => hoist_ne_diagnostic scopes target ty
  | define span sig body =>
    refine Blames.get fun t ht => ?_
    have hnode : L.part (Function.node ⟨span, sig, body⟩) := h
    have hregister : Blames L (fun r => ∀ sc ∈ r.2.scopes, sc.Obeys L)
        (ofExcept (t.scopes.register ⟨span, sig, body⟩)) :=
      blames_ofExcept (fun r hr => ScopeStack.obeys_register hnode hr ht.scopes) fun f hf => blames_register hnode hf
    refine hregister.bind fun r hr => ?_
    have hdeclared : Blames L (fun _ => True) (modify fun s => { s with scopes := r.2 }) :=
      (lawful_modify (fun _ => by rfl) fun s hs => hs.withScopes hr).blames (quiet_modify _)
    refine hdeclared.bind fun _ _ => Blames.ite (fun _ => ?_) fun _ => blames_pure trivial
    refine (lawful_newFile.blames quiet_newFile).bind fun file _ => ?_
    exact (blames_updateEntry r.1 fun _ => by rfl).bind fun _ _ => blames_pure trivial
  | command _ _ _ => exact blames_pure trivial
  | cond _ _ _ _ => exact blames_pure trivial
  | call _ _ _ => exact blames_pure trivial
  | ret _ _ => exact blames_pure trivial

theorem blames_declareAheads (root : Bool) {b : Block} (h : ∀ st ∈ b, L.part (.stmt st)) :
    Blames L (fun _ => True) (b.mapM (declareAhead root)) := by
  induction b with
  | nil =>
    rw [List.mapM_nil]
    exact blames_pure trivial
  | cons st b ih =>
    rw [List.forall_mem_cons] at h
    rw [List.mapM_cons]
    exact (blames_declareAhead root h.1).bind fun o _ => (ih h.2).bind fun os _ => blames_pure trivial

theorem quiet_top (t : GenState) : Quiet (ofExcept t.scopes.top : Gen (Scope FileId)) := by
  apply quiet_ofExcept
  intro d h
  rw [ScopeStack.top] at h
  split at h <;> cases h

theorem blames_inOrder {b : Block} {bodies : List (Option FileId) → Gen Unit} {statements : Gen Unit}
    (h : ∀ st ∈ b, L.part (.stmt st)) (hbodies : ∀ files, Blames L (fun _ => True) (bodies files))
    (hstatements : Blames L (fun _ => True) statements) :
    Blames L (fun _ => True) (inOrder b bodies statements) := by
  refine Blames.get fun t _ => ?_
  have htop : Blames L (fun _ => True) (ofExcept t.scopes.top) :=
    (lawful_ofExcept fun _ _ => trivial).blames (quiet_top t)
  refine htop.bind fun top _ => (blames_declareAheads _ h).bind fun files _ => ?_
  exact (hbodies files).bind fun _ _ => hstatements

/-! ## Blocks -/

mutual
theorem blames_statement (hdeep : deeper.Blames L) (st : Stmt) (h : L.part (.stmt st)) :
    Blames L (fun _ => True) (statement deeper st) := by
  cases st with
  | command _ parts tail =>
    have hparts : ∀ part ∈ parts, L.part (.expr part.2) := fun part hp => L.child h (List.mem_map_of_mem hp)
    rw [statement]
    exact (blames_commandText hdeep hparts).bind fun text ht => blames_emit (L.verbatim h ht)
  | cond _ test body other =>
    have htest : L.part (.expr test) := L.child h List.mem_cons_self
    have hbody : L.part (.block body) := L.child h (by simp [Node.children])
    have hother : L.part (.otherwise other) := L.child h (by simp [Node.children])
    have hstmts := part_of_mem_block hbody
    rw [statement]
    refine blames_conditional (blames_push hdeep test htest) (blames_branch body ?_)
      (blames_otherwise hdeep other hother)
    exact blames_inOrder hstmts (blames_reservedBodies hdeep body hstmts) (blames_statements hdeep body hstmts)
  | assign span target ty value declare =>
    rw [statement]
    exact Blames.ite (fun _ => blames_assignStatic hdeep h) fun _ => blames_assignRuntime hdeep h
  | define _ _ _ =>
    rw [statement]
    exact blames_pure trivial
  | call span name args =>
    rw [statement]
    exact blames_callStatement hdeep h
  | ret span value =>
    rw [statement]
    exact blames_deliver hdeep h
theorem blames_otherwise (hdeep : deeper.Blames L) (other : Otherwise) (h : L.part (.otherwise other)) :
    Blames L (fun _ => True) (otherwise deeper other) := by
  cases other with
  | nothing =>
    rw [otherwise]
    exact blames_pure trivial
  | block body =>
    have hstmts := part_of_mem_block (L.child h List.mem_cons_self)
    rw [otherwise]
    refine (blames_branch body ?_).bind fun file _ => blames_pure trivial
    exact blames_inOrder hstmts (blames_reservedBodies hdeep body hstmts) (blames_statements hdeep body hstmts)
  | cond _ test body other =>
    have htest : L.part (.expr test) := L.child h List.mem_cons_self
    have hbody : L.part (.block body) := L.child h (by simp [Node.children])
    have hother : L.part (.otherwise other) := L.child h (by simp [Node.children])
    have hstmts := part_of_mem_block hbody
    rw [otherwise]
    refine (blames_inNewFile ?_).bind fun file _ => blames_pure trivial
    refine blames_conditional (blames_push hdeep test htest) (blames_branch body ?_)
      (blames_otherwise hdeep other hother)
    exact blames_inOrder hstmts (blames_reservedBodies hdeep body hstmts) (blames_statements hdeep body hstmts)
theorem blames_statements (hdeep : deeper.Blames L) (b : List Stmt) (h : ∀ st ∈ b, L.part (.stmt st)) :
    Blames L (fun _ => True) (statements deeper b) := by
  cases b with
  | nil =>
    rw [statements]
    exact blames_pure trivial
  | cons st b =>
    rw [List.forall_mem_cons] at h
    rw [statements]
    exact (blames_statement hdeep st h.1).bind fun _ _ => blames_statements hdeep b h.2
theorem blames_reservedBodies (hdeep : deeper.Blames L) (b : List Stmt) (h : ∀ st ∈ b, L.part (.stmt st))
    (files : List (Option FileId)) : Blames L (fun _ => True) (reservedBodies deeper b files) := by
  cases b with
  | nil =>
    rw [reservedBodies.eq_def]
    exact blames_pure trivial
  | cons st b =>
    cases files with
    | nil =>
      rw [reservedBodies.eq_def]
      cases st <;> exact blames_pure trivial
    | cons o files =>
      rw [List.forall_mem_cons] at h
      have hlater : Blames L (fun _ => True) (reservedBodies deeper b files) :=
        blames_reservedBodies hdeep b h.2 files
      rw [reservedBodies.eq_def]
      cases st with
      | define span sig body =>
        cases o with
        | none => exact hlater
        | some file =>
          have hstmts := part_of_mem_block (L.child h.1 List.mem_cons_self)
          refine (blames_functionBody file _ (fun b hb => (by cases hb)) ?_).bind fun _ _ => hlater
          exact blames_inOrder hstmts (blames_reservedBodies hdeep body hstmts)
            (blames_statements hdeep body hstmts)
      | command _ _ _ => exact hlater
      | cond _ _ _ _ => exact hlater
      | assign _ _ _ _ _ => exact hlater
      | call _ _ _ => exact hlater
      | ret _ _ => exact hlater
end

theorem blames_block (hdeep : deeper.Blames L) (b : Block) (h : L.part (.block b)) :
    Blames L (fun _ => True) (block deeper b) := by
  have hstmts := part_of_mem_block h
  exact blames_inOrder hstmts (blames_reservedBodies hdeep b hstmts) (blames_statements hdeep b hstmts)

theorem blames_levels (L : Law) (n : Nat) : (levels n).Blames L := by
  induction n with
  | zero =>
    rintro generate ⟨⟩
  | succ n ih =>
    rintro generate ⟨⟩ b hb
    exact blames_block ih b hb

end PackScript.Gen
