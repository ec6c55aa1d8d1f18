import PackScript.Proofs.Generation.Procedures

/-! # How calls descend

A procedure at work on a piece of program calls procedures only for pieces inside it, at the same
depth, or for the body of a function in sight, one level deeper. So a step is right if the calls
inside the piece and the calls one level deeper are answered right.
-/
namespace PackScript

/-- A part of one of the children. -/
def Node.Inside (whole part : Node) : Prop := ∃ c ∈ whole.children, HasPart c part

theorem Node.inside_child {whole c : Node} (hc : c ∈ whole.children) : whole.Inside c := ⟨c, hc, .refl⟩

/-- Every call that is made for a piece of program at depth `d` is answered the way generation
proper answers it. -/
structure Procedures.Answers (P : Procedures) (L : Law) (node : Node) (d : Nat) (deeper : Deeper) : Prop where
  fold {e : Expr} (h : node.Inside (.expr e)) : Gen.Mirrors L d L.value (Gen.fold deeper e) (P.fold e)
  push {e : Expr} (h : node.Inside (.expr e)) : Gen.Mirrors L d (fun _ => True) (Gen.push deeper e) (P.push e)
  statement {st : Stmt} (h : node.Inside (.stmt st)) :
    Gen.Mirrors L d (fun _ => True) (Gen.statement deeper st) (P.statement st)
  otherwise {o : Otherwise} (h : node.Inside (.otherwise o)) :
    Gen.Mirrors L d (fun _ => True) (Gen.otherwise deeper o) (P.otherwise o)
  block {b : Block} (h : node.Inside (.block b)) :
    Gen.Mirrors L d (fun _ => True) (Gen.block deeper b) (P.block b)
  below : Deeper.Mirrors L d deeper (P.deeper d)

namespace Gen

variable {L : Law} {d : Nat} {deeper : Deeper} {P : Procedures} {node : Node}

/-! ## Loops -/

theorem mirrors_foldAll {args : List Expr}
    (h : ∀ a ∈ args, Mirrors L d L.value (fold deeper a) (P.fold a)) :
    Mirrors L d (fun vs => ∀ v ∈ vs, L.value v) (foldAll deeper args) (args.mapM P.fold) := by
  induction args with
  | nil =>
    rw [foldAll, List.mapM_nil]
    exact (lawful_pure fun v hv => (by cases hv)).mirrors
  | cons a args ih =>
    rw [List.forall_mem_cons] at h
    rw [foldAll, List.mapM_cons]
    refine h.1.bind fun v hv => (ih h.2).bind fun vs hvs => ?_
    exact (lawful_pure (List.forall_mem_cons.2 ⟨hv, hvs⟩)).mirrors

theorem mirrors_foldStatics {args : List Expr}
    (h : ∀ a ∈ args, Mirrors L d L.value (fold deeper a) (P.fold a)) (params : List Param) :
    Mirrors L d (fun statics => ∀ b ∈ statics, L.value b.2) (foldStatics deeper args params)
      (P.foldStatics args params) := by
  change Mirrors L d _ (foldStatics.go deeper args params) _
  have hnone : ∀ b ∈ ([] : List (Name × Value)), L.value b.2 := fun b hb => (by cases hb)
  induction params generalizing args with
  | nil =>
    cases args with
    | nil => exact (lawful_pure hnone).mirrors
    | cons a args => exact (lawful_pure hnone).mirrors
  | cons p params ih =>
    cases args with
    | nil => exact mirrors_throw _
    | cons a args =>
      rw [List.forall_mem_cons] at h
      rw [foldStatics.go, Procedures.foldStatics]
      refine Mirrors.ite (fun _ => ih h.2) fun _ => ?_
      refine h.1.bind fun v hv => (ih h.2).bind fun vs hvs => ?_
      have hall : ∀ b ∈ (p.name, v) :: vs, L.value b.2 := List.forall_mem_cons.2 ⟨hv, hvs⟩
      exact (lawful_pure hall).mirrors

theorem mirrors_pushDynamics {args : List Expr}
    (h : ∀ a ∈ args, Mirrors L d (fun _ => True) (push deeper a) (P.push a)) (params : List Param) :
    Mirrors L d (fun _ => True) (pushDynamics deeper args params) (P.pushDynamics args params) := by
  induction params generalizing args with
  | nil =>
    cases args with
    | nil => exact (lawful_pure trivial).mirrors
    | cons a args => exact (lawful_pure trivial).mirrors
  | cons p params ih =>
    cases args with
    | nil => exact mirrors_throw _
    | cons a args =>
      rw [List.forall_mem_cons] at h
      rw [pushDynamics, Procedures.pushDynamics]
      refine (ih h.2).bind fun _ _ => Mirrors.ite (fun _ => h.1) fun _ => ?_
      exact (lawful_pure trivial).mirrors

theorem mirrors_commandText {parts : List (Bytes × Expr)}
    (h : ∀ part ∈ parts, Mirrors L d L.value (fold deeper part.2) (P.fold part.2)) :
    Mirrors L d (Filled L.value parts) (commandText deeper parts) (P.commandText parts) := by
  induction parts with
  | nil => exact (lawful_pure .nil).mirrors
  | cons part parts ih =>
    obtain ⟨literal, e⟩ := part
    rw [List.forall_mem_cons] at h
    rw [commandText, Procedures.commandText]
    refine h.1.bind fun v hv => Mirrors.ite (fun _ => mirrors_throw _) fun hline => ?_
    refine (ih h.2).bind fun rest hrest => ?_
    exact (lawful_pure (.cons hv (Bool.eq_false_iff.2 hline) hrest)).mirrors

theorem mirrors_statements {b : List Stmt}
    (h : ∀ st ∈ b, Mirrors L d (fun _ => True) (statement deeper st) (P.statement st)) :
    Mirrors L d (fun _ => True) (statements deeper b) (b.forM P.statement) := by
  induction b with
  | nil =>
    rw [statements]
    exact (lawful_pure trivial).mirrors
  | cons st b ih =>
    rw [List.forall_mem_cons] at h
    rw [statements]
    exact h.1.bind fun _ _ => ih h.2

theorem mirrors_reservedBodies {b : List Stmt}
    (h : ∀ span sig body, Stmt.define span sig body ∈ b →
      Mirrors L d (fun _ => True) (block deeper body) (P.block body)) (files : List (Option FileId)) :
    Mirrors L d (fun _ => True) (reservedBodies deeper b files) (P.reservedBodies b files) := by
  have hdone : Mirrors L d (fun _ => True) (pure () : Gen Unit) (pure ()) := (lawful_pure trivial).mirrors
  induction b generalizing files with
  | nil =>
    rw [reservedBodies.eq_def, Procedures.reservedBodies.eq_def]
    exact hdone
  | cons st b ih =>
    have hlater := ih fun span sig body hmem => h span sig body (List.mem_cons_of_mem _ hmem)
    rw [reservedBodies.eq_def, Procedures.reservedBodies.eq_def]
    cases files with
    | nil => cases st <;> exact hdone
    | cons o files =>
      cases st with
      | define span sig body =>
        cases o with
        | none => exact hlater files
        | some file =>
          refine (mirrors_functionBody file _ (fun b hb => (by cases hb)) ?_).bind fun _ _ => hlater files
          exact h span sig body List.mem_cons_self
      | command _ _ _ => exact hlater files
      | cond _ _ _ _ => exact hlater files
      | assign _ _ _ _ _ => exact hlater files
      | call _ _ _ => exact hlater files
      | ret _ _ => exact hlater files

/-! ## Expressions -/

theorem mirrors_foldStep {e : Expr} (he : L.part (.expr e)) (h : P.Answers L (.expr e) d deeper) :
    Mirrors L d L.value (fold deeper e) (P.foldStep e) := by
  rw [fold.eq_def, Procedures.foldStep.eq_def]
  refine Mirrors.ite (fun _ => mirrors_throw _) fun _ => ?_
  cases e with
  | number _ i => exact (lawful_pure (L.int i)).mirrors
  | string _ s => exact (lawful_pure (L.string he)).mirrors
  | bool _ b => exact (lawful_pure (L.bool b)).mirrors
  | paren _ inner => exact h.fold (Node.inside_child List.mem_cons_self)
  | var span n =>
    refine (Lawful.get fun t ht => lawful_ofExcept fun v hv => ?_).mirrors
    rw [ScopeStack.lookupStatic] at hv
    split at hv
    · rename_i b hb
      cases hv
      exact ScopeStack.value_of_findStatic? ht.scopes hb
    · cases hv
  | sum span l r =>
    have hl := h.fold (Node.inside_child List.mem_cons_self)
    have hr := h.fold (Node.inside_child (List.mem_cons_of_mem _ List.mem_cons_self))
    refine hl.bind fun a ha => hr.bind fun b hb => (lawful_settle span fun v hv => ?_).mirrors
    exact Law.value_add ha hb hv
  | product span l r =>
    have hl := h.fold (Node.inside_child List.mem_cons_self)
    have hr := h.fold (Node.inside_child (List.mem_cons_of_mem _ List.mem_cons_self))
    refine hl.bind fun a _ => hr.bind fun b _ => (lawful_settle span fun v hv => ?_).mirrors
    exact Law.value_multiply hv
  | call span n args =>
    have hargs : ∀ a ∈ args, Mirrors L d L.value (fold deeper a) (P.fold a) :=
      fun a ha => h.fold (Node.inside_child (List.mem_map_of_mem ha))
    refine (lawful_resolve span n args).mirrors.bind fun f hf => (mirrors_foldAll hargs).bind fun vs hvs => ?_
    refine Mirrors.below ((mirrors_expand h.below span hf hvs).bind fun v hv => ?_)
    cases v with
    | none => exact mirrors_throw _
    | some v => exact (lawful_pure (hv v rfl)).mirrors

theorem mirrors_pushStep {e : Expr} (he : L.part (.expr e)) (h : P.Answers L (.expr e) d deeper) :
    Mirrors L d (fun _ => True) (push deeper e) (P.pushStep e) := by
  rw [push.eq_def, Procedures.pushStep.eq_def]
  refine Mirrors.ite (fun _ => ?_) fun _ => ?_
  · exact (mirrors_foldStep he h).bind fun v hv => (lawful_emit (L.pushValue hv)).mirrors
  cases e with
  | number _ _ => exact mirrors_throw _
  | string _ _ => exact mirrors_throw _
  | bool _ _ => exact mirrors_throw _
  | paren _ inner => exact h.push (Node.inside_child List.mem_cons_self)
  | var span n =>
    refine (Lawful.get fun t _ => ?_).mirrors
    have hplace : Lawful L (fun p => L.place p.1) (ofExcept (t.scopes.place n span)) :=
      lawful_ofExcept fun p hp => ScopeStack.place_lawful he List.mem_cons_self hp
    exact hplace.bind fun p hp => lawful_emit (L.pushFrom hp)
  | sum span l r =>
    have hl := h.push (Node.inside_child List.mem_cons_self)
    have hr := h.push (Node.inside_child (List.mem_cons_of_mem _ List.mem_cons_self))
    refine (lawful_refuseStrings span l r).mirrors.bind fun _ _ => ?_
    exact hl.bind fun _ _ => hr.bind fun _ _ => (lawful_combine .add).mirrors
  | product span l r =>
    have hl := h.push (Node.inside_child List.mem_cons_self)
    have hr := h.push (Node.inside_child (List.mem_cons_of_mem _ List.mem_cons_self))
    refine (lawful_refuseStrings span l r).mirrors.bind fun _ _ => ?_
    exact hl.bind fun _ _ => hr.bind fun _ _ => (lawful_combine .multiply).mirrors
  | call span n args =>
    have hinside {a : Expr} (ha : a ∈ args) : (Node.expr (.call span n args)).Inside (.expr a) :=
      Node.inside_child (List.mem_map_of_mem ha)
    exact Mirrors.below (mirrors_invoke h.below span n args (mirrors_foldStatics fun a ha => h.fold (hinside ha))
      (mirrors_pushDynamics fun a ha => h.push (hinside ha)) true)

/-! ## Statements -/

theorem mirrors_assignStatic (span : Span) (target : Name) (ty : Typing) {value : Expr} (declare : Bool)
    (h : Mirrors L d L.value (fold deeper value) (P.fold value)) :
    Mirrors L d (fun _ => True) (assignStatic deeper span target ty value declare)
      (P.assignStatic span target ty value declare) := by
  refine h.bind fun v hv => (lawful_checkTyping _ _ _ _).mirrors.bind fun _ _ => ?_
  refine lawful_currentFile.mirrors.bind fun file _ => Mirrors.ite (fun _ => ?_) fun _ => ?_
  · exact (lawful_declareStatic target hv file).mirrors
  · exact (lawful_onScopes fun _ _ => ScopeStack.obeys_reassignStatic hv).mirrors

theorem mirrors_assignRuntime {span : Span} {target : Name} {ty : Typing} {value : Expr} {declare : Bool}
    (hst : L.part (.stmt (.assign span target ty value declare)))
    (hfold : Mirrors L d L.value (fold deeper value) (P.fold value))
    (hpush : Mirrors L d (fun _ => True) (push deeper value) (P.push value)) :
    Mirrors L d (fun _ => True) (assignRuntime deeper span target ty value declare)
      (P.assignRuntime span target ty value declare) := by
  have hplace := lawful_assignedPlace span ty declare hst List.mem_cons_self
  refine Mirrors.ite (fun _ => ?_) fun _ => ?_
  · refine hfold.bind fun v hv => (Lawful.bind (lawful_checkTyping _ _ _ _) fun _ _ => ?_).mirrors
    exact hplace.bind fun place hp => lawful_emit (L.storeValue hp hv)
  · refine hpush.bind fun _ _ => (Lawful.get fun t _ => ?_).mirrors
    refine (lawful_checkTyping _ _ _ _).bind fun _ _ => hplace.bind fun place hp => ?_
    exact (lawful_emit (L.storeTop hp)).bind fun _ _ => lawful_emit (L.fixed rfl)

theorem mirrors_deliver (span : Span) {value : Expr}
    (hfold : Mirrors L d L.value (fold deeper value) (P.fold value))
    (hpush : Mirrors L d (fun _ => True) (push deeper value) (P.push value)) :
    Mirrors L d (fun _ => True) (deliver deeper span value) (P.deliver span value) := by
  refine Mirrors.get fun t _ => ?_
  cases t.target with
  | none => exact mirrors_throw _
  | some target =>
    cases target with
    | expansion label file old =>
      refine lawful_currentFile.mirrors.bind fun here _ => Mirrors.ite (fun _ => mirrors_throw _) fun _ => ?_
      refine hfold.bind fun v hv => (lawful_modify (fun _ => by rfl) fun s hs => hs.withTarget ?_).mirrors
      rintro target w ⟨⟩ ⟨⟩
      exact hv
    | storage =>
      refine Mirrors.ite (fun _ => ?_) fun _ => ?_
      · exact hfold.bind fun v hv => (lawful_emit (L.storeValue L.result hv)).mirrors
      · refine hpush.bind fun _ _ => ((lawful_emit (L.storeTop L.result)).bind fun _ _ => ?_).mirrors
        exact lawful_emit (L.fixed rfl)

theorem mirrors_callStatement (hbelow : Deeper.Mirrors L d deeper (P.deeper d)) (span : Span) (name : Name)
    {args : List Expr} (hfold : ∀ a ∈ args, Mirrors L d L.value (fold deeper a) (P.fold a))
    (hpush : ∀ a ∈ args, Mirrors L d (fun _ => True) (push deeper a) (P.push a)) :
    Mirrors L d (fun _ => True) (callStatement deeper span name args) (P.callStatement span name args) := by
  refine Mirrors.ite (fun _ => ?_) fun _ => ?_
  · refine (lawful_resolve span name args).mirrors.bind fun f hf => ?_
    refine (mirrors_foldAll hfold).bind fun vs hvs => Mirrors.below ?_
    exact (mirrors_expand hbelow span hf hvs).bind fun _ _ => (lawful_pure trivial).mirrors
  · exact Mirrors.below (mirrors_invoke hbelow span name args (mirrors_foldStatics hfold)
      (mirrors_pushDynamics hpush) false)

theorem mirrors_statementStep {st : Stmt} (hst : L.part (.stmt st)) (h : P.Answers L (.stmt st) d deeper) :
    Mirrors L d (fun _ => True) (statement deeper st) (P.statementStep st) := by
  have hin {c : Node} (hc : c ∈ (Node.stmt st).children) : (Node.stmt st).Inside c := Node.inside_child hc
  cases st with
  | command _ parts tail =>
    have hparts : ∀ part ∈ parts, Mirrors L d L.value (fold deeper part.2) (P.fold part.2) :=
      fun part hp => h.fold (hin (List.mem_map_of_mem hp))
    rw [statement]
    exact (mirrors_commandText hparts).bind fun text ht => (lawful_emit (L.verbatim hst ht)).mirrors
  | cond _ test body other =>
    have htest := h.push (hin List.mem_cons_self)
    have hbody := h.block (hin (List.mem_cons_of_mem _ List.mem_cons_self))
    have hother := h.otherwise (hin (List.mem_cons_of_mem _ (List.mem_cons_of_mem _ List.mem_cons_self)))
    rw [statement]
    exact mirrors_conditional htest (mirrors_branch body hbody) hother
  | assign span target ty value declare =>
    have hvalue := hin List.mem_cons_self
    rw [statement]
    refine Mirrors.ite (fun _ => ?_) fun _ => ?_
    · exact mirrors_assignStatic span target ty declare (h.fold hvalue)
    · exact mirrors_assignRuntime hst (h.fold hvalue) (h.push hvalue)
  | define _ _ _ =>
    rw [statement]
    exact (lawful_pure trivial).mirrors
  | call span name args =>
    rw [statement]
    exact mirrors_callStatement h.below span name (fun a ha => h.fold (hin (List.mem_map_of_mem ha)))
      fun a ha => h.push (hin (List.mem_map_of_mem ha))
  | ret span value =>
    rw [statement]
    exact mirrors_deliver span (h.fold (hin List.mem_cons_self)) (h.push (hin List.mem_cons_self))

theorem mirrors_otherwiseStep {o : Otherwise} (h : P.Answers L (.otherwise o) d deeper) :
    Mirrors L d (fun _ => True) (otherwise deeper o) (P.otherwiseStep o) := by
  have hin {c : Node} (hc : c ∈ (Node.otherwise o).children) : (Node.otherwise o).Inside c :=
    Node.inside_child hc
  cases o with
  | nothing =>
    rw [otherwise]
    exact (lawful_pure trivial).mirrors
  | block body =>
    rw [otherwise]
    have hbody := h.block (hin List.mem_cons_self)
    exact (mirrors_branch body hbody).bind fun file _ => (lawful_pure trivial).mirrors
  | cond _ test body other =>
    have htest := h.push (hin List.mem_cons_self)
    have hbody := h.block (hin (List.mem_cons_of_mem _ List.mem_cons_self))
    have hother := h.otherwise (hin (List.mem_cons_of_mem _ (List.mem_cons_of_mem _ List.mem_cons_self)))
    rw [otherwise]
    refine (mirrors_inNewFile ?_).bind fun file _ => (lawful_pure trivial).mirrors
    exact mirrors_conditional htest (mirrors_branch body hbody) hother

theorem mirrors_blockStep {b : Block} (hb : L.part (.block b)) (h : P.Answers L (.block b) d deeper) :
    Mirrors L d (fun _ => True) (block deeper b) (P.step.block b) := by
  have hin {st : Stmt} (hst : st ∈ b) : Node.stmt st ∈ (Node.block b).children := List.mem_map_of_mem hst
  refine mirrors_inOrder (part_of_mem_block hb) (mirrors_reservedBodies fun span sig body hst => ?_)
    (mirrors_statements fun st hst => h.statement (Node.inside_child (hin hst)))
  -- the body of a function stands two levels down, behind its declaration
  exact h.block ⟨_, hin hst, .child .refl List.mem_cons_self⟩

end Gen
end PackScript
