import PackScript.Proofs.Generation.ExprLaw
import PackScript.Proofs.Generation.Heights

/-! # Lawful programs

A statement writes commands made of its own text, names and values, and declares what it holds.
So a program whose pieces are lawful is generated into lawful commands, whichever way its calls
go and however deep.
-/
namespace PackScript.Gen

variable {L : Law} {d : Nat} {deeper : Deeper}

/-! ## Single statements -/

theorem lawful_commandText (hdeep : deeper.Lawful L) {parts : List (Bytes × Expr)}
    (h : ∀ part ∈ parts, L.part (.expr part.2)) : Lawful L (Filled L.value parts) (commandText deeper parts) := by
  induction parts with
  | nil => exact lawful_pure .nil
  | cons part parts ih =>
    obtain ⟨literal, e⟩ := part
    rw [List.forall_mem_cons] at h
    rw [commandText]
    refine (lawful_fold hdeep e h.1).bind fun v hv => ?_
    split
    · exact lawful_throw _
    · rename_i hline
      exact (ih h.2).bind fun rest hrest => lawful_pure (.cons hv (Bool.eq_false_iff.2 hline) hrest)

theorem lawful_checkTyping (target : Name) (declared : Typing) (value : Expr) (got : Typing) :
    Lawful L (fun _ => True) (checkTyping target declared value got) := by
  unfold checkTyping
  split
  · exact lawful_pure trivial
  · exact lawful_warn _

theorem lawful_assignStatic (hdeep : deeper.Lawful L) (span : Span) (target : Name) (ty : Typing) {value : Expr}
    (h : L.part (.expr value)) (declare : Bool) :
    Lawful L (fun _ => True) (assignStatic deeper span target ty value declare) := by
  refine (lawful_fold hdeep value h).bind fun v hv => (lawful_checkTyping _ _ _ _).bind fun _ _ => ?_
  refine lawful_currentFile.bind fun file _ => ?_
  split
  · exact lawful_declareStatic target hv file
  · exact lawful_onScopes fun _ _ => ScopeStack.obeys_reassignStatic hv

theorem lawful_assignedPlace (span : Span) {target : Name} (ty : Typing) (declare : Bool) {node : Node}
    (hnode : L.part node) (hname : target ∈ node.ownNames) :
    Lawful L L.place (assignedPlace span target ty declare) := by
  have hplace : Lawful L L.place (assignedPlace span target ty false) := by
    refine Lawful.get fun t _ => ?_
    have hfound : Lawful L (fun p => L.place p.1) (ofExcept (t.scopes.place target span)) :=
      lawful_ofExcept fun p hp => ScopeStack.place_lawful hnode hname hp
    exact hfound.bind fun p hp => lawful_pure hp
  cases declare with
  | false => exact hplace
  | true => exact (lawful_declareRuntime target ty).bind fun _ _ => hplace

theorem lawful_assignRuntime (hdeep : deeper.Lawful L) (span : Span) (target : Name) (ty : Typing) (value : Expr)
    (declare : Bool) (h : L.part (.stmt (.assign span target ty value declare))) :
    Lawful L (fun _ => True) (assignRuntime deeper span target ty value declare) := by
  have hvalue : L.part (.expr value) := L.child h List.mem_cons_self
  have hplace := lawful_assignedPlace span ty declare h List.mem_cons_self
  unfold assignRuntime
  split
  · refine (lawful_fold hdeep value hvalue).bind fun v hv => (lawful_checkTyping _ _ _ _).bind fun _ _ => ?_
    exact hplace.bind fun place hp => lawful_emit (L.storeValue hp hv)
  · refine (lawful_push hdeep value hvalue).bind fun _ _ => Lawful.get fun t _ => ?_
    refine (lawful_checkTyping _ _ _ _).bind fun _ _ => hplace.bind fun place hp => ?_
    exact (lawful_emit (L.storeTop hp)).bind fun _ _ => lawful_emit (L.fixed rfl)

theorem lawful_deliver (hdeep : deeper.Lawful L) (span : Span) (value : Expr) (h : L.part (.expr value)) :
    Lawful L (fun _ => True) (deliver deeper span value) := by
  refine Lawful.get fun t _ => ?_
  dsimp only
  split
  · exact lawful_throw _
  · refine lawful_currentFile.bind fun file _ => ?_
    split
    · exact lawful_throw _
    · refine (lawful_fold hdeep value h).bind fun v hv => lawful_modify (fun _ => rfl) fun s hs => ?_
      apply hs.withTarget
      rintro target w ⟨⟩ ⟨⟩
      exact hv
  · split
    · exact (lawful_fold hdeep value h).bind fun v hv => lawful_emit (L.storeValue L.result hv)
    · refine (lawful_push hdeep value h).bind fun _ _ => ?_
      exact (lawful_emit (L.storeTop L.result)).bind fun _ _ => lawful_emit (L.fixed rfl)

theorem lawful_callStatement (hdeep : deeper.Lawful L) (span : Span) (name : Name) {args : List Expr}
    (h : ∀ a ∈ args, L.part (.expr a)) : Lawful L (fun _ => True) (callStatement deeper span name args) := by
  unfold callStatement
  split
  · refine (lawful_resolve span name args).bind fun f hf => (lawful_foldAll hdeep args h).bind fun vs hvs => ?_
    exact (lawful_expand hdeep span hf hvs).bind fun _ _ => lawful_pure trivial
  · exact lawful_invoke hdeep span name args (lawful_foldStatics hdeep h)
      (lawful_pushDynamics hdeep args h) false

/-! ## Branches and what is declared ahead -/

theorem mirrors_branch (b : Block) {body body' : Gen Unit} (h : Mirrors L d (fun _ => True) body body') :
    Mirrors L d (fun _ => True) (branch b body) (branch b body') :=
  mirrors_inNewFile (Mirrors.ite (fun _ => mirrors_inScope .block h) fun _ => h)

theorem lawful_branch (b : Block) {body : Gen Unit} (hb : Lawful L (fun _ => True) body) :
    Lawful L (fun _ => True) (branch b body) := (mirrors_branch (d := 0) b hb.mirrors).lawful

theorem mirrors_conditional {test test' : Gen Unit} {body body' : Gen FileId}
    {other other' : Gen (Option FileId)} (htest : Mirrors L d (fun _ => True) test test')
    (hbody : Mirrors L d (fun _ => True) body body') (hother : Mirrors L d (fun _ => True) other other') :
    Mirrors L d (fun _ => True) (conditional test body other) (conditional test' body' other') := by
  have hfixed {c : Command} (hc : c.isFixed = true) : Lawful L (fun _ => True) (emit c) :=
    lawful_emit (L.fixed hc)
  refine htest.bind fun _ _ => hbody.bind fun file _ => ?_
  refine (hfixed rfl).mirrors.bind fun _ _ => (hfixed rfl).mirrors.bind fun _ _ => hother.bind fun o _ => ?_
  cases o with
  | none => exact (hfixed rfl).mirrors
  | some file => exact ((hfixed rfl).bind fun _ _ => (hfixed rfl).bind fun _ _ => hfixed rfl).mirrors

theorem lawful_conditional {test : Gen Unit} {body : Gen FileId} {other : Gen (Option FileId)}
    (htest : Lawful L (fun _ => True) test) (hbody : Lawful L (fun _ => True) body)
    (hother : Lawful L (fun _ => True) other) : Lawful L (fun _ => True) (conditional test body other) :=
  (mirrors_conditional (d := 0) htest.mirrors hbody.mirrors hother.mirrors).lawful

theorem lawful_declareAhead (root : Bool) {st : Stmt} (h : L.part (.stmt st)) :
    Lawful L (fun _ => True) (declareAhead root st) := by
  cases st with
  | assign span target ty value declare =>
    cases declare with
    | false => exact lawful_pure trivial
    | true =>
      rw [declareAhead]
      split
      · exact (lawful_onScopes fun _ _ => ScopeStack.obeys_hoist).bind fun _ _ => lawful_pure trivial
      · exact lawful_pure trivial
  | define span sig body =>
    refine Lawful.get fun t ht => ?_
    have hnode : L.part (Function.node ⟨span, sig, body⟩) := h
    have hregister : Lawful L (fun r => ∀ sc ∈ r.2.scopes, sc.Obeys L)
        (ofExcept (t.scopes.register ⟨span, sig, body⟩)) :=
      lawful_ofExcept fun r hr => ScopeStack.obeys_register hnode hr ht.scopes
    refine hregister.bind fun r hr => ?_
    refine (lawful_modify (fun _ => by rfl) fun s hs => hs.withScopes hr).bind fun _ _ => ?_
    split
    · refine lawful_newFile.bind fun file _ => ?_
      exact (lawful_updateEntry r.1 fun _ => by rfl).bind fun _ _ => lawful_pure trivial
    · exact lawful_pure trivial
  | command _ _ _ => exact lawful_pure trivial
  | cond _ _ _ _ => exact lawful_pure trivial
  | call _ _ _ => exact lawful_pure trivial
  | ret _ _ => exact lawful_pure trivial

theorem lawful_declareAheads (root : Bool) {b : Block} (h : ∀ st ∈ b, L.part (.stmt st)) :
    Lawful L (fun _ => True) (b.mapM (declareAhead root)) := by
  induction b with
  | nil =>
    rw [List.mapM_nil]
    exact lawful_pure trivial
  | cons st b ih =>
    rw [List.forall_mem_cons] at h
    rw [List.mapM_cons]
    exact (lawful_declareAhead root h.1).bind fun o _ => (ih h.2).bind fun os _ => lawful_pure trivial

theorem mirrors_inOrder {b : Block} {bodies bodies' : List (Option FileId) → Gen Unit}
    {statements statements' : Gen Unit} (h : ∀ st ∈ b, L.part (.stmt st))
    (hbodies : ∀ files, Mirrors L d (fun _ => True) (bodies files) (bodies' files))
    (hstatements : Mirrors L d (fun _ => True) statements statements') :
    Mirrors L d (fun _ => True) (inOrder b bodies statements) (inOrder b bodies' statements') := by
  refine Mirrors.get fun t _ => ?_
  have htop : Lawful L (fun _ => True) (ofExcept t.scopes.top) := lawful_ofExcept fun _ _ => trivial
  refine htop.mirrors.bind fun top _ => (lawful_declareAheads _ h).mirrors.bind fun files _ => ?_
  exact (hbodies files).bind fun _ _ => hstatements

theorem lawful_inOrder {b : Block} {bodies : List (Option FileId) → Gen Unit} {statements : Gen Unit}
    (h : ∀ st ∈ b, L.part (.stmt st)) (hbodies : ∀ files, Lawful L (fun _ => True) (bodies files))
    (hstatements : Lawful L (fun _ => True) statements) :
    Lawful L (fun _ => True) (inOrder b bodies statements) :=
  (mirrors_inOrder (d := 0) h (fun files => (hbodies files).mirrors) hstatements.mirrors).lawful

/-! ## Blocks -/

theorem part_of_mem_block {b : Block} (h : L.part (.block b)) : ∀ st ∈ b, L.part (.stmt st) :=
  fun _ hst => L.child h (List.mem_map_of_mem hst)

mutual
theorem lawful_statement (hdeep : deeper.Lawful L) (st : Stmt) (h : L.part (.stmt st)) :
    Lawful L (fun _ => True) (statement deeper st) := by
  match st, h with
  | .command _ parts tail, h =>
    have hparts : ∀ part ∈ parts, L.part (.expr part.2) := fun part hp => L.child h (List.mem_map_of_mem hp)
    rw [statement]
    exact (lawful_commandText hdeep hparts).bind fun text ht => lawful_emit (L.verbatim h ht)
  | .cond _ test body other, h =>
    have htest : L.part (.expr test) := L.child h List.mem_cons_self
    have hbody : L.part (.block body) := L.child h (by simp [Node.children])
    have hother : L.part (.otherwise other) := L.child h (by simp [Node.children])
    have hstmts := part_of_mem_block hbody
    rw [statement]
    refine lawful_conditional (lawful_push hdeep test htest) (lawful_branch body ?_)
      (lawful_otherwise hdeep other hother)
    exact lawful_inOrder hstmts (lawful_reservedBodies hdeep body hstmts) (lawful_statements hdeep body hstmts)
  | .assign span target ty value declare, h =>
    rw [statement]
    split
    · exact lawful_assignStatic hdeep span target ty (L.child h List.mem_cons_self) declare
    · exact lawful_assignRuntime hdeep span target ty value declare h
  | .define _ _ _, _ =>
    rw [statement]
    exact lawful_pure trivial
  | .call span name args, h =>
    rw [statement]
    exact lawful_callStatement hdeep span name fun a ha => L.child h (List.mem_map_of_mem ha)
  | .ret span value, h =>
    rw [statement]
    exact lawful_deliver hdeep span value (L.child h List.mem_cons_self)
theorem lawful_otherwise (hdeep : deeper.Lawful L) (other : Otherwise) (h : L.part (.otherwise other)) :
    Lawful L (fun _ => True) (otherwise deeper other) := by
  match other, h with
  | .nothing, _ =>
    rw [otherwise]
    exact lawful_pure trivial
  | .block body, h =>
    have hstmts := part_of_mem_block (L.child h List.mem_cons_self)
    rw [otherwise]
    refine (lawful_branch body ?_).bind fun file _ => lawful_pure trivial
    exact lawful_inOrder hstmts (lawful_reservedBodies hdeep body hstmts) (lawful_statements hdeep body hstmts)
  | .cond _ test body other, h =>
    have htest : L.part (.expr test) := L.child h List.mem_cons_self
    have hbody : L.part (.block body) := L.child h (by simp [Node.children])
    have hother : L.part (.otherwise other) := L.child h (by simp [Node.children])
    have hstmts := part_of_mem_block hbody
    rw [otherwise]
    refine (lawful_inNewFile ?_).bind fun file _ => lawful_pure trivial
    refine lawful_conditional (lawful_push hdeep test htest) (lawful_branch body ?_)
      (lawful_otherwise hdeep other hother)
    exact lawful_inOrder hstmts (lawful_reservedBodies hdeep body hstmts) (lawful_statements hdeep body hstmts)
theorem lawful_statements (hdeep : deeper.Lawful L) (b : List Stmt) (h : ∀ st ∈ b, L.part (.stmt st)) :
    Lawful L (fun _ => True) (statements deeper b) := by
  match b, h with
  | [], _ =>
    rw [statements]
    exact lawful_pure trivial
  | st :: b, h =>
    rw [List.forall_mem_cons] at h
    rw [statements]
    exact (lawful_statement hdeep st h.1).bind fun _ _ => lawful_statements hdeep b h.2
theorem lawful_reservedBodies (hdeep : deeper.Lawful L) (b : List Stmt) (h : ∀ st ∈ b, L.part (.stmt st))
    (files : List (Option FileId)) : Lawful L (fun _ => True) (reservedBodies deeper b files) := by
  match b, h, files with
  | [], _, _ =>
    rw [reservedBodies.eq_def]
    exact lawful_pure trivial
  | st :: b, _, [] =>
    rw [reservedBodies.eq_def]
    cases st <;> exact lawful_pure trivial
  | st :: b, h, o :: files =>
    rw [List.forall_mem_cons] at h
    have hlater : Lawful L (fun _ => True) (reservedBodies deeper b files) :=
      lawful_reservedBodies hdeep b h.2 files
    rw [reservedBodies.eq_def]
    match st, h with
    | .define span sig body, h =>
      cases o with
      | none => exact hlater
      | some file =>
        have hstmts := part_of_mem_block (L.child h.1 List.mem_cons_self)
        refine (lawful_functionBody file _ (fun b hb => (by cases hb)) ?_).bind fun _ _ => hlater
        exact lawful_inOrder hstmts (lawful_reservedBodies hdeep body hstmts)
          (lawful_statements hdeep body hstmts)
    | .command _ _ _, _ => exact hlater
    | .cond _ _ _ _, _ => exact hlater
    | .assign _ _ _ _ _, _ => exact hlater
    | .call _ _ _, _ => exact hlater
    | .ret _ _, _ => exact hlater
end

theorem lawful_block (hdeep : deeper.Lawful L) (b : Block) (h : L.part (.block b)) :
    Lawful L (fun _ => True) (block deeper b) := by
  have hstmts := part_of_mem_block h
  exact lawful_inOrder hstmts (lawful_reservedBodies hdeep b hstmts) (lawful_statements hdeep b hstmts)

theorem lawful_levels (L : Law) (n : Nat) : (levels n).Lawful L := by
  induction n with
  | zero =>
    rintro generate ⟨⟩
  | succ n ih =>
    rintro generate ⟨⟩ b hb
    exact lawful_block ih b hb

theorem lawful_program {ns : Bytes} {p : Program} (hns : L.value (.string ns)) (hp : L.part (.block p.body)) :
    Lawful L (fun _ => True) (program ns p) := by
  refine lawful_newFile.bind fun file _ => lawful_writingTo file (lawful_inScope ?_)
  refine (lawful_declareStatic _ hns file).bind fun _ _ => ?_
  refine (lawful_block (lawful_levels L maxNesting) p.body hp).bind fun _ _ => Lawful.get fun t _ => ?_
  have htop : Lawful L (fun _ => True) (ofExcept t.scopes.top) := lawful_ofExcept fun _ _ => trivial
  exact htop.bind fun top _ => lawful_pure trivial

theorem obeys_initial (L : Law) : ({} : GenState).Obeys L :=
  ⟨fun sc hsc => (by cases hsc), fun t v ht => (by cases ht), fun f c hc => (by cases hc)⟩

/-- All commands of a generated program are lawful. -/
theorem lawful_of_generate {ns : Bytes} {p : Program} {g : Generated} (hns : L.value (.string ns))
    (hp : L.part (.block p.body)) (h : p.generate ns = .ok g) : ∀ file ∈ g.files, ∀ c ∈ file, L.command c := by
  obtain ⟨statics, s, hrun, -, htext⟩ := generate_ok h
  have hobeys := (lawful_program hns hp (obeys_initial L) hrun).1
  intro file hfile c hc
  obtain ⟨i, hi, rfl⟩ := List.getElem_of_mem hfile
  apply hobeys.files i
  rw [← htext i, List.getD_eq_getElem?_getD, List.getElem?_eq_getElem hi]
  exact hc

end PackScript.Gen
