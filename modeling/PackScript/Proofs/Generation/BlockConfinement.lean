import PackScript.Proofs.Generation.ExprConfinement

/-! # Confined programs

Only a declaration touches the innermost scope for good. A branch has a scope of its own if
anything is declared in it, and the body of a function always has one, so that no declaration
leaves either. All files and scopes that a piece of work opens are closed at its end, also
where an error ends it.
-/
namespace PackScript.Gen

variable {α : Type} {own : FileId → Prop} {i : Nat} {d : Bool} {s s' : GenState} {deeper : Deeper}

/-! ## Single statements -/

theorem tame_commandText (hdeep : deeper.Tame) (parts : List (Bytes × Expr)) :
    Tame own i d (commandText deeper parts) := by
  induction parts with
  | nil => exact tame_pure []
  | cons part parts ih =>
    obtain ⟨literal, e⟩ := part
    rw [commandText]
    refine (tame_fold hdeep e).bind fun v => ?_
    split
    · exact tame_throw _
    · exact ih.bind fun rest => tame_pure _

theorem tame_checkTyping (target : Name) (declared : Typing) (value : Expr) (got : Typing) :
    Tame own i d (checkTyping target declared value got) := by
  unfold checkTyping
  split
  · exact tame_pure ()
  · exact tame_warn _

/-- A static variable is changed only by the file that declared it. -/
theorem confined_reassignStatic {file : FileId} (ho : own file) (name : Name) (v : Value) (span : Span) :
    s.Confined own i d (after (onScopes fun s => s.reassignStatic name v file span) s) := by
  refine confined_onScopes fun scopes h => ?_
  obtain ⟨b, hfind, rfl, rfl⟩ := ScopeStack.reassignStatic_ok h
  exact .of_spared rfl rfl rfl (Nat.le_refl _) (Nat.le_refl _) (Scope.spared_setStatic v hfind ho)

theorem tame_assignStatic (hdeep : deeper.Tame) (span : Span) (target : Name) (ty : Typing) (value : Expr)
    (declare : Bool) : Tame own i declare (assignStatic deeper span target ty value declare) := by
  refine (tame_fold hdeep value).bind fun v => (tame_checkTyping _ _ _ _).bind fun _ s hs => ?_
  obtain ⟨f, fs, hw, ho⟩ := hs.writing
  rw [after_bind (currentFile_ok.2 ⟨⟨fs, hw⟩, rfl⟩)]
  cases declare with
  | true => exact confined_declareStatic hw target v
  | false => exact confined_reassignStatic ho target v span

theorem tame_assignedPlace (span : Span) (target : Name) (ty : Typing) (declare : Bool) :
    Tame own i declare (assignedPlace span target ty declare) := by
  have hplace : Tame own i declare (assignedPlace span target ty false) :=
    Tame.get fun t => (tame_ofExcept _).bind fun p => tame_pure p.1
  cases declare with
  | false => exact hplace
  | true => exact Tame.bind (fun _ _ => confined_declareRuntime target ty) fun _ => hplace

theorem tame_assignRuntime (hdeep : deeper.Tame) (span : Span) (target : Name) (ty : Typing) (value : Expr)
    (declare : Bool) : Tame own i declare (assignRuntime deeper span target ty value declare) := by
  unfold assignRuntime
  split
  · refine (tame_fold hdeep value).bind fun v => (tame_checkTyping _ _ _ _).bind fun _ => ?_
    exact (tame_assignedPlace span target ty declare).bind fun place => tame_emit _
  · refine (tame_push hdeep value).bind fun _ => Tame.get fun t => (tame_checkTyping _ _ _ _).bind fun _ => ?_
    refine (tame_assignedPlace span target ty declare).bind fun place => ?_
    exact (tame_emit _).bind fun _ => tame_emit _

/-- What is delivered to an expansion leaves the expansion itself in place. -/
theorem tame_deliver (hdeep : deeper.Tame) (span : Span) (value : Expr) :
    Tame own i d (deliver deeper span value) := by
  intro s hs
  rw [deliver, after_bind (get_ok.2 ⟨rfl, rfl⟩)]
  cases ht : s.target with
  | none => exact .refl own i d s
  | some target =>
    cases target with
    | expansion label file old =>
      obtain ⟨f, fs, hw, -⟩ := hs.writing
      rw [after_bind (currentFile_ok.2 ⟨⟨fs, hw⟩, rfl⟩)]
      by_cases hfile : f ≠ file
      · rw [if_pos hfile]
        exact .refl own i d s
      · rw [if_neg hfile]
        refine confined_bind (tame_fold hdeep value hs) fun v s₁ _ hc => ?_
        refine .of_scopes_eq rfl ?_ rfl (Nat.le_refl _) rfl
        rw [hc.target, ht]
        rfl
    | storage =>
      dsimp only
      by_cases hv : value.isStatic = true
      · rw [if_pos hv]
        exact ((tame_fold hdeep value).bind fun v => tame_emit _) hs
      · rw [if_neg hv]
        exact ((tame_push hdeep value).bind fun _ => (tame_emit _).bind fun _ => tame_emit _) hs

theorem tame_callStatement (hdeep : deeper.Tame) (span : Span) (name : Name) (args : List Expr) :
    Tame own i d (callStatement deeper span name args) := by
  unfold callStatement
  split
  · refine (tame_resolve span name args).bind fun f => (tame_foldAll hdeep args).bind fun vs => ?_
    exact (tame_expand hdeep span f vs).bind fun v => tame_pure ()
  · exact tame_invoke hdeep span name args (tame_foldStatics hdeep args) (tame_pushDynamics hdeep args) false

/-! ## Branches -/

/-- Confined from every state with an open scope, whoever owns the current file. -/
def Apart (own : FileId → Prop) (i : Nat) (m : Gen α) : Prop :=
  ∀ ⦃s : GenState⦄, s.Clear own i → s.scopes.scopes ≠ [] → s.Confined own i false (after m s)

theorem Apart.tame {m : Gen α} (h : Apart own i m) : Tame own i d m :=
  fun _ hs => (h hs.toClear hs.scopes).mono

theorem apart_branch {b : Block} {body : Gen Unit} (hb : Tame own i (Block.requiresScope b) body) :
    Apart own i (branch b body) := by
  intro s hclear hs
  refine confined_inNewFile hclear hs ?_
  by_cases hscope : Block.requiresScope b = true
  · rw [if_pos hscope]
    intro s₁ hs₁
    obtain ⟨f, fs, hw, ho⟩ := hs₁.writing
    exact confined_inScope hs₁.toClear hw ho fun s₂ hs₂ _ => hb.imp (fun _ => rfl) hs₂
  · rw [if_neg hscope]
    exact hb.imp fun h => absurd h hscope

/-- What follows the condition of a conditional. -/
theorem confined_arms {f : FileId} {fs : List FileId} {body : Gen FileId} {other : Gen (Option FileId)}
    (hw : s.writing = f :: fs) (hclear : s.Clear own i) (hs : s.scopes.scopes ≠ [])
    (hbody : Apart own i body) (hother : Apart own i other) :
    s.Confined own i false (after (do
      let file ← body
      emit (.load .condition 1)
      emit (.runIf file)
      match ← other with
      | some file =>
        emit (.load .condition 1)
        emit (.runUnless file)
      | none => pure ()
      emit .pop) s) := by
  refine confined_bind (hbody hclear hs) fun file s₁ _ hc₁ => ?_
  have hw₁ := hc₁.writing.trans hw
  refine confined_bind (confined_emit hw₁ _) fun _ s₂ _ hc₂ => ?_
  have hw₂ := hc₂.writing.trans hw₁
  refine confined_bind (confined_emit hw₂ _) fun _ s₃ _ hc₃ => ?_
  have hw₃ := hc₃.writing.trans hw₂
  have hc := (hc₁.trans hc₂).trans hc₃
  refine confined_bind (hother (hclear.confined hc) (hc.scopes_ne_nil hs)) fun o s₄ _ hc₄ => ?_
  have hw₄ := hc₄.writing.trans hw₃
  cases o with
  | none => exact confined_emit hw₄ _
  | some file =>
    refine confined_bind (confined_emit hw₄ _) fun _ s₅ _ hc₅ => ?_
    have hw₅ := hc₅.writing.trans hw₄
    refine confined_bind (confined_emit hw₅ _) fun _ s₆ _ hc₆ => ?_
    exact confined_emit (hc₆.writing.trans hw₅) _

theorem tame_conditional {test : Gen Unit} {body : Gen FileId} {other : Gen (Option FileId)}
    (htest : Tame own i d test) (hbody : Apart own i body) (hother : Apart own i other) :
    Tame own i d (conditional test body other) := by
  intro s hs
  refine confined_bind (htest hs) fun _ s₁ _ hc => ?_
  have hs₁ := hs.confined hc
  obtain ⟨f, fs, hw, -⟩ := hs₁.writing
  exact (confined_arms hw hs₁.toClear hs₁.scopes hbody hother).mono

/-! ## What is declared ahead -/

theorem confined_hoist (name : Name) (ty : Typing) :
    s.Confined own i true (after (onScopes fun s => s.hoist name ty) s) := by
  refine confined_onScopes fun scopes h => ?_
  obtain ⟨t, outer, hoisted, ht, -, -, rfl⟩ := ScopeStack.hoist_ok h
  exact .of_top ht rfl (Nat.le_refl _)
    ⟨⟨rfl, rfl, rfl⟩, fun b hb => .inr ⟨b, hb, rfl⟩, fun e he => .inr ⟨e, he, rfl⟩⟩

theorem confined_register {fn : Function} {j : Nat} {scopes : ScopeStack FileId}
    (h : s.scopes.register fn = .ok (j, scopes)) : s.Confined own i true { s with scopes } := by
  obtain ⟨t, outer, ht, rfl, -, rfl⟩ := ScopeStack.register_ok h
  refine .of_top ht rfl (Nat.le_succ _) ⟨⟨rfl, rfl, rfl⟩, fun b hb => .inr ⟨b, hb, rfl⟩, fun e he => ?_⟩
  rcases List.mem_append.1 he with he | he
  · exact .inr ⟨e, he, rfl⟩
  · obtain rfl := List.mem_singleton.1 he
    exact .inl (Nat.lt_succ_self _)

theorem tame_declareAhead (root : Bool) (st : Stmt) : Tame own i st.requiresScope (declareAhead root st) := by
  cases st with
  | assign span target ty value declare =>
    cases declare with
    | false => exact tame_pure none
    | true =>
      rw [declareAhead]
      split
      · exact Tame.bind (fun _ _ => confined_hoist target ty) fun _ => tame_pure none
      · exact tame_pure none
  | define span sig body =>
    intro s hs
    rw [declareAhead, after_bind (get_ok.2 ⟨rfl, rfl⟩)]
    cases hreg : s.scopes.register ⟨span, sig, body⟩ with
    | error f => exact .refl own i true s
    | ok r =>
      obtain ⟨j, scopes⟩ := r
      have hj : i ≤ j := by
        obtain ⟨t, outer, -, rfl, -⟩ := ScopeStack.register_ok hreg
        exact hs.ids
      have hdeclared : s.Confined own i true { s with scopes } := confined_register hreg
      rw [after_bind (ofExcept_ok.2 ⟨rfl, rfl⟩), after_bind (modify_ok (u := ()) |>.2 rfl)]
      refine hdeclared.trans ?_
      split
      · rw [after_bind (newFile_ok.2 ⟨rfl, rfl⟩), after_bind (modify_ok (u := ()) |>.2 rfl)]
        refine confined_mint.trans (GenState.Confined.updateEntry fun e he => ⟨rfl, rfl, fun hlt => ?_⟩)
        omega
      · exact .refl own i true _
  | command _ _ _ => exact tame_pure none
  | cond _ _ _ _ => exact tame_pure none
  | call _ _ _ => exact tame_pure none
  | ret _ _ => exact tame_pure none

theorem tame_declareAheads (root : Bool) (b : Block) :
    Tame own i (Block.requiresScope b) (b.mapM (declareAhead root)) := by
  induction b with
  | nil =>
    rw [List.mapM_nil]
    exact tame_pure []
  | cons st b ih =>
    rw [List.mapM_cons]
    have hfirst : Tame own i (Block.requiresScope (st :: b)) (declareAhead root st) :=
      (tame_declareAhead root st).imp fun h => Bool.or_eq_true_iff.2 (.inl h)
    have hlater : Tame own i (Block.requiresScope (st :: b)) (b.mapM (declareAhead root)) :=
      ih.imp fun h => Bool.or_eq_true_iff.2 (.inr h)
    exact hfirst.bind fun o => hlater.bind fun os => tame_pure _

/-- A reserved file is new. -/
theorem declareAhead_new {root : Bool} {st : Stmt} {o : Option FileId} (h : declareAhead root st s = .ok o s') :
    s.files.size ≤ s'.files.size ∧ ∀ g, o = some g → s.files.size ≤ g ∧ g < s'.files.size := by
  have hnone {s : GenState} : s.files.size ≤ s.files.size ∧
      ∀ g, (none : Option FileId) = some g → s.files.size ≤ g ∧ g < s.files.size :=
    ⟨Nat.le_refl _, fun g hg => by cases hg⟩
  unfold declareAhead at h
  split at h
  · split at h
    · obtain ⟨_, s₁, hon, h⟩ := bind_ok.1 h
      obtain ⟨scopes, -, rfl⟩ := onScopes_ok.1 hon
      obtain ⟨rfl, rfl⟩ := pure_ok.1 h
      exact hnone
    · obtain ⟨rfl, rfl⟩ := pure_ok.1 h
      exact hnone
  · obtain ⟨_, _, hg, h⟩ := bind_ok.1 h
    obtain ⟨rfl, rfl⟩ := get_ok.1 hg
    obtain ⟨⟨j, scopes⟩, _, ho, h⟩ := bind_ok.1 h
    obtain ⟨-, rfl⟩ := ofExcept_ok.1 ho
    obtain ⟨_, _, hm, h⟩ := bind_ok.1 h
    obtain rfl := modify_ok.1 hm
    split at h
    · obtain ⟨g, _, hnew, h⟩ := bind_ok.1 h
      obtain ⟨rfl, rfl⟩ := newFile_ok.1 hnew
      obtain ⟨_, _, hm, h⟩ := bind_ok.1 h
      obtain rfl := modify_ok.1 hm
      obtain ⟨rfl, rfl⟩ := pure_ok.1 h
      have hsize : s.mint.files.size = s.files.size + 1 := GenState.size_mint s
      refine ⟨?_, fun g hg => ?_⟩
      · change s.files.size ≤ s.mint.files.size
        omega
      · obtain rfl := Option.some.inj hg
        change s.files.size ≤ s.files.size ∧ s.files.size < s.mint.files.size
        omega
    · obtain ⟨rfl, rfl⟩ := pure_ok.1 h
      exact hnone
  · obtain ⟨rfl, rfl⟩ := pure_ok.1 h
    exact hnone

theorem declareAheads_new {root : Bool} {b : Block} {files : List (Option FileId)}
    (h : b.mapM (declareAhead root) s = .ok files s') :
    s.files.size ≤ s'.files.size ∧ ∀ g, some g ∈ files → s.files.size ≤ g ∧ g < s'.files.size := by
  induction b generalizing s files with
  | nil =>
    rw [List.mapM_nil] at h
    obtain ⟨rfl, rfl⟩ := pure_ok.1 h
    exact ⟨Nat.le_refl _, fun g hg => by cases hg⟩
  | cons st b ih =>
    rw [List.mapM_cons] at h
    obtain ⟨o, s₁, hfirst, h⟩ := bind_ok.1 h
    obtain ⟨os, s₂, hlater, h⟩ := bind_ok.1 h
    obtain ⟨rfl, rfl⟩ := pure_ok.1 h
    obtain ⟨hsize₁, hnew₁⟩ := declareAhead_new hfirst
    obtain ⟨hsize₂, hnew₂⟩ := ih hlater
    refine ⟨Nat.le_trans hsize₁ hsize₂, fun g hg => ?_⟩
    rcases List.mem_cons.1 hg with hg | hg
    · obtain ⟨hle, hlt⟩ := hnew₁ g hg.symm
      exact ⟨hle, Nat.lt_of_lt_of_le hlt hsize₂⟩
    · obtain ⟨hle, hlt⟩ := hnew₂ g hg
      exact ⟨Nat.le_trans hsize₁ hle, hlt⟩

theorem tame_inOrder {b : Block} {bodies : List (Option FileId) → Gen Unit} {statements : Gen Unit}
    (hbodies : ∀ files, (∀ g, some g ∈ files → own g) → Tame own i (Block.requiresScope b) (bodies files))
    (hstatements : Tame own i (Block.requiresScope b) statements) :
    Tame own i (Block.requiresScope b) (inOrder b bodies statements) := by
  refine Tame.get fun t => (tame_ofExcept _).bind fun top s hs => ?_
  refine confined_bind (tame_declareAheads _ b hs) fun files s₁ hok hc₁ => ?_
  have hs₁ := hs.confined hc₁
  have hown : ∀ g, some g ∈ files → own g := fun g hg => hs.fresh g ((declareAheads_new hok).2 g hg).1
  exact ((hbodies files hown).bind fun _ => hstatements) hs₁

/-! ## Blocks -/

mutual
theorem tame_statement (hdeep : deeper.Tame) (st : Stmt) : Tame own i st.requiresScope (statement deeper st) := by
  match st with
  | .command _ parts tail =>
    rw [statement]
    exact (tame_commandText hdeep parts).bind fun text => tame_emit _
  | .cond _ test body other =>
    rw [statement]
    refine tame_conditional (tame_push hdeep test) (apart_branch ?_) (apart_otherwise hdeep other)
    exact tame_inOrder (fun files hf => (tame_reservedBodies hdeep body files hf).mono)
      (tame_statements hdeep body)
  | .assign span target ty value declare =>
    rw [statement]
    split
    · exact tame_assignStatic hdeep span target ty value declare
    · exact tame_assignRuntime hdeep span target ty value declare
  | .define _ _ _ =>
    rw [statement]
    exact tame_pure ()
  | .call span name args =>
    rw [statement]
    exact tame_callStatement hdeep span name args
  | .ret span value =>
    rw [statement]
    exact tame_deliver hdeep span value
theorem apart_otherwise (hdeep : deeper.Tame) (other : Otherwise) : Apart own i (otherwise deeper other) := by
  match other with
  | .nothing =>
    rw [otherwise]
    exact fun s _ _ => .refl own i false s
  | .block body =>
    rw [otherwise]
    intro s hclear hs
    refine confined_bind (apart_branch ?_ hclear hs) fun file s₁ _ _ => .refl own i false s₁
    exact tame_inOrder (fun files hf => (tame_reservedBodies hdeep body files hf).mono)
      (tame_statements hdeep body)
  | .cond _ test body other =>
    rw [otherwise]
    intro s hclear hs
    refine confined_bind (confined_inNewFile hclear hs ?_) fun file s₁ _ _ => .refl own i false s₁
    refine tame_conditional (tame_push hdeep test) (apart_branch ?_) (apart_otherwise hdeep other)
    exact tame_inOrder (fun files hf => (tame_reservedBodies hdeep body files hf).mono)
      (tame_statements hdeep body)
theorem tame_statements (hdeep : deeper.Tame) (b : List Stmt) :
    Tame own i (Block.requiresScope b) (statements deeper b) := by
  match b with
  | [] =>
    rw [statements]
    exact tame_pure ()
  | st :: b =>
    rw [statements]
    have hfirst : Tame own i (Block.requiresScope (st :: b)) (statement deeper st) :=
      (tame_statement hdeep st).imp fun h => Bool.or_eq_true_iff.2 (.inl h)
    have hlater : Tame own i (Block.requiresScope (st :: b)) (statements deeper b) :=
      (tame_statements hdeep b).imp fun h => Bool.or_eq_true_iff.2 (.inr h)
    exact hfirst.bind fun _ => hlater
/-- Bodies of functions declare nothing around them, whatever files they are given. -/
theorem tame_reservedBodies (hdeep : deeper.Tame) (b : List Stmt) (files : List (Option FileId))
    (hown : ∀ g, some g ∈ files → own g) : Tame own i false (reservedBodies deeper b files) := by
  match b, files with
  | [], _ =>
    rw [reservedBodies.eq_def]
    exact tame_pure ()
  | st :: b, [] =>
    rw [reservedBodies.eq_def]
    cases st <;> exact tame_pure ()
  | st :: b, o :: files =>
    have hlater : Tame own i false (reservedBodies deeper b files) :=
      tame_reservedBodies hdeep b files fun g hg => hown g (List.mem_cons_of_mem o hg)
    rw [reservedBodies.eq_def]
    match st with
    | .define span sig body =>
      cases o with
      | none => exact hlater
      | some file =>
        refine Tame.bind (fun s hs => ?_) fun _ => hlater
        refine confined_functionBody hs.toClear (hown file List.mem_cons_self) _ _ ?_
        exact (tame_inOrder (fun files' hf => (tame_reservedBodies hdeep body files' hf).mono)
          (tame_statements hdeep body)).imp fun _ => rfl
    | .command _ _ _ => exact hlater
    | .cond _ _ _ _ => exact hlater
    | .assign _ _ _ _ _ => exact hlater
    | .call _ _ _ => exact hlater
    | .ret _ _ => exact hlater
end

theorem tame_block (hdeep : deeper.Tame) (b : Block) : Tame own i (Block.requiresScope b) (block deeper b) :=
  tame_inOrder (fun files hf => (tame_reservedBodies hdeep b files hf).mono) (tame_statements hdeep b)

theorem tame_levels (n : Nat) : (levels n).Tame := by
  induction n with
  | zero =>
    rintro generate ⟨⟩
  | succ n ih =>
    rintro generate ⟨⟩ own i b
    exact tame_block ih b

end PackScript.Gen
