import PackScript.Proofs.Generation.ExprOrderly
import PackScript.Proofs.Syntax.Parts
import PackScript.Proofs.Syntax.RoundTrip

/-! # Orderly programs

What the grammar refused and what overload resolution chose is all that generation relies on:
no program that was parsed makes it break a contract of its own. A branch has a scope of its
own exactly if something is declared in it, so whatever is declared finds a scope to be
declared in, and a frame if it is dynamic.
-/
namespace PackScript

/-- A statement can be generated in a state, as a block of it can. -/
structure Stmt.Suits (d : Stmt) (s : GenState) : Prop where
  static : s.Expanding → d.isStatic = true
  framed : s.Framed ∨ d.isStatic = true ∨ d.requiresScope = false

theorem Block.Suits.cons {d : Stmt} {b : List Stmt} {s : GenState} (h : Block.Suits (d :: b) s) :
    d.Suits s ∧ Block.Suits b s := by
  have hsplit : Block.isStatic (d :: b) = true → d.isStatic = true ∧ Block.isStatic b = true :=
    fun hst => Bool.and_eq_true_iff.1 hst
  have hscope : Block.requiresScope (d :: b) = false → d.requiresScope = false ∧ Block.requiresScope b = false :=
    fun hsc => Bool.or_eq_false_iff.1 hsc
  refine ⟨⟨fun hx => (hsplit (h.static hx)).1, ?_⟩, ⟨fun hx => (hsplit (h.static hx)).2, ?_⟩⟩
  · rcases h.framed with hf | hst | hsc
    · exact .inl hf
    · exact .inr (.inl (hsplit hst).1)
    · exact .inr (.inr (hscope hsc).1)
  · rcases h.framed with hf | hst | hsc
    · exact .inl hf
    · exact .inr (.inl (hsplit hst).2)
    · exact .inr (.inr (hscope hsc).2)

theorem Block.Suits.kept {b : Block} {s s' : GenState} (h : Block.Suits b s) (hk : s.Kept s') :
    Block.Suits b s' :=
  ⟨fun hx => h.static (hk.target.1 hx), h.framed.imp_left hk.framed⟩

namespace Gen

variable {α β : Type} {s : GenState} {Q : α → Prop} {R : β → Prop} {deeper : Deeper} {span : Span}

/-! ## Single statements -/

theorem safe_commandText (hdeep : deeper.Safe) {d : Nat} {parts : List (Bytes × Expr)} {tail : Bytes}
    (h : IsSegmented d parts tail) : Safe (fun _ => True) (commandText deeper parts) := by
  induction h with
  | plain h => exact safe_pure trivial
  | @hole d d' literal tail e parts hl he hs h ih =>
    rw [commandText]
    refine (safe_fold hdeep e he hs).bind fun v _ => ?_
    split
    · exact safe_throw _ _
    · exact ih.bind fun rest _ => safe_pure trivial

theorem safe_checkTyping (target : Name) (declared : Typing) (value : Expr) (got : Typing) :
    Safe (fun _ => True) (checkTyping target declared value got) := by
  unfold checkTyping
  split
  · exact safe_pure trivial
  · exact fun _ _ => orderly_warn _

theorem safe_reassignStatic (name : Name) (v : Value) (file : FileId) (span : Span) :
    Safe (fun _ => True) (onScopes fun s => s.reassignStatic name v file span) := by
  intro s hs
  refine orderly_onScopes ?_ fun scopes hr =>
    ⟨ScopeStack.keeps_reassignStatic hr, ScopeStack.entries_reassignStatic hr⟩
  intro d hd
  unfold ScopeStack.reassignStatic at hd
  split at hd
  · cases hd
  · split at hd <;> cases hd

theorem safe_assignStatic (hdeep : deeper.Safe) (span : Span) (target : Name) (ty : Typing) {value : Expr}
    {k : Nat} (hv : value.Proper k) (hs : value.isStatic = true) (declare : Bool) :
    Safe (fun _ => True) (assignStatic deeper span target ty value declare) := by
  refine (safe_fold hdeep value hv hs).bind fun v _ => (safe_checkTyping _ _ _ _).bind fun _ _ => ?_
  have hfile : Safe (fun _ => True) currentFile := fun _ h => orderly_currentFile h
  refine hfile.bind fun file _ => ?_
  split
  · exact safe_declareStatic target v file
  · exact safe_reassignStatic target v file span

theorem orderly_assignedPlace (span : Span) (target : Name) (ty : Typing) {declare : Bool} (hs : s.Ready)
    (hf : declare = true → s.Framed) :
    Orderly s (fun _ => True) (assignedPlace span target ty declare s) := by
  have hplace : Safe (fun _ => True) (assignedPlace span target ty false) :=
    .get fun t => (safe_ofExcept (faultless_place t.scopes target span)).bind fun p _ => safe_pure trivial
  cases declare with
  | false => exact hplace hs
  | true =>
    exact orderly_bind (orderly_declareRuntime (hf rfl) target ty) fun _ s₁ hk _ => hplace (hs.kept hk)

theorem orderly_assignRuntime (hdeep : deeper.Safe) (span : Span) (target : Name) (ty : Typing)
    {value : Expr} {k : Nat} (hv : value.Proper k) {declare : Bool} (hs : s.Ready)
    (hf : declare = true → s.Framed) :
    Orderly s (fun _ => True) (assignRuntime deeper span target ty value declare s) := by
  unfold assignRuntime
  by_cases hst : value.isStatic = true
  · rw [if_pos hst]
    refine orderly_bind (safe_fold hdeep value hv hst hs) fun v s₁ hk₁ _ => ?_
    have hs₁ := hs.kept hk₁
    refine orderly_bind (safe_checkTyping _ _ _ _ hs₁) fun _ s₂ hk₂ _ => ?_
    have hs₂ := hs₁.kept hk₂
    refine orderly_bind (orderly_assignedPlace span target ty hs₂ fun hd => ?_) fun place s₃ hk₃ _ => ?_
    · exact (hk₁.trans hk₂).framed (hf hd)
    · exact orderly_emit (hs₂.kept hk₃) _
  · rw [if_neg hst]
    refine orderly_bind (safe_push hdeep value hv hs) fun _ s₁ hk₁ _ => ?_
    have hs₁ := hs.kept hk₁
    refine orderly_get (orderly_bind (safe_checkTyping _ _ _ _ hs₁) fun _ s₂ hk₂ _ => ?_)
    have hs₂ := hs₁.kept hk₂
    refine orderly_bind (orderly_assignedPlace span target ty hs₂ fun hd => ?_) fun place s₃ hk₃ _ => ?_
    · exact (hk₁.trans hk₂).framed (hf hd)
    · exact ((safe_emit _).bind fun _ _ => safe_emit _) (hs₂.kept hk₃)

theorem orderly_deliver (hdeep : deeper.Safe) (span : Span) {value : Expr} {k : Nat} (hv : value.Proper k)
    (hs : s.Ready) (hst : s.Expanding → value.isStatic = true) :
    Orderly s (fun _ => True) (deliver deeper span value s) := by
  refine orderly_get ?_
  cases ht : s.target with
  | none =>
    exact orderly_throw span _
  | some target =>
    cases target with
    | expansion label file value' =>
      have hx : s.Expanding := ⟨label, file, value', ht⟩
      refine orderly_bind (orderly_currentFile hs) fun f s₁ hk₁ _ => ?_
      by_cases hfile : f ≠ file
      · rw [if_pos hfile]
        exact orderly_throw span _
      rw [if_neg hfile]
      refine orderly_bind (safe_fold hdeep value hv (hst hx) (hs.kept hk₁)) fun v s₂ hk₂ _ => ?_
      have hx₂ : s₂.Expanding := (hk₁.trans hk₂).target.2 hx
      refine orderly_modify ⟨rfl, .refl _, ?_, id⟩
      exact ⟨fun _ => hx₂, fun _ => ⟨label, file, some v, rfl⟩⟩
    | storage =>
      by_cases hvalue : value.isStatic = true
      · rw [if_pos hvalue]
        exact ((safe_fold hdeep value hv hvalue).bind fun v _ => safe_emit _) hs
      · rw [if_neg hvalue]
        exact ((safe_push hdeep value hv).bind fun _ _ => (safe_emit _).bind fun _ _ => safe_emit _) hs

theorem safe_callStatement (hdeep : deeper.Safe) (span : Span) {name : Name} {args : List Expr}
    (h : Expr.ProperAll args) (hst : name.isStatic = true → args.all Expr.isStatic = true) :
    Safe (fun _ => True) (callStatement deeper span name args) := by
  unfold callStatement
  split
  · rename_i hn
    refine (safe_resolve span name args).bind fun e hresolved => ?_
    obtain ⟨he, hname, haccepts⟩ := hresolved
    refine (safe_foldAll hdeep args h (List.all_eq_true.1 (hst hn))).bind fun vs hvs => ?_
    have hlength := haccepts.length_eq.trans hvs.symm
    exact (safe_expand hdeep span he (by rw [hname]; exact hn) hlength).bind fun v _ => safe_pure trivial
  · rename_i hn
    exact safe_invoke hdeep span (Bool.eq_false_iff.2 hn) (fun _ => safe_foldStatics hdeep h)
      (fun params => safe_pushDynamics hdeep args params h) false

/-! ## Branches -/

theorem orderly_branch {b : Block} {body : Gen Unit} (hs : s.Ready)
    (hb : ∀ s₁, s₁.Ready → (s₁.Expanding → s.Expanding) → s₁.Framed ∨ Block.requiresScope b = false →
      Orderly s₁ (fun _ => True) (body s₁)) :
    Orderly s (fun _ => True) (branch b body s) := by
  refine orderly_inNewFile fun file => ?_
  have hready := hs.inNewFile file
  by_cases hscope : Block.requiresScope b = true
  · rw [if_pos hscope]
    refine orderly_inScope hready.writing hready.entries fun f s₁ hk hs₁ => ?_
    exact hb s₁ hs₁ hk.target.1 (.inl (hk.framed ⟨_, _, rfl, rfl⟩))
  · rw [if_neg hscope]
    exact hb _ hready id (.inr (Bool.eq_false_iff.2 hscope))

theorem orderly_conditional {test : Gen Unit} {body : Gen FileId} {other : Gen (Option FileId)}
    (hs : s.Ready) (htest : Safe (fun _ => True) test)
    (hbody : ∀ s₁, s.Kept s₁ → Orderly s₁ (fun _ => True) (body s₁))
    (hother : ∀ s₁, s.Kept s₁ → Orderly s₁ (fun _ => True) (other s₁)) :
    Orderly s (fun _ => True) (conditional test body other s) := by
  refine orderly_bind (htest hs) fun _ s₁ hk₁ _ => ?_
  refine orderly_bind (hbody s₁ hk₁) fun file s₂ hk₂ _ => ?_
  have hk₁₂ := hk₁.trans hk₂
  refine orderly_bind (orderly_emit (hs.kept hk₁₂) _) fun _ s₃ hk₃ _ => ?_
  have hk₁₃ := hk₁₂.trans hk₃
  refine orderly_bind (orderly_emit (hs.kept hk₁₃) _) fun _ s₄ hk₄ _ => ?_
  have hk₁₄ := hk₁₃.trans hk₄
  refine orderly_bind (hother s₄ hk₁₄) fun file' s₅ hk₅ _ => ?_
  have hs₅ := hs.kept (hk₁₄.trans hk₅)
  cases file' with
  | none => exact safe_emit _ hs₅
  | some file' => exact ((safe_emit _).bind fun _ _ => (safe_emit _).bind fun _ _ => safe_emit _) hs₅

/-! ## What is declared ahead -/

theorem sound_of_define {sig : Signature} {body : Block} (h : (Stmt.define span sig body).Proper)
    {i : Nat} {file : Option FileId}
    (hplaced : sig.name.isStatic = false → sig.staticParams = 0 → file.isSome = true) :
    Entry.Sound { id := i, function := ⟨span, sig, body⟩, file } :=
  ⟨h.2.1, fun hs => (Block.isStatic_eq_all body).trans (h.2.2 hs), hplaced⟩

/-- The functions in sight are sound as soon as the new one has its file, if it has one. -/
theorem sound_register {scopes scopes' : ScopeStack FileId} {sig : Signature} {body : Block} {i : Nat}
    (hs : scopes.Sound) (h : (Stmt.define span sig body).Proper)
    (hr : scopes.register ⟨span, sig, body⟩ = .ok (i, scopes')) :
    if (!sig.isStatic && sig.staticParams = 0) = true then
      ∀ file : FileId, (scopes'.updateEntry i fun e => { e with file := some file }).Sound
    else scopes'.Sound := by
  split
  · intro file e he
    rw [ScopeStack.entries_updateEntry] at he
    obtain ⟨e', he', rfl⟩ := List.mem_map.1 he
    rcases ScopeStack.mem_entries_register hr he' with hold | rfl
    · have hsound := hs e' hold
      split
      · exact ⟨hsound.body, hsound.static, fun _ _ => rfl⟩
      · exact hsound
    · rw [if_pos rfl]
      exact sound_of_define h fun _ _ => rfl
  · rename_i hplain
    intro e he
    rcases ScopeStack.mem_entries_register hr he with hold | rfl
    · exact hs e hold
    · refine sound_of_define h fun hn hzero => absurd ?_ hplain
      simp [Signature.isStatic, hn, hzero]

theorem faultless_register {scopes : ScopeStack FileId} (h : scopes.scopes ≠ []) (f : Function) :
    Faultless (scopes.register f) := by
  intro d hd
  obtain ⟨t, outer, ht⟩ := List.exists_cons_of_ne_nil h
  rw [ScopeStack.register, ScopeStack.top_ok.2 ⟨outer, ht⟩] at hd
  dsimp only [bind, Except.bind] at hd
  split at hd <;> cases hd

theorem orderly_hoist (hr : s.AtRoot) (name : Name) (ty : Typing) :
    Orderly s (fun _ => True) (onScopes (fun s => s.hoist name ty) s) := by
  refine orderly_onScopes ?_ fun scopes hok => ⟨ScopeStack.keeps_hoist hok, ScopeStack.entries_hoist hok⟩
  intro d hd
  obtain ⟨t, outer, ht, hkind⟩ := hr
  rw [ScopeStack.hoist, ScopeStack.top_ok.2 ⟨outer, ht⟩] at hd
  simp only [bind, Except.bind, hkind, ne_eq, not_true_eq_false, if_false] at hd
  split at hd <;> cases hd

theorem orderly_declareAhead {root : Bool} {d : Stmt} (h : d.Proper) (hs : s.Ready)
    (hroot : root = true → s.AtRoot) : Orderly s (fun _ => True) (declareAhead root d s) := by
  cases d with
  | assign span target ty value declare =>
    cases declare with
    | false => exact orderly_pure trivial
    | true =>
      rw [declareAhead]
      by_cases hahead : (root && target.dynamic) = true
      · rw [if_pos hahead]
        refine orderly_bind (orderly_hoist (hroot (Bool.and_eq_true_iff.1 hahead).1) target ty) ?_
        exact fun _ s₁ _ _ => orderly_pure trivial
      · rw [if_neg hahead]
        exact orderly_pure trivial
  | define span sig body =>
    rw [declareAhead]
    cases hreg : s.scopes.register ⟨span, sig, body⟩ with
    | error f =>
      rw [bind_of_ok (get_ok.2 ⟨rfl, rfl⟩), hreg]
      cases f with
      | diagnostic d => exact .refl s
      | defect d => exact absurd hreg (faultless_register hs.scopes _ d)
    | ok r =>
      obtain ⟨i, scopes⟩ := r
      have hsound := sound_register hs.entries h hreg
      have hkeeps := ScopeStack.keeps_register hreg
      by_cases hplaced : (!sig.isStatic && sig.staticParams = 0) = true
      · have hkept : s.Kept { s.mint with
            scopes := scopes.updateEntry i fun e => { e with file := some s.files.size } } := by
          rw [if_pos hplaced] at hsound
          exact ⟨rfl, hkeeps.trans (ScopeStack.keeps_updateEntry _ _ _), Iff.rfl, fun _ => hsound _⟩
        simp only [if_pos hplaced]
        rw [bind_of_ok (get_ok.2 ⟨rfl, rfl⟩), hreg]
        exact ⟨hkept, trivial⟩
      · have hkept : s.Kept { s with scopes } := by
          rw [if_neg hplaced] at hsound
          exact .of_scopes hkeeps fun _ => hsound
        simp only [if_neg hplaced]
        rw [bind_of_ok (get_ok.2 ⟨rfl, rfl⟩), hreg]
        exact ⟨hkept, trivial⟩
  | command _ _ _ => exact orderly_pure trivial
  | cond _ _ _ _ => exact orderly_pure trivial
  | call _ _ _ => exact orderly_pure trivial
  | ret _ _ => exact orderly_pure trivial

theorem orderly_declareAheads {root : Bool} {b : Block} (h : Block.Proper b) (hs : s.Ready)
    (hroot : root = true → s.AtRoot) : Orderly s (fun _ => True) (b.mapM (declareAhead root) s) := by
  induction b generalizing s with
  | nil =>
    rw [List.mapM_nil]
    exact orderly_pure trivial
  | cons d b ih =>
    rw [List.mapM_cons]
    refine orderly_bind (orderly_declareAhead h.1 hs hroot) fun o s₁ hk _ => ?_
    refine orderly_bind (ih h.2 (hs.kept hk) fun hr => hk.atRoot (hroot hr)) fun os s₂ _ _ => ?_
    exact orderly_pure trivial

theorem orderly_inOrder {b : Block} {bodies : List (Option FileId) → Gen Unit} {statements : Gen Unit}
    (h : Block.Proper b) (hs : s.Ready)
    (hbodies : ∀ files s₁, s₁.Ready → Orderly s₁ (fun _ => True) (bodies files s₁))
    (hstatements : ∀ s₁, s.Kept s₁ → Orderly s₁ (fun _ => True) (statements s₁)) :
    Orderly s (fun _ => True) (inOrder b bodies statements s) := by
  obtain ⟨t, outer, ht⟩ := List.exists_cons_of_ne_nil hs.scopes
  have htop : s.scopes.top = .ok t := ScopeStack.top_ok.2 ⟨outer, ht⟩
  unfold inOrder
  rw [bind_of_ok (get_ok.2 ⟨rfl, rfl⟩), bind_of_ok (ofExcept_ok.2 ⟨htop, rfl⟩)]
  refine orderly_bind (orderly_declareAheads h hs fun hr => ⟨t, outer, ht, by simpa using hr⟩)
    fun files s₁ hk₁ _ => ?_
  refine orderly_bind (hbodies files s₁ (hs.kept hk₁)) fun _ s₂ hk₂ _ => ?_
  exact hstatements s₂ (hk₁.trans hk₂)

/-! ## Blocks -/

/-- A branch of a conditional, given how its block is generated. -/
theorem orderly_arm {b : Block} {bodies : List (Option FileId) → Gen Unit} {statements : Gen Unit}
    (h : Block.Proper b) (hs : s.Ready) (hst : s.Expanding → Block.isStatic b = true)
    (hbodies : ∀ files s₁, s₁.Ready → Orderly s₁ (fun _ => True) (bodies files s₁))
    (hstatements : ∀ s₁, s₁.Ready → Block.Suits b s₁ → Orderly s₁ (fun _ => True) (statements s₁)) :
    Orderly s (fun _ => True) (branch b (inOrder b bodies statements) s) := by
  refine orderly_branch hs fun s₁ hs₁ hx hf => ?_
  have hsuits : Block.Suits b s₁ := ⟨fun h₁ => hst (hx h₁), hf.imp_right .inr⟩
  refine orderly_inOrder h hs₁ hbodies fun s₂ hk => ?_
  exact hstatements s₂ (hs₁.kept hk) (hsuits.kept hk)

mutual
theorem orderly_statement (hdeep : deeper.Safe) : (d : Stmt) → d.Proper → {s : GenState} → s.Ready →
    d.Suits s → Orderly s (fun _ => True) (statement deeper d s)
  | .command _ parts tail, h, s, hs, _ => by
    rw [statement]
    exact ((safe_commandText hdeep h.1).bind fun text _ => safe_emit _) hs
  | .cond _ test body other, h, s, hs, hsuits => by
    have hst : s.Expanding → Block.isStatic body = true ∧ other.isStatic = true := by
      intro hx
      have hall := hsuits.static hx
      simp only [Stmt.isStatic, Bool.and_eq_true] at hall
      exact ⟨hall.1.2, hall.2⟩
    rw [statement]
    refine orderly_conditional hs (safe_push hdeep test h.1) (fun s₁ hk => ?_) fun s₁ hk => ?_
    · exact orderly_arm h.2.1 (hs.kept hk) (fun hx => (hst (hk.target.1 hx)).1)
        (fun files s₂ hs₂ => orderly_reservedBodies hdeep body h.2.1 files hs₂)
        (fun s₂ hs₂ => orderly_statements hdeep body h.2.1 hs₂)
    · exact orderly_otherwise hdeep other h.2.2 (hs.kept hk) fun hx => (hst (hk.target.1 hx)).2
  | .assign span target ty value declare, h, s, hs, hsuits => by
    rw [statement]
    by_cases ht : target.isStatic = true
    · rw [if_pos ht]
      exact safe_assignStatic hdeep span target ty h.2.1 (h.2.2.1 ht) declare hs
    · rw [if_neg ht]
      refine orderly_assignRuntime hdeep span target ty h.2.1 hs fun hd => ?_
      rcases hsuits.framed with hf | hst | hsc
      · exact hf
      · exact absurd hst ht
      · rw [hd] at hsc
        cases hsc
  | .define _ _ _, _, s, _, _ => by
    rw [statement]
    exact orderly_pure trivial
  | .call span name args, h, s, hs, _ => by
    rw [statement]
    exact safe_callStatement hdeep span h.2.1 h.2.2 hs
  | .ret span value, h, s, hs, hsuits => by
    rw [statement]
    exact orderly_deliver hdeep span (show value.Proper 2 from h) hs hsuits.static
theorem orderly_otherwise (hdeep : deeper.Safe) : (o : Otherwise) → o.Proper → {s : GenState} → s.Ready →
    (s.Expanding → o.isStatic = true) → Orderly s (fun _ => True) (otherwise deeper o s)
  | .nothing, _, s, _, _ => by
    rw [otherwise]
    exact orderly_pure trivial
  | .block body, h, s, hs, hst => by
    rw [otherwise]
    refine orderly_bind (orderly_arm (show Block.Proper body from h) hs hst ?_ ?_)
      fun file s₁ _ _ => orderly_pure trivial
    · exact fun files s₁ hs₁ => orderly_reservedBodies hdeep body h files hs₁
    · exact fun s₁ hs₁ => orderly_statements hdeep body h hs₁
  | .cond _ test body other, h, s, hs, hst => by
    have hst' : s.Expanding → Block.isStatic body = true ∧ other.isStatic = true := by
      intro hx
      have hall := hst hx
      simp only [Otherwise.isStatic, Bool.and_eq_true] at hall
      exact ⟨hall.1.2, hall.2⟩
    rw [otherwise]
    refine orderly_bind (orderly_inNewFile fun file => ?_) fun file s₁ _ _ => orderly_pure trivial
    have hready := hs.inNewFile file
    refine orderly_conditional hready (safe_push hdeep test h.1) (fun s₁ hk => ?_) fun s₁ hk => ?_
    · exact orderly_arm h.2.1 (hready.kept hk) (fun hx => (hst' (hk.target.1 hx)).1)
        (fun files s₂ hs₂ => orderly_reservedBodies hdeep body h.2.1 files hs₂)
        (fun s₂ hs₂ => orderly_statements hdeep body h.2.1 hs₂)
    · exact orderly_otherwise hdeep other h.2.2 (hready.kept hk) fun hx => (hst' (hk.target.1 hx)).2
theorem orderly_statements (hdeep : deeper.Safe) : (b : List Stmt) → Block.Proper b → {s : GenState} →
    s.Ready → Block.Suits b s → Orderly s (fun _ => True) (statements deeper b s)
  | [], _, s, _, _ => by
    rw [statements]
    exact orderly_pure trivial
  | d :: b, h, s, hs, hsuits => by
    rw [statements]
    refine orderly_bind (orderly_statement hdeep d h.1 hs hsuits.cons.1) fun _ s₁ hk _ => ?_
    exact orderly_statements hdeep b h.2 (hs.kept hk) (hsuits.cons.2.kept hk)
/-- Bodies with a file of their own need nothing of the state around them. -/
theorem orderly_reservedBodies (hdeep : deeper.Safe) : (b : List Stmt) → Block.Proper b →
    (files : List (Option FileId)) → {s : GenState} → s.Ready →
    Orderly s (fun _ => True) (reservedBodies deeper b files s)
  | [], _, files, s, _ => by
    rw [reservedBodies.eq_def]
    exact orderly_pure trivial
  | d :: b, _, [], s, _ => by
    rw [reservedBodies.eq_def]
    cases d <;> exact orderly_pure trivial
  | d :: b, h, o :: files, s, hs => by
    have hlater (s₁ : GenState) (hs₁ : s₁.Ready) :=
      orderly_reservedBodies hdeep b h.2 files hs₁
    rw [reservedBodies.eq_def]
    cases d with
    | define span sig body =>
      cases o with
      | none => exact hlater s hs
      | some file =>
        have hbody : Block.Proper body := h.1.2.1
        refine orderly_bind (orderly_functionBody hs fun s₁ hs₁ hf hx => ?_)
          fun _ s₁ hk _ => hlater s₁ (hs.kept hk)
        have hsuits : Block.Suits body s₁ := ⟨fun h₁ => absurd h₁ hx, .inl hf⟩
        exact orderly_inOrder hbody hs₁
          (fun files' s₂ hs₂ => orderly_reservedBodies hdeep body hbody files' hs₂)
          fun s₂ hk => orderly_statements hdeep body hbody (hs₁.kept hk) (hsuits.kept hk)
    | _ => exact hlater s hs
end

theorem orderly_block (hdeep : deeper.Safe) {b : Block} (h : Block.Proper b) (hs : s.Ready)
    (hsuits : Block.Suits b s) : Orderly s (fun _ => True) (block deeper b s) :=
  orderly_inOrder h hs (fun files _ hs₁ => orderly_reservedBodies hdeep b h files hs₁)
    fun _ hk => orderly_statements hdeep b h (hs.kept hk) (hsuits.kept hk)

theorem safe_levels (n : Nat) : (levels n).Safe := by
  induction n with
  | zero =>
    rintro generate ⟨⟩
  | succ n ih =>
    rintro generate ⟨⟩ b s h hs hsuits
    exact orderly_block ih h hs hsuits

theorem orderly_program (ns : Bytes) {p : Program} (h : Block.Proper p.body) :
    Orderly {} (fun _ => True) (program ns p {}) := by
  refine orderly_bind orderly_newFile fun file s₁ hk₁ _ => orderly_writingTo ?_
  have he : s₁.scopes.Sound := hk₁.entries (by rintro e ⟨⟩)
  refine orderly_inScope (List.cons_ne_nil _ _) he fun f s₂ hk₂ hs₂ => ?_
  have hf₂ : s₂.Framed := hk₂.framed ⟨_, _, rfl, rfl⟩
  have hx₂ : ¬s₂.Expanding := by
    intro hx
    obtain ⟨label, file', value, ⟨⟩⟩ := hk₁.target.1 (hk₂.target.1 hx)
  refine orderly_bind (safe_declareStatic _ _ file hs₂) fun _ s₃ hk₃ _ => ?_
  have hsuits : Block.Suits p.body s₃ :=
    ⟨fun hx => absurd (hk₃.target.1 hx) hx₂, .inl (hk₃.framed hf₂)⟩
  have hs₃ := hs₂.kept hk₃
  refine orderly_bind (orderly_block (safe_levels maxNesting) h hs₃ hsuits) fun _ s₄ hk₄ _ => ?_
  obtain ⟨t, outer, ht⟩ := List.exists_cons_of_ne_nil (hs₃.kept hk₄).scopes
  have htop : s₄.scopes.top = .ok t := ScopeStack.top_ok.2 ⟨outer, ht⟩
  rw [bind_of_ok (get_ok.2 ⟨rfl, rfl⟩), bind_of_ok (ofExcept_ok.2 ⟨htop, rfl⟩)]
  exact orderly_pure trivial

end Gen

/-- Whatever program was parsed, generation gives a pack or an error with a place in the
program; it never breaks a contract of its own. -/
theorem Program.generate_result_or_diagnostic {source : Bytes} {p : Program} (h : Program.parse source = .ok p)
    (ns : Bytes) : (∃ g, p.generate ns = .ok g) ∨ ∃ d, p.generate ns = .error (.diagnostic d) := by
  have horderly : Gen.Orderly {} (fun _ => True) ((Gen.program ns p).run {}) :=
    Gen.orderly_program ns (Program.proper_of_parse h)
  unfold Program.generate
  cases hrun : (Gen.program ns p).run {} with
  | ok statics s => exact .inl ⟨_, rfl⟩
  | error f s =>
    rw [hrun] at horderly
    cases f with
    | diagnostic d => exact .inr ⟨d, rfl⟩
    | defect d => exact horderly.elim

/-- A static function in the body of a function that is generated for a static argument, a branch
that declares a variable, and a variable that a function reads before it is declared. -/
theorem Program.generate_result_or_diagnostic_call : ∃ p,
    Program.parse ("def twice(n)\x7breturn n*2;\x7ddef $f(n,$x)\x7bif $x\x7b$y:=twice(n)+$g;\x7dreturn $x+n;\x7d" ++
      "$g:=1;if twice(1)\x7b$a:=$f(2,$g);\x7delse if $f(3,1)\x7b\x7d") = .ok p ∧
      ((∃ g, p.generate "demo" = .ok g) ∨ ∃ d, p.generate "demo" = .error (.diagnostic d)) := by
  have hok : (Program.parse
      ("def twice(n)\x7breturn n*2;\x7ddef $f(n,$x)\x7bif $x\x7b$y:=twice(n)+$g;\x7dreturn $x+n;\x7d" ++
        "$g:=1;if twice(1)\x7b$a:=$f(2,$g);\x7delse if $f(3,1)\x7b\x7d")).toBool = true := by
    decide +kernel
  cases hp : Program.parse
      ("def twice(n)\x7breturn n*2;\x7ddef $f(n,$x)\x7bif $x\x7b$y:=twice(n)+$g;\x7dreturn $x+n;\x7d" ++
        "$g:=1;if twice(1)\x7b$a:=$f(2,$g);\x7delse if $f(3,1)\x7b\x7d") with
  | error f =>
    rw [hp] at hok
    cases hok
  | ok p => exact ⟨p, rfl, generate_result_or_diagnostic hp "demo"⟩

end PackScript
