import PackScript.Proofs.Generation.Confinement

/-! # Confined calls and expressions

A call works in files and scopes of its own, and an expression declares nothing. Nothing has to
be known of the syntax trees or of the functions in sight for that. The bodies that calls lead
to are taken to be confined here.
-/
namespace PackScript

/-- The bodies one level deeper are confined, whatever they own. -/
def Deeper.Tame (deeper : Deeper) : Prop :=
  ∀ generate, deeper = some generate → ∀ (own : FileId → Prop) (i : Nat) (b : Block),
    Gen.Tame own i (Block.requiresScope b) (generate b)

namespace Gen

variable {α : Type} {own : FileId → Prop} {i : Nat} {d : Bool} {s : GenState} {deeper : Deeper}

/-! ## Calls -/

theorem tame_resolve (span : Span) (name : Name) (args : List Expr) :
    Tame own i d (resolve span name args) := by
  refine Tame.get fun t => (tame_ofExcept _).bind fun e s _ => ?_
  exact GenState.Confined.updateEntry fun _ _ => ⟨rfl, rfl, fun _ => rfl⟩

/-- A static variable is declared in the current file. -/
theorem confined_declareStatic {file : FileId} {fs : List FileId} (hw : s.writing = file :: fs) (name : Name)
    (v : Value) : s.Confined own i true (after (onScopes fun s => s.declareStatic name v file) s) := by
  refine confined_onScopes fun scopes h => ?_
  obtain ⟨t, outer, ht, rfl⟩ := ScopeStack.declareStatic_ok h
  refine .of_top ht rfl (Nat.le_refl _) ⟨⟨rfl, rfl, rfl⟩, fun b hb => ?_, fun e he => .inr ⟨e, he, rfl⟩⟩
  rcases List.mem_cons.1 hb with rfl | hb
  · left
    rw [hw]
    rfl
  · exact .inr ⟨b, (List.mem_filter.1 hb).1, rfl⟩

theorem confined_declareRuntime (name : Name) (ty : Typing) :
    s.Confined own i true (after (onScopes fun s => s.declareRuntime name ty) s) := by
  refine confined_onScopes fun scopes h => ?_
  obtain ⟨t, outer, ht, -, rfl⟩ := ScopeStack.declareRuntime_ok h
  exact .of_top ht rfl (Nat.le_refl _)
    ⟨⟨rfl, rfl, rfl⟩, fun b hb => .inr ⟨b, hb, rfl⟩, fun e he => .inr ⟨e, he, rfl⟩⟩

theorem confined_bindArguments {file : FileId} {fs : List FileId} (hw : s.writing = file :: fs)
    (params : List Param) (vs : List Value) :
    s.Confined own i true (after (bindArguments file params vs) s) := by
  induction params generalizing s vs with
  | nil =>
    rw [bindArguments]
    exact .refl own i true s
  | cons p params ih =>
    cases vs with
    | nil => exact .refl own i true s
    | cons v vs =>
      rw [bindArguments]
      refine confined_bind (confined_declareStatic hw p.name v) fun _ s₁ _ hc => ?_
      exact ih (hc.writing.trans hw) vs

theorem tame_expand (hdeep : deeper.Tame) (span : Span) (e : Entry FileId) (arguments : List Value) :
    Tame own i d (expand deeper span e arguments) := by
  cases deeper with
  | none => exact tame_throw _
  | some generate =>
    intro s hs
    obtain ⟨f, fs, hw, ho⟩ := hs.writing
    rw [expand, after_bind (currentFile_ok.2 ⟨⟨fs, hw⟩, rfl⟩)]
    refine confined_nested (confined_returningTo (confined_bind ?_ fun _ s₁ _ _ => .refl own i d s₁))
    refine confined_inScope ⟨hs.fresh, hs.ids⟩ hw ho fun s₁ hs₁ hw₁ => ?_
    refine confined_bind (confined_bindArguments (hw₁.trans hw) _ _) fun _ s₂ _ hc => ?_
    exact (hdeep generate rfl own i _).imp (fun _ => rfl) (hs₁.confined hc)

theorem confined_declareParams {file : FileId} {fs : List FileId} (hw : s.writing = file :: fs)
    (statics : List (Name × Value)) (params : List Param) :
    s.Confined own i true (after (declareParams file statics params) s) := by
  induction params generalizing s with
  | nil => exact .refl own i true s
  | cons p params ih =>
    rw [declareParams]
    split
    · refine confined_bind (confined_declareRuntime p.name p.typing) fun _ s₁ _ hc => ?_
      exact ih (hc.writing.trans hw)
    · refine confined_bind (confined_declareStatic hw p.name _) fun _ s₁ _ hc => ?_
      exact ih (hc.writing.trans hw)

/-- The body of a function needs no more than its file. -/
theorem confined_functionBody {file : FileId} {body : Gen Unit} (hclear : s.Clear own i) (ho : own file)
    (params : List Param) (statics : List (Name × Value)) (hb : Tame own i true body) :
    s.Confined own i d (after (functionBody file params statics body) s) := by
  refine confined_writingTo (confined_inScope ⟨hclear.fresh, hclear.ids⟩ rfl ho fun s₁ hs₁ hw₁ => ?_)
  refine confined_bind (confined_declareParams hw₁ statics params) fun _ s₂ _ hc => ?_
  have hs₂ := hs₁.confined hc
  exact confined_returningTo (hb ⟨⟨hs₂.fresh, hs₂.ids⟩, hs₂.writing, hs₂.scopes⟩)

theorem confined_specialize (hdeep : deeper.Tame) (hclear : s.Clear own i) (span : Span) (e : Entry FileId)
    (statics : List (Name × Value)) : s.Confined own i d (after (specialize deeper span e statics) s) := by
  rw [specialize, after_bind (get_ok.2 ⟨rfl, rfl⟩)]
  dsimp only
  split
  · exact .refl own i d s
  · cases deeper with
    | none => exact .refl own i d s
    | some generate =>
      rw [after_bind (newFile_ok.2 ⟨rfl, rfl⟩), after_bind (modify_ok (u := ()) |>.2 rfl)]
      have hrecord : s.mint.Confined own i d { s.mint with
          scopes := s.scopes.updateEntry e.id fun e' => { e' with
            specialized := (s.scopes.specializationKey e.function (statics.map Prod.snd), s.files.size) ::
              e'.specialized } } :=
        GenState.Confined.updateEntry (s := s.mint) fun _ _ => ⟨rfl, rfl, fun _ => rfl⟩
      have hrecorded := confined_mint.trans hrecord
      refine hrecorded.trans (confined_bind (confined_nested ?_) fun _ s₁ _ _ => .refl own i d s₁)
      have hclear₁ := (hclear.confined hrecorded).deepen
      refine confined_functionBody hclear₁ (hclear.fresh _ (Nat.le_refl _)) _ _ ?_
      exact (hdeep generate rfl own i _).imp fun _ => rfl

theorem tame_fillFrame (params : List Param) : Tame own i d (fillFrame params) := by
  induction params with
  | nil => exact tame_pure ()
  | cons p params ih =>
    rw [fillFrame]
    split
    · exact (tame_emit _).bind fun _ => (tame_emit _).bind fun _ => ih
    · exact ih

theorem tame_invoke (hdeep : deeper.Tame) (span : Span) (name : Name) (args : List Expr)
    {foldStatics : List Param → Gen (List (Name × Value))} {pushDynamics : List Param → Gen Unit}
    (hfold : ∀ params, Tame own i d (foldStatics params))
    (hpush : ∀ params, Tame own i d (pushDynamics params)) (isValue : Bool) :
    Tame own i d (invoke deeper span name args foldStatics pushDynamics isValue) := by
  refine (tame_resolve span name args).bind fun e => ?_
  have hrun (file : FileId) : Tame own i d (do
      pushDynamics e.signature.params
      emit .openFrame
      fillFrame e.signature.params
      emit (.call file)
      emit .closeFrame
      if isValue then emit (.pushFrom .result) else pure ()) := by
    refine (hpush _).bind fun _ => (tame_emit _).bind fun _ => ?_
    refine (tame_fillFrame _).bind fun _ => (tame_emit _).bind fun _ => (tame_emit _).bind fun _ => ?_
    split
    · exact tame_emit _
    · exact tame_pure ()
  dsimp only
  split
  · exact tame_throw _
  split
  · refine (hfold _).bind fun statics => ?_
    refine Tame.bind (fun _ hs => confined_specialize hdeep hs.toClear span e statics) fun file => hrun file
  · cases e.file with
    | none => exact tame_throw _
    | some file => exact hrun file

/-! ## Expressions -/

theorem tame_settle (span : Span) (r : Except Cause Value) : Tame own i d (settle span r) := by
  cases r with
  | ok v => exact tame_pure v
  | error cause => exact tame_throw _

mutual
theorem tame_fold (hdeep : deeper.Tame) (e : Expr) : Tame own i d (fold deeper e) := by
  rw [fold.eq_def]
  split
  · exact tame_throw _
  match e with
  | .number _ _ => exact tame_pure _
  | .string _ _ => exact tame_pure _
  | .bool _ _ => exact tame_pure _
  | .paren _ inner => exact tame_fold hdeep inner
  | .var span n => exact Tame.get fun t => tame_ofExcept _
  | .sum span l r =>
    exact (tame_fold hdeep l).bind fun a => (tame_fold hdeep r).bind fun b => tame_settle span _
  | .product span l r =>
    exact (tame_fold hdeep l).bind fun a => (tame_fold hdeep r).bind fun b => tame_settle span _
  | .call span n args =>
    refine (tame_resolve span n args).bind fun f => (tame_foldAll hdeep args).bind fun vs => ?_
    refine (tame_expand hdeep span f vs).bind fun v => ?_
    cases v with
    | none => exact tame_throw _
    | some v => exact tame_pure v
theorem tame_foldAll (hdeep : deeper.Tame) (es : List Expr) : Tame own i d (foldAll deeper es) := by
  match es with
  | [] => exact tame_pure []
  | e :: es =>
    rw [foldAll]
    exact (tame_fold hdeep e).bind fun v => (tame_foldAll hdeep es).bind fun vs => tame_pure _
end

theorem tame_foldStatics (hdeep : deeper.Tame) (args : List Expr) (params : List Param) :
    Tame own i d (foldStatics deeper args params) := by
  change Tame own i d (foldStatics.go deeper args params)
  induction params generalizing args with
  | nil =>
    cases args with
    | nil => exact tame_pure []
    | cons a args => exact tame_pure []
  | cons p params ih =>
    cases args with
    | nil => exact tame_throw _
    | cons a args =>
      rw [foldStatics.go]
      split
      · exact ih args
      · exact (tame_fold hdeep a).bind fun v => (ih args).bind fun vs => tame_pure _

theorem tame_combine (op : Operation) : Tame own i d (combine op) := by
  unfold combine
  refine (tame_emit _).bind fun _ => (tame_emit _).bind fun _ => (tame_emit _).bind fun _ => ?_
  exact (tame_emit _).bind fun _ => (tame_emit _).bind fun _ => (tame_emit _).bind fun _ => tame_emit _

theorem tame_refuseStrings (span : Span) (l r : Expr) : Tame own i d (refuseStrings span l r) := by
  refine Tame.get fun t => ?_
  dsimp only
  split
  · exact tame_throw _
  · exact tame_pure ()

mutual
theorem tame_push (hdeep : deeper.Tame) (e : Expr) : Tame own i d (push deeper e) := by
  rw [push.eq_def]
  split
  · exact (tame_fold hdeep e).bind fun v => tame_emit _
  match e with
  | .number _ _ => exact tame_throw _
  | .string _ _ => exact tame_throw _
  | .bool _ _ => exact tame_throw _
  | .paren _ inner => exact tame_push hdeep inner
  | .var span n => exact Tame.get fun t => (tame_ofExcept _).bind fun p => tame_emit _
  | .sum span l r =>
    refine (tame_refuseStrings span l r).bind fun _ => (tame_push hdeep l).bind fun _ => ?_
    exact (tame_push hdeep r).bind fun _ => tame_combine .add
  | .product span l r =>
    refine (tame_refuseStrings span l r).bind fun _ => (tame_push hdeep l).bind fun _ => ?_
    exact (tame_push hdeep r).bind fun _ => tame_combine .multiply
  | .call span n args =>
    exact tame_invoke hdeep span n args (tame_foldStatics hdeep args)
      (fun params => tame_pushDynamics hdeep args params) true
theorem tame_pushDynamics (hdeep : deeper.Tame) (args : List Expr) (params : List Param) :
    Tame own i d (pushDynamics deeper args params) := by
  match args, params with
  | _, [] =>
    rw [pushDynamics.eq_def]
    cases args <;> exact tame_pure ()
  | [], _ :: _ => exact tame_throw _
  | a :: args, p :: params =>
    rw [pushDynamics]
    refine (tame_pushDynamics hdeep args params).bind fun _ => ?_
    split
    · exact tame_push hdeep a
    · exact tame_pure ()
end

end Gen
end PackScript
