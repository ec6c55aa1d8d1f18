import PackScript.Proofs.Generation.BlockLaw
import PackScript.Proofs.Syntax.Places

/-! # What generation blames

An error that generation raises about a program has the place of a statement or an expression of that
program. Which one that is depends on the cause: a call, the use of a variable, an operation, an
assignment, a declaration. Operations that know no place can fail only by a defect.
-/
namespace PackScript

variable {L : Law}

/-- An error about the program has the place of one of its lawful parts. -/
def Law.Blames (L : Law) (f : Failure) : Prop :=
  ∀ d, f = .diagnostic d → ∃ node, L.part node ∧ node.span? = some d.span

theorem Law.blames_ofCause {node : Node} {span : Span} (h : L.part node) (hs : node.span? = some span)
    (cause : Cause) : L.Blames (.ofCause span cause) := by
  intro d hd
  cases hd
  exact ⟨node, h, hs⟩

namespace Gen

variable {α β : Type} {Q : α → Prop} {R : β → Prop} {s s' : GenState} {f : Failure}

/-! ## Failing stretches -/

theorem bind_error {m : Gen α} {k : α → Gen β} (h : (m >>= k) s = .error f s') :
    m s = .error f s' ∨ ∃ a s₁, m s = .ok a s₁ ∧ k a s₁ = .error f s' := by
  cases hm : m s with
  | ok a s₁ =>
    rw [bind_of_ok hm] at h
    exact .inr ⟨a, s₁, rfl, h⟩
  | error g s₁ =>
    rw [bind_of_error hm] at h
    cases h
    exact .inl rfl

theorem finally_error {m : Gen α} {fin : Gen Unit} (h : tryFinally m fin s = .error f s') :
    (∃ s₁, m s = .error f s₁) ∨ ∃ s₁, fin s₁ = .error f s' := by
  unfold tryFinally at h
  simp only [Functor.map, EStateM.map, tryFinally'] at h
  cases hm : m s with
  | ok a s₁ =>
    rw [hm] at h
    dsimp only at h
    cases hf : fin s₁ with
    | ok u s₂ =>
      rw [hf] at h
      cases h
    | error g s₂ =>
      rw [hf] at h
      cases h
      exact .inr ⟨s₁, hf⟩
  | error g s₁ =>
    rw [hm] at h
    dsimp only at h
    cases hf : fin s₁ with
    | ok u s₂ =>
      rw [hf] at h
      cases h
      exact .inl ⟨s₁, rfl⟩
    | error g' s₂ =>
      rw [hf] at h
      cases h
      exact .inr ⟨s₁, hf⟩

/-! ## Stretches that blame nothing -/

/-- A stretch that can fail only by a defect. -/
def Quiet (m : Gen α) : Prop := ∀ ⦃s d s'⦄, m s ≠ .error (.diagnostic d) s'

theorem quiet_pure (a : α) : Quiet (pure a) := by
  intro s d s' h
  cases h

theorem quiet_defect (d : Defect) : Quiet (throw (.defect d) : Gen α) := by
  intro s d' s' h
  cases h

theorem Quiet.bind {m : Gen α} {k : α → Gen β} (hm : Quiet m) (hk : ∀ a, Quiet (k a)) : Quiet (m >>= k) := by
  intro s d s' h
  rcases bind_error h with h | ⟨a, s₁, -, h⟩
  · exact hm h
  · exact hk a h

theorem quiet_get : Quiet (get : Gen GenState) := by
  intro s d s' h
  cases h

theorem quiet_modify (g : GenState → GenState) : Quiet (modify g : Gen Unit) := by
  intro s d s' h
  cases h

theorem quiet_ofExcept {r : Except Failure α} (h : ∀ d, r ≠ .error (.diagnostic d)) : Quiet (ofExcept r : Gen α) := by
  cases r with
  | ok a => exact quiet_pure a
  | error f =>
    cases f with
    | diagnostic d => exact absurd rfl (h d)
    | defect d => exact quiet_defect d

theorem quiet_newFile : Quiet newFile := by
  intro s d s' h
  cases h

theorem quiet_currentFile : Quiet currentFile := by
  refine quiet_get.bind fun t => ?_
  cases t.writing with
  | nil => exact quiet_defect _
  | cons file files => exact quiet_pure file

theorem quiet_emit (c : Command) : Quiet (emit c) := quiet_currentFile.bind fun _ => quiet_modify _

theorem quiet_onScopes {g : ScopeStack FileId → Except Failure (ScopeStack FileId)}
    (h : ∀ scopes d, g scopes ≠ .error (.diagnostic d)) : Quiet (onScopes g) :=
  quiet_get.bind fun t => (quiet_ofExcept (h t.scopes)).bind fun _ => quiet_modify _

theorem quiet_closeScope : Quiet closeScope := by
  refine quiet_get.bind fun t => (quiet_ofExcept ?_).bind fun r => (quiet_modify _).bind fun _ => ?_
  · rw [ScopeStack.pop]
    cases t.scopes.scopes with
    | nil => exact fun _ h => by cases h
    | cons top outer => exact fun _ h => by cases h
  · rw [warnUncalled]
    generalize r.1.entries.filter _ = es
    induction es with
    | nil => exact quiet_pure ()
    | cons e es ih => exact (quiet_modify _).bind fun _ => ih

/-! ## Stretches that blame the program -/

/-- A lawful stretch whose errors are about lawful parts of the program. -/
structure Blames (L : Law) (Q : α → Prop) (m : Gen α) : Prop where
  lawful : Lawful L Q m
  blamed : ∀ ⦃s f s'⦄, s.Obeys L → m s = .error f s' → L.Blames f

theorem Lawful.blames {m : Gen α} (h : Lawful L Q m) (hq : Quiet m) : Blames L Q m := by
  refine ⟨h, fun s f s' _ hf d hd => ?_⟩
  rw [hd] at hf
  exact absurd hf (@hq s d s')

theorem blames_throw {f : Failure} (h : L.Blames f) : Blames L Q (throw f) := by
  refine ⟨lawful_throw f, fun s g s' _ hg => ?_⟩
  cases hg
  exact h

theorem blames_defect (d : Defect) : Blames L Q (throw (.defect d)) := (lawful_throw _).blames (quiet_defect d)

theorem blames_pure {a : α} (ha : Q a) : Blames L Q (pure a) := (lawful_pure ha).blames (quiet_pure a)

theorem blames_ofExcept {r : Except Failure α} (h : ∀ a, r = .ok a → Q a)
    (hf : ∀ f, r = .error f → L.Blames f) : Blames L Q (ofExcept r) := by
  cases r with
  | ok a => exact blames_pure (h a rfl)
  | error f => exact blames_throw (hf f rfl)

namespace Blames

theorem bind {m : Gen α} {k : α → Gen β} (hm : Blames L Q m) (hk : ∀ a, Q a → Blames L R (k a)) :
    Blames L R (m >>= k) := by
  refine ⟨hm.lawful.bind fun a ha => (hk a ha).lawful, fun s f s' hs h => ?_⟩
  rcases bind_error h with h | ⟨a, s₁, ha, h⟩
  · exact hm.blamed hs h
  · obtain ⟨hs₁, -, hQ⟩ := hm.lawful hs ha
    exact (hk a hQ).blamed hs₁ h

theorem get {k : GenState → Gen β} (h : ∀ t : GenState, t.Obeys L → Blames L R (k t)) :
    Blames L R (get >>= k) :=
  ⟨Lawful.get fun t ht => (h t ht).lawful, fun s _ _ hs hf => (h s hs).blamed hs hf⟩

theorem ite {c : Prop} [Decidable c] {m n : Gen α} (hm : c → Blames L Q m) (hn : ¬c → Blames L Q n) :
    Blames L Q (if c then m else n) := by
  split
  · exact hm ‹_›
  · exact hn ‹_›

end Blames

theorem blames_currentFile : Blames L (fun _ => True) currentFile := lawful_currentFile.blames quiet_currentFile

theorem blames_emit {c : Command} (hc : L.command c) : Blames L (fun _ => True) (emit c) :=
  (lawful_emit hc).blames (quiet_emit c)

/-- A bracket whose end blames nothing. -/
theorem blames_finally {m : Gen α} {fin : Gen Unit} (hm : Blames L Q m) (hfin : Quiet fin) (hs : s.Obeys L)
    (h : tryFinally m fin s = .error f s') : L.Blames f := by
  rcases finally_error h with ⟨s₁, h⟩ | ⟨s₁, h⟩
  · exact hm.blamed hs h
  · intro d hd
    rw [hd] at h
    exact absurd h (@hfin s₁ d s')

theorem blames_writingTo (file : FileId) {body : Gen α} (h : Blames L Q body) : Blames L Q (writingTo file body) := by
  refine ⟨lawful_writingTo file h.lawful, fun s f s' hs hf => ?_⟩
  have hin : (s.enter file).Obeys L := ⟨hs.scopes, hs.returned, hs.files⟩
  exact blames_finally h (quiet_modify _) hin hf

theorem blames_inNewFile {body : Gen Unit} (h : Blames L (fun _ => True) body) :
    Blames L (fun _ => True) (inNewFile body) := by
  refine (lawful_newFile.blames quiet_newFile).bind fun file _ => ?_
  exact (blames_writingTo file h).bind fun _ _ => blames_pure trivial

theorem blames_inScope (kind : ScopeKind) {body : Gen α} (h : Blames L Q body) :
    Blames L Q (inScope kind body) := by
  refine ⟨lawful_inScope h.lawful, fun s f s' hs hf => ?_⟩
  have hinside : Blames L Q
      (do
        if kind = .block then emit .openFrame
        let a ← body
        if kind = .block then emit .closeFrame
        pure a) := by
    split
    · refine (blames_emit (L.fixed rfl)).bind fun _ _ => h.bind fun a ha => ?_
      exact (blames_emit (L.fixed rfl)).bind fun _ _ => blames_pure ha
    · exact h.bind fun a ha => blames_pure ha
  unfold inScope at hf
  rcases bind_error hf with hf | ⟨file, s₁, hfile, hf⟩
  · exact blames_currentFile.blamed hs hf
  · obtain ⟨-, rfl⟩ := currentFile_ok.1 hfile
    exact blames_finally hinside quiet_closeScope (hs.openScope kind file) hf

theorem blames_returningTo {t : ReturnTarget} {body : Gen α} (ht : t.value? = none) (h : Blames L Q body) :
    Blames L Q (returningTo t body) := by
  refine ⟨lawful_returningTo ht h.lawful, fun s f s' hs hf => ?_⟩
  have hin : GenState.Obeys L { s with target := some t } := by
    apply hs.withTarget
    rintro _ v ⟨⟩ hv
    rw [ht] at hv
    cases hv
  exact blames_finally h (quiet_modify _) hin hf

theorem blames_nested {body : Gen α} (h : Blames L Q body) : Blames L Q (nested body) := by
  refine ⟨lawful_nested h.lawful, fun s f s' hs hf => ?_⟩
  have hin : s.deepen.Obeys L := ⟨hs.scopes, hs.returned, hs.files⟩
  exact blames_finally h (quiet_modify _) hin hf

end Gen

/-! ## Scopes -/

namespace ScopeStack

variable {scopes : ScopeStack FileId} {name : Name} {f : Failure}

theorem blames_resolve {args : List Arg} {span : Span} {node : Node} (hnode : L.part node)
    (hspan : node.span? = some span) (h : scopes.resolve name args span = .error f) : L.Blames f := by
  rw [resolve] at h
  split at h
  · cases h
  · split at h
    · cases h
      exact Law.blames_ofCause hnode hspan _
    · cases h
      exact Law.blames_ofCause hnode hspan _

theorem declareStatic_ne_diagnostic (scopes : ScopeStack FileId) (name : Name) (v : Value) (file : FileId)
    (d : Diagnostic) : scopes.declareStatic name v file ≠ .error (.diagnostic d) := by
  intro h
  rw [declareStatic, top] at h
  cases hs : scopes.scopes with
  | nil =>
    rw [hs] at h
    cases h
  | cons t outer =>
    rw [hs] at h
    cases h

theorem declareRuntime_ne_diagnostic (scopes : ScopeStack FileId) (name : Name) (ty : Typing)
    (d : Diagnostic) : scopes.declareRuntime name ty ≠ .error (.diagnostic d) := by
  intro h
  rw [declareRuntime, top] at h
  cases hs : scopes.scopes with
  | nil =>
    rw [hs] at h
    cases h
  | cons t outer =>
    rw [hs] at h
    dsimp only [Bind.bind, Except.bind] at h
    split at h
    · cases h
    · cases h

end ScopeStack

end PackScript
