import PackScript.Proofs.Generation.Outcome
import PackScript.Proofs.Scope.Resolution
import PackScript.Proofs.Syntax.Proper

/-! # Orderly generation

A stretch of generation is orderly if it ends in a result or in an error of the program, never
in a defect, and if either way it leaves the open files and scopes as it found them. An error
has to put them back too: the brackets around the stretch close what they opened.
-/
namespace PackScript

/-- What a call relies on: the body was read by the grammar, and the body of a function that
runs from one file has that file. -/
structure Entry.Sound (e : Entry FileId) : Prop where
  body : Block.Proper e.function.body
  static : e.signature.name.isStatic = true → Block.isStatic e.function.body = true
  placed : e.signature.name.isStatic = false → e.signature.staticParams = 0 → e.file.isSome = true

namespace ScopeStack

def Sound (scopes : ScopeStack FileId) : Prop := ∀ e ∈ scopes.entries, e.Sound

variable {scopes scopes' : ScopeStack FileId}

theorem Sound.of_entries (h : scopes.Sound) (he : scopes'.entries = scopes.entries) : scopes'.Sound := by
  intro e hmem
  rw [he] at hmem
  exact h e hmem

theorem Sound.updateEntry (h : scopes.Sound) {i : Nat} {f : Entry FileId → Entry FileId}
    (hf : ∀ e, e.Sound → (f e).Sound) : (scopes.updateEntry i f).Sound := by
  intro e hmem
  rw [entries_updateEntry] at hmem
  obtain ⟨e', hmem', rfl⟩ := List.mem_map.1 hmem
  split
  · exact hf e' (h e' hmem')
  · exact h e' hmem'

end ScopeStack

namespace GenState

variable {s s' s'' : GenState}

/-- Values that are returned go to a call that is being expanded. -/
def Expanding (s : GenState) : Prop := ∃ label file value, s.target = some (.expansion label file value)

/-- The innermost scope owns a frame. -/
def Framed (s : GenState) : Prop := ∃ t outer, s.scopes.scopes = t :: outer ∧ t.frame = true

/-- The innermost scope is that of the program. -/
def AtRoot (s : GenState) : Prop := ∃ t outer, s.scopes.scopes = t :: outer ∧ t.kind = .root

/-- A file and a scope are open, and calls can rely on the functions in sight. -/
structure Ready (s : GenState) : Prop where
  writing : s.writing ≠ []
  scopes : s.scopes.scopes ≠ []
  entries : s.scopes.Sound

/-- What a stretch of generation leaves as it was. -/
structure Kept (s s' : GenState) : Prop where
  writing : s'.writing = s.writing
  scopes : ScopeStack.Keeps s.scopes.scopes s'.scopes.scopes
  target : s'.Expanding ↔ s.Expanding
  entries : s.scopes.Sound → s'.scopes.Sound

namespace Kept

theorem refl (s : GenState) : Kept s s := ⟨rfl, .refl _, Iff.rfl, id⟩

theorem trans (h : Kept s s') (h' : Kept s' s'') : Kept s s'' :=
  ⟨h'.writing.trans h.writing, h.scopes.trans h'.scopes, h'.target.trans h.target,
    fun hs => h'.entries (h.entries hs)⟩

theorem of_scopes {scopes : ScopeStack FileId}
    (hk : ScopeStack.Keeps s.scopes.scopes scopes.scopes)
    (he : s.scopes.Sound → scopes.Sound) : Kept s { s with scopes } :=
  ⟨rfl, hk, Iff.rfl, he⟩

theorem exists_top (h : Kept s s') {t : Scope FileId} {outer : List (Scope FileId)}
    (ht : s.scopes.scopes = t :: outer) :
    ∃ t' outer', s'.scopes.scopes = t' :: outer' ∧ t'.kind = t.kind ∧ t'.frame = t.frame := by
  have hk := h.scopes
  rw [ht] at hk
  cases hs : s'.scopes.scopes with
  | nil =>
    rw [hs] at hk
    cases hk
  | cons t' outer' =>
    rw [hs] at hk
    cases hk with
    | cons hsc _ => exact ⟨t', outer', rfl, hsc.1, hsc.2.1⟩

theorem framed (h : Kept s s') (hf : s.Framed) : s'.Framed := by
  obtain ⟨t, outer, ht, hframe⟩ := hf
  obtain ⟨t', outer', ht', -, hf'⟩ := h.exists_top ht
  exact ⟨t', outer', ht', hf'.trans hframe⟩

theorem atRoot (h : Kept s s') (hr : s.AtRoot) : s'.AtRoot := by
  obtain ⟨t, outer, ht, hkind⟩ := hr
  obtain ⟨t', outer', ht', hk', -⟩ := h.exists_top ht
  exact ⟨t', outer', ht', hk'.trans hkind⟩

end Kept

theorem Ready.kept (h : s.Ready) (hk : Kept s s') : s'.Ready := by
  refine ⟨?_, ?_, hk.entries h.entries⟩
  · rw [hk.writing]
    exact h.writing
  · obtain ⟨t, outer, ht⟩ := List.exists_cons_of_ne_nil h.scopes
    obtain ⟨t', outer', ht', -⟩ := hk.exists_top ht
    rw [ht']
    exact List.cons_ne_nil t' outer'

theorem Ready.inNewFile (h : s.Ready) (file : FileId) : (s.mint.enter file).Ready :=
  ⟨List.cons_ne_nil _ _, h.scopes, h.entries⟩

theorem ready_openScope (hw : s.writing ≠ []) (he : s.scopes.Sound) (kind : ScopeKind) (f : FileId) :
    (s.openScope kind f).Ready :=
  ⟨hw, List.cons_ne_nil _ _, he.of_entries (ScopeStack.entries_push _ _ _ _)⟩

theorem Ready.returning (h : s.Ready) (t : Option ReturnTarget) : Ready { s with target := t } :=
  ⟨h.writing, h.scopes, h.entries⟩

theorem Ready.deepen (h : s.Ready) : s.deepen.Ready := ⟨h.writing, h.scopes, h.entries⟩

end GenState

namespace Gen

variable {α β : Type} {s t s₁ : GenState} {Q : α → Prop} {R : β → Prop}

/-- The outcome is orderly, and a result satisfies `Q`. -/
def Orderly (s : GenState) (Q : α → Prop) : EStateM.Result Failure GenState α → Prop
  | .ok a s' => s.Kept s' ∧ Q a
  | .error (.diagnostic _) s' => s.Kept s'
  | .error (.defect _) _ => False

/-! ## Sequences -/

theorem Orderly.of_kept {r : EStateM.Result Failure GenState α} (h : Orderly t Q r)
    (hk : s.Kept t) : Orderly s Q r := by
  match r with
  | .ok a s' => exact ⟨hk.trans h.1, h.2⟩
  | .error (.diagnostic _) s' => exact hk.trans h

theorem orderly_pure {a : α} (ha : Q a) : Orderly s Q ((pure a : Gen α) s) := ⟨.refl s, ha⟩

theorem orderly_throw (span : Span) (cause : Cause) :
    Orderly s Q ((throw (.ofCause span cause) : Gen α) s) := .refl s

theorem orderly_bind {m : Gen α} {k : α → Gen β} (hm : Orderly s Q (m s))
    (hk : ∀ a s₁, s.Kept s₁ → Q a → Orderly s₁ R (k a s₁)) : Orderly s R ((m >>= k) s) := by
  change Orderly s R (EStateM.bind m k s)
  unfold EStateM.bind
  cases hr : m s with
  | ok a s₁ =>
    rw [hr] at hm
    exact (hk a s₁ hm.1 hm.2).of_kept hm.1
  | error f s₁ =>
    rw [hr] at hm
    cases f with
    | diagnostic d => exact hm
    | defect d => exact hm

theorem orderly_get {k : GenState → Gen β} (h : Orderly s R (k s s)) :
    Orderly s R ((get >>= k) s) := h

theorem orderly_modify {f : GenState → GenState} (hk : s.Kept (f s)) :
    Orderly s (fun _ => True) ((modify f : Gen Unit) s) := ⟨hk, trivial⟩

/-- The outcome of an operation that is no defect. -/
def Faultless (r : Except Failure α) : Prop := ∀ d, r ≠ .error (.defect d)

theorem orderly_ofExcept {r : Except Failure α} (hr : Faultless r) (hQ : ∀ a, r = .ok a → Q a) :
    Orderly s Q ((ofExcept r : Gen α) s) := by
  cases r with
  | ok a => exact ⟨.refl s, hQ a rfl⟩
  | error f =>
    cases f with
    | diagnostic d => exact .refl s
    | defect d => exact absurd rfl (hr d)

/-- A bracket: `s` is the state before it opens, `t` the one inside. -/
theorem orderly_finally {m : Gen α} {fin : Gen Unit} (hm : Orderly t Q (m t))
    (hfin : ∀ s₁, t.Kept s₁ → ∃ s₂, fin s₁ = .ok () s₂ ∧ s.Kept s₂) :
    Orderly s Q (tryFinally m fin t) := by
  unfold tryFinally
  simp only [Functor.map, EStateM.map, tryFinally']
  cases hr : m t with
  | ok a s₁ =>
    rw [hr] at hm
    obtain ⟨s₂, hf, hk⟩ := hfin s₁ hm.1
    simp only [hf]
    exact ⟨hk, hm.2⟩
  | error f s₁ =>
    rw [hr] at hm
    cases f with
    | defect d => exact hm.elim
    | diagnostic d =>
      obtain ⟨s₂, hf, hk⟩ := hfin s₁ hm
      simp only [hf]
      exact hk

theorem bind_of_ok {m : Gen α} {k : α → Gen β} {a : α} (h : m s = .ok a s₁) : (m >>= k) s = k a s₁ := by
  change EStateM.bind m k s = _
  unfold EStateM.bind
  rw [h]

/-! ## Files -/

theorem orderly_newFile : Orderly s (fun _ => True) (newFile s) :=
  ⟨⟨rfl, .refl _, Iff.rfl, id⟩, trivial⟩

theorem orderly_currentFile (h : s.Ready) : Orderly s (fun _ => True) (currentFile s) := by
  obtain ⟨f, fs, hw⟩ := List.exists_cons_of_ne_nil h.writing
  rw [currentFile_ok.2 ⟨⟨fs, hw⟩, rfl⟩]
  exact ⟨.refl s, trivial⟩

theorem orderly_emit (h : s.Ready) (c : Command) : Orderly s (fun _ => True) (emit c s) := by
  obtain ⟨f, fs, hw⟩ := List.exists_cons_of_ne_nil h.writing
  rw [emit_ok (u := ()) |>.2 ⟨f, fs, hw, rfl⟩]
  exact ⟨⟨rfl, .refl _, Iff.rfl, id⟩, trivial⟩

theorem orderly_warn (w : Warning) : Orderly s (fun _ => True) (warn w s) :=
  orderly_modify ⟨rfl, .refl _, Iff.rfl, id⟩

theorem orderly_writingTo {file : FileId} {body : Gen α} (hb : Orderly (s.enter file) Q (body (s.enter file))) :
    Orderly s Q (writingTo file body s) := by
  refine orderly_finally hb fun s₁ hk => ⟨s₁.leave, rfl, ?_, hk.scopes, hk.target, hk.entries⟩
  change s₁.writing.tail = s.writing
  rw [hk.writing]
  rfl

theorem orderly_inNewFile {body : Gen Unit}
    (hb : ∀ file, Orderly (s.mint.enter file) (fun _ => True) (body (s.mint.enter file))) :
    Orderly s (fun _ => True) (inNewFile body s) := by
  have hwrite : Orderly s.mint (fun _ => True) (writingTo s.files.size body s.mint) :=
    orderly_writingTo (hb s.files.size)
  have hmint : s.Kept s.mint := ⟨rfl, .refl _, Iff.rfl, id⟩
  refine Orderly.of_kept (t := s.mint) ?_ hmint
  exact orderly_bind hwrite fun _ s₁ _ _ => orderly_pure trivial

/-! ## Scopes -/

theorem orderly_onScopes {f : ScopeStack FileId → Except Failure (ScopeStack FileId)}
    (hf : Faultless (f s.scopes))
    (hk : ∀ scopes, f s.scopes = .ok scopes → ScopeStack.Keeps s.scopes.scopes scopes.scopes ∧
      scopes.entries = s.scopes.entries) :
    Orderly s (fun _ => True) (onScopes f s) := by
  cases hr : f s.scopes with
  | error e =>
    have herror : onScopes f s = .error e s := by
      unfold onScopes
      rw [bind_of_ok (get_ok.2 ⟨rfl, rfl⟩), hr]
      rfl
    rw [herror]
    cases e with
    | diagnostic d => exact .refl s
    | defect d => exact absurd hr (hf d)
  | ok scopes =>
    obtain ⟨hkeeps, hentries⟩ := hk scopes hr
    rw [onScopes_ok (u := ()) |>.2 ⟨scopes, hr, rfl⟩]
    exact ⟨.of_scopes hkeeps fun hs => hs.of_entries hentries, trivial⟩

theorem forM_warn_total (ws : List (Entry FileId)) (s : GenState) :
    ∃ warnings, (ws.forM fun e => warn (.neverCalled e.function.span e.signature)) s =
      .ok () { s with warnings } := by
  induction ws generalizing s with
  | nil => exact ⟨s.warnings, rfl⟩
  | cons e rest ih => exact ih _

theorem closeScope_total (h : s.scopes.scopes ≠ []) :
    ∃ warnings, closeScope s = .ok () { s.closeScope with warnings } := by
  obtain ⟨t, outer, ht⟩ := List.exists_cons_of_ne_nil h
  have hpop : s.scopes.pop = .ok (t, s.closeScope.scopes) := by
    rw [ScopeStack.pop, ht]
    simp [GenState.closeScope, ht]
  unfold closeScope
  obtain ⟨warnings, hw⟩ := forM_warn_total
    (t.entries.filter fun e => !e.signature.isStatic && e.calls = 0) s.closeScope
  refine ⟨warnings, ?_⟩
  rw [bind_of_ok (get_ok.2 ⟨rfl, rfl⟩), bind_of_ok (ofExcept_ok.2 ⟨hpop, rfl⟩)]
  exact hw

/-- Closing the scope that was opened gives the scopes around it. -/
theorem kept_closeScope {kind : ScopeKind} {f : FileId} (hk : (s.openScope kind f).Kept s₁) :
    ∃ s₂, closeScope s₁ = .ok () s₂ ∧ s.Kept s₂ := by
  have hne : s₁.scopes.scopes ≠ [] := by
    obtain ⟨t', outer', ht', -⟩ := hk.exists_top rfl
    rw [ht']
    exact List.cons_ne_nil t' outer'
  obtain ⟨warnings, hclose⟩ := closeScope_total hne
  refine ⟨_, hclose, hk.writing, hk.scopes.tail, hk.target, fun hs e he => ?_⟩
  have hopened : (s.openScope kind f).scopes.Sound := hs.of_entries (ScopeStack.entries_push _ _ _ _)
  obtain ⟨sc, hsc, hmem⟩ := List.mem_flatMap.1 he
  exact hk.entries hopened e (List.mem_flatMap.2 ⟨sc, List.mem_of_mem_tail hsc, hmem⟩)

/-- A scope inside of which the stretch is orderly. -/
theorem orderly_inScope {kind : ScopeKind} {body : Gen α} (hwriting : s.writing ≠ []) (he : s.scopes.Sound)
    (hb : ∀ f s₁, (s.openScope kind f).Kept s₁ → s₁.Ready → Orderly s₁ Q (body s₁)) :
    Orderly s Q (inScope kind body s) := by
  obtain ⟨f, fs, hw⟩ := List.exists_cons_of_ne_nil hwriting
  have hopen := GenState.ready_openScope hwriting he kind f
  unfold inScope
  rw [bind_of_ok (currentFile_ok.2 ⟨⟨fs, hw⟩, rfl⟩), bind_of_ok (modify_ok (u := ()) |>.2 rfl)]
  refine orderly_finally (t := s.openScope kind f) ?_ fun s₁ hk => kept_closeScope hk
  by_cases hkind : kind = .block
  · simp only [if_pos hkind]
    refine orderly_bind (orderly_emit hopen _) fun _ s₁ hk₁ _ => ?_
    refine orderly_bind (hb f s₁ hk₁ (hopen.kept hk₁)) fun a s₂ hk₂ ha => ?_
    refine orderly_bind (orderly_emit (hopen.kept (hk₁.trans hk₂)) _) fun _ s₃ _ _ => ?_
    exact orderly_pure ha
  · simp only [if_neg hkind]
    refine orderly_bind (hb f _ (.refl _) hopen) fun a s₁ _ ha => ?_
    exact orderly_pure ha

theorem orderly_returningTo {t : ReturnTarget} {body : Gen α}
    (hb : Orderly { s with target := some t } Q (body { s with target := some t })) :
    Orderly s Q (returningTo t body s) := by
  refine orderly_get (orderly_finally hb fun s₁ hk => ?_)
  exact ⟨{ s₁ with target := s.target }, rfl, hk.writing, hk.scopes, Iff.rfl, hk.entries⟩

theorem orderly_nested {body : Gen α} (hb : Orderly s.deepen Q (body s.deepen)) : Orderly s Q (nested body s) :=
  orderly_finally hb fun s₁ hk => ⟨s₁.rise, rfl, hk.writing, hk.scopes, hk.target, hk.entries⟩

end Gen
end PackScript
