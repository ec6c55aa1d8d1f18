import PackScript.Generate.Result

/-! # Successful stretches of generation

A stretch of generation that succeeds does so step by step: every operation is described
here by the states between which it succeeds. Brackets that open something are described
by the stretch inside them and by what they put back.
-/
namespace PackScript

namespace GenState

/-- The commands of a file, none if there is no such file. -/
def text (s : GenState) (f : FileId) : List Command := (s.files.getD f #[]).toList

/-- One more command in a file. -/
def write (s : GenState) (f : FileId) (c : Command) : GenState :=
  { s with files := s.files.modify f (·.push c) }

/-- One more file. -/
def mint (s : GenState) : GenState := { s with files := s.files.push #[] }

def enter (s : GenState) (f : FileId) : GenState :=
  { s with writing := f :: s.writing, opened := f :: s.opened }

def leave (s : GenState) : GenState := { s with writing := s.writing.tail }

/-- A new innermost scope, opened while `f` is being written. -/
def openScope (s : GenState) (kind : ScopeKind) (f : FileId) : GenState :=
  { s with scopes := s.scopes.push kind (kind ≠ .expansion) f }

/-- Without the innermost scope. -/
def closeScope (s : GenState) : GenState :=
  { s with scopes := { s.scopes with scopes := s.scopes.scopes.tail } }

/-- One level further down. -/
def deepen (s : GenState) : GenState := { s with depth := s.depth + 1 }

/-- One level further up. -/
def rise (s : GenState) : GenState := { s with depth := s.depth - 1 }

@[simp] theorem size_write (s : GenState) (f : FileId) (c : Command) :
    (s.write f c).files.size = s.files.size := by
  simp [write]

@[simp] theorem size_mint (s : GenState) : s.mint.files.size = s.files.size + 1 := by
  simp [mint]

/-- A new file is empty, as every missing file is. -/
@[simp] theorem text_mint (s : GenState) (i : FileId) : s.mint.text i = s.text i := by
  unfold text mint
  simp only [Array.getD_eq_getD_getElem?, Array.getElem?_push]
  split
  · rename_i h
    simp [h]
  · rfl

theorem text_write_self (s : GenState) {f : FileId} (h : f < s.files.size) (c : Command) :
    (s.write f c).text f = s.text f ++ [c] := by
  unfold text write
  simp [Array.getD_eq_getD_getElem?, Array.getElem_modify, h]

theorem text_write_of_ne (s : GenState) {f i : FileId} (h : i ≠ f) (c : Command) :
    (s.write f c).text i = s.text i := by
  unfold text write
  simp [Array.getD_eq_getD_getElem?, Array.getElem?_modify, h.symm]

end GenState

namespace Gen

variable {α β : Type} {s s' : GenState}

theorem bind_ok {m : Gen α} {k : α → Gen β} {b : β} :
    (m >>= k) s = .ok b s' ↔ ∃ a s₁, m s = .ok a s₁ ∧ k a s₁ = .ok b s' := by
  change EStateM.bind m k s = _ ↔ _
  unfold EStateM.bind
  constructor
  · intro h
    cases hm : m s with
    | ok a s₁ => exact ⟨a, s₁, rfl, by simpa [hm] using h⟩
    | error e s₁ => simp [hm] at h
  · rintro ⟨a, s₁, hm, hk⟩
    simpa [hm] using hk

theorem pure_ok {a b : α} : (pure a : Gen α) s = .ok b s' ↔ a = b ∧ s = s' := by
  change EStateM.Result.ok a s = _ ↔ _
  constructor
  · intro h
    cases h
    exact ⟨rfl, rfl⟩
  · rintro ⟨rfl, rfl⟩
    rfl

theorem throw_ok {f : Failure} {a : α} : (throw f : Gen α) s = .ok a s' ↔ False :=
  ⟨fun h => (by cases h), False.elim⟩

theorem get_ok {t : GenState} : (get : Gen GenState) s = .ok t s' ↔ s = t ∧ s = s' := by
  change EStateM.Result.ok s s = _ ↔ _
  constructor
  · intro h
    cases h
    exact ⟨rfl, rfl⟩
  · rintro ⟨rfl, rfl⟩
    rfl

theorem modify_ok {f : GenState → GenState} {u : Unit} :
    (modify f : Gen Unit) s = .ok u s' ↔ f s = s' := by
  change EStateM.Result.ok () (f s) = _ ↔ _
  constructor
  · intro h
    cases h
    rfl
  · rintro rfl
    rfl

theorem ofExcept_ok {r : Except Failure α} {a : α} :
    (ofExcept r : Gen α) s = .ok a s' ↔ r = .ok a ∧ s = s' := by
  cases r with
  | ok b =>
    refine pure_ok.trans ?_
    constructor
    · rintro ⟨rfl, rfl⟩
      exact ⟨rfl, rfl⟩
    · rintro ⟨h, rfl⟩
      cases h
      exact ⟨rfl, rfl⟩
  | error f => exact throw_ok.trans ⟨False.elim, fun h => by cases h.1⟩

theorem finally_ok {m : Gen α} {fin : Gen Unit} {a : α} :
    (tryFinally m fin) s = .ok a s' ↔ ∃ s₁, m s = .ok a s₁ ∧ fin s₁ = .ok () s' := by
  unfold tryFinally
  simp only [Functor.map, EStateM.map, tryFinally']
  constructor
  · intro h
    cases hm : m s with
    | error e s₁ =>
      simp only [hm] at h
      cases hf : fin s₁ <;> simp [hf] at h
    | ok b s₁ =>
      simp only [hm] at h
      cases hf : fin s₁ with
      | error e s₂ => simp [hf] at h
      | ok u s₂ =>
        simp only [hf] at h
        cases h
        exact ⟨s₁, rfl, hf⟩
  · rintro ⟨s₁, hm, hf⟩
    simp [hm, hf]

/-! ## Files -/

theorem newFile_ok {g : FileId} : newFile s = .ok g s' ↔ s.files.size = g ∧ s.mint = s' := by
  change EStateM.Result.ok s.files.size s.mint = _ ↔ _
  constructor
  · intro h
    cases h
    exact ⟨rfl, rfl⟩
  · rintro ⟨rfl, rfl⟩
    rfl

theorem currentFile_ok {f : FileId} :
    currentFile s = .ok f s' ↔ (∃ fs, s.writing = f :: fs) ∧ s = s' := by
  unfold currentFile
  simp only [bind_ok, get_ok]
  constructor
  · rintro ⟨_, _, ⟨rfl, rfl⟩, h⟩
    cases hw : s.writing with
    | nil => simp only [hw, throw_ok] at h
    | cons g gs =>
      simp only [hw, pure_ok] at h
      obtain ⟨rfl, rfl⟩ := h
      exact ⟨⟨gs, rfl⟩, rfl⟩
  · rintro ⟨⟨fs, hw⟩, rfl⟩
    exact ⟨_, _, ⟨rfl, rfl⟩, by simp only [hw, pure_ok, and_self]⟩

theorem emit_ok {c : Command} {u : Unit} :
    emit c s = .ok u s' ↔ ∃ f fs, s.writing = f :: fs ∧ s.write f c = s' := by
  unfold emit
  simp only [bind_ok, currentFile_ok, modify_ok]
  constructor
  · rintro ⟨f, _, ⟨⟨fs, hw⟩, rfl⟩, rfl⟩
    exact ⟨f, fs, hw, rfl⟩
  · rintro ⟨f, fs, hw, rfl⟩
    exact ⟨f, s, ⟨⟨fs, hw⟩, rfl⟩, rfl⟩

theorem writingTo_ok {f : FileId} {body : Gen α} {a : α} :
    writingTo f body s = .ok a s' ↔ ∃ s₁, body (s.enter f) = .ok a s₁ ∧ s₁.leave = s' := by
  unfold writingTo
  simp only [bind_ok, modify_ok, finally_ok]
  constructor
  · rintro ⟨_, _, rfl, s₁, hb, rfl⟩
    exact ⟨s₁, hb, rfl⟩
  · rintro ⟨s₁, hb, rfl⟩
    exact ⟨(), _, rfl, s₁, hb, rfl⟩

theorem inNewFile_ok {body : Gen Unit} {g : FileId} :
    inNewFile body s = .ok g s' ↔
      s.files.size = g ∧ ∃ s₁, body (s.mint.enter s.files.size) = .ok () s₁ ∧ s₁.leave = s' := by
  unfold inNewFile
  simp only [bind_ok, newFile_ok, writingTo_ok, pure_ok]
  constructor
  · rintro ⟨_, _, ⟨rfl, rfl⟩, _, _, ⟨s₁, hb, rfl⟩, rfl, rfl⟩
    exact ⟨rfl, s₁, hb, rfl⟩
  · rintro ⟨rfl, s₁, hb, rfl⟩
    exact ⟨_, _, ⟨rfl, rfl⟩, (), _, ⟨s₁, hb, rfl⟩, rfl, rfl⟩

/-! ## Scopes -/

theorem onScopes_ok {f : ScopeStack FileId → Except Failure (ScopeStack FileId)} {u : Unit} :
    onScopes f s = .ok u s' ↔ ∃ scopes, f s.scopes = .ok scopes ∧ { s with scopes } = s' := by
  unfold onScopes
  simp only [bind_ok, get_ok, ofExcept_ok, modify_ok]
  constructor
  · rintro ⟨_, _, ⟨rfl, rfl⟩, scopes, _, ⟨h, rfl⟩, rfl⟩
    exact ⟨scopes, h, rfl⟩
  · rintro ⟨scopes, h, rfl⟩
    exact ⟨_, _, ⟨rfl, rfl⟩, scopes, _, ⟨h, rfl⟩, rfl⟩

theorem forM_warn_ok {ws : List (Entry FileId)} {u : Unit}
    (h : (ws.forM fun e => warn (.neverCalled e.function.span e.signature)) s = .ok u s') :
    ∃ warnings, { s with warnings } = s' := by
  induction ws generalizing s with
  | nil => exact ⟨s.warnings, (pure_ok.1 h).2⟩
  | cons e rest ih =>
    obtain ⟨_, s₁, he, hr⟩ := bind_ok.1 h
    obtain ⟨warnings, rfl⟩ := ih hr
    obtain rfl := modify_ok.1 he
    exact ⟨warnings, rfl⟩

theorem pop_ok {scopes rest : ScopeStack FileId} {closed : Scope FileId}
    (h : scopes.pop = .ok (closed, rest)) :
    scopes.scopes ≠ [] ∧ { scopes with scopes := scopes.scopes.tail } = rest := by
  obtain ⟨open', nextId⟩ := scopes
  cases open' with
  | nil => cases h
  | cons top outer =>
    cases h
    exact ⟨List.cons_ne_nil _ _, rfl⟩

/-- Closing a scope drops it and may add warnings. -/
theorem closeScope_ok {u : Unit} (h : closeScope s = .ok u s') :
    s.scopes.scopes ≠ [] ∧ ∃ warnings, { s.closeScope with warnings } = s' := by
  unfold closeScope at h
  obtain ⟨_, _, hg, h⟩ := bind_ok.1 h
  obtain ⟨rfl, rfl⟩ := get_ok.1 hg
  obtain ⟨⟨closed, scopes⟩, _, ho, h⟩ := bind_ok.1 h
  obtain ⟨hp, rfl⟩ := ofExcept_ok.1 ho
  obtain ⟨hne, rfl⟩ := pop_ok hp
  obtain ⟨_, _, hm, h⟩ := bind_ok.1 h
  obtain rfl := modify_ok.1 hm
  obtain ⟨warnings, rfl⟩ := forM_warn_ok h
  exact ⟨hne, warnings, rfl⟩

/-- A stretch inside a new scope. Only the scope of a branch writes commands of its own. -/
theorem inScope_ok {kind : ScopeKind} {body : Gen α} {a : α} (h : inScope kind body s = .ok a s') :
    ∃ f fs s₁ s₂ s₃, s.writing = f :: fs ∧
      (if kind = .block then (s.openScope kind f).write f .openFrame else s.openScope kind f) = s₁ ∧
      body s₁ = .ok a s₂ ∧
      (if kind = .block then ∃ g gs, s₂.writing = g :: gs ∧ s₂.write g .closeFrame = s₃ else s₂ = s₃) ∧
      s₃.scopes.scopes ≠ [] ∧ ∃ warnings, { s₃.closeScope with warnings } = s' := by
  unfold inScope at h
  obtain ⟨f, _, hf, h⟩ := bind_ok.1 h
  obtain ⟨⟨fs, hw⟩, rfl⟩ := currentFile_ok.1 hf
  obtain ⟨_, _, hm, h⟩ := bind_ok.1 h
  obtain rfl := modify_ok.1 hm
  obtain ⟨s₃, ht, hc⟩ := finally_ok.1 h
  obtain ⟨hne, warnings, rfl⟩ := closeScope_ok hc
  by_cases hk : kind = .block
  · simp only [if_pos hk] at ht ⊢
    obtain ⟨_, s₁, ho, hr⟩ := bind_ok.1 ht
    obtain ⟨b, s₂, hb, he⟩ := bind_ok.1 hr
    obtain ⟨_, s₄, hx, hp⟩ := bind_ok.1 he
    obtain ⟨g, gs, hg, rfl⟩ := emit_ok.1 hx
    obtain ⟨rfl, rfl⟩ := pure_ok.1 hp
    obtain ⟨f', fs', hw', rfl⟩ := emit_ok.1 ho
    obtain ⟨rfl, rfl⟩ : f = f' ∧ fs = fs' := List.cons.inj (hw.symm.trans hw')
    exact ⟨f, fs, _, _, _, hw, rfl, hb, ⟨g, gs, hg, rfl⟩, hne, warnings, rfl⟩
  · simp only [if_neg hk] at ht ⊢
    obtain ⟨b, s₂, hb, hp⟩ := bind_ok.1 ht
    obtain ⟨rfl, rfl⟩ := pure_ok.1 hp
    exact ⟨f, fs, _, _, _, hw, rfl, hb, rfl, hne, warnings, rfl⟩

/-- A stretch whose returned values go to `t`. -/
theorem returningTo_ok {t : ReturnTarget} {body : Gen α} {a : α} :
    returningTo t body s = .ok a s' ↔
      ∃ s₁, body { s with target := some t } = .ok a s₁ ∧ { s₁ with target := s.target } = s' := by
  unfold returningTo
  simp only [bind_ok, get_ok, modify_ok, finally_ok]
  constructor
  · rintro ⟨_, _, ⟨rfl, rfl⟩, _, _, rfl, s₁, hb, rfl⟩
    exact ⟨s₁, hb, rfl⟩
  · rintro ⟨s₁, hb, rfl⟩
    exact ⟨_, _, ⟨rfl, rfl⟩, (), _, rfl, s₁, hb, rfl⟩

/-- A stretch one level further down. -/
theorem nested_ok {body : Gen α} {a : α} :
    nested body s = .ok a s' ↔ ∃ s₁, body s.deepen = .ok a s₁ ∧ s₁.rise = s' := by
  unfold nested
  simp only [bind_ok, modify_ok, finally_ok]
  constructor
  · rintro ⟨_, _, rfl, s₁, hb, rfl⟩
    exact ⟨s₁, hb, rfl⟩
  · rintro ⟨s₁, hb, rfl⟩
    exact ⟨(), _, rfl, s₁, hb, rfl⟩

end Gen
end PackScript
