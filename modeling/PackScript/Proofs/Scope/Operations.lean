import PackScript.Scope.Overload

/-! # Operations on scopes that succeed

Each operation changes one thing in one scope. What it needs and what it leaves is stated
here once, so that nothing later looks into the operations themselves.
-/
namespace PackScript.ScopeStack

variable {φ : Type} {s s' : ScopeStack φ}

theorem top_ok {t : Scope φ} : s.top = .ok t ↔ ∃ outer, s.scopes = t :: outer := by
  unfold top
  cases s.scopes with
  | nil => simp
  | cons u outer => simp

/-- The stack with another innermost scope. -/
def withTop (s : ScopeStack φ) (t : Scope φ) (outer : List (Scope φ)) : ScopeStack φ :=
  { s with scopes := t :: outer }

theorem setTop_of_scopes {t : Scope φ} {outer : List (Scope φ)} (h : s.scopes = t :: outer)
    (new : Scope φ) : s.setTop new = s.withTop new outer := by
  simp [setTop, withTop, h]

theorem declareStatic_ok {name : Name} {v : Value} {f : φ} (h : s.declareStatic name v f = .ok s') :
    ∃ t outer, s.scopes = t :: outer ∧
      s.withTop { t with statics := t.statics.set name ⟨v, f⟩ } outer = s' := by
  unfold declareStatic at h
  cases ht : s.top with
  | error e => rw [ht] at h; cases h
  | ok t =>
    rw [ht] at h
    cases h
    obtain ⟨outer, ho⟩ := top_ok.1 ht
    exact ⟨t, outer, ho, (setTop_of_scopes ho _).symm⟩

theorem declareRuntime_ok {name : Name} {ty : Typing} (h : s.declareRuntime name ty = .ok s') :
    ∃ t outer, s.scopes = t :: outer ∧ t.frame = true ∧
      s.withTop { t with runtime := t.runtime.set name ty } outer = s' := by
  unfold declareRuntime at h
  cases ht : s.top with
  | error e => rw [ht] at h; cases h
  | ok t =>
    rw [ht] at h
    obtain ⟨outer, ho⟩ := top_ok.1 ht
    cases hf : t.frame with
    | false => simp [hf, bind, Except.bind] at h
    | true =>
      simp only [hf, bind, Except.bind, Bool.not_true, Bool.false_eq_true, if_false] at h
      cases h
      exact ⟨t, outer, ho, hf, by simp [setTop, withTop, ho, hf]⟩

theorem hoist_ok {name : Name} {ty : Typing} (h : s.hoist name ty = .ok s') :
    ∃ t outer hoisted, s.scopes = t :: outer ∧ t.kind = .root ∧
      (hoisted = t.hoisted ∨ hoisted = t.hoisted.set name ty) ∧
      s.withTop { t with hoisted } outer = s' := by
  unfold hoist at h
  cases ht : s.top with
  | error e => rw [ht] at h; cases h
  | ok t =>
    rw [ht] at h
    obtain ⟨outer, ho⟩ := top_ok.1 ht
    by_cases hk : t.kind = .root
    · simp only [hk, bind, Except.bind, ne_eq, not_true_eq_false, if_false] at h
      cases hh : t.hoisted.get? name with
      | some ty' =>
        simp only [hh] at h
        cases h
        exact ⟨t, outer, t.hoisted, ho, hk, .inl rfl, by simp [withTop, ← ho]⟩
      | none =>
        simp only [hh] at h
        cases h
        exact ⟨t, outer, _, ho, hk, .inr rfl, by simp [setTop, withTop, ho, hk]⟩
    · simp [hk, bind, Except.bind] at h

theorem reassignStatic_ok [DecidableEq φ] {name : Name} {v : Value} {f : φ} {span : Span}
    (h : s.reassignStatic name v f span = .ok s') :
    ∃ b, s.findStatic? name = some b ∧ b.file = f ∧
      { s with scopes := setStatic name v s.scopes } = s' := by
  unfold reassignStatic at h
  cases hb : s.findStatic? name with
  | none => simp [hb] at h
  | some b =>
    simp only [hb] at h
    by_cases hf : b.file = f
    · simp only [hf, ne_eq, not_true_eq_false, if_false] at h
      cases h
      exact ⟨b, rfl, hf, rfl⟩
    · simp [hf] at h

theorem register_ok {fn : Function} {i : Nat} (h : s.register fn = .ok (i, s')) :
    ∃ t outer, s.scopes = t :: outer ∧ i = s.nextId ∧
      (∀ e ∈ t.entries, e.signature.sameKey fn.signature = false) ∧
      { scopes := { t with entries := t.entries ++ [{ id := i, function := fn }] } :: outer,
        nextId := s.nextId + 1 } = s' := by
  unfold register at h
  cases ht : s.top with
  | error e => rw [ht] at h; cases h
  | ok t =>
    rw [ht] at h
    obtain ⟨outer, ho⟩ := top_ok.1 ht
    cases hd : t.entries.any fun e => e.signature.sameKey fn.signature with
    | true => simp [hd, bind, Except.bind] at h
    | false =>
      simp only [hd, bind, Except.bind, Bool.false_eq_true, if_false] at h
      cases h
      refine ⟨t, outer, ho, rfl, ?_, by simp [setTop, ho]⟩
      simpa using hd

/-! ## The functions in sight -/

theorem entries_eq (s : ScopeStack φ) : s.entries = s.scopes.flatMap Scope.entries := rfl

@[simp] theorem entries_withTop (s : ScopeStack φ) (t : Scope φ) (outer : List (Scope φ)) :
    (s.withTop t outer).entries = t.entries ++ outer.flatMap Scope.entries := by
  simp [entries, withTop]

@[simp] theorem entries_push (s : ScopeStack φ) (kind : ScopeKind) (frame : Bool) (f : φ) :
    (s.push kind frame f).entries = s.entries := by
  simp [entries, push]

theorem entries_setStatic (name : Name) (v : Value) (scopes : List (Scope φ)) :
    (setStatic name v scopes).flatMap Scope.entries = scopes.flatMap Scope.entries := by
  induction scopes with
  | nil => rfl
  | cons sc outer ih =>
    rw [setStatic]
    split
    · simp
    · simp [ih]

theorem entries_updateEntry (s : ScopeStack φ) (i : Nat) (f : Entry φ → Entry φ) :
    (s.updateEntry i f).entries = s.entries.map fun e => if e.id = i then f e else e := by
  simp [entries, updateEntry, List.flatMap_map, List.map_flatMap]

theorem entries_declareStatic {name : Name} {v : Value} {f : φ}
    (h : s.declareStatic name v f = .ok s') : s'.entries = s.entries := by
  obtain ⟨t, outer, ho, rfl⟩ := declareStatic_ok h
  simp [entries_eq s, ho]

theorem entries_declareRuntime {name : Name} {ty : Typing}
    (h : s.declareRuntime name ty = .ok s') : s'.entries = s.entries := by
  obtain ⟨t, outer, ho, _, rfl⟩ := declareRuntime_ok h
  simp [entries_eq s, ho]

theorem entries_hoist {name : Name} {ty : Typing} (h : s.hoist name ty = .ok s') :
    s'.entries = s.entries := by
  obtain ⟨t, outer, _, ho, _, _, rfl⟩ := hoist_ok h
  simp [entries_eq s, ho]

theorem entries_reassignStatic [DecidableEq φ] {name : Name} {v : Value} {f : φ} {span : Span}
    (h : s.reassignStatic name v f span = .ok s') : s'.entries = s.entries := by
  obtain ⟨_, _, _, rfl⟩ := reassignStatic_ok h
  exact entries_setStatic name v s.scopes

theorem mem_entries_register {fn : Function} {i : Nat} (h : s.register fn = .ok (i, s')) {e : Entry φ}
    (he : e ∈ s'.entries) : e ∈ s.entries ∨ e = { id := i, function := fn } := by
  obtain ⟨t, outer, ho, _, _, rfl⟩ := register_ok h
  simp only [entries_eq, ho, List.flatMap_cons, List.mem_append, List.mem_singleton] at he ⊢
  rcases he with (he | he) | he
  · exact .inl (.inl he)
  · exact .inr he
  · exact .inl (.inr he)

theorem candidates_subset_entries (s : ScopeStack φ) (name : Name) : s.candidates name ⊆ s.entries := by
  intro e he
  simp only [candidates, List.mem_flatMap, List.mem_filter] at he
  obtain ⟨sc, hsc, hm, _⟩ := he
  exact List.mem_flatMap.2 ⟨sc, hsc, hm⟩

/-- The best entry is one of those given, and it fits. -/
theorem bestFit?_some {args : List Arg} {es : List (Entry φ)} {e : Entry φ} {fit : Fit}
    (h : bestFit? args es = some (e, fit)) :
    e ∈ es ∧ Fit.ofArgs? e.signature.params args = some fit := by
  have hbest : ∀ p, bestFit? args es = some p →
      p.1 ∈ es ∧ Fit.ofArgs? p.1.signature.params args = some p.2 := by
    refine List.foldlRecOn (motive := fun best : Option (Entry φ × Fit) => ∀ p, best = some p →
      p.1 ∈ es ∧ Fit.ofArgs? p.1.signature.params args = some p.2) es _ (fun p hp => by cases hp) ?_
    intro best ih x hx p hp
    cases hfit : Fit.ofArgs? x.signature.params args with
    | none =>
      rw [hfit] at hp
      exact ih p hp
    | some fit =>
      rw [hfit] at hp
      cases best with
      | none =>
        cases hp
        exact ⟨hx, hfit⟩
      | some old =>
        dsimp only at hp
        split at hp
        · cases hp
          exact ⟨hx, hfit⟩
        · exact ih p hp
  exact hbest (e, fit) h

theorem bestFit?_of_resolve {name : Name} {args : List Arg} {span : Span} {e : Entry φ}
    (h : s.resolve name args span = .ok e) : ∃ fit, bestFit? args (s.candidates name) = some (e, fit) := by
  unfold resolve at h
  cases hb : bestFit? args (s.candidates name) with
  | none =>
    rw [hb] at h
    dsimp only at h
    split at h <;> cases h
  | some p =>
    rw [hb] at h
    cases h
    exact ⟨p.2, rfl⟩

theorem resolve_mem {name : Name} {args : List Arg} {span : Span} {e : Entry φ}
    (h : s.resolve name args span = .ok e) : e ∈ s.candidates name := by
  obtain ⟨fit, hb⟩ := bestFit?_of_resolve h
  exact (bestFit?_some hb).1

end PackScript.ScopeStack
