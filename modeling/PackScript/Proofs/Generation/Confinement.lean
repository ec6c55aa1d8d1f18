import PackScript.Proofs.Generation.Orderly

/-! # Confined stretches of generation

A stretch of generation owns the files that it works in, the one it starts in and those it
creates, and the functions that it declares. Whatever way it ends, with a result, an error or
a defect, it is confined: the open files, the open scopes, the target of returned values and
the depth are those it started with, it declares in the innermost scope only, and further out it changes
a static variable only if it owns the file that the variable was declared in.
-/
namespace PackScript

theorem forall₂_comp {α β γ : Type} {R : α → β → Prop} {S : β → γ → Prop} {T : α → γ → Prop}
    (h : ∀ a b c, R a b → S b c → T a c) {as : List α} {bs : List β} {cs : List γ}
    (hab : List.Forall₂ R as bs) (hbc : List.Forall₂ S bs cs) : List.Forall₂ T as cs := by
  induction hab generalizing cs with
  | nil =>
    cases hbc
    exact .nil
  | cons hr _ ih =>
    cases hbc with
    | cons hs hbc => exact .cons (h _ _ _ hr hs) (ih hbc)

theorem exists_of_forall₂ {α β : Type} {R : α → β → Prop} {as : List α} {bs : List β}
    (h : List.Forall₂ R as bs) {b : β} (hb : b ∈ bs) : ∃ a ∈ as, R a b := by
  induction h with
  | nil => cases hb
  | cons hr _ ih =>
    rcases List.mem_cons.1 hb with rfl | hb
    · exact ⟨_, List.mem_cons_self, hr⟩
    · obtain ⟨a, ha, hab⟩ := ih hb
      exact ⟨a, List.mem_cons_of_mem _ ha, hab⟩

/-- The target, whatever has been delivered to it so far. -/
def ReturnTarget.blank : ReturnTarget → ReturnTarget
  | .storage => .storage
  | .expansion label file _ => .expansion label file none

/-! ## Scopes -/

/-- The same declaration of a function. One from `i` on may have been given its file. -/
structure Entry.Stays (i : Nat) (e e' : Entry FileId) : Prop where
  id : e'.id = e.id
  function : e'.function = e.function
  file : e.id < i → e'.file = e.file

/-- The same scope, whatever is declared in it. -/
structure Scope.Matches (sc sc' : Scope FileId) : Prop where
  kind : sc'.kind = sc.kind
  frame : sc'.frame = sc.frame
  file : sc'.file = sc.file

/-- What becomes of a scope in which a stretch declares nothing. -/
structure Scope.Spared (own : FileId → Prop) (i : Nat) (sc sc' : Scope FileId) : Prop extends
    Scope.Matches sc sc' where
  runtime : sc'.runtime = sc.runtime
  hoisted : sc'.hoisted = sc.hoisted
  statics : (∀ b ∈ sc.statics, ¬own b.2.file) → sc'.statics = sc.statics
  tags : ∀ b' ∈ sc'.statics, ∃ b ∈ sc.statics, b.2.file = b'.2.file
  entries : List.Forall₂ (Entry.Stays i) sc.entries sc'.entries

/-- What becomes of the innermost scope: static variables are declared in the current file `f`,
and functions have identities below `n`. -/
structure Scope.Grown (f : Option FileId) (n : Nat) (sc sc' : Scope FileId) : Prop extends
    Scope.Matches sc sc' where
  tags : ∀ b' ∈ sc'.statics, f = some b'.2.file ∨ ∃ b ∈ sc.statics, b.2.file = b'.2.file
  ids : ∀ e' ∈ sc'.entries, e'.id < n ∨ ∃ e ∈ sc.entries, e.id = e'.id

theorem Entry.Stays.refl (i : Nat) (e : Entry FileId) : e.Stays i e := ⟨rfl, rfl, fun _ => rfl⟩

theorem Entry.Stays.trans {i : Nat} {e e' e'' : Entry FileId} (h : e.Stays i e') (h' : e'.Stays i e'') :
    e.Stays i e'' := by
  refine ⟨h'.id.trans h.id, h'.function.trans h.function, fun hi => ?_⟩
  have hi' : e'.id < i := h.id ▸ hi
  exact (h'.file hi').trans (h.file hi)

namespace Scope

variable {own : FileId → Prop} {i n n' : Nat} {f : Option FileId} {sc sc' sc'' : Scope FileId}

theorem Matches.refl (sc : Scope FileId) : sc.Matches sc := ⟨rfl, rfl, rfl⟩

theorem Matches.trans (h : sc.Matches sc') (h' : sc'.Matches sc'') : sc.Matches sc'' :=
  ⟨h'.kind.trans h.kind, h'.frame.trans h.frame, h'.file.trans h.file⟩

theorem Spared.refl (own : FileId → Prop) (i : Nat) (sc : Scope FileId) : sc.Spared own i sc where
  toMatches := .refl sc
  runtime := rfl
  hoisted := rfl
  statics _ := rfl
  tags b hb := ⟨b, hb, rfl⟩
  entries := List.forall₂_same.2 fun e _ => .refl i e

theorem Spared.trans (h : sc.Spared own i sc') (h' : sc'.Spared own i sc'') : sc.Spared own i sc'' where
  toMatches := h.toMatches.trans h'.toMatches
  runtime := h'.runtime.trans h.runtime
  hoisted := h'.hoisted.trans h.hoisted
  statics hb := by
    have hsame := h.statics hb
    rw [← hsame] at hb
    exact (h'.statics hb).trans hsame
  tags b'' hb'' := by
    obtain ⟨b', hb', hfile'⟩ := h'.tags b'' hb''
    obtain ⟨b, hb, hfile⟩ := h.tags b' hb'
    exact ⟨b, hb, hfile.trans hfile'⟩
  entries := forall₂_comp (fun _ _ _ hs hs' => hs.trans hs') h.entries h'.entries

theorem Spared.grown (h : sc.Spared own i sc') (f : Option FileId) (n : Nat) : sc.Grown f n sc' where
  toMatches := h.toMatches
  tags b' hb' := .inr (h.tags b' hb')
  ids _ he' := by
    obtain ⟨e, he, hs⟩ := exists_of_forall₂ h.entries he'
    exact .inr ⟨e, he, hs.id.symm⟩

theorem Grown.trans (h : sc.Grown f n sc') (hn : n ≤ n') (h' : sc'.Grown f n' sc'') : sc.Grown f n' sc'' where
  toMatches := h.toMatches.trans h'.toMatches
  tags b'' hb'' := by
    rcases h'.tags b'' hb'' with hf | ⟨b', hb', hfile'⟩
    · exact .inl hf
    · rw [← hfile']
      exact h.tags b' hb'
  ids e'' he'' := by
    rcases h'.ids e'' he'' with hlt | ⟨e', he', hid'⟩
    · exact .inl hlt
    · rw [← hid']
      exact (h.ids e' he').imp_left fun hlt => Nat.lt_of_lt_of_le hlt hn

theorem spared_updateEntry {j : Nat} {g : Entry FileId → Entry FileId}
    (hg : ∀ e : Entry FileId, e.id = j → e.Stays i (g e)) (scopes : ScopeStack FileId) :
    List.Forall₂ (Spared own i) scopes.scopes (scopes.updateEntry j g).scopes := by
  refine List.forall₂_map_right_iff.2 (List.forall₂_same.2 fun sc _ => ?_)
  refine ⟨⟨rfl, rfl, rfl⟩, rfl, rfl, fun _ => rfl, fun b hb => ⟨b, hb, rfl⟩, ?_⟩
  refine List.forall₂_map_right_iff.2 (List.forall₂_same.2 fun e _ => ?_)
  by_cases he : e.id = j
  · rw [if_pos he]
    exact hg e he
  · rw [if_neg he]
    exact .refl i e

/-- Another value for a static variable that the stretch may change. -/
theorem spared_setStatic {name : Name} {b : Binding FileId} {scopes : List (Scope FileId)} (v : Value)
    (hb : scopes.findSome? (fun sc => sc.statics.get? name) = some b) (ho : own b.file) :
    List.Forall₂ (Spared own i) scopes (ScopeStack.setStatic name v scopes) := by
  induction scopes with
  | nil => exact .nil
  | cons sc outer ih =>
    rw [ScopeStack.setStatic]
    rw [List.findSome?_cons] at hb
    cases hget : sc.statics.get? name with
    | none =>
      rw [hget] at hb
      exact .cons (.refl own i sc) (ih hb)
    | some b' =>
      rw [hget] at hb
      obtain rfl : b' = b := Option.some.inj hb
      have hmem : (name, b') ∈ sc.statics := by
        obtain ⟨l₁, l₂, hl, -⟩ := List.lookup_eq_some_iff.1 hget
        rw [hl]
        exact List.mem_append_right _ List.mem_cons_self
      refine .cons ⟨⟨rfl, rfl, rfl⟩, rfl, rfl, fun hnone => absurd ho (hnone _ hmem), fun x hx => ?_, ?_⟩ ?_
      · rcases List.mem_cons.1 hx with rfl | hx
        · exact ⟨_, hmem, rfl⟩
        · exact ⟨x, (List.mem_filter.1 hx).1, rfl⟩
      · exact List.forall₂_same.2 fun e _ => .refl i e
      · exact List.forall₂_same.2 fun sc' _ => .refl own i sc'

end Scope

/-! ## States -/

namespace GenState

variable {own : FileId → Prop} {i : Nat} {d : Bool} {s s' s'' : GenState}

/-- What a stretch leaves as it was; `d` says whether it may declare in the innermost scope. -/
structure Confined (own : FileId → Prop) (i : Nat) (d : Bool) (s s' : GenState) : Prop where
  writing : s'.writing = s.writing
  target : s'.target.map ReturnTarget.blank = s.target.map ReturnTarget.blank
  depth : s'.depth = s.depth
  size : s.files.size ≤ s'.files.size
  nextId : s.scopes.nextId ≤ s'.scopes.nextId
  grown : List.Forall₂ (Scope.Grown s.writing.head? s'.scopes.nextId) s.scopes.scopes s'.scopes.scopes
  outer : List.Forall₂ (Scope.Spared own i) s.scopes.scopes.tail s'.scopes.scopes.tail
  inner : d = false → List.Forall₂ (Scope.Spared own i) s.scopes.scopes s'.scopes.scopes

theorem forall₂_tail {α : Type} {R : α → α → Prop} {as bs : List α} (h : List.Forall₂ R as bs) :
    List.Forall₂ R as.tail bs.tail := by
  cases h with
  | nil => exact .nil
  | cons _ h => exact h

namespace Confined

/-- A stretch that declares nothing. -/
theorem of_spared (hw : s'.writing = s.writing)
    (ht : s'.target.map ReturnTarget.blank = s.target.map ReturnTarget.blank) (hd : s'.depth = s.depth)
    (hsize : s.files.size ≤ s'.files.size) (hid : s.scopes.nextId ≤ s'.scopes.nextId)
    (hs : List.Forall₂ (Scope.Spared own i) s.scopes.scopes s'.scopes.scopes) : Confined own i d s s' where
  writing := hw
  target := ht
  depth := hd
  size := hsize
  nextId := hid
  grown := hs.imp fun _ _ h => h.grown _ _
  outer := forall₂_tail hs
  inner _ := hs

theorem of_scopes_eq (hw : s'.writing = s.writing)
    (ht : s'.target.map ReturnTarget.blank = s.target.map ReturnTarget.blank) (hd : s'.depth = s.depth)
    (hsize : s.files.size ≤ s'.files.size) (hs : s'.scopes = s.scopes) : Confined own i d s s' := by
  refine of_spared hw ht hd hsize (Nat.le_of_eq ?_) ?_
  · rw [hs]
  · rw [hs]
    exact List.forall₂_same.2 fun sc _ => .refl own i sc

theorem refl (own : FileId → Prop) (i : Nat) (d : Bool) (s : GenState) : Confined own i d s s :=
  of_scopes_eq rfl rfl rfl (Nat.le_refl _) rfl

theorem trans (h : Confined own i d s s') (h' : Confined own i d s' s'') : Confined own i d s s'' where
  writing := h'.writing.trans h.writing
  target := h'.target.trans h.target
  depth := h'.depth.trans h.depth
  size := Nat.le_trans h.size h'.size
  nextId := Nat.le_trans h.nextId h'.nextId
  grown := by
    have hgrown' := h'.grown
    rw [h.writing] at hgrown'
    exact forall₂_comp (fun _ _ _ hg hg' => hg.trans h'.nextId hg') h.grown hgrown'
  outer := forall₂_comp (fun _ _ _ hs hs' => hs.trans hs') h.outer h'.outer
  inner hd := forall₂_comp (fun _ _ _ hs hs' => hs.trans hs') (h.inner hd) (h'.inner hd)

theorem mono (h : Confined own i false s s') : Confined own i d s s' :=
  { h with inner := fun _ => h.inner rfl }

theorem imp {d' : Bool} (hd : d = true → d' = true) (h : Confined own i d s s') : Confined own i d' s s' := by
  refine { h with inner := fun hd' => h.inner ?_ }
  cases d with
  | false => rfl
  | true => exact absurd (hd rfl) (by rw [hd']; decide)

/-- Declarations in the innermost scope. -/
theorem of_top {t t' : Scope FileId} {outer : List (Scope FileId)} {scopes : ScopeStack FileId}
    (hs : s.scopes.scopes = t :: outer) (hs' : scopes.scopes = t' :: outer)
    (hid : s.scopes.nextId ≤ scopes.nextId) (hg : t.Grown s.writing.head? scopes.nextId t') :
    Confined own i true s { s with scopes } := by
  have houter : List.Forall₂ (Scope.Spared own i) outer outer :=
    List.forall₂_same.2 fun sc _ => .refl own i sc
  refine ⟨rfl, rfl, rfl, Nat.le_refl _, hid, ?_, ?_, fun h => by cases h⟩
  · change List.Forall₂ _ _ scopes.scopes
    rw [hs, hs']
    exact .cons hg (houter.imp fun _ _ h => h.grown _ _)
  · change List.Forall₂ _ _ scopes.scopes.tail
    rw [hs, hs']
    exact houter

theorem updateEntry {j : Nat} {g : Entry FileId → Entry FileId}
    (hg : ∀ e : Entry FileId, e.id = j → e.Stays i (g e)) :
    Confined own i d s { s with scopes := s.scopes.updateEntry j g } :=
  of_spared rfl rfl rfl (Nat.le_refl _) (Nat.le_refl _) (Scope.spared_updateEntry hg s.scopes)

theorem scopes_ne_nil (h : Confined own i d s s') (hs : s.scopes.scopes ≠ []) : s'.scopes.scopes ≠ [] := by
  intro hnil
  have hgrown := h.grown
  rw [hnil] at hgrown
  exact hs (List.forall₂_nil_right_iff.1 hgrown)

end Confined

/-- The stretch that starts here owns all that is new. -/
structure Clear (own : FileId → Prop) (i : Nat) (s : GenState) : Prop where
  fresh : ∀ f, s.files.size ≤ f → own f
  ids : i ≤ s.scopes.nextId

/-- The stretch that starts here also owns the current file, and a scope is open. -/
structure Owning (own : FileId → Prop) (i : Nat) (s : GenState) : Prop extends Clear own i s where
  writing : ∃ f fs, s.writing = f :: fs ∧ own f
  scopes : s.scopes.scopes ≠ []

theorem Clear.confined (h : s.Clear own i) (hc : Confined own i d s s') : s'.Clear own i :=
  ⟨fun f hf => h.fresh f (Nat.le_trans hc.size hf), Nat.le_trans h.ids hc.nextId⟩

theorem Owning.confined (h : s.Owning own i) (hc : Confined own i d s s') : s'.Owning own i where
  toClear := h.toClear.confined hc
  writing := by
    rw [hc.writing]
    exact h.writing
  scopes := hc.scopes_ne_nil h.scopes

theorem Clear.deepen (h : s.Clear own i) : s.deepen.Clear own i := ⟨h.fresh, h.ids⟩

theorem Owning.everything {s : GenState} (hw : s.writing ≠ []) (hs : s.scopes.scopes ≠ []) :
    s.Owning (fun _ => True) 0 where
  fresh _ _ := trivial
  ids := Nat.zero_le _
  writing := by
    obtain ⟨f, fs, h⟩ := List.exists_cons_of_ne_nil hw
    exact ⟨f, fs, h, trivial⟩
  scopes := hs

theorem Clear.inNewFile (h : s.Clear own i) (hs : s.scopes.scopes ≠ []) :
    (s.mint.enter s.files.size).Owning own i where
  fresh f hf := h.fresh f (by
    have hsize : (s.mint.enter s.files.size).files.size = s.files.size + 1 := size_mint s
    omega)
  ids := h.ids
  writing := ⟨_, _, rfl, h.fresh _ (Nat.le_refl _)⟩
  scopes := hs

end GenState

namespace Gen

variable {α β : Type} {own : FileId → Prop} {i : Nat} {d : Bool} {s t s₁ s₂ : GenState}

/-- The state that a stretch ends in, whichever way it ends. -/
def after (m : Gen α) (s : GenState) : GenState :=
  match m s with
  | .ok _ s' => s'
  | .error _ s' => s'

theorem after_of_ok {m : Gen α} {a : α} (h : m s = .ok a s₁) : after m s = s₁ := by
  unfold after
  rw [h]

/-- A stretch that gives a value, in the form in which it can be checked by evaluation. -/
theorem ok_after {m : Gen α} {a : α} (h : m.run' s = some a) : m s = .ok a (after m s) := by
  unfold EStateM.run' EStateM.run at h
  unfold after
  cases hm : m s with
  | ok b s' =>
    simp only [hm, Option.some.injEq] at h
    rw [h]
  | error e s' => simp [hm] at h

/-- Confined from every state in which it owns what it has to. -/
def Tame (own : FileId → Prop) (i : Nat) (d : Bool) (m : Gen α) : Prop :=
  ∀ ⦃s : GenState⦄, s.Owning own i → s.Confined own i d (after m s)

/-! ## Sequences -/

theorem after_bind {m : Gen α} {k : α → Gen β} {a : α} (h : m s = .ok a s₁) :
    after (m >>= k) s = after (k a) s₁ := by
  unfold after
  rw [bind_of_ok h]

theorem bind_of_error {m : Gen α} {k : α → Gen β} {f : Failure} (h : m s = .error f s₁) :
    (m >>= k) s = .error f s₁ := by
  change EStateM.bind m k s = _
  unfold EStateM.bind
  rw [h]

theorem confined_bind {m : Gen α} {k : α → Gen β} (hm : s.Confined own i d (after m s))
    (hk : ∀ a s₁, m s = .ok a s₁ → s.Confined own i d s₁ → s₁.Confined own i d (after (k a) s₁)) :
    s.Confined own i d (after (m >>= k) s) := by
  cases hr : m s with
  | ok a s₁ =>
    rw [after_of_ok hr] at hm
    rw [after_bind hr]
    exact hm.trans (hk a s₁ hr hm)
  | error e s₁ =>
    unfold after at hm ⊢
    rw [hr] at hm
    rw [bind_of_error hr]
    exact hm

theorem Tame.bind {m : Gen α} {k : α → Gen β} (hm : Tame own i d m) (hk : ∀ a, Tame own i d (k a)) :
    Tame own i d (m >>= k) :=
  fun _ hs => confined_bind (hm hs) fun a _ _ hc => hk a (hs.confined hc)

theorem Tame.get {k : GenState → Gen β} (h : ∀ t, Tame own i d (k t)) : Tame own i d (get >>= k) :=
  fun s hs => h s hs

theorem Tame.mono {m : Gen α} (h : Tame own i false m) : Tame own i d m := fun _ hs => (h hs).mono

theorem Tame.imp {d' : Bool} (hd : d = true → d' = true) {m : Gen α} (h : Tame own i d m) :
    Tame own i d' m :=
  fun _ hs => (h hs).imp hd

theorem tame_pure (a : α) : Tame own i d (pure a) := fun s _ => .refl own i d s

theorem tame_throw (f : Failure) : Tame own i d (throw f : Gen α) := fun s _ => .refl own i d s

theorem tame_ofExcept (r : Except Failure α) : Tame own i d (ofExcept r : Gen α) := by
  cases r with
  | ok a => exact tame_pure a
  | error f => exact tame_throw f

/-- A bracket: `s` is the state before it opens, `t` the one inside. -/
theorem confined_finally {c : Bool} {m : Gen α} {fin : Gen Unit} (hm : t.Confined own i c (after m t))
    (hfin : ∀ s₁, t.Confined own i c s₁ → ∃ s₂, fin s₁ = .ok () s₂ ∧ s.Confined own i d s₂) :
    s.Confined own i d (after (tryFinally m fin) t) := by
  obtain ⟨s₂, hf, hc⟩ := hfin _ hm
  have hend : after (tryFinally m fin) t = s₂ := by
    unfold after at hf ⊢
    unfold tryFinally
    simp only [Functor.map, EStateM.map, tryFinally']
    cases hr : m t with
    | ok a s₁ =>
      rw [hr] at hf
      simp only [hf]
    | error e s₁ =>
      rw [hr] at hf
      simp only [hf]
  rw [hend]
  exact hc

/-! ## Files -/

theorem confined_mint : s.Confined own i d s.mint := by
  refine .of_scopes_eq rfl rfl rfl ?_ rfl
  rw [GenState.size_mint]
  exact Nat.le_succ _

theorem confined_emit {f : FileId} {fs : List FileId} (hw : s.writing = f :: fs) (c : Command) :
    s.Confined own i d (after (emit c) s) := by
  rw [after_of_ok (emit_ok (u := ()) |>.2 ⟨f, fs, hw, rfl⟩)]
  exact .of_scopes_eq rfl rfl rfl (Nat.le_of_eq (GenState.size_write s f c).symm) rfl

theorem tame_emit (c : Command) : Tame own i d (emit c) := by
  intro s hs
  obtain ⟨f, fs, hw, -⟩ := hs.writing
  exact confined_emit hw c

theorem tame_warn (w : Warning) : Tame own i d (warn w) :=
  fun _ _ => .of_scopes_eq rfl rfl rfl (Nat.le_refl _) rfl

/-- The file is closed again. -/
theorem confined_writingTo {f : FileId} {body : Gen α}
    (hb : (s.enter f).Confined own i false (after body (s.enter f))) :
    s.Confined own i d (after (writingTo f body) s) := by
  refine confined_finally (t := s.enter f) hb fun s₁ hc => ⟨s₁.leave, rfl, ?_⟩
  refine .of_spared ?_ hc.target hc.depth hc.size hc.nextId (hc.inner rfl)
  change s₁.writing.tail = s.writing
  rw [hc.writing]
  rfl

theorem confined_inNewFile {body : Gen Unit} (hclear : s.Clear own i) (hs : s.scopes.scopes ≠ [])
    (hb : Tame own i false body) : s.Confined own i d (after (inNewFile body) s) := by
  have hbody : s.mint.Confined own i d (after (writingTo s.files.size body) s.mint) :=
    confined_writingTo (hb (hclear.inNewFile hs))
  refine confined_mint.trans ?_
  exact confined_bind (s := s.mint) (m := writingTo s.files.size body) hbody fun _ s₁ _ _ => .refl own i d s₁

/-! ## Scopes -/

theorem confined_onScopes {f : ScopeStack FileId → Except Failure (ScopeStack FileId)}
    (hf : ∀ scopes, f s.scopes = .ok scopes → s.Confined own i d { s with scopes }) :
    s.Confined own i d (after (onScopes f) s) := by
  cases hr : f s.scopes with
  | error e =>
    have hend : after (onScopes f) s = s := by
      unfold after onScopes
      rw [bind_of_ok (get_ok.2 ⟨rfl, rfl⟩), hr]
      rfl
    rw [hend]
    exact .refl own i d s
  | ok scopes =>
    rw [after_of_ok (onScopes_ok (u := ()) |>.2 ⟨scopes, hr, rfl⟩)]
    exact hf scopes hr

/-- A scope of its own keeps what the stretch declares from the scopes around it. -/
theorem confined_inScope {kind : ScopeKind} {body : Gen α} {f : FileId} {fs : List FileId}
    (hclear : s.Clear own i) (hw : s.writing = f :: fs) (ho : own f)
    (hb : ∀ s₁ : GenState, s₁.Owning own i → s₁.writing = s.writing → s₁.Confined own i true (after body s₁)) :
    s.Confined own i d (after (inScope kind body) s) := by
  have hopen : (s.openScope kind f).Owning own i :=
    ⟨⟨hclear.fresh, hclear.ids⟩, ⟨f, fs, hw, ho⟩, List.cons_ne_nil _ _⟩
  unfold inScope
  rw [after_bind (currentFile_ok.2 ⟨⟨fs, hw⟩, rfl⟩), after_bind (modify_ok (u := ()) |>.2 rfl)]
  refine confined_finally (t := s.openScope kind f) (c := true) ?_ fun s₁ hc => ?_
  · by_cases hk : kind = .block
    · simp only [if_pos hk]
      refine confined_bind (tame_emit .openFrame hopen) fun _ s₁ _ hc₁ => ?_
      have hs₁ := hopen.confined hc₁
      refine confined_bind (hb s₁ hs₁ hc₁.writing) fun a s₂ _ hc₂ => ?_
      exact ((tame_emit .closeFrame).bind fun _ => tame_pure a) (hs₁.confined hc₂)
    · simp only [if_neg hk]
      refine confined_bind (hb _ hopen rfl) fun a s₁ _ _ => ?_
      exact .refl own i true s₁
  · obtain ⟨warnings, hclose⟩ := closeScope_total (hc.scopes_ne_nil (List.cons_ne_nil _ _))
    exact ⟨_, hclose, .of_spared hc.writing hc.target hc.depth hc.size hc.nextId hc.outer⟩

theorem confined_returningTo {t : ReturnTarget} {body : Gen α}
    (hb : GenState.Confined own i d { s with target := some t } (after body { s with target := some t })) :
    s.Confined own i d (after (returningTo t body) s) := by
  refine confined_finally (t := { s with target := some t }) hb fun s₁ hc => ?_
  exact ⟨{ s₁ with target := s.target }, rfl, { hc with target := rfl }⟩

theorem confined_nested {body : Gen α} (hb : s.deepen.Confined own i d (after body s.deepen)) :
    s.Confined own i d (after (nested body) s) := by
  refine confined_finally (t := s.deepen) hb fun s₁ hc => ⟨s₁.rise, rfl, { hc with depth := ?_ }⟩
  change s₁.depth - 1 = s.depth
  rw [hc.depth]
  rfl

end Gen
end PackScript
