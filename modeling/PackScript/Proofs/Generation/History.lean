import PackScript.Proofs.Generation.Invariants
import Mathlib.Data.List.Nodup

/-! # The history of declared functions

A declared function is given its identity once and keeps it as long as it is in sight. The bodies
that are generated for it are recorded with their keys, and no record is ever changed. So a record
that is found later goes back to the moment when that body was generated, and its files are as they
were when the body was complete.
-/
namespace PackScript

/-! ## What is recorded of functions -/

/-- The functions in sight are told apart by their identities, and the files on record for them exist. -/
structure GenState.Tidy (s : GenState) : Prop where
  distinct : (s.scopes.entries.map Entry.id).Nodup
  ids : ∀ e ∈ s.scopes.entries, e.id < s.scopes.nextId
  cached : ∀ e ∈ s.scopes.entries, ∀ kg ∈ e.specialized, kg.2 < s.files.size

namespace GenState.Tidy

variable {s s' : GenState}

theorem eq_of_id (h : s.Tidy) {e e' : Entry FileId} (he : e ∈ s.scopes.entries) (he' : e' ∈ s.scopes.entries)
    (hid : e.id = e'.id) : e = e' := List.inj_on_of_nodup_map h.distinct he he' hid

theorem current_eq (h : s.Tidy) {e e' : Entry FileId} (he' : e' ∈ s.scopes.entries) (hid : e'.id = e.id) :
    s.scopes.current e = e' := by
  have hfound : (s.scopes.entries.find? fun x => x.id = e.id).isSome := by
    rw [List.find?_isSome]
    exact ⟨e', he', by simpa using hid⟩
  obtain ⟨x, hx⟩ := Option.isSome_iff_exists.1 hfound
  have hxid : x.id = e.id := by simpa using List.find?_some hx
  rw [ScopeStack.current, hx]
  exact h.eq_of_id (List.mem_of_find?_eq_some hx) he' (hxid.trans hid.symm)

/-- Functions may go out of sight, and files and identities may be given out. -/
theorem of_sublist (h : s.Tidy) (he : s'.scopes.entries.Sublist s.scopes.entries)
    (hnext : s.scopes.nextId ≤ s'.scopes.nextId) (hsize : s.files.size ≤ s'.files.size) : s'.Tidy where
  distinct := h.distinct.sublist (he.map Entry.id)
  ids e hm := Nat.lt_of_lt_of_le (h.ids e (he.subset hm)) hnext
  cached e hm kg hk := Nat.lt_of_lt_of_le (h.cached e (he.subset hm) kg hk) hsize

theorem of_entries (h : s.Tidy) (he : s'.scopes.entries = s.scopes.entries)
    (hnext : s.scopes.nextId ≤ s'.scopes.nextId) (hsize : s.files.size ≤ s'.files.size) : s'.Tidy :=
  h.of_sublist (he ▸ List.Sublist.refl _) hnext hsize

theorem register (h : s.Tidy) {fn : Function} {i : Nat} {scopes : ScopeStack FileId}
    (hr : s.scopes.register fn = .ok (i, scopes)) : Tidy { s with scopes } := by
  have hmem {e : Entry FileId} (he : e ∈ scopes.entries) :
      e ∈ s.scopes.entries ∨ e = { id := i, function := fn } := ScopeStack.mem_entries_register hr he
  obtain ⟨t, outer, hscopes, rfl, -, rfl⟩ := ScopeStack.register_ok hr
  have hentries : s.scopes.entries = t.entries ++ outer.flatMap Scope.entries := by
    rw [ScopeStack.entries_eq, hscopes, List.flatMap_cons]
  constructor
  · have hnew : s.scopes.nextId ∉ s.scopes.entries.map Entry.id := by
      intro hin
      obtain ⟨e, he, hid⟩ := List.mem_map.1 hin
      exact Nat.lt_irrefl _ (hid ▸ h.ids e he)
    have hdistinct := h.distinct
    rw [hentries, List.map_append] at hnew hdistinct
    simp only [ScopeStack.entries_eq, List.flatMap_cons, List.map_append, List.map_cons,
      List.append_assoc, List.singleton_append]
    exact List.nodup_middle.2 (List.nodup_cons.2 ⟨hnew, hdistinct⟩)
  · intro e he
    rcases hmem he with he | rfl
    · exact Nat.lt_succ_of_lt (h.ids e he)
    · exact Nat.lt_succ_self _
  · intro e he kg hk
    rcases hmem he with he | rfl
    · exact h.cached e he kg hk
    · cases hk

/-- An entry may be changed, its identity aside, if the files of its new records exist. -/
theorem update (h : s.Tidy) {i : Nat} {f : Entry FileId → Entry FileId} (hs : s'.scopes = s.scopes.updateEntry i f)
    (hsize : s.files.size ≤ s'.files.size) (hid : ∀ e, (f e).id = e.id)
    (hspec : ∀ e, ∀ kg ∈ (f e).specialized, kg ∈ e.specialized ∨ kg.2 < s'.files.size) : s'.Tidy := by
  have hentries : s'.scopes.entries = s.scopes.entries.map fun e => if e.id = i then f e else e := by
    rw [hs, ScopeStack.entries_updateEntry]
  have hsame (e : Entry FileId) : (if e.id = i then f e else e).id = e.id := by
    split
    · exact hid e
    · rfl
  have hnext : s'.scopes.nextId = s.scopes.nextId := by rw [hs]; rfl
  constructor
  · rw [hentries, List.map_map]
    have hids : Entry.id ∘ (fun e => if e.id = i then f e else e) = Entry.id := funext hsame
    rw [hids]
    exact h.distinct
  all_goals simp only [hentries, List.forall_mem_map, hsame, hnext]
  · exact h.ids
  · intro e he kg hk
    have hold (hk : kg ∈ e.specialized) : kg.2 < s'.files.size := Nat.lt_of_lt_of_le (h.cached e he kg hk) hsize
    split at hk
    · exact (hspec e kg hk).elim hold id
    · exact hold hk

/-- A new body is recorded with a file of its own. -/
theorem recorded (h : s.Tidy) (e : Entry FileId) (key : Bytes) : (Gen.recorded s e key).Tidy := by
  have hsize : s.files.size < (Gen.recorded s e key).files.size := by
    change s.files.size < s.mint.files.size
    rw [s.size_mint]
    exact Nat.lt_succ_self _
  refine h.update rfl (Nat.le_of_lt hsize) (fun _ => rfl) fun x kg hk => ?_
  rcases List.mem_cons.1 hk with rfl | hk
  · exact .inr hsize
  · exact .inl hk

end GenState.Tidy

/-! ## Growth -/

theorem exists_append_of_forall₂ {α β : Type} {R : α → β → Prop} {xs ys : List α} {zs : List β}
    (h : List.Forall₂ R (xs ++ ys) zs) :
    ∃ us vs, zs = us ++ vs ∧ List.Forall₂ R xs us ∧ List.Forall₂ R ys vs := by
  induction xs generalizing zs with
  | nil => exact ⟨[], zs, rfl, .nil, h⟩
  | cons x xs ih =>
    cases h with
    | cons hx h =>
      obtain ⟨us, vs, rfl, hus, hvs⟩ := ih h
      exact ⟨_ :: us, vs, rfl, .cons hx hus, hvs⟩

/-- The same function with more records. Those that are new have files from `size` on. -/
structure Entry.GrowsTo (size : Nat) (e e' : Entry FileId) : Prop where
  id : e'.id = e.id
  function : e'.function = e.function
  file : e'.file = e.file
  kept : ∀ k g, e.specialized.lookup k = some g → e'.specialized.lookup k = some g
  added : ∀ k g, e'.specialized.lookup k = some g → e.specialized.lookup k = some g ∨ size ≤ g

theorem Entry.GrowsTo.refl (size : Nat) (e : Entry FileId) : e.GrowsTo size e :=
  ⟨rfl, rfl, rfl, fun _ _ h => h, fun _ _ h => .inl h⟩

theorem Entry.GrowsTo.mono {size size' : Nat} {e e' : Entry FileId} (h : e.GrowsTo size' e') (hsize : size ≤ size') :
    e.GrowsTo size e' :=
  { h with added := fun k g hg => (h.added k g hg).imp_right (Nat.le_trans hsize) }

theorem Entry.GrowsTo.trans {size : Nat} {e e' e'' : Entry FileId} (h : e.GrowsTo size e')
    (h' : e'.GrowsTo size e'') : e.GrowsTo size e'' where
  id := h'.id.trans h.id
  function := h'.function.trans h.function
  file := h'.file.trans h.file
  kept k g hg := h'.kept k g (h.kept k g hg)
  added k g hg := by
    rcases h'.added k g hg with hg | hg
    · exact h.added k g hg
    · exact .inr hg

/-- The functions of a scope have grown, and there may be more of them, with identities from `next` on. -/
def Scope.GrowsTo (size next : Nat) (sc sc' : Scope FileId) : Prop :=
  ∃ old new, sc'.entries = old ++ new ∧ List.Forall₂ (Entry.GrowsTo size) sc.entries old ∧
    ∀ e ∈ new, next ≤ e.id ∧ ∀ k g, e.specialized.lookup k = some g → size ≤ g

namespace Scope.GrowsTo

variable {size size' next next' : Nat} {sc sc' sc'' : Scope FileId}

theorem of_entries (h : List.Forall₂ (Entry.GrowsTo size) sc.entries sc'.entries) : sc.GrowsTo size next sc' :=
  ⟨_, [], (List.append_nil _).symm, h, by simp⟩

theorem of_eq (h : sc'.entries = sc.entries) : sc.GrowsTo size next sc' := by
  refine of_entries ?_
  rw [h]
  exact List.forall₂_same.2 fun e _ => .refl size e

theorem mono (h : sc.GrowsTo size' next' sc') (hsize : size ≤ size') (hnext : next ≤ next') :
    sc.GrowsTo size next sc' := by
  obtain ⟨old, new, heq, hold, hnew⟩ := h
  refine ⟨old, new, heq, hold.imp fun _ _ h => h.mono hsize, fun e he => ?_⟩
  exact ⟨Nat.le_trans hnext (hnew e he).1, fun k g hg => Nat.le_trans hsize ((hnew e he).2 k g hg)⟩

theorem trans (h : sc.GrowsTo size next sc') (h' : sc'.GrowsTo size next sc'') : sc.GrowsTo size next sc'' := by
  obtain ⟨old, new, heq, hold, hnew⟩ := h
  obtain ⟨old', new', heq', hold', hnew'⟩ := h'
  rw [heq] at hold'
  obtain ⟨older, newer, rfl, hfirst, hlast⟩ := exists_append_of_forall₂ hold'
  refine ⟨older, newer ++ new', by rw [heq', List.append_assoc], ?_, fun e he => ?_⟩
  · exact forall₂_comp (fun _ _ _ h h' => h.trans h') hold hfirst
  · rcases List.mem_append.1 he with he | he
    · obtain ⟨x, hx, hgrows⟩ := exists_of_forall₂ hlast he
      refine ⟨hgrows.id ▸ (hnew x hx).1, fun k g hg => ?_⟩
      rcases hgrows.added k g hg with hg | hg
      · exact (hnew x hx).2 k g hg
      · exact hg
    · exact hnew' e he

end Scope.GrowsTo

/-- The same scopes are open, and their functions have grown. -/
structure GenState.Grows (s s' : GenState) : Prop where
  size : s.files.size ≤ s'.files.size
  next : s.scopes.nextId ≤ s'.scopes.nextId
  scopes : List.Forall₂ (Scope.GrowsTo s.files.size s.scopes.nextId) s.scopes.scopes s'.scopes.scopes

namespace GenState.Grows

variable {s s' s'' : GenState}

theorem trans (h : s.Grows s') (h' : s'.Grows s'') : s.Grows s'' where
  size := Nat.le_trans h.size h'.size
  next := Nat.le_trans h.next h'.next
  scopes := forall₂_comp (fun _ _ _ h₁ h₂ => h₁.trans (h₂.mono h.size h.next)) h.scopes h'.scopes

theorem of_same (hsize : s.files.size ≤ s'.files.size) (hnext : s'.scopes.nextId = s.scopes.nextId)
    (hs : List.Forall₂ (fun sc sc' => sc'.entries = sc.entries) s.scopes.scopes s'.scopes.scopes) : s.Grows s' :=
  ⟨hsize, Nat.le_of_eq hnext.symm, hs.imp fun _ _ h => .of_eq h⟩

theorem of_scopes_eq (hsize : s.files.size ≤ s'.files.size) (hs : s'.scopes = s.scopes) : s.Grows s' := by
  refine of_same hsize (by rw [hs]) ?_
  rw [hs]
  exact List.forall₂_same.2 fun _ _ => rfl

theorem of_update {i : Nat} {f : Entry FileId → Entry FileId} (hs : s'.scopes = s.scopes.updateEntry i f)
    (hsize : s.files.size ≤ s'.files.size)
    (hf : ∀ e ∈ s.scopes.entries, e.id = i → e.GrowsTo s.files.size (f e)) : s.Grows s' := by
  refine ⟨hsize, Nat.le_of_eq (by rw [hs]; rfl), ?_⟩
  rw [hs]
  refine List.forall₂_map_right_iff.2 (List.forall₂_same.2 fun sc hsc => .of_entries ?_)
  refine List.forall₂_map_right_iff.2 (List.forall₂_same.2 fun e he => ?_)
  split
  · rename_i hid
    exact hf e (List.mem_flatMap.2 ⟨sc, hsc, he⟩) hid
  · exact .refl _ e

/-- A stretch inside a scope of its own, seen from outside. -/
theorem of_inner {s₀ s₁ : GenState} (h : s₀.Grows s₁) (hs₀ : s₀.scopes.scopes.tail = s.scopes.scopes)
    (hsize : s.files.size ≤ s₀.files.size) (hnext : s.scopes.nextId ≤ s₀.scopes.nextId)
    (hs' : s'.scopes.scopes = s₁.scopes.scopes.tail) (hsize' : s'.files.size = s₁.files.size)
    (hnext' : s'.scopes.nextId = s₁.scopes.nextId) : s.Grows s' := by
  refine ⟨?_, ?_, ?_⟩
  · rw [hsize']
    exact Nat.le_trans hsize h.size
  · rw [hnext']
    exact Nat.le_trans hnext h.next
  · rw [← hs₀, hs']
    exact (forall₂_tail h.scopes).imp fun _ _ hg => hg.mono hsize hnext

/-- A function in sight was in sight before, or it is new. -/
theorem origin (h : s.Grows s') {e : Entry FileId} (he : e ∈ s'.scopes.entries) :
    (∃ e₀ ∈ s.scopes.entries, e₀.GrowsTo s.files.size e) ∨
      s.scopes.nextId ≤ e.id ∧ ∀ k g, e.specialized.lookup k = some g → s.files.size ≤ g := by
  obtain ⟨sc', hsc', he⟩ := List.mem_flatMap.1 he
  obtain ⟨sc, hsc, old, new, heq, hold, hnew⟩ := exists_of_forall₂ h.scopes hsc'
  rw [heq] at he
  rcases List.mem_append.1 he with he | he
  · obtain ⟨e₀, he₀, hgrows⟩ := exists_of_forall₂ hold he
    exact .inl ⟨e₀, List.mem_flatMap.2 ⟨sc, hsc, he₀⟩, hgrows⟩
  · exact .inr (hnew e he)

end GenState.Grows

theorem ScopeStack.updateEntry_id {φ : Type} (s : ScopeStack φ) (i : Nat) : s.updateEntry i (fun e => e) = s := by
  simp [updateEntry]

namespace Gen

variable {ns : Bytes} {p : Program} {a b : Point} {s s' : GenState} {e : Entry FileId}

/-- One entry has a new record, and all others have those that they had. -/
theorem mem_entries_recorded {key : Bytes} {x : Entry FileId} (hx : x ∈ (recorded s e key).scopes.entries) :
    ∃ y ∈ s.scopes.entries, y.id = x.id ∧ ∀ k g, x.specialized.lookup k = some g →
      (y.id = e.id ∧ k = key ∧ g = s.files.size) ∨ y.specialized.lookup k = some g := by
  change x ∈ (s.scopes.updateEntry e.id _).entries at hx
  rw [ScopeStack.entries_updateEntry, List.mem_map] at hx
  obtain ⟨y, hy, rfl⟩ := hx
  refine ⟨y, hy, by split <;> rfl, fun k g hk => ?_⟩
  split at hk
  · rename_i hye
    rw [List.lookup_cons] at hk
    split at hk
    · rename_i hkey
      exact .inl ⟨hye, eq_of_beq hkey, (Option.some.inj hk).symm⟩
    · exact .inr hk
  · exact .inr hk

theorem grows_recorded (h : s.Tidy) {key : Bytes} (hnone : (s.scopes.current e).specialized.lookup key = none) :
    s.Grows (recorded s e key) := by
  have hsize : s.files.size ≤ (recorded s e key).files.size := by
    change s.files.size ≤ s.mint.files.size
    rw [s.size_mint]
    exact Nat.le_succ _
  refine .of_update rfl hsize fun x hx hid => ?_
  rw [h.current_eq hx hid] at hnone
  refine ⟨rfl, rfl, rfl, fun k g hg => ?_, fun k g hg => ?_⟩
  · have hne : (k == key) = false := by
      refine beq_eq_false_iff_ne.2 ?_
      rintro rfl
      rw [hnone] at hg
      cases hg
    rw [List.lookup_cons, hne]
    exact hg
  · rw [List.lookup_cons] at hg
    split at hg
    · exact .inr (Nat.le_of_eq (Option.some.inj hg))
    · exact .inl hg

theorem sublist_flatMap_tail (scopes : List (Scope FileId)) :
    (scopes.tail.flatMap Scope.entries).Sublist (scopes.flatMap Scope.entries) := by
  cases scopes with
  | nil => exact .slnil
  | cons sc outer => exact List.sublist_append_right _ _

theorem forall₂_entries_setStatic (name : Name) (v : Value) (scopes : List (Scope FileId)) :
    List.Forall₂ (fun sc sc' => sc'.entries = sc.entries) scopes (ScopeStack.setStatic name v scopes) := by
  induction scopes with
  | nil => exact .nil
  | cons sc outer ih =>
    rw [ScopeStack.setStatic]
    split
    · exact .cons rfl (List.forall₂_same.2 fun _ _ => rfl)
    · exact .cons rfl ih

/-- A function is declared; it may be given a file at once. -/
theorem grows_register (h : s.Tidy) {fn : Function} {i : Nat} {scopes : ScopeStack FileId}
    (hr : s.scopes.register fn = .ok (i, scopes)) {f : Entry FileId → Entry FileId}
    (hf : ∀ x, (f x).id = x.id ∧ (f x).specialized = x.specialized) (hscopes : s'.scopes = scopes.updateEntry i f)
    (hsize : s.files.size ≤ s'.files.size) : s.Grows s' := by
  obtain ⟨t, outer, hs, rfl, -, rfl⟩ := ScopeStack.register_ok hr
  have hold : ∀ sc ∈ s.scopes.scopes, (sc.entries.map fun x => if x.id = s.scopes.nextId then f x else x) = sc.entries := by
    intro sc hsc
    refine (List.map_congr_left fun x hx => ?_).trans (List.map_id' _)
    exact if_neg (Nat.ne_of_lt (h.ids x (List.mem_flatMap.2 ⟨sc, hsc, hx⟩)))
  rw [hs, List.forall_mem_cons] at hold
  refine ⟨hsize, ?_, ?_⟩
  · rw [hscopes]
    exact Nat.le_succ _
  · rw [hscopes, hs]
    refine .cons ⟨t.entries, [f { id := s.scopes.nextId, function := fn }], ?_, ?_, ?_⟩ ?_
    · change (t.entries ++ [_]).map _ = _
      rw [List.map_append, hold.1, List.map_cons, if_pos rfl, List.map_nil]
    · exact List.forall₂_same.2 fun x _ => .refl _ x
    · intro x hx
      obtain rfl := List.mem_singleton.1 hx
      obtain ⟨hid, hspec⟩ := hf { id := s.scopes.nextId, function := fn }
      exact ⟨Nat.le_of_eq hid.symm, fun k g hg => by rw [hspec] at hg; cases hg⟩
    · exact List.forall₂_map_right_iff.2 (List.forall₂_same.2 fun sc hsc => .of_eq (hold.2 sc hsc))

/-- The functions in sight stay as they are. -/
theorem history_same (hs : s.Tidy) (hsize : s.files.size ≤ s'.files.size) (hscopes : s'.scopes = s.scopes) :
    s'.Tidy ∧ s.Grows s' :=
  ⟨hs.of_entries (by rw [hscopes]) (Nat.le_of_eq (by rw [hscopes])) hsize, .of_scopes_eq hsize hscopes⟩

/-- Variables are declared in the innermost scope. -/
theorem history_withTop (hs : s.Tidy) {t t' : Scope FileId} {outer : List (Scope FileId)}
    (hscopes : s.scopes.scopes = t :: outer) (he : t'.entries = t.entries) :
    GenState.Tidy { s with scopes := s.scopes.withTop t' outer } ∧
      s.Grows { s with scopes := s.scopes.withTop t' outer } := by
  refine ⟨hs.of_entries ?_ (Nat.le_refl _) (Nat.le_refl _), .of_same (Nat.le_refl _) rfl ?_⟩
  · rw [ScopeStack.entries_withTop, he, ScopeStack.entries_eq s.scopes, hscopes, List.flatMap_cons]
  · rw [hscopes]
    exact .cons he (List.forall₂_same.2 fun _ _ => rfl)

/-- A stretch inside a scope of its own, seen from outside. -/
theorem history_closed {s₀ s₁ : GenState} (hs₁ : s₁.Tidy) (h : s₀.Grows s₁)
    (hs₀ : s₀.scopes.scopes.tail = s.scopes.scopes) (hsize : s.files.size ≤ s₀.files.size)
    (hnext : s.scopes.nextId ≤ s₀.scopes.nextId)
    (hs' : s'.scopes = { s₁.scopes with scopes := s₁.scopes.scopes.tail })
    (hsize' : s'.files.size = s₁.files.size) : s'.Tidy ∧ s.Grows s' := by
  refine ⟨hs₁.of_sublist ?_ (Nat.le_of_eq (by rw [hs'])) (Nat.le_of_eq hsize'.symm),
    h.of_inner hs₀ hsize hnext (by rw [hs']) hsize' (by rw [hs'])⟩
  rw [hs']
  exact sublist_flatMap_tail s₁.scopes.scopes

/-- A course keeps the functions in sight apart, and they only grow. -/
theorem Course.history (h : Course (notes ns p) a b) (ha : a.state.Tidy) :
    b.state.Tidy ∧ a.state.Grows b.state := by
  induction h with
  | refl a => exact history_same ha (Nat.le_refl _) rfl
  | trans _ _ ih ih' =>
    obtain ⟨hb, hgrows⟩ := ih ha
    obtain ⟨hc, hgrows'⟩ := ih' hb
    exact ⟨hc, hgrows.trans hgrows'⟩
  | aside h => exact history_same ha (Nat.le_of_eq (by rw [h.files])) h.scopes
  | count i =>
    exact ⟨ha.update rfl (Nat.le_refl _) (fun _ => rfl) fun _ _ => .inl,
      .of_update rfl (Nat.le_refl _) fun x _ _ => ⟨rfl, rfl, rfl, fun _ _ h => h, fun _ _ h => .inl h⟩⟩
  | bind _ h =>
    obtain ⟨t, outer, hscopes, rfl⟩ := ScopeStack.declareStatic_ok h
    exact history_withTop ha hscopes rfl
  | rebind _ h =>
    have hentries := ScopeStack.entries_reassignStatic h
    obtain ⟨-, -, -, rfl⟩ := ScopeStack.reassignStatic_ok h
    exact ⟨ha.of_entries hentries (Nat.le_refl _) (Nat.le_refl _),
      .of_same (Nat.le_refl _) rfl (forall₂_entries_setStatic _ _ _)⟩
  | declare h =>
    obtain ⟨t, outer, hscopes, -, rfl⟩ := ScopeStack.declareRuntime_ok h
    exact history_withTop ha hscopes rfl
  | announce h =>
    obtain ⟨t, outer, _, hscopes, -, -, rfl⟩ := ScopeStack.hoist_ok h
    exact history_withTop ha hscopes rfl
  | register h =>
    refine ⟨ha.register h, grows_register ha h (fun _ => ⟨rfl, rfl⟩) ?_ (Nat.le_refl _)⟩
    exact (ScopeStack.updateEntry_id _ _).symm
  | @reserve s k R B fn i scopes h =>
    have hsize : s.files.size ≤ s.mint.files.size := by
      rw [s.size_mint]
      exact Nat.le_succ _
    refine ⟨(ha.register h).update rfl hsize (fun _ => rfl) fun _ _ => .inl, ?_⟩
    exact grows_register (f := fun x => { x with file := some s.files.size }) ha h (fun _ => ⟨rfl, rfl⟩) rfl hsize
  | call _ _ => exact history_same ha (Nat.le_of_eq (GenState.size_writeAll _ _ _).symm) (GenState.scopes_writeAll _ _ _)
  | @arm s s₁ s₂ f fs opens c k R B B' hw hb he hc ih =>
    have hsize : s.files.size ≤ (inArm s opens).files.size := by
      rw [size_inArm]
      exact Nat.le_succ _
    have hend : s₂.files.size = s₁.files.size := by rw [he.files, size_endArm]
    cases opens with
    | false =>
      obtain ⟨hs₁, hgrows⟩ := ih (ha.of_entries rfl (Nat.le_refl _) hsize)
      have hscopes : (s₂.writeAll f [.load .condition 1, c]).scopes = s₁.scopes := by
        rw [GenState.scopes_writeAll, he.scopes]
        rfl
      have hfiles : s₁.files.size ≤ (s₂.writeAll f [.load .condition 1, c]).files.size := by
        rw [GenState.size_writeAll, hend]
      obtain ⟨hs₂, hgrows₂⟩ := history_same hs₁ hfiles hscopes
      have harm : s.Grows (inArm s false) := .of_scopes_eq hsize rfl
      exact ⟨hs₂, harm.trans (hgrows.trans hgrows₂)⟩
    | true =>
      obtain ⟨hs₁, hgrows⟩ := ih (ha.of_entries (ScopeStack.entries_push _ _ _ _) (Nat.le_refl _) hsize)
      refine history_closed hs₁ hgrows rfl hsize (Nat.le_refl _) ?_ ?_
      · rw [GenState.scopes_writeAll, he.scopes]
        rfl
      · rw [GenState.size_writeAll, hend]
  | @expansion s s₁ f fs k R B B' hw hb ih =>
    obtain ⟨hs₁, hgrows⟩ := ih (ha.of_entries (ScopeStack.entries_push _ _ _ _) (Nat.le_refl _) (Nat.le_refl _))
    exact history_closed hs₁ hgrows rfl (Nat.le_refl _) (Nat.le_refl _) rfl rfl
  | @fill s s₁ g k R R' B B' hb ih =>
    obtain ⟨hs₁, hgrows⟩ := ih (ha.of_entries (ScopeStack.entries_push _ _ _ _) (Nat.le_refl _) (Nat.le_refl _))
    exact history_closed hs₁ hgrows rfl (Nat.le_refl _) (Nat.le_refl _) rfl rfl
  | @specialize s s₁ s₂ e key k R B B' hb hn hs ih =>
    obtain ⟨-, -, statics, -, rfl, hnone, -⟩ := hn
    have hrec := ha.recorded e (s.scopes.specializationKey e.function (statics.map Prod.snd))
    obtain ⟨hs₁, hgrows⟩ := ih (hrec.of_entries (ScopeStack.entries_push _ _ _ _) (Nat.le_refl _) (Nat.le_refl _))
    obtain ⟨hs₂, hgrows₂⟩ : s₂.Tidy ∧ (recorded s e _).Grows s₂ := history_closed hs₁ hgrows rfl (Nat.le_refl _)
      (Nat.le_refl _) hs.scopes (congrArg Array.size hs.files)
    exact ⟨hs₂, (grows_recorded ha hnone).trans hgrows₂⟩
  | _ => exact history_same ha (Nat.le_of_eq (GenState.size_write _ _ _).symm) rfl

/-! ## Where records come from -/

/-- A body was generated between `s₁` and `s₂`, and at `s` its files are as they were then: none of
them is being written or reserved, and the functions from back then have only grown. -/
structure Later (R : List FileId) (s₁ s₂ s : GenState) : Prop where
  size : s₂.files.size ≤ s.files.size
  next : s₂.scopes.nextId ≤ s.scopes.nextId
  closed : ∀ f, s₁.files.size ≤ f → f < s₂.files.size → f ∉ s.writing ∧ f ∉ R ∧ s.text f = s₂.text f
  entries : ∀ x ∈ s.scopes.entries, x.id < s₂.scopes.nextId →
    ∃ x₀ ∈ s₂.scopes.entries, x₀.GrowsTo s₂.files.size x

namespace Later

variable {R R' : List FileId} {s₁ s₂ : GenState}

theorem step (h : Later R s₁ s₂ s) (hsize : s.files.size ≤ s'.files.size)
    (hnext : s.scopes.nextId ≤ s'.scopes.nextId)
    (hclosed : ∀ f, s₁.files.size ≤ f → f < s.files.size → f ∉ s.writing → f ∉ R →
      f ∉ s'.writing ∧ f ∉ R' ∧ s'.text f = s.text f)
    (hentries : ∀ x ∈ s'.scopes.entries, x.id < s.scopes.nextId →
      ∃ x₀ ∈ s.scopes.entries, x₀.GrowsTo s.files.size x) : Later R' s₁ s₂ s' where
  size := Nat.le_trans h.size hsize
  next := Nat.le_trans h.next hnext
  closed f hle hlt := by
    obtain ⟨hw, hR, htext⟩ := h.closed f hle hlt
    obtain ⟨hw', hR', htext'⟩ := hclosed f hle (Nat.lt_of_lt_of_le hlt h.size) hw hR
    exact ⟨hw', hR', htext'.trans htext⟩
  entries x hx hid := by
    obtain ⟨x₀, hx₀, hgrows⟩ := hentries x hx (Nat.lt_of_lt_of_le hid h.next)
    obtain ⟨x₁, hx₁, hgrows₁⟩ := h.entries x₀ hx₀ (hgrows.id ▸ hid)
    exact ⟨x₁, hx₁, hgrows₁.trans (hgrows.mono h.size)⟩

/-- The functions in sight stay the same. -/
theorem same (h : Later R s₁ s₂ s) (hscopes : s'.scopes.entries = s.scopes.entries)
    (hnext : s'.scopes.nextId = s.scopes.nextId) (hsize : s.files.size ≤ s'.files.size)
    (hclosed : ∀ f, s₁.files.size ≤ f → f < s.files.size → f ∉ s.writing → f ∉ R →
      f ∉ s'.writing ∧ f ∉ R' ∧ s'.text f = s.text f) : Later R' s₁ s₂ s' :=
  h.step hsize (Nat.le_of_eq hnext.symm) hclosed fun x hx _ => ⟨x, hscopes ▸ hx, .refl _ x⟩

/-- What was opened is closed again; the files in `R` were reserved before. -/
theorem leave (h : Later [] s₁ s₂ s) (hwriting : s'.writing ⊆ s.writing)
    (htext : ∀ f, f ∉ s.writing → s'.text f = s.text f) (hsize : s'.files.size = s.files.size)
    (hnext : s'.scopes.nextId = s.scopes.nextId) (hentries : s'.scopes.entries ⊆ s.scopes.entries)
    (hR : ∀ f ∈ R, f < s₁.files.size) : Later R s₁ s₂ s' := by
  refine h.step (Nat.le_of_eq hsize.symm) (Nat.le_of_eq hnext.symm) (fun f hle _ hw _ => ?_)
    fun x hx _ => ⟨x, hentries hx, .refl _ x⟩
  exact ⟨fun hf => hw (hwriting hf), fun hf => absurd (hR f hf) (Nat.not_lt_of_le hle), htext f hw⟩

theorem course (hc : Course (notes ns p) a b) (ha : a.state.Tidy)
    (h : Later a.pending s₁ s₂ a.state) : Later b.pending s₁ s₂ b.state := by
  obtain ⟨-, hgrows⟩ := hc.history ha
  refine h.step hgrows.size hgrows.next (fun f _ hf hw hR => ?_) fun x hx hid => ?_
  · have hhead : a.state.writing.head? ≠ some f := fun h => hw (List.mem_of_mem_head? h)
    obtain ⟨htext, hR'⟩ := hc.untouched hf hhead hR
    exact ⟨hc.writing_eq ▸ hw, hR', htext⟩
  · rcases hgrows.origin hx with horigin | ⟨hnew, -⟩
    · exact horigin
    · exact absurd hid (Nat.not_lt_of_le hnew)

end Later

/-- The body with this key that an entry records was generated earlier, and is as it was then. -/
def Recalled (ns : Bytes) (p : Program) (R : List FileId) (s : GenState) (i : Nat) (key : Bytes) (g : FileId) : Prop :=
  ∃ s₁ e₁ s₂, (notes ns p).specialized s₁ e₁ key s₂ ∧ e₁.id = i ∧ s₁.files.size = g ∧ Later R s₁ s₂ s

theorem Recalled.step {R R' : List FileId} {i g : Nat} {key : Bytes} (h : Recalled ns p R s i key g)
    (hstep : ∀ {s₁ s₂}, s₁.files.size = g → Later R s₁ s₂ s → Later R' s₁ s₂ s') : Recalled ns p R' s' i key g := by
  obtain ⟨s₁, e₁, s₂, hn, hid, hg, hlater⟩ := h
  exact ⟨s₁, e₁, s₂, hn, hid, hg, hstep hg hlater⟩

/-- Every record at the end of a course was there at its start, or it was made on the way. -/
theorem Course.recalled (h : Course (notes ns p) a b) (ha : a.state.Tidy) (hex : a.Exists)
    {x : Entry FileId} (hx : x ∈ b.state.scopes.entries) {k : Bytes} {g : FileId}
    (hk : x.specialized.lookup k = some g) :
    (∃ x₀ ∈ a.state.scopes.entries, x₀.id = x.id ∧ x₀.specialized.lookup k = some g) ∨
      a.state.files.size ≤ g ∧ Recalled ns p b.pending b.state x.id k g := by
  -- where no file is created, no record is made
  have hnothing {a b : Point} {x : Entry FileId} (h : Course (notes ns p) a b) (ha : a.state.Tidy)
      (hsize : b.state.files.size = a.state.files.size) (hx : x ∈ b.state.scopes.entries)
      (hk : x.specialized.lookup k = some g) :
      (∃ x₀ ∈ a.state.scopes.entries, x₀.id = x.id ∧ x₀.specialized.lookup k = some g) ∨
        a.state.files.size ≤ g ∧ Recalled ns p b.pending b.state x.id k g := by
    obtain ⟨hb, hgrows⟩ := h.history ha
    obtain ⟨kg, hmem, rfl⟩ := lookup_mem hk
    have hlt : kg.2 < a.state.files.size := hsize ▸ hb.cached x hx kg hmem
    rcases hgrows.origin hx with ⟨x₀, hx₀, hx₀x⟩ | ⟨-, hnew⟩
    · rcases hx₀x.added k kg.2 hk with hold | hnew
      · exact .inl ⟨x₀, hx₀, hx₀x.id.symm, hold⟩
      · exact absurd hlt (Nat.not_lt_of_le hnew)
    · exact absurd hlt (Nat.not_lt_of_le (hnew k kg.2 hk))
  induction h generalizing x with
  | refl a => exact .inl ⟨x, hx, rfl, hk⟩
  | trans h h' ih ih' =>
    obtain ⟨hb, hgrows⟩ := h.history ha
    rcases ih' hb (h.preserves_exists hex) hx hk with ⟨x₁, hx₁, hid, hk₁⟩ | ⟨hle, hrec⟩
    · rcases ih ha hex hx₁ hk₁ with ⟨x₀, hx₀, hid₀, hk₀⟩ | ⟨hle, hrec⟩
      · exact .inl ⟨x₀, hx₀, hid₀.trans hid, hk₀⟩
      · exact .inr ⟨hle, hid ▸ hrec.step fun _ hlater => hlater.course h' hb⟩
    · exact .inr ⟨Nat.le_trans hgrows.size hle, hrec⟩
  | aside h => exact hnothing (.aside h) ha (congrArg Array.size h.files) hx hk
  | count i => exact hnothing (.count i) ha rfl hx hk
  | bind hw h => exact hnothing (.bind hw h) ha rfl hx hk
  | rebind hw h => exact hnothing (.rebind hw h) ha rfl hx hk
  | declare h => exact hnothing (.declare h) ha rfl hx hk
  | announce h => exact hnothing (.announce h) ha rfl hx hk
  | register h => exact hnothing (.register h) ha rfl hx hk
  | @reserve s _ _ _ fn i scopes h =>
    left
    change x ∈ (scopes.updateEntry i fun x => { x with file := some s.files.size }).entries at hx
    rw [ScopeStack.entries_updateEntry, List.mem_map] at hx
    obtain ⟨x₁, hx₁, rfl⟩ := hx
    have hsame : (if x₁.id = i then { x₁ with file := some s.files.size } else x₁).specialized = x₁.specialized := by
      split <;> rfl
    rw [hsame] at hk
    rcases ScopeStack.mem_entries_register h hx₁ with hx₁ | rfl
    · exact ⟨x₁, hx₁, by split <;> rfl, hk⟩
    · cases hk
  | call hw hg => exact hnothing (.call hw hg) ha (GenState.size_writeAll _ _ _) hx hk
  | @arm s s₁ s₂ f fs opens c k' R B B' hw hb he hc ih =>
    have hs₁ : s₁.writing = s.files.size :: f :: fs := by rw [hb.writing_eq, writing_inArm, hw]
    have hscopes : (s₂.writeAll f [.load .condition 1, c]).scopes = (endArm s₁ s.files.size opens).scopes := by
      rw [GenState.scopes_writeAll, he.scopes]
    have hx₁ : x ∈ s₁.scopes.entries := by
      change x ∈ (s₂.writeAll f [.load .condition 1, c]).scopes.entries at hx
      rw [hscopes] at hx
      cases opens
      · exact hx
      · exact (sublist_flatMap_tail s₁.scopes.scopes).subset hx
    have hin : (inArm s opens).scopes.entries = s.scopes.entries := by
      cases opens
      · rfl
      · exact ScopeStack.entries_push _ _ _ _
    have hsize : s.files.size ≤ (inArm s opens).files.size := by
      rw [size_inArm]
      exact Nat.le_succ _
    have hnext : (inArm s opens).scopes.nextId = s.scopes.nextId := by cases opens <;> rfl
    rcases ih (ha.of_entries hin (Nat.le_of_eq hnext.symm) hsize) (hex.inArm opens) hx₁ hk with
      ⟨x₀, hx₀, hid, hk₀⟩ | ⟨hle, hrec⟩
    · exact .inl ⟨x₀, hin ▸ hx₀, hid, hk₀⟩
    · have hle := Nat.le_trans hsize hle
      refine .inr ⟨hle, hrec.step fun hg hlater => hlater.leave ?_ (fun i hi => ?_) ?_ ?_ ?_ ?_⟩
      · rw [GenState.writing_writeAll, he.writing, writing_endArm, hs₁]
        exact List.subset_cons_self _ _
      · rw [hs₁, List.mem_cons, List.mem_cons, not_or, not_or] at hi
        rw [GenState.text_writeAll_of_ne _ hi.2.1, GenState.Alike.text he, text_endArm_of_ne s₁ opens hi.1]
      · rw [GenState.size_writeAll, he.files, size_endArm]
      · rw [hscopes]
        cases opens <;> rfl
      · rw [hscopes]
        cases opens
        · exact List.Subset.refl _
        · exact (sublist_flatMap_tail s₁.scopes.scopes).subset
      · exact fun f hf => Nat.lt_of_lt_of_le (hex.pending f hf) (hg ▸ hle)
  | @expansion s s₁ f fs k' R B B' hw hb ih =>
    have hin : (s.openScope .expansion f).scopes.entries = s.scopes.entries := ScopeStack.entries_push _ _ _ _
    rcases ih (ha.of_entries hin (Nat.le_refl _) (Nat.le_refl _)) ⟨hex.writing, by simp⟩
      ((sublist_flatMap_tail s₁.scopes.scopes).subset hx) hk with ⟨x₀, hx₀, hid, hk₀⟩ | ⟨hle, hrec⟩
    · exact .inl ⟨x₀, hin ▸ hx₀, hid, hk₀⟩
    · refine .inr ⟨hle, hrec.step fun hg hlater => hlater.leave (List.Subset.refl _) (fun _ _ => rfl) rfl rfl
        (sublist_flatMap_tail s₁.scopes.scopes).subset ?_⟩
      exact fun f hf => Nat.lt_of_lt_of_le (hex.pending f hf) (hg ▸ hle)
  | @fill s s₁ g' k' R R' B B' hb ih =>
    have hin : (inBody s g').scopes.entries = s.scopes.entries := ScopeStack.entries_push _ _ _ _
    have hfile : ∀ f ∈ (inBody s g').writing, f < s.files.size := by
      intro f hf
      rcases List.mem_cons.1 hf with rfl | hf
      · exact hex.pending f (by simp)
      · exact hex.writing f hf
    rcases ih (ha.of_entries hin (Nat.le_refl _) (Nat.le_refl _)) ⟨hfile, by simp⟩
      ((sublist_flatMap_tail s₁.scopes.scopes).subset hx) hk with ⟨x₀, hx₀, hid, hk₀⟩ | ⟨hle, hrec⟩
    · exact .inl ⟨x₀, hin ▸ hx₀, hid, hk₀⟩
    · refine .inr ⟨hle, hrec.step fun hg hlater => hlater.leave (List.tail_sublist _).subset (fun _ _ => rfl) rfl rfl
        (sublist_flatMap_tail s₁.scopes.scopes).subset fun f hf => ?_⟩
      have hmem : f ∈ R ++ g' :: R' := by
        rcases List.mem_append.1 hf with hf | hf
        · exact List.mem_append_left _ hf
        · exact List.mem_append_right _ (List.mem_cons_of_mem _ hf)
      exact Nat.lt_of_lt_of_le (hex.pending f hmem) (hg ▸ hle)
  | @specialize s s₁ s₂ e key k' R B B' hb hn hs ih =>
    have hspecialized := hn
    obtain ⟨-, -, -, -, -, hnone, -⟩ := hn
    have hrec := ha.recorded e key
    have hin : (inBody (recorded s e key) s.files.size).scopes.entries = (recorded s e key).scopes.entries :=
      ScopeStack.entries_push _ _ _ _
    have hsize : s.files.size ≤ (recorded s e key).files.size := (grows_recorded ha hnone).size
    have hx₁ : x ∈ s₁.scopes.entries := by
      change x ∈ s₂.scopes.entries at hx
      rw [hs.scopes] at hx
      exact (sublist_flatMap_tail s₁.scopes.scopes).subset hx
    have hwriting : s₂.writing = s.writing := hs.writing.trans (congrArg List.tail hb.writing_eq)
    rcases ih (hrec.of_entries hin (Nat.le_refl _) (Nat.le_refl _)) hex.inRecorded hx₁ hk with
      ⟨x₀, hx₀, hid, hk₀⟩ | ⟨hle, hfound⟩
    · obtain ⟨y, hy, hyid, hlookup⟩ := mem_entries_recorded (hin ▸ hx₀)
      have hyx := hyid.trans hid
      rcases hlookup k g hk₀ with ⟨hye, rfl, rfl⟩ | hold
      · refine .inr ⟨Nat.le_refl _, s, e, s₂, hspecialized, hye.symm.trans hyx, rfl, Nat.le_refl _, Nat.le_refl _,
          fun f hle _ => ⟨fun hf => ?_, fun hf => ?_, rfl⟩, fun y hy _ => ⟨y, hy, .refl _ y⟩⟩
        · exact absurd (hex.writing f (hwriting ▸ hf)) (Nat.not_lt_of_le hle)
        · exact absurd (hex.pending f hf) (Nat.not_lt_of_le hle)
      · exact .inl ⟨y, hy, hyx, hold⟩
    · have hle := Nat.le_trans hsize hle
      refine .inr ⟨hle, hfound.step fun hg hlater => hlater.leave ?_ (fun i _ => GenState.Alike.text hs i)
        (congrArg Array.size hs.files) (by rw [hs.scopes]; rfl) ?_ ?_⟩
      · rw [hs.writing]
        exact (List.tail_sublist _).subset
      · rw [hs.scopes]
        exact (sublist_flatMap_tail s₁.scopes.scopes).subset
      · exact fun f hf => Nat.lt_of_lt_of_le (hex.pending f hf) (hg ▸ hle)
  | _ => exact .inl ⟨x, hx, rfl, hk⟩

theorem Recalled.weaken {R R' : List FileId} {i g : Nat} {key : Bytes} (h : Recalled ns p R s i key g)
    (hR : R' ⊆ R) : Recalled ns p R' s i key g :=
  h.step fun _ hlater => hlater.same rfl rfl (Nat.le_refl _) fun _ _ _ hw hf => ⟨hw, fun hf' => hf (hR hf'), rfl⟩

/-- Every body on record belongs to a file that is being written, or was generated earlier. The body
that is about to be generated may be on record, too. -/
theorem history_invariant : Invariant ns p
    (fun R s => s.Tidy ∧ ∀ x ∈ s.scopes.entries, ∀ k g, x.specialized.lookup k = some g →
      g ∈ s.writing ∨ Recalled ns p R s x.id k g)
    (fun f s => s.Tidy ∧ ∀ x ∈ s.scopes.entries, ∀ k g, x.specialized.lookup k = some g →
      g ∈ s.writing ∨ g = f ∨ Recalled ns p [f] s x.id k g) where
  start {scopes} h := by
    have hempty : scopes.entries = [] := ScopeStack.entries_declareStatic h
    refine ⟨⟨?_, ?_, ?_⟩, ?_⟩
    all_goals simp [hempty]
  course {a b} hc hex h := by
    obtain ⟨ha, hrecords⟩ := h
    refine ⟨(hc.history ha).1, fun x hx k g hk => ?_⟩
    rcases hc.recalled ha hex hx hk with ⟨x₀, hx₀, hid, hk₀⟩ | ⟨-, hrec⟩
    · rcases hrecords x₀ hx₀ k g hk₀ with hg | hrec
      · exact .inl (hc.writing_eq ▸ hg)
      · exact .inr (hid ▸ hrec.step fun _ hlater => hlater.course hc ha)
    · exact .inr hrec
  drop h := ⟨h.1, fun x hx k g hk => (h.2 x hx k g hk).imp_right fun hrec => hrec.weaken (List.subset_cons_self _ _)⟩
  arm {s} opens h := by
    have hin : (inArm s opens).scopes.entries = s.scopes.entries := by
      cases opens
      · rfl
      · exact ScopeStack.entries_push _ _ _ _
    have hnext : (inArm s opens).scopes.nextId = s.scopes.nextId := by cases opens <;> rfl
    have hsize : s.files.size ≤ (inArm s opens).files.size := by
      rw [size_inArm]
      exact Nat.le_succ _
    refine ⟨h.1.of_entries hin (Nat.le_of_eq hnext.symm) hsize, fun x hx k g hk => ?_⟩
    rw [hin] at hx
    rw [writing_inArm]
    refine (h.2 x hx k g hk).imp (List.mem_cons_of_mem _) fun hrec => hrec.step fun _ hlater => ?_
    refine hlater.same hin hnext hsize fun f _ hf hw hR => ?_
    rw [writing_inArm, List.mem_cons, not_or]
    exact ⟨⟨Nat.ne_of_lt hf, hw⟩, hR, text_inArm_of_ne s opens (Nat.ne_of_lt hf)⟩
  expansion {s} f label h := by
    have hin : (inExpansion s f label).scopes.entries = s.scopes.entries := ScopeStack.entries_push _ _ _ _
    refine ⟨h.1.of_entries hin (Nat.le_refl _) (Nat.le_refl _), fun x hx k g hk => ?_⟩
    refine (h.2 x (hin ▸ hx) k g hk).imp_right fun hrec => hrec.step fun _ hlater => ?_
    exact hlater.same hin rfl (Nat.le_refl _) fun _ _ _ hw hR => ⟨hw, hR, rfl⟩
  reserved h := by
    refine ⟨h.1, fun x hx k g hk => (h.2 x hx k g hk).imp_right fun hrec => .inr (hrec.weaken ?_)⟩
    simp
  recorded {n span e statics s} hr hnone h := by
    have hgrows := grows_recorded h.1 hnone
    refine ⟨h.1.recorded e _, fun x hx k g hk => ?_⟩
    obtain ⟨y, hy, hyx, hlookup⟩ := mem_entries_recorded hx
    rcases hlookup k g hk with ⟨-, -, rfl⟩ | hold
    · exact .inr (.inl rfl)
    · refine (h.2 y hy k g hold).imp_right fun hrec => .inr (hyx ▸ hrec.step fun _ hlater => ?_)
      refine hlater.step hgrows.size hgrows.next (fun f _ hf hw _ => ⟨hw, ?_, text_recorded s e _ f⟩) fun x hx hid => ?_
      · rw [List.mem_singleton]
        exact Nat.ne_of_lt hf
      · rcases hgrows.origin hx with horigin | ⟨hnew, -⟩
        · exact horigin
        · exact absurd hid (Nat.not_lt_of_le hnew)
  body {g s} h := by
    have hin : (inBody s g).scopes.entries = s.scopes.entries := ScopeStack.entries_push _ _ _ _
    refine ⟨h.1.of_entries hin (Nat.le_refl _) (Nat.le_refl _), fun x hx k f hk => ?_⟩
    rcases h.2 x (hin ▸ hx) k f hk with hf | rfl | hrec
    · exact .inl (List.mem_cons_of_mem _ hf)
    · exact .inl List.mem_cons_self
    · refine .inr (hrec.step fun _ hlater => hlater.same hin rfl (Nat.le_refl _) fun f _ _ hw hR => ?_)
      rw [List.mem_singleton] at hR
      exact ⟨fun hf => (List.mem_cons.1 hf).elim hR hw, List.not_mem_nil, rfl⟩

/-- Wherever a run gets to, the functions in sight are told apart. -/
theorem Reached.tidy {t : Task} (h : Reached ns p t s) : s.Tidy := by
  have hkept := history_invariant.reached h
  cases t <;> exact hkept.1

/-- A body that a run finds on record, and that is not being written, was generated earlier in the
run and is as it was then. -/
theorem Reached.recalled {n : Nat} {span : Span} {statics : List (Name × Value)}
    (h : Reached ns p (.specialize n span e statics) s) {x : Entry FileId} (hx : x ∈ s.scopes.entries) {k : Bytes}
    {g : FileId} (hk : x.specialized.lookup k = some g) (hg : g ∉ s.writing) : Recalled ns p [] s x.id k g :=
  (history_invariant.reached h |>.2 x hx k g hk).resolve_left hg

end Gen
end PackScript
