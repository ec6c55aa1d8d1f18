import PackScript.Proofs.Scope.Leaving
import PackScript.Proofs.Syntax.Legible

/-! # Overloads of one scope

A scope tells its functions apart by their keys, texts with the names and annotations of a
signature one behind the other. Names are words, so that such a text can be read in one way only:
two functions have the same key exactly if they have the same signature. Whatever is done to a
stack of scopes, no scope comes to hold a signature twice.
-/
namespace PackScript

/-- All names of the signature are words; each may have a sigil. -/
structure Signature.Worded (s : Signature) : Prop where
  name : IsWord s.name.text
  params : ∀ p ∈ s.params, IsWord p.name.text

namespace Signature

variable {s t : Signature}

theorem legible_paramKey : Legible (fun p : Param => IsWord p.name.text) EndsWord paramKey := by
  rintro ⟨n, ty⟩ ⟨n', ty'⟩ hn hn' u v hu hv h
  have hcolon (w : Bytes) : EndsWord (58 :: w) := endsWord_cons (by decide) (by decide) w
  have hname : n.render ++ 58 :: (ty.render ++ u) = n'.render ++ 58 :: (ty'.render ++ v) := by
    rwa [paramKey, paramKey, List.append_assoc, List.append_assoc, List.append_assoc, List.append_assoc] at h
  obtain ⟨rfl, hrest⟩ := legible_name hn hn' (hcolon _) (hcolon _) hname
  obtain ⟨rfl, huv⟩ := legible_typing trivial trivial hu hv (List.cons.inj hrest).2
  exact ⟨rfl, huv⟩

/-- Parameters up to the closing parenthesis. -/
theorem legible_params : Legible (fun ps : List Param => ∀ p ∈ ps, IsWord p.name.text)
    (fun u => u.head? = some 41) fun ps => Bytes.join [44] (ps.map paramKey) := by
  have hparam : Legible (fun p : Param => IsWord p.name.text)
      (fun u => u.head? = some 44 ∨ u.head? = some 41) paramKey := by
    refine legible_paramKey.weaken (fun _ hp => hp) fun u hu b hb => ?_
    rcases hu with hu | hu <;>
    · obtain rfl := Option.some.inj (hu.symm.trans hb)
      decide
  refine hparam.join (fun u hu => by simp [hu]) fun p hp u hparen => ?_
  -- A parameter starts with a sigil or a letter.
  obtain ⟨⟨w, d⟩, ty⟩ := p
  obtain ⟨b, stem, primes, rfl, hb, -, -⟩ := hp
  cases d with
  | true => exact absurd (Option.some.inj hparen) (by decide)
  | false =>
    obtain rfl : b = 41 := Option.some.inj hparen
    exact absurd hb (by decide)

theorem eq_of_key_eq (hs : s.Worded) (ht : t.Worded) (h : s.key = t.key) : s = t := by
  have hparen (w : Bytes) : EndsWord (40 :: w) := endsWord_cons (by decide) (by decide) w
  have hname : s.name.render ++ 40 :: (Bytes.join [44] (s.params.map paramKey) ++ [41]) =
      t.name.render ++ 40 :: (Bytes.join [44] (t.params.map paramKey) ++ [41]) := by
    rwa [key, key, List.append_assoc, List.append_assoc, List.append_assoc, List.append_assoc] at h
  obtain ⟨hn, hrest⟩ := legible_name hs.name ht.name (hparen _) (hparen _) hname
  obtain ⟨hp, -⟩ := legible_params hs.params ht.params rfl rfl (List.cons.inj hrest).2
  obtain ⟨n, ps⟩ := s
  obtain ⟨n', ps'⟩ := t
  obtain rfl : n = n' := hn
  obtain rfl : ps = ps' := hp
  rfl

theorem sameKey_iff (hs : s.Worded) (ht : t.Worded) : s.sameKey t = true ↔ s = t := by
  rw [sameKey, decide_eq_true_iff]
  exact ⟨eq_of_key_eq hs ht, fun h => h ▸ rfl⟩

end Signature

/-! ## What operations leave -/

namespace Scope

variable {φ : Type}

/-- The signatures of the functions of a scope, in the order declared. -/
def signatures (sc : Scope φ) : List Signature := sc.entries.map Entry.signature

/-- No two functions of the scope have the same signature, and all names in them are words. -/
structure WellDeclared (sc : Scope φ) : Prop where
  distinct : sc.signatures.Nodup
  worded : ∀ sig ∈ sc.signatures, sig.Worded

theorem WellDeclared.of_entries_eq {sc sc' : Scope φ} (h : sc.WellDeclared) (he : sc'.entries = sc.entries) :
    sc'.WellDeclared := by
  have hsig : sc'.signatures = sc.signatures := congrArg (List.map Entry.signature) he
  exact ⟨hsig ▸ h.distinct, hsig ▸ h.worded⟩

/-- One more function, with a key that no other one has. -/
theorem WellDeclared.declare {sc : Scope φ} (h : sc.WellDeclared) {f : Function} (hf : f.signature.Worded)
    (hnew : ∀ e ∈ sc.entries, e.signature.sameKey f.signature = false) (i : Nat) :
    WellDeclared { sc with entries := sc.entries ++ [{ id := i, function := f }] } := by
  have hsig : signatures { sc with entries := sc.entries ++ [{ id := i, function := f }] } =
      sc.signatures ++ [f.signature] := by
    simp [signatures, Entry.signature]
  have hnot : f.signature ∉ sc.signatures := by
    intro hmem
    obtain ⟨e, he, hsame⟩ := List.mem_map.1 hmem
    have hkey := hnew e he
    rw [hsame, Signature.sameKey, decide_eq_false_iff_not] at hkey
    exact hkey rfl
  constructor
  · rw [hsig, List.nodup_append]
    refine ⟨h.distinct, by simp, ?_⟩
    rintro sig hsig _ hlast rfl
    obtain rfl := List.mem_singleton.1 hlast
    exact hnot hsig
  · intro sig hmem
    rw [hsig, List.mem_append, List.mem_singleton] at hmem
    rcases hmem with hmem | rfl
    · exact h.worded sig hmem
    · exact hf

end Scope

/-- The names in a declared function are words. -/
def ScopeOp.Worded {φ : Type} : ScopeOp φ → Prop
  | .register f => f.signature.Worded
  | _ => True

namespace ScopeStack

variable {φ : Type} {s s' : ScopeStack φ}

/-- The innermost scope may be changed as long as its functions stay well declared. -/
theorem wellDeclared_withTop {t t' : Scope φ} {outer : List (Scope φ)} (ht : s.scopes = t :: outer)
    (h : ∀ sc ∈ s.scopes, sc.WellDeclared) (ht' : t.WellDeclared → t'.WellDeclared) :
    ∀ sc ∈ t' :: outer, sc.WellDeclared := by
  rw [ht, List.forall_mem_cons] at h
  rw [List.forall_mem_cons]
  exact ⟨ht' h.1, h.2⟩

theorem wellDeclared_sameButStatics {scopes scopes' : List (Scope φ)} (h : SameButStatics scopes scopes')
    (hs : ∀ sc ∈ scopes, sc.WellDeclared) : ∀ sc ∈ scopes', sc.WellDeclared := by
  induction h with
  | nil => exact hs
  | cons hsc _ ih =>
    obtain ⟨statics, rfl⟩ := hsc
    rw [List.forall_mem_cons] at hs ⊢
    exact ⟨hs.1.of_entries_eq rfl, ih hs.2⟩

theorem wellDeclared_register {f : Function} {i : Nat} (hf : f.signature.Worded)
    (hr : s.register f = .ok (i, s')) (h : ∀ sc ∈ s.scopes, sc.WellDeclared) :
    ∀ sc ∈ s'.scopes, sc.WellDeclared := by
  obtain ⟨t, outer, ht, -, hnew, rfl⟩ := register_ok hr
  exact wellDeclared_withTop ht h fun htop => htop.declare hf hnew i

theorem any_sameKey_iff {t : Scope φ} (ht : t.WellDeclared) {f : Function} (hf : f.signature.Worded) :
    (t.entries.any fun e => e.signature.sameKey f.signature) = true ↔ f.signature ∈ t.signatures := by
  rw [List.any_eq_true, Scope.signatures, List.mem_map]
  have hworded (e : Entry φ) (he : e ∈ t.entries) : e.signature.Worded :=
    ht.worded _ (List.mem_map_of_mem he)
  constructor
  · rintro ⟨e, he, hsame⟩
    exact ⟨e, he, (Signature.sameKey_iff (hworded e he) hf).1 hsame⟩
  · rintro ⟨e, he, hsame⟩
    exact ⟨e, he, (Signature.sameKey_iff (hworded e he) hf).2 hsame⟩

/-- Declaring a function fails if the innermost scope holds its signature; otherwise the function
comes last in that scope, and nothing else changes. -/
theorem register_eq {t : Scope φ} {outer : List (Scope φ)} (hs : s.scopes = t :: outer) (ht : t.WellDeclared)
    {f : Function} (hf : f.signature.Worded) :
    s.register f =
      if f.signature ∈ t.signatures then .error (.ofCause f.span (.duplicateFunction f.signature))
      else .ok (s.nextId, {
        scopes := { t with entries := t.entries ++ [{ id := s.nextId, function := f }] } :: outer
        nextId := s.nextId + 1 }) := by
  have htop : s.top = .ok t := top_ok.2 ⟨outer, hs⟩
  unfold register
  rw [htop]
  by_cases hmem : f.signature ∈ t.signatures
  · rw [if_pos hmem]
    simp only [bind, Except.bind, (any_sameKey_iff ht hf).2 hmem, if_true]
  · have hany : (t.entries.any fun e => e.signature.sameKey f.signature) = false :=
      Bool.eq_false_iff.2 fun h => hmem ((any_sameKey_iff ht hf).1 h)
    rw [if_neg hmem]
    simp only [bind, Except.bind, hany, Bool.false_eq_true, if_false, setTop, hs, List.tail_cons]
    rfl

variable [DecidableEq φ]

/-- What one operation keeps. -/
theorem wellDeclared_perform {op : ScopeOp φ} (hop : op.Worded) (hperform : s.perform op = .ok s')
    (h : ∀ sc ∈ s.scopes, sc.WellDeclared) : ∀ sc ∈ s'.scopes, sc.WellDeclared := by
  have hlookup {α : Type} {r : Except Failure α} (hr : (r.map fun _ => s) = .ok s') :
      ∀ sc ∈ s'.scopes, sc.WellDeclared := by
    cases r with
    | error f => cases hr
    | ok a => exact Except.ok.inj hr ▸ h
  cases op with
  | push kind frame file =>
    cases hperform
    exact List.forall_mem_cons.2 ⟨⟨List.nodup_nil, List.forall_mem_nil _⟩, h⟩
  | pop =>
    obtain ⟨scopes, nextId⟩ := s
    cases scopes with
    | nil => cases hperform
    | cons top outer =>
      cases hperform
      exact (List.forall_mem_cons.1 h).2
  | declareRuntime name typing =>
    obtain ⟨t, outer, ht, -, rfl⟩ := declareRuntime_ok hperform
    exact wellDeclared_withTop ht h fun htop => htop.of_entries_eq rfl
  | hoist name typing =>
    obtain ⟨t, outer, _, ht, -, -, rfl⟩ := hoist_ok hperform
    exact wellDeclared_withTop ht h fun htop => htop.of_entries_eq rfl
  | declareStatic name value file =>
    obtain ⟨t, outer, ht, rfl⟩ := declareStatic_ok hperform
    exact wellDeclared_withTop ht h fun htop => htop.of_entries_eq rfl
  | reassignStatic name value file span =>
    obtain ⟨b, -, -, rfl⟩ := reassignStatic_ok hperform
    exact wellDeclared_sameButStatics ((SameButStatics.refl s.scopes).setStatic name value) h
  | register f =>
    cases hr : s.register f with
    | error e => simp [perform, hr, Except.map] at hperform
    | ok r =>
      obtain rfl : r.2 = s' := by simpa [perform, hr, Except.map] using hperform
      exact wellDeclared_register hop hr h
  | place | lookupStatic | resolve => exact hlookup hperform
  | static | candidates => exact Except.ok.inj hperform ▸ h

/-- What any number of operations keep, those that fail included. -/
theorem wellDeclared_run {ops : List (ScopeOp φ)} (hops : ∀ op ∈ ops, op.Worded)
    (h : ∀ sc ∈ s.scopes, sc.WellDeclared) : ∀ sc ∈ (ops.foldl after s).scopes, sc.WellDeclared := by
  induction ops generalizing s with
  | nil => exact h
  | cons op ops ih =>
    rw [List.forall_mem_cons] at hops
    rw [List.foldl_cons]
    refine ih hops.2 ?_
    cases hperform : s.perform op with
    | error f =>
      rw [after_of_error hperform]
      exact h
    | ok s' =>
      rw [after_of_ok hperform]
      exact wellDeclared_perform hops.1 hperform h

end ScopeStack

/-- Two signatures made of words have the same key exactly if their names, with their sigils, and
their parameters, with names, sigils and annotations, are the same. After any operations on a new
stack of scopes no scope holds a signature twice; declaring a function fails exactly if the innermost
scope holds its signature, and then nothing has changed. -/
theorem Signature.key_identifies {φ : Type} [DecidableEq φ] :
    (∀ {s t : Signature}, s.Worded → t.Worded → (s.key = t.key ↔ s.name = t.name ∧ s.params = t.params)) ∧
    ∀ {ops : List (ScopeOp φ)}, (∀ op ∈ ops, op.Worded) → ∀ {s : ScopeStack φ},
      ops.foldl ScopeStack.after {} = s →
      (∀ sc ∈ s.scopes, sc.signatures.Nodup) ∧
      ∀ {top : Scope φ} {outer : List (Scope φ)}, s.scopes = top :: outer →
      ∀ {f : Function}, f.signature.Worded →
        ((∃ e, s.register f = .error e) ↔ f.signature ∈ top.signatures) ∧
        (f.signature ∈ top.signatures →
          s.register f = .error (.ofCause f.span (.duplicateFunction f.signature)) ∧
          s.after (.register f) = s) ∧
        (f.signature ∉ top.signatures →
          s.register f = .ok (s.nextId, {
            scopes := { top with entries := top.entries ++ [{ id := s.nextId, function := f }] } :: outer
            nextId := s.nextId + 1 })) := by
  constructor
  · intro s t hs ht
    constructor
    · intro h
      obtain rfl := eq_of_key_eq hs ht h
      exact ⟨rfl, rfl⟩
    · rintro ⟨hname, hparams⟩
      rw [key, key, hname, hparams]
  · rintro ops hops s rfl
    have hall := ScopeStack.wellDeclared_run (s := {}) hops (List.forall_mem_nil _)
    refine ⟨fun sc hsc => (hall sc hsc).distinct, fun {top outer} hs {f} hf => ?_⟩
    have htop : top.WellDeclared := hall top (by rw [hs]; exact List.mem_cons_self)
    have heq := ScopeStack.register_eq hs htop hf
    by_cases hmem : f.signature ∈ top.signatures
    · rw [if_pos hmem] at heq
      refine ⟨⟨fun _ => hmem, fun _ => ⟨_, heq⟩⟩, fun _ => ⟨heq, ?_⟩, fun hnot => absurd hmem hnot⟩
      exact ScopeStack.after_of_error (by rw [ScopeStack.perform, heq]; rfl)
    · rw [if_neg hmem] at heq
      refine ⟨⟨?_, fun h => absurd h hmem⟩, fun h => absurd h hmem, fun _ => heq⟩
      rintro ⟨e, he⟩
      rw [heq] at he
      cases he

/-- Two overloads, which differ in an annotation, and between them an inner scope that declares the
first one again. Declaring it a second time in the outer scope fails; with a sigil it is another one. -/
theorem Signature.key_identifies_overloads :
    let f (p : Name) (ty : Typing) : Function := ⟨{}, ⟨.ofStatic "m'", [⟨p, ty⟩]⟩, []⟩
    let a : Name := .ofStatic "a"
    let ops : List (ScopeOp Nat) := [.push .root true 0, .register (f a .int), .push .block true 0,
      .register (f a .int), .pop, .register (f a .int), .register (f a .string)]
    let s := ops.foldl ScopeStack.after {}
    ∃ top outer, s.scopes = top :: outer ∧ top.signatures = [(f a .int).signature, (f a .string).signature] ∧
      top.signatures.Nodup ∧ (∃ e, s.register (f a .string) = .error e) ∧
      s.after (.register (f a .string)) = s ∧ ¬(∃ e, s.register (f (.ofDynamic "a") .int) = .error e) ∧
      (f a .int).signature.key ≠ (f a .string).signature.key := by
  intro f a ops s
  have hword : IsWord "a" := ⟨97, [], [], rfl, rfl, by simp, by simp⟩
  have hf (p : Name) (hp : p.text = "a") (ty : Typing) : (f p ty).signature.Worded := by
    refine ⟨⟨109, [], [39], rfl, rfl, by simp, List.forall_mem_singleton.2 rfl⟩, fun q hq => ?_⟩
    obtain rfl := List.mem_singleton.1 hq
    exact hp ▸ hword
  have hops : ∀ op ∈ ops, op.Worded := by
    simp only [ops, List.forall_mem_cons, ScopeOp.Worded, true_and]
    exact ⟨hf a rfl .int, hf a rfl .int, hf a rfl .int, hf a rfl .string, List.forall_mem_nil _⟩
  obtain ⟨hkeys, hrun⟩ := key_identifies (φ := Nat)
  obtain ⟨hdistinct, hregister⟩ := hrun hops rfl
  have htop : s.scopes = [{
      kind := .root, frame := true, file := 0
      entries := [{ id := 0, function := f a .int }, { id := 2, function := f a .string }] }] := rfl
  have hheld := hregister htop (hf a rfl .string)
  have hother := hregister htop (hf (.ofDynamic "a") rfl .int)
  refine ⟨_, _, htop, rfl, hdistinct _ (by rw [htop]; exact List.mem_cons_self), hheld.1.2 (by decide),
    (hheld.2.1 (by decide)).2, fun h => absurd (hother.1.1 h) (by decide), fun h => ?_⟩
  exact absurd ((hkeys (hf a rfl .int) (hf a rfl .string)).1 h).2 (by decide)

end PackScript
