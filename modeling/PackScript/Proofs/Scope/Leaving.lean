import PackScript.Proofs.Scope.Operations
import Mathlib.Data.List.Forall2

/-! # Leaving a scope

Between opening a scope and closing it again anything may be declared, looked up, opened
and closed further in, and any of it may fail. None of that is seen from outside
afterwards, with one exception: a static variable of an outer scope keeps the value that
it was given while no inner scope hid it.
-/
namespace PackScript

/-- What can be done to a stack of scopes. -/
inductive ScopeOp (φ : Type) where
  | push (kind : ScopeKind) (frame : Bool) (file : φ)
  | pop
  | declareRuntime (name : Name) (typing : Typing)
  | hoist (name : Name) (typing : Typing)
  | declareStatic (name : Name) (value : Value) (file : φ)
  | reassignStatic (name : Name) (value : Value) (file : φ) (span : Span)
  | register (f : Function)
  -- Lookups, which may fail and change nothing.
  | place (name : Name) (span : Span)
  | lookupStatic (name : Name) (span : Span)
  | static (name : Name)
  | candidates (name : Name)
  | resolve (name : Name) (args : List Arg) (span : Span)

namespace ScopeOp

variable {φ : Type}

/-- How many scopes are open above a certain one, which is not to be closed itself. -/
def level (n : Nat) : ScopeOp φ → Option Nat
  | .push _ _ _ => some (n + 1)
  | .pop => if n = 0 then none else some (n - 1)
  | _ => some n

/-- Concerns the innermost scope only, or nothing at all. -/
def isLocal : ScopeOp φ → Bool
  | .push _ _ _ | .pop | .reassignStatic _ _ _ _ => false
  | _ => true

/-- Every scope opened in between is closed again, and no other one. -/
def Nested (ops : List (ScopeOp φ)) : Prop := ops.foldlM level 0 = some 0

instance (ops : List (ScopeOp φ)) : Decidable (Nested ops) := inferInstanceAs (Decidable (_ = _))

end ScopeOp

namespace ScopeStack

variable {φ : Type}

/-! ## What lookups depend on -/

/-- The same scopes, whatever the values of their static variables are. -/
def SameButStatics (scopes scopes' : List (Scope φ)) : Prop :=
  List.Forall₂ (fun sc sc' => ∃ statics, { sc with statics } = sc') scopes scopes'

namespace SameButStatics

variable {scopes scopes' : List (Scope φ)}

theorem refl (scopes : List (Scope φ)) : SameButStatics scopes scopes :=
  List.forall₂_same.mpr fun sc _ => ⟨sc.statics, rfl⟩

theorem reach_eq (h : SameButStatics scopes scopes') (name : Name) (frames : Nat) (crossed : Bool) :
    reach name frames crossed scopes' = reach name frames crossed scopes := by
  induction h generalizing frames crossed with
  | nil => rfl
  | cons hsc _ ih =>
    obtain ⟨statics, rfl⟩ := hsc
    simp only [reach, ih]
    rfl

theorem flatMap_eq {α : Type} {f : Scope φ → List α} (h : SameButStatics scopes scopes')
    (hf : ∀ sc statics, f { sc with statics } = f sc) : scopes'.flatMap f = scopes.flatMap f := by
  induction h with
  | nil => rfl
  | cons hsc _ ih =>
    obtain ⟨statics, rfl⟩ := hsc
    simp [ih, hf]

variable {s s' : ScopeStack φ}

theorem place_eq (h : SameButStatics s.scopes s'.scopes) (name : Name) (span : Span) :
    s'.place name span = s.place name span := by
  have hnames : s'.runtimeNames = s.runtimeNames := h.flatMap_eq fun _ _ => rfl
  simp only [place, h.reach_eq, hnames]

theorem candidates_eq (h : SameButStatics s.scopes s'.scopes) (name : Name) :
    s'.candidates name = s.candidates name := h.flatMap_eq fun _ _ => rfl

theorem resolve_eq (h : SameButStatics s.scopes s'.scopes) (name : Name) (args : List Arg) (span : Span) :
    s'.resolve name args span = s.resolve name args span := by
  have hentries : s'.entries = s.entries := h.flatMap_eq fun _ _ => rfl
  simp only [resolve, h.candidates_eq, functionNames, hentries]

end SameButStatics

/-! ## Another value for a static variable -/

section

variable {name other : Name} {v : Value} {inner outer scopes scopes' : List (Scope φ)}

theorem setStatic_append (outer : List (Scope φ)) (h : ∀ sc ∈ inner, sc.statics.get? name = none) :
    setStatic name v (inner ++ outer) = inner ++ setStatic name v outer := by
  induction inner with
  | nil => rfl
  | cons sc inner ih =>
    obtain ⟨hsc, hinner⟩ := List.forall_mem_cons.mp h
    simp [setStatic, hsc, ih hinner]

theorem setStatic_append_of_bound (outer : List (Scope φ)) (h : ¬∀ sc ∈ inner, sc.statics.get? name = none) :
    setStatic name v (inner ++ outer) = setStatic name v inner ++ outer := by
  induction inner with
  | nil => simp at h
  | cons sc inner ih =>
    cases hsc : sc.statics.get? name with
    | some b => simp [setStatic, hsc]
    | none =>
      have hinner : ¬∀ sc ∈ inner, sc.statics.get? name = none := by simpa [hsc] using h
      simp [setStatic, hsc, ih hinner]

theorem length_setStatic (name : Name) (v : Value) (scopes : List (Scope φ)) :
    (setStatic name v scopes).length = scopes.length := by
  induction scopes with
  | nil => rfl
  | cons sc outer ih =>
    rw [setStatic]
    split <;> simp [ih]

theorem SameButStatics.setStatic (h : SameButStatics scopes scopes') (name : Name) (v : Value) :
    SameButStatics scopes (setStatic name v scopes') := by
  induction h with
  | nil => exact .nil
  | cons hsc hrest ih =>
    obtain ⟨statics, rfl⟩ := hsc
    rw [ScopeStack.setStatic]
    split
    · exact .cons ⟨_, rfl⟩ hrest
    · exact .cons ⟨_, rfl⟩ ih

/-- The value of a static variable, seen from the innermost of some scopes. -/
def valueIn? (scopes : List (Scope φ)) (name : Name) : Option Value :=
  (scopes.findSome? fun sc => sc.statics.get? name).map Binding.value

theorem valueIn?_setStatic_self (h : valueIn? scopes name ≠ none) :
    valueIn? (setStatic name v scopes) name = some v := by
  induction scopes with
  | nil => simp [valueIn?] at h
  | cons sc outer ih =>
    cases hsc : sc.statics.get? name with
    | some b => simp [setStatic, valueIn?, hsc]
    | none =>
      have houter : valueIn? outer name ≠ none := by simpa [valueIn?, hsc] using h
      simpa [setStatic, valueIn?, hsc] using ih houter

theorem valueIn?_setStatic_of_ne (h : other ≠ name) (scopes : List (Scope φ)) :
    valueIn? (setStatic name v scopes) other = valueIn? scopes other := by
  induction scopes with
  | nil => rfl
  | cons sc outer ih =>
    cases hsc : sc.statics.get? name with
    | some b => simp only [setStatic, hsc, valueIn?, List.findSome?_cons, Table.get?_set_of_ne _ h]
    | none =>
      simp only [setStatic, hsc, valueIn?, List.findSome?_cons] at ih ⊢
      cases sc.statics.get? other with
      | some b => rfl
      | none => exact ih

/-- A name that inner scopes do not bind has the value that it has in the outer ones. -/
theorem valueIn?_append (outer : List (Scope φ)) (h : ∀ sc ∈ inner, sc.statics.get? name = none) :
    valueIn? (inner ++ outer) name = valueIn? outer name := by
  have hnone : inner.findSome? (fun sc => sc.statics.get? name) = none := List.findSome?_eq_none_iff.mpr h
  simp [valueIn?, List.findSome?_append, hnone]

end

/-! ## Inside a new scope -/

/-- The stack `t` has come from `s` with `n` scopes above a new one, and these values were given
to the static variables of `s` on the way. -/
def Inside (s : ScopeStack φ) (n : Nat) (assigned : Name → List Value) (t : ScopeStack φ) : Prop :=
  ∃ inner outer, t.scopes = inner ++ outer ∧ inner.length = n + 1 ∧ SameButStatics s.scopes outer ∧
    ∀ name, valueIn? outer name = (assigned name).getLast?.or (s.static? name)

namespace Inside

variable {s t t' : ScopeStack φ} {n : Nat} {assigned : Name → List Value}

/-- Something else in the innermost scope. -/
theorem top {x y : Scope φ} {rest : List (Scope φ)} (h : Inside s n assigned t) (ht : t.scopes = x :: rest)
    (ht' : t'.scopes = y :: rest) : Inside s n assigned t' := by
  obtain ⟨inner, outer, hscopes, hlen, hsame, hvalue⟩ := h
  cases inner with
  | nil => simp at hlen
  | cons z inner =>
    rw [ht, List.cons_append, List.cons.injEq] at hscopes
    exact ⟨y :: inner, outer, by rw [ht', hscopes.2, List.cons_append], hlen, hsame, hvalue⟩

theorem push (h : Inside s n assigned t) (kind : ScopeKind) (frame : Bool) (file : φ) :
    Inside s (n + 1) assigned (t.push kind frame file) := by
  obtain ⟨inner, outer, hscopes, hlen, hsame, hvalue⟩ := h
  refine ⟨{ kind, frame, file } :: inner, outer, ?_, ?_, hsame, hvalue⟩
  · simp [ScopeStack.push, hscopes]
  · simp [hlen]

theorem pop (h : Inside s (n + 1) assigned t) : ∃ closed t', t.pop = .ok (closed, t') ∧ Inside s n assigned t' := by
  obtain ⟨inner, outer, hscopes, hlen, hsame, hvalue⟩ := h
  cases inner with
  | nil => simp at hlen
  | cons z inner =>
    refine ⟨z, { t with scopes := inner ++ outer }, ?_, inner, outer, rfl, ?_, hsame, hvalue⟩
    · simp [ScopeStack.pop, hscopes]
    · simpa using hlen

end Inside

/-! ## Operations -/

variable [DecidableEq φ]

def perform (s : ScopeStack φ) : ScopeOp φ → Except Failure (ScopeStack φ)
  | .push kind frame file => .ok (s.push kind frame file)
  | .pop => s.pop.map Prod.snd
  | .declareRuntime name typing => s.declareRuntime name typing
  | .hoist name typing => s.hoist name typing
  | .declareStatic name value file => s.declareStatic name value file
  | .reassignStatic name value file span => s.reassignStatic name value file span
  | .register f => (s.register f).map Prod.snd
  | .place name span => (s.place name span).map fun _ => s
  | .lookupStatic name span => (s.lookupStatic name span).map fun _ => s
  | .resolve name args span => (s.resolve name args span).map fun _ => s
  | .static _ | .candidates _ => .ok s

/-- An operation that fails leaves the stack as it was. -/
def after (s : ScopeStack φ) (op : ScopeOp φ) : ScopeStack φ := (s.perform op).toOption.getD s

/-- The value that an operation gives to a static variable that none of the innermost `n` scopes
binds. -/
def assignedBelow? (s : ScopeStack φ) (n : Nat) (name : Name) : ScopeOp φ → Option Value
  | .reassignStatic target value file span =>
    if target = name ∧ (s.reassignStatic target value file span).isOk = true ∧
      ∀ sc ∈ s.scopes.take n, sc.statics.get? name = none
    then some value else none
  | _ => none

/-- The values that operations give to a static variable of the outermost `d` scopes, in order. -/
def assignedOutside (d : Nat) (name : Name) : ScopeStack φ → List (ScopeOp φ) → List Value
  | _, [] => []
  | s, op :: ops =>
    (s.assignedBelow? (s.depth - d) name op).toList ++ assignedOutside d name (s.after op) ops

theorem after_of_ok {s s' : ScopeStack φ} {op : ScopeOp φ} (h : s.perform op = .ok s') : s.after op = s' := by
  simp [after, h, Except.toOption]

theorem after_of_error {s : ScopeStack φ} {op : ScopeOp φ} {f : Failure} (h : s.perform op = .error f) :
    s.after op = s := by
  simp [after, h, Except.toOption]

/-- A lookup leaves the stack as it was; a declaration changes the innermost scope. -/
theorem perform_local {s s' : ScopeStack φ} {op : ScopeOp φ} (hop : op.isLocal = true)
    (h : s.perform op = .ok s') :
    s = s' ∨ ∃ x y rest, s.scopes = x :: rest ∧ s'.scopes = y :: rest := by
  have hlookup {α : Type} {r : Except Failure α} (hr : (r.map fun _ => s) = .ok s') : s = s' := by
    cases r with
    | error f => cases hr
    | ok a => exact Except.ok.inj hr
  cases op with
  | push | pop | reassignStatic => cases hop
  | declareRuntime name typing =>
    obtain ⟨x, rest, hs, -, rfl⟩ := declareRuntime_ok h
    exact .inr ⟨x, _, rest, hs, rfl⟩
  | hoist name typing =>
    obtain ⟨x, rest, _, hs, -, -, rfl⟩ := hoist_ok h
    exact .inr ⟨x, _, rest, hs, rfl⟩
  | declareStatic name value file =>
    obtain ⟨x, rest, hs, rfl⟩ := declareStatic_ok h
    exact .inr ⟨x, _, rest, hs, rfl⟩
  | register f =>
    cases hr : s.register f with
    | error e => simp [perform, hr, Except.map] at h
    | ok p =>
      obtain rfl : p.2 = s' := by simpa [perform, hr, Except.map] using h
      obtain ⟨x, rest, hs, -, -, hs'⟩ := register_ok hr
      exact .inr ⟨x, _, rest, hs, by rw [← hs']⟩
  | place | lookupStatic | resolve => exact .inl (hlookup h)
  | static | candidates => exact .inl (Except.ok.inj h)

namespace Inside

variable {s t t' : ScopeStack φ} {n : Nat} {assigned : Name → List Value}

/-- A new value reaches the outer scopes only if no inner one binds the name. -/
theorem reassign {target : Name} {v : Value} {file : φ} {span : Span} (h : Inside s n assigned t)
    (ht : t.reassignStatic target v file span = .ok t') :
    Inside s n (fun name => assigned name ++ (t.assignedBelow? (n + 1) name
      (.reassignStatic target v file span)).toList) t' := by
  obtain ⟨inner, outer, hscopes, hlen, hsame, hvalue⟩ := h
  obtain ⟨b, hfound, hfile, rfl⟩ := reassignStatic_ok ht
  have htake : t.scopes.take (n + 1) = inner := by simp [hscopes, ← hlen]
  by_cases hfree : ∀ sc ∈ inner, sc.statics.get? target = none
  · refine ⟨inner, setStatic target v outer, ?_, hlen, hsame.setStatic target v, fun name => ?_⟩
    · simp [hscopes, setStatic_append outer hfree]
    · by_cases hname : name = target
      · subst hname
        have hbound : valueIn? outer name ≠ none := by
          rw [← valueIn?_append outer hfree, ← hscopes]
          simp [valueIn?, show t.scopes.findSome? _ = some b from hfound]
        have hgiven : t.assignedBelow? (n + 1) name (.reassignStatic name v file span) = some v := by
          simpa [assignedBelow?, ht, htake, Except.isOk, Except.toBool] using hfree
        simp [valueIn?_setStatic_self hbound, hgiven]
      · have hnone : t.assignedBelow? (n + 1) name (.reassignStatic target v file span) = none := by
          simp [assignedBelow?, Ne.symm hname]
        simp [valueIn?_setStatic_of_ne hname, hnone, hvalue]
  · refine ⟨setStatic target v inner, outer, ?_, ?_, hsame, fun name => ?_⟩
    · simp [hscopes, setStatic_append_of_bound outer hfree]
    · simp [length_setStatic, hlen]
    · have hnone : t.assignedBelow? (n + 1) name (.reassignStatic target v file span) = none := by
        by_cases hname : target = name
        · subst hname
          simp [assignedBelow?, htake, hfree]
        · simp [assignedBelow?, hname]
      simp [hnone, hvalue]

theorem local_step {op : ScopeOp φ} (h : Inside s n assigned t) (hop : op.isLocal = true) :
    Inside s n assigned (t.after op) := by
  cases ht : t.perform op with
  | error f => rwa [after_of_error ht]
  | ok t' =>
    rw [after_of_ok ht]
    rcases perform_local hop ht with rfl | ⟨x, y, rest, hx, hy⟩
    · exact h
    · exact h.top hx hy

/-- What one operation does, seen from below the new scope. -/
theorem step {op : ScopeOp φ} {n' : Nat} (h : Inside s n assigned t) (hop : op.level n = some n') :
    Inside s n' (fun name => assigned name ++ (t.assignedBelow? (n + 1) name op).toList) (t.after op) := by
  cases op with
  | push kind frame file =>
    cases hop
    simp only [assignedBelow?, Option.toList_none, List.append_nil]
    exact h.push kind frame file
  | pop =>
    cases n with
    | zero => cases hop
    | succ m =>
      cases hop
      obtain ⟨closed, t', hpop, hin⟩ := h.pop
      have hafter : t.after .pop = t' := after_of_ok (by simp [perform, hpop, Except.map])
      simpa [assignedBelow?, hafter] using hin
  | reassignStatic target v file span =>
    cases hop
    cases ht : t.reassignStatic target v file span with
    | ok t' =>
      have hperform : t.perform (.reassignStatic target v file span) = .ok t' := ht
      rw [after_of_ok hperform]
      exact h.reassign ht
    | error f =>
      have hperform : t.perform (.reassignStatic target v file span) = .error f := ht
      rw [after_of_error hperform]
      simpa [assignedBelow?, ht, Except.isOk, Except.toBool] using h
  | _ =>
    cases hop
    simpa only [assignedBelow?, Option.toList_none, List.append_nil] using h.local_step rfl

/-- Any number of operations. -/
theorem run {ops : List (ScopeOp φ)} {n' : Nat} (h : Inside s n assigned t)
    (hops : ops.foldlM ScopeOp.level n = some n') :
    Inside s n' (fun name => assigned name ++ assignedOutside s.depth name t ops) (ops.foldl after t) := by
  induction ops generalizing n assigned t with
  | nil =>
    cases hops
    simpa [assignedOutside] using h
  | cons op ops ih =>
    rw [List.foldlM_cons, Option.bind_eq_bind, Option.bind_eq_some_iff] at hops
    obtain ⟨m, hop, hrest⟩ := hops
    have hdepth : t.depth - s.depth = n + 1 := by
      obtain ⟨inner, outer, hscopes, hlen, hsame, -⟩ := h
      simp only [depth, hscopes, List.length_append, hsame.length_eq]
      omega
    simpa [assignedOutside, hdepth, List.append_assoc] using ih (h.step hop) hrest

end Inside

/-- After a scope is left, everything is found as before it was opened, except that a static
variable has the last value that it was given while no inner scope bound its name. -/
theorem pop_restores (s : ScopeStack φ) (kind : ScopeKind) (frame : Bool) (file : φ)
    {ops : List (ScopeOp φ)} (hops : ScopeOp.Nested ops) :
    ∃ closed s', (ops.foldl after (s.push kind frame file)).pop = .ok (closed, s') ∧ s'.depth = s.depth ∧
      (∀ name span, s'.place name span = s.place name span) ∧
      (∀ name, s'.candidates name = s.candidates name) ∧
      (∀ name args span, s'.resolve name args span = s.resolve name args span) ∧
      ∀ name, s'.static? name =
        (assignedOutside s.depth name (s.push kind frame file) ops).getLast?.or (s.static? name) := by
  have hstart : Inside s 0 (fun _ => []) (s.push kind frame file) :=
    ⟨[_], s.scopes, rfl, rfl, .refl s.scopes, fun _ => rfl⟩
  obtain ⟨inner, outer, hscopes, hlen, hsame, hvalue⟩ := hstart.run hops
  obtain ⟨closed, rfl⟩ := List.length_eq_one_iff.mp hlen
  refine ⟨closed, { ops.foldl after (s.push kind frame file) with scopes := outer }, ?_, ?_, ?_, ?_, ?_, ?_⟩
  · simp [pop, hscopes]
  · exact hsame.length_eq.symm
  · exact hsame.place_eq
  · exact hsame.candidates_eq
  · exact hsame.resolve_eq
  · exact hvalue

/-- A static variable of the program is hidden and given a value in there, then given one from
inside the new scope, and then from another file, which fails. -/
theorem pop_restores_hidden :
    let z : Span := ⟨0, 0, 1, 0⟩
    let n : Name := .ofStatic "n"
    let m : Name := .ofStatic "m"
    let s : ScopeStack Nat := { scopes := [
      { kind := .root, frame := true, file := 0, statics := [(n, ⟨.int 1, 0⟩)] }] }
    let ops : List (ScopeOp Nat) := [.declareStatic m (.int 2) 0, .push .block true 0, .declareStatic n (.int 3) 0,
      .reassignStatic n (.int 4) 0 z, .pop, .reassignStatic n (.int 5) 0 z, .reassignStatic n (.int 6) 1 z,
      .declareRuntime (.ofDynamic "x") .int]
    ∃ closed s', (ops.foldl after (s.push .expansion false 0)).pop = .ok (closed, s') ∧ s'.depth = 1 ∧
      s'.static? n = some (.int 5) ∧ s'.static? m = none ∧ ∀ span, s'.place m span = s.place m span := by
  intro z n m s ops
  have hops : ScopeOp.Nested ops := rfl
  obtain ⟨closed, s', hpop, hdepth, hplace, -, -, hstatic⟩ := pop_restores s .expansion false 0 hops
  exact ⟨closed, s', hpop, hdepth, hstatic n, hstatic m, hplace m⟩

end ScopeStack
end PackScript
