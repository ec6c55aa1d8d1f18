import PackScript.Proofs.Scope.Operations
import Mathlib.Data.List.Forall2

/-! # Where a dynamic variable is found

A variable belongs to the innermost scope that declares it. While no function body lies
between, its place counts the frames of the scopes up to that one; `owners` lists the
files that open these frames. Past a function body only variables of the program itself
are found, and they are in the first frame.
-/
namespace PackScript

variable {φ : Type}

/-- The scope whose declaration of a variable is in effect. -/
def Scope.declaring? (name : Name) : (crossed : Bool) → List (Scope φ) → Option (Scope φ)
  | _, [] => none
  | crossed, sc :: outer =>
    if (sc.runtimeTyping? name crossed).isSome then some sc
    else declaring? name (crossed || sc.kind = .function) outer

/-- The files of the scopes with a frame, up to the innermost function body. -/
def Scope.owners : List (Scope φ) → List φ
  | [] => []
  | sc :: outer =>
    if sc.kind = .function then [sc.file]
    else if sc.frame then sc.file :: owners outer
    else owners outer

/-- Scopes without a frame hold no dynamic variables. -/
def Scope.Tidy (scopes : List (Scope φ)) : Prop := ∀ sc ∈ scopes, sc.frame = false → sc.runtime = []

theorem Scope.mem_owners {scopes : List (Scope φ)} {o : φ} (h : o ∈ owners scopes) :
    ∃ sc ∈ scopes, sc.file = o ∧ (sc.kind = .function ∨ sc.frame = true) := by
  induction scopes with
  | nil => cases h
  | cons sc outer ih =>
    have hlater : o ∈ owners outer → ∃ sc' ∈ sc :: outer, sc'.file = o ∧
        (sc'.kind = .function ∨ sc'.frame = true) := fun ho => by
      obtain ⟨sc', hmem, hrest⟩ := ih ho
      exact ⟨sc', List.mem_cons_of_mem _ hmem, hrest⟩
    rw [owners] at h
    split at h
    · rename_i hk
      exact ⟨sc, List.mem_cons_self, (List.mem_singleton.1 h).symm, .inl hk⟩
    · split at h
      · rename_i hf
        rcases List.mem_cons.1 h with rfl | h
        · exact ⟨sc, List.mem_cons_self, rfl, .inr hf⟩
        · exact hlater h
      · exact hlater h

namespace ScopeStack

/-- Past a function body only the variables of the program are found. -/
theorem reach_crossed {name : Name} {k : Nat} {scopes : List (Scope φ)} {place : Place} {ty : Typing}
    (h : reach name k true scopes = .found place ty) :
    place = .rootFrame name.text ∧ ∃ sc, Scope.declaring? name true scopes = some sc ∧ sc ∈ scopes ∧
      sc.kind = .root ∧ sc.runtimeTyping? name true = some ty := by
  induction scopes generalizing k with
  | nil => cases h
  | cons sc outer ih =>
    rw [reach] at h
    cases hty : sc.runtimeTyping? name true with
    | some ty' =>
      simp only [hty, Bool.not_true, Bool.false_eq_true, if_false] at h
      by_cases hk : sc.kind = .root
      · rw [if_pos hk] at h
        cases h
        exact ⟨rfl, sc, by simp [Scope.declaring?, hty], List.mem_cons_self, hk, hty⟩
      · rw [if_neg hk] at h
        cases h
    | none =>
      simp only [hty, Bool.true_or] at h
      obtain ⟨hp, sc', hd, hmem, hk, hty'⟩ := ih h
      exact ⟨hp, sc', by simpa [Scope.declaring?, hty] using hd, List.mem_cons_of_mem _ hmem, hk, hty'⟩

/-- A place counts the frames up to the scope of the variable, or it is in the first frame. -/
theorem reach_found {name : Name} {k : Nat} {scopes : List (Scope φ)} {place : Place} {ty : Typing}
    (htidy : Scope.Tidy scopes) (h : reach name k false scopes = .found place ty) :
    ∃ sc, Scope.declaring? name false scopes = some sc ∧ sc ∈ scopes ∧
      ((∃ n, place = .frame (k + n + 1) name.text ∧ (Scope.owners scopes)[n]? = some sc.file ∧
          sc.frame = true ∧ sc.runtime.get? name = some ty) ∨
        (place = .rootFrame name.text ∧ sc.kind = .root ∧ sc.runtimeTyping? name true = some ty)) := by
  induction scopes generalizing k with
  | nil => cases h
  | cons sc outer ih =>
    have htop := htidy sc List.mem_cons_self
    rw [reach] at h
    cases hty : sc.runtimeTyping? name false with
    | some ty' =>
      have hget : sc.runtime.get? name = some ty' := by
        unfold Scope.runtimeTyping? at hty
        split at hty
        · rename_i hget
          rw [hget]
          exact hty
        · cases hty
      have hframe : sc.frame = true := by
        cases hf : sc.frame with
        | true => rfl
        | false =>
          rw [htop hf] at hget
          cases hget
      simp only [hty, hframe, Bool.not_false, if_true] at h
      cases h
      refine ⟨sc, by simp [Scope.declaring?, hty], List.mem_cons_self, .inl ⟨0, rfl, ?_, hframe, hget⟩⟩
      rw [Scope.owners]
      split <;> simp
    | none =>
      simp only [hty, Bool.false_or] at h
      have hdecl : ∀ sc', Scope.declaring? name (decide (sc.kind = .function)) outer = some sc' →
          Scope.declaring? name false (sc :: outer) = some sc' := fun sc' hd => by
        simpa [Scope.declaring?, hty] using hd
      by_cases hk : sc.kind = .function
      · simp only [hk, decide_true] at h hdecl
        obtain ⟨hp, sc', hd, hmem, hroot, hty'⟩ := reach_crossed h
        exact ⟨sc', hdecl sc' hd, List.mem_cons_of_mem _ hmem, .inr ⟨hp, hroot, hty'⟩⟩
      · simp only [hk, decide_false] at h hdecl
        obtain ⟨sc', hd, hmem, hfound⟩ := ih (fun x hx => htidy x (List.mem_cons_of_mem _ hx)) h
        refine ⟨sc', hdecl sc' hd, List.mem_cons_of_mem _ hmem, ?_⟩
        rcases hfound with ⟨n, hp, hown, hrest⟩ | hroot
        · left
          cases hf : sc.frame with
          | true =>
            refine ⟨n + 1, ?_, ?_, hrest⟩
            · rw [hp, hf, if_pos rfl]
              congr 1
              omega
            · rw [Scope.owners, if_neg hk, if_pos hf]
              exact hown
          | false =>
            refine ⟨n, ?_, ?_, hrest⟩
            · rw [hp, hf, if_neg Bool.false_ne_true]
            · rw [Scope.owners, if_neg hk, if_neg (by simp [hf])]
              exact hown
        · exact .inr hroot

theorem place_ok {s : ScopeStack φ} {name : Name} {span : Span} {place : Place} {ty : Typing}
    (h : s.place name span = .ok (place, ty)) : reach name 0 false s.scopes = .found place ty := by
  unfold ScopeStack.place at h
  split at h
  · rename_i hreach
    cases h
    exact hreach
  · cases h
  · cases h

/-! ## What operations keep of the scopes -/

/-- The same scopes, but for what is declared in them; nothing dynamic is declared without a frame. -/
def Keeps (scopes scopes' : List (Scope φ)) : Prop :=
  List.Forall₂ (fun sc sc' => sc'.kind = sc.kind ∧ sc'.frame = sc.frame ∧ sc'.file = sc.file ∧
    (sc.frame = false → sc'.runtime = sc.runtime)) scopes scopes'

namespace Keeps

variable {scopes scopes' scopes'' : List (Scope φ)}

theorem refl (scopes : List (Scope φ)) : Keeps scopes scopes :=
  List.forall₂_same.2 fun _ _ => ⟨rfl, rfl, rfl, fun _ => rfl⟩

theorem trans (h : Keeps scopes scopes') (h' : Keeps scopes' scopes'') : Keeps scopes scopes'' := by
  induction h generalizing scopes'' with
  | nil =>
    cases h'
    exact .nil
  | cons hsc _ ih =>
    cases h' with
    | cons hsc' h' =>
      obtain ⟨hk, hf, hfile, hrun⟩ := hsc
      obtain ⟨hk', hf', hfile', hrun'⟩ := hsc'
      refine .cons ⟨hk'.trans hk, hf'.trans hf, hfile'.trans hfile, fun h0 => ?_⟩ (ih h')
      exact (hrun' (hf.trans h0)).trans (hrun h0)

theorem tail {sc : Scope φ} (h : Keeps (sc :: scopes) scopes') : Keeps scopes scopes'.tail := by
  cases h with
  | cons _ h => exact h

/-- Another innermost scope of the same kind. -/
theorem top {t t' : Scope φ} (outer : List (Scope φ)) (hk : t'.kind = t.kind) (hf : t'.frame = t.frame)
    (hfile : t'.file = t.file) (hrun : t.frame = false → t'.runtime = t.runtime) :
    Keeps (t :: outer) (t' :: outer) :=
  .cons ⟨hk, hf, hfile, hrun⟩ (refl outer)

theorem owners_eq (h : Keeps scopes scopes') : Scope.owners scopes' = Scope.owners scopes := by
  induction h with
  | nil => rfl
  | cons hsc _ ih =>
    obtain ⟨hk, hf, hfile, -⟩ := hsc
    rw [Scope.owners, Scope.owners, hk, hf, hfile, ih]

theorem mem (h : Keeps scopes scopes') {sc' : Scope φ} (hmem : sc' ∈ scopes') :
    ∃ sc ∈ scopes, sc'.kind = sc.kind ∧ sc'.frame = sc.frame ∧ sc'.file = sc.file := by
  induction h with
  | nil => cases hmem
  | cons hsc _ ih =>
    rcases List.mem_cons.1 hmem with rfl | hmem
    · exact ⟨_, List.mem_cons_self, hsc.1, hsc.2.1, hsc.2.2.1⟩
    · obtain ⟨sc, hm, hrest⟩ := ih hmem
      exact ⟨sc, List.mem_cons_of_mem _ hm, hrest⟩

theorem tidy (h : Keeps scopes scopes') (ht : Scope.Tidy scopes) : Scope.Tidy scopes' := by
  induction h with
  | nil => exact ht
  | cons hsc _ ih =>
    obtain ⟨-, hf, -, hrun⟩ := hsc
    intro x hx hx0
    rcases List.mem_cons.1 hx with rfl | hx
    · have h0 := hf.symm.trans hx0
      exact (hrun h0).trans (ht _ List.mem_cons_self h0)
    · exact ih (fun y hy => ht y (List.mem_cons_of_mem _ hy)) x hx hx0

end Keeps

section

variable {s s' : ScopeStack φ}

theorem keeps_declareStatic {name : Name} {v : Value} {f : φ} (h : s.declareStatic name v f = .ok s') :
    Keeps s.scopes s'.scopes := by
  obtain ⟨t, outer, ho, rfl⟩ := declareStatic_ok h
  rw [ho]
  exact .top outer rfl rfl rfl fun _ => rfl

theorem keeps_declareRuntime {name : Name} {ty : Typing} (h : s.declareRuntime name ty = .ok s') :
    Keeps s.scopes s'.scopes := by
  obtain ⟨t, outer, ho, hf, rfl⟩ := declareRuntime_ok h
  rw [ho]
  refine .top outer rfl rfl rfl fun h0 => ?_
  rw [hf] at h0
  cases h0

theorem keeps_hoist {name : Name} {ty : Typing} (h : s.hoist name ty = .ok s') :
    Keeps s.scopes s'.scopes := by
  obtain ⟨t, outer, _, ho, _, _, rfl⟩ := hoist_ok h
  rw [ho]
  exact .top outer rfl rfl rfl fun _ => rfl

theorem keeps_setStatic (name : Name) (v : Value) (scopes : List (Scope φ)) :
    Keeps scopes (setStatic name v scopes) := by
  induction scopes with
  | nil => exact .nil
  | cons sc outer ih =>
    rw [setStatic]
    split
    · exact .top outer rfl rfl rfl fun _ => rfl
    · exact .cons ⟨rfl, rfl, rfl, fun _ => rfl⟩ ih

theorem keeps_reassignStatic [DecidableEq φ] {name : Name} {v : Value} {f : φ} {span : Span}
    (h : s.reassignStatic name v f span = .ok s') : Keeps s.scopes s'.scopes := by
  obtain ⟨_, _, _, rfl⟩ := reassignStatic_ok h
  exact keeps_setStatic name v s.scopes

theorem keeps_updateEntry (s : ScopeStack φ) (i : Nat) (f : Entry φ → Entry φ) :
    Keeps s.scopes (s.updateEntry i f).scopes :=
  List.forall₂_map_right_iff.2 (List.forall₂_same.2 fun _ _ => ⟨rfl, rfl, rfl, fun _ => rfl⟩)

theorem keeps_register {fn : Function} {i : Nat} (h : s.register fn = .ok (i, s')) :
    Keeps s.scopes s'.scopes := by
  obtain ⟨t, outer, ho, _, _, rfl⟩ := register_ok h
  rw [ho]
  exact .top outer rfl rfl rfl fun _ => rfl

end

end ScopeStack
end PackScript
