import PackScript.Proofs.Generation.History
import PackScript.Proofs.Scope.BodyKey
import PackScript.Proofs.Scope.Leads
import PackScript.Proofs.Syntax.FunctionPlaces

/-! # Calls that share a body

A call of a function with static parameters runs a body that is on record for its key, if there is
one. That body was generated earlier in the run, for a call of the same function with the same static
arguments, where it found the same functions and the same values of static variables, and its files
are as they were then. How the dynamic variables are declared that the body reads is not covered by
the key: where they have been declared anew since, the body would come out differently.
-/
namespace PackScript

open Gen

/-! ## A body generated again -/

/-- The command with other files to run. -/
def Command.rename (ρ : FileId → FileId) : Command → Command
  | .runIf file => .runIf (ρ file)
  | .runUnless file => .runUnless (ρ file)
  | .call file => .call (ρ file)
  | c => c

theorem GenState.Grows.entry {s s' : GenState} (h : s.Grows s') {e : Entry FileId} (he : e ∈ s.scopes.entries) :
    ∃ e' ∈ s'.scopes.entries, e.GrowsTo s.files.size e' := by
  obtain ⟨sc, hsc, he⟩ := List.mem_flatMap.1 he
  obtain ⟨sc', hsc', old, new, heq, hold, -⟩ := exists_of_forall₂ h.scopes.flip hsc
  obtain ⟨e', he', hgrows⟩ := exists_of_forall₂ hold.flip he
  refine ⟨e', List.mem_flatMap.2 ⟨sc', hsc', ?_⟩, hgrows⟩
  rw [heq]
  exact List.mem_append_left _ he'

namespace Gen

variable {ns : Bytes} {p : Program} {n : Nat} {span : Span} {e : Entry FileId} {statics : List (Name × Value)}
  {s s' : GenState} {f : FileId}

/-- A function that was in sight before a body was generated and is in sight later. -/
theorem Later.grown {s₁ s₂ : GenState} (hlater : Later [] s₁ s₂ s) (hgrows : s₁.Grows s₂) (ht : s₂.Tidy)
    {x x' : Entry FileId} (hx : x ∈ s₁.scopes.entries) (hx' : x' ∈ s.scopes.entries) (hid : x'.id = x.id) :
    x'.function = x.function := by
  obtain ⟨z, hz, hxz⟩ := hgrows.entry hx
  have hlt : x'.id < s₂.scopes.nextId := hid.trans hxz.id.symm ▸ ht.ids z hz
  obtain ⟨z', hz', hzx'⟩ := hlater.entries x' hx' hlt
  obtain rfl : z' = z := ht.eq_of_id hz' hz (hzx'.id.symm.trans (hid.trans hxz.id.symm))
  exact hzx'.function.trans hxz.function

/-- The functions in sight of a call are told apart by their places. -/
theorem Reached.placed {source : Bytes} (hparse : Program.parse source = .ok p) (hsize : source.length < 2 ^ 63)
    (h : Reached ns p (.specialize n span e statics) s) : s.scopes.Placed e.function := by
  obtain ⟨hs, he, -⟩ := h.within
  have hpart {g : Function} (hg : g = e.function ∨ ∃ x ∈ s.scopes.entries, x.function = g) :
      Node.HasPart (.block p.body) g.node := by
    rcases hg with rfl | ⟨x, hx, rfl⟩
    · exact he
    · exact hs x hx
  exact fun g g' hg hg' => Program.function_eq hparse hsize (hpart hg) (hpart hg')

/-! ## The last call of a program -/

theorem Reached.behind {b b' : Block} {s₁ : GenState} (h : Reached ns p (.statements n (b ++ b')) s)
    (hb : Gen.statements (levels n) b s = .ok () s₁) : Reached ns p (.statements n b') s₁ := by
  induction b generalizing s with
  | nil =>
    obtain ⟨-, rfl⟩ := pure_ok.1 hb
    exact h
  | cons d b ih =>
    obtain ⟨⟨⟩, s₂, hd, hb⟩ := bind_ok.1 hb
    exact ih (.laterStatements h hd) hb

end Gen
end PackScript
