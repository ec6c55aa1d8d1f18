import PackScript.Proofs.Scope.BodyKey

/-! # Where a body leads

A body leads to the bodies of the functions that it may call, of those that these may call, and so
on. Provided that functions are told apart by their places, the key of a call covers all that any of
these bodies refers to.
-/
namespace PackScript

/-! ## References to variables -/

namespace ScopeStack

variable {φ : Type} {s : ScopeStack φ} {f g : Function}

/-- The functions that a function leads to by calls, itself included. -/
inductive Leads (s : ScopeStack φ) (f : Function) : Function → Prop
  | self : Leads s f f
  | call {g : Function} {n : Name} {e : Entry φ} (h : Leads s f g) (hn : n ∈ (Block.references g.body {}).calls)
      (he : e ∈ s.candidates n) : Leads s f e.function

/-- The functions in sight, and `f` itself, are told apart by their places. -/
def Placed (s : ScopeStack φ) (f : Function) : Prop :=
  ∀ g g', (g = f ∨ ∃ e ∈ s.entries, e.function = g) → (g' = f ∨ ∃ e ∈ s.entries, e.function = g') → g.span = g'.span → g = g'

end ScopeStack
end PackScript
