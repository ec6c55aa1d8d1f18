import PackScript.Scope.Overload

/-! # What a function body sees of the scopes around its call

The body of a function with static parameters is generated in the scopes of the call.
Two calls can share one generated body if their static arguments agree and the body
sees the same: the same values of the static variables it can reach, and the same
overloads behind the names it can call. Calls are followed into the bodies they may go
to, because static functions expand in the same scopes.
-/
namespace PackScript

inductive Observation where
  | binding (name : Bytes) (value : Option Value)
  | overloads (name : Name) (entries : List Nat)
deriving DecidableEq, Repr

namespace Observation

def render : Observation → Bytes
  | .binding name (some v) => name ++ "=" ++ v.tagged
  | .binding name none => name ++ "="
  | .overloads name entries => name.render ++ "->" ++ Bytes.join "|" (entries.map Decimal.ofNat)

end Observation

namespace ScopeStack

variable {φ : Type}

def observeVariable (s : ScopeStack φ) (name : Name) : Observation :=
  .binding name.text (s.static? name)

def observeCallee (name : Name) (candidates : List (Entry φ)) : Observation :=
  .overloads name (candidates.map Entry.id)

/-- The bodies behind the entries that have not been looked at yet, and the places of
those still left. -/
def discover : (unseen : List Span) → List (Entry φ) → List Block × List Span
  | unseen, [] => ([], unseen)
  | unseen, e :: es =>
    if e.function.span ∈ unseen then
      let (found, left) := discover (unseen.filter (· ≠ e.function.span)) es
      (e.function.body :: found, left)
    else discover unseen es

theorem discover_length (unseen : List Span) (es : List (Entry φ)) :
    (discover unseen es).1.length + (discover unseen es).2.length ≤ unseen.length := by
  induction es generalizing unseen with
  | nil => simp [discover]
  | cons e es ih =>
    rw [discover]
    split
    · rename_i hmem
      have hlt : (unseen.filter (· ≠ e.function.span)).length < unseen.length :=
        List.length_filter_lt_length_iff_exists.2 ⟨_, hmem, by simp⟩
      have := ih (unseen.filter (· ≠ e.function.span))
      simp only [List.length_cons]
      omega
    · exact ih unseen

/-- What the queued bodies see, and the bodies that their calls lead to. `known` are the
variables that are settled already, `unseen` the functions not yet queued. -/
def explore (s : ScopeStack φ) (known : List Name) (unseen : List Span) (queue : List Block) :
    List Observation :=
  match queue with
  | [] => []
  | body :: queue =>
    let references := Block.references body {}
    let fresh := references.vars.reverse.filter fun n => n ∉ known
    let callees := references.calls.reverse.map fun n => (n, s.candidates n)
    let next := discover unseen (callees.flatMap Prod.snd)
    fresh.map s.observeVariable ++ callees.map (fun c => observeCallee c.1 c.2) ++
      explore s (known ++ fresh) next.2 (queue ++ next.1)
termination_by unseen.length + queue.length
decreasing_by
  have := discover_length unseen
    (((Block.references body {}).calls.reverse.map fun n => (n, s.candidates n)).flatMap Prod.snd)
  simp only [List.length_append, List.length_cons]
  omega

/-- What the body of a function sees of the scopes; its parameters hide variables of
the same name. -/
def visibleTo (s : ScopeStack φ) (f : Function) : List Observation :=
  explore s (f.signature.params.map Param.name)
    ((s.entries.map fun e => e.function.span).filter (· ≠ f.span)) [f.body]

/-- A text that two calls of a function share exactly if one generated body serves both. -/
def specializationKey (s : ScopeStack φ) (f : Function) (arguments : List Value) : Bytes :=
  Bytes.join "," (arguments.map Value.tagged ++ (s.visibleTo f).map Observation.render)

end ScopeStack
end PackScript
