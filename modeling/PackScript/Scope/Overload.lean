import PackScript.Scope.Stack

/-! # Functions and overloads

Several functions may share a name. A call goes to the overload that fits its arguments
best: the one with the most static parameters, then the one with the most matching
annotations, then the innermost, then the first declared.
-/
namespace PackScript

/-- What a call says of one of its arguments. -/
structure Arg where
  static : Bool
  typing : Typing
deriving DecidableEq, Repr

/-- How well a signature fits: static parameters, then matching annotations. -/
structure Fit where
  statics : Nat
  typings : Nat
deriving DecidableEq, Repr

namespace Fit

def better (a b : Fit) : Bool :=
  b.statics < a.statics || (a.statics = b.statics && b.typings < a.typings)

/-- The fit of arguments to parameters, if there are as many of both and no static
parameter gets a dynamic argument. -/
def ofArgs? : List Param → List Arg → Option Fit
  | [], [] => some ⟨0, 0⟩
  | p :: ps, a :: as =>
    if p.name.isStatic && !a.static then none
    else (ofArgs? ps as).map fun f =>
      { statics := f.statics + if p.name.isStatic then 1 else 0
        typings := f.typings + if p.typing ≠ .unknown ∧ p.typing = a.typing then 1 else 0 }
  | _, _ => none

end Fit

namespace ScopeStack

variable {φ : Type}

/-- Declares a function in the innermost scope and tells its identity. -/
def register (s : ScopeStack φ) (f : Function) : Except Failure (Nat × ScopeStack φ) := do
  let t ← s.top
  if t.entries.any fun e => e.signature.sameKey f.signature then
    .error (.ofCause f.span (.duplicateFunction f.signature))
  let s := s.setTop { t with entries := t.entries ++ [{ id := s.nextId, function := f }] }
  return (s.nextId, { s with nextId := s.nextId + 1 })

/-- Changes the entry with this identity, wherever it is. -/
def updateEntry (s : ScopeStack φ) (id : Nat) (f : Entry φ → Entry φ) : ScopeStack φ :=
  { s with scopes := s.scopes.map fun sc =>
      { sc with entries := sc.entries.map fun e => if e.id = id then f e else e } }

/-- The functions in sight, innermost first, those of one scope in the order declared. -/
def entries (s : ScopeStack φ) : List (Entry φ) := s.scopes.flatMap Scope.entries

/-- The functions of this name in sight. -/
def candidates (s : ScopeStack φ) (name : Name) : List (Entry φ) :=
  s.scopes.flatMap fun sc => sc.entries.filter fun e => e.signature.name = name

/-- The first of the entries whose fit no other one betters. -/
def bestFit? (args : List Arg) (es : List (Entry φ)) : Option (Entry φ × Fit) :=
  es.foldl (fun best e =>
    match Fit.ofArgs? e.signature.params args, best with
    | none, _ => best
    | some fit, none => some (e, fit)
    | some fit, some (_, least) => if fit.better least then some (e, fit) else best) none

def functionNames (s : ScopeStack φ) (dynamic : Bool) : List Bytes :=
  (s.entries.filter fun e => e.signature.name.dynamic = dynamic).map fun e => e.signature.name.render

/-- The overload that a call goes to. -/
def resolve (s : ScopeStack φ) (name : Name) (args : List Arg) (span : Span) :
    Except Failure (Entry φ) :=
  match bestFit? args (s.candidates name) with
  | some (e, _) => .ok e
  | none =>
    if (s.candidates name).isEmpty then
      .error (.ofCause span (.unresolvedCall name
        (Suggestion.suggest? name.render (s.functionNames name.dynamic))))
    else .error (.ofCause span (.noOverload name args.length))

end ScopeStack
end PackScript
