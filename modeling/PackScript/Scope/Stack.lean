import PackScript.Scope.Basic
import PackScript.Source.Diagnostic
import PackScript.Text.Suggestion

/-! # The stack of open scopes

Names are looked up from the innermost scope outwards. A dynamic variable is reached
through the frames of the running pack: by its distance from the last frame while no
function body lies between, and through the first frame if it belongs to the program
itself, since a function may run at any depth. Other variables of an enclosing function
are out of reach.
-/
namespace PackScript

structure ScopeStack (φ : Type) where
  /-- Innermost first. -/
  scopes : List (Scope φ) := []
  /-- The identity of the next declared function. -/
  nextId : Nat := 0

/-- How a dynamic variable can be reached. -/
inductive Reach where
  | found (place : Place) (typing : Typing)
  | outOfReach
  | missing
deriving DecidableEq, Repr

namespace ScopeStack

variable {φ : Type}

def depth (s : ScopeStack φ) : Nat := s.scopes.length

def push (s : ScopeStack φ) (kind : ScopeKind) (frame : Bool) (file : φ) : ScopeStack φ :=
  { s with scopes := { kind, frame, file } :: s.scopes }

/-- Closes the innermost scope. -/
def pop (s : ScopeStack φ) : Except Failure (Scope φ × ScopeStack φ) :=
  match s.scopes with
  | [] => .error (.defect .popOnEmptyStack)
  | top :: outer => .ok (top, { s with scopes := outer })

def top (s : ScopeStack φ) : Except Failure (Scope φ) :=
  match s.scopes with
  | [] => .error (.defect .noOpenScope)
  | top :: _ => .ok top

def setTop (s : ScopeStack φ) (new : Scope φ) : ScopeStack φ :=
  { s with scopes := new :: s.scopes.tail }

/-! ## Dynamic variables -/

def declareRuntime (s : ScopeStack φ) (name : Name) (typing : Typing) :
    Except Failure (ScopeStack φ) := do
  let t ← s.top
  if !t.frame then .error (.defect (.noFrame name t.kind.render))
  return s.setTop { t with runtime := t.runtime.set name typing }

/-- Announces a root variable ahead of its declaration; the first announcement counts. -/
def hoist (s : ScopeStack φ) (name : Name) (typing : Typing) : Except Failure (ScopeStack φ) := do
  let t ← s.top
  if t.kind ≠ .root then .error (.defect .hoistBelowRoot)
  match t.hoisted.get? name with
  | some _ => return s
  | none => return s.setTop { t with hoisted := t.hoisted.set name typing }

/-- Looks a dynamic variable up, `frames` frames in from the innermost scope; `crossed`
says whether a function body lies between. -/
def reach (name : Name) : (frames : Nat) → (crossed : Bool) → List (Scope φ) → Reach
  | _, _, [] => .missing
  | frames, crossed, s :: outer =>
    let frames := if s.frame then frames + 1 else frames
    match s.runtimeTyping? name crossed with
    | some ty =>
      if !crossed then .found (.frame frames name.text) ty
      else if s.kind = .root then .found (.rootFrame name.text) ty
      else .outOfReach
    | none => reach name frames (crossed || s.kind = .function) outer

def runtimeNames (s : ScopeStack φ) : List Bytes :=
  s.scopes.flatMap fun sc => sc.runtime.names.map Name.render

/-- The place of a dynamic variable, seen from the innermost scope, and its typing. -/
def place (s : ScopeStack φ) (name : Name) (span : Span) : Except Failure (Place × Typing) :=
  match reach name 0 false s.scopes with
  | .found place typing => .ok (place, typing)
  | .outOfReach => .error (.ofCause span (.outOfReach name))
  | .missing =>
    .error (.ofCause span
      (.unknownVariable name (Suggestion.suggest? name.render s.runtimeNames)))

/-! ## Static variables -/

def declareStatic (s : ScopeStack φ) (name : Name) (value : Value) (file : φ) :
    Except Failure (ScopeStack φ) := do
  let t ← s.top
  return s.setTop { t with statics := t.statics.set name ⟨value, file⟩ }

def findStatic? (s : ScopeStack φ) (name : Name) : Option (Binding φ) :=
  s.scopes.findSome? fun sc => sc.statics.get? name

def static? (s : ScopeStack φ) (name : Name) : Option Value :=
  (s.findStatic? name).map Binding.value

def staticNames (s : ScopeStack φ) : List Bytes :=
  s.scopes.flatMap fun sc => sc.statics.names.map Name.render

def unknownStatic (s : ScopeStack φ) (name : Name) (span : Span) : Failure :=
  .ofCause span (.unknownVariable name (Suggestion.suggest? name.render s.staticNames))

def lookupStatic (s : ScopeStack φ) (name : Name) (span : Span) : Except Failure Value :=
  match s.findStatic? name with
  | some b => .ok b.value
  | none => .error (s.unknownStatic name span)

/-- Gives the innermost binding of a name another value. -/
def setStatic (name : Name) (value : Value) : List (Scope φ) → List (Scope φ)
  | [] => []
  | s :: outer =>
    match s.statics.get? name with
    | some b => { s with statics := s.statics.set name { b with value } } :: outer
    | none => s :: setStatic name value outer

/-- Gives a static variable another value. That has to happen while the file is being
written in which the variable was declared: elsewhere the commands may run or not. -/
def reassignStatic [DecidableEq φ] (s : ScopeStack φ) (name : Name) (value : Value) (file : φ)
    (span : Span) : Except Failure (ScopeStack φ) :=
  match s.findStatic? name with
  | none => .error (s.unknownStatic name span)
  | some b =>
    if b.file ≠ file then .error (.ofCause span (.reassignedElsewhere name))
    else .ok { s with scopes := setStatic name value s.scopes }

end ScopeStack
end PackScript
