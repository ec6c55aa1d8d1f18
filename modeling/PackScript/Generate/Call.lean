import PackScript.Generate.State
import PackScript.Generate.Visible

/-! # Calls

A static function is expanded where it is called. A dynamic function runs from a file of
its own: the caller pushes the arguments, opens a frame and fills it. Both ways may lead
into another body; how that body is generated is a parameter here, and absent where the
nesting has become too deep.
-/
namespace PackScript

/-- How a body one level deeper is generated, if that level is still allowed. -/
abbrev Deeper := Option (Block → Gen Unit)

namespace ScopeStack

variable {φ : Type}

/-- What is known of the type of an expression without generating anything. -/
def typingOf (s : ScopeStack φ) : Expr → Typing
  | .var _ n =>
    if n.isStatic then
      match s.static? n with
      | some v => v.typing
      | none => .unknown
    else
      match reach n 0 false s.scopes with
      | .found _ ty => ty
      | _ => .unknown
  | .paren _ e => s.typingOf e
  | e => e.typing

def argOf (s : ScopeStack φ) (e : Expr) : Arg := ⟨e.isStatic, s.typingOf e⟩

/-- The entry as it is now. -/
def current (s : ScopeStack φ) (e : Entry φ) : Entry φ :=
  (s.entries.find? fun e' => e'.id = e.id).getD e

end ScopeStack

namespace Gen

/-- The function that a call goes to, with the call counted. -/
def resolve (span : Span) (name : Name) (args : List Expr) : Gen (Entry FileId) := do
  let scopes := (← get).scopes
  let e ← ofExcept (scopes.resolve name (args.map scopes.argOf) span)
  modify fun s => { s with scopes := s.scopes.updateEntry e.id fun e => { e with calls := e.calls + 1 } }
  return e

/-- Declares static parameters with their values. -/
def bindArguments (file : FileId) : List Param → List Value → Gen Unit
  | [], _ => return
  | p :: ps, v :: vs => do
    onScopes fun s => s.declareStatic p.name v file
    bindArguments file ps vs
  | _ :: _, [] => throw (.defect .missingArgument)

/-- Expands a static function in place and gives the value it returned, if any. -/
def expand (deeper : Deeper) (span : Span) (e : Entry FileId) (arguments : List Value) :
    Gen (Option Value) := do
  match deeper with
  | none => throw (.ofCause span (.expansionTooDeep e.signature))
  | some generate =>
    let file ← currentFile
    nested do
      returningTo (.expansion e.signature.label file none) do
        inScope .expansion do
          bindArguments file e.signature.params arguments
          generate e.function.body
        return (← get).target.bind ReturnTarget.value?

/-- Declares the parameters of a function in its own scope. -/
def declareParams (file : FileId) (statics : List (Name × Value)) : List Param → Gen Unit
  | [] => return
  | p :: ps => do
    if p.name.dynamic then onScopes fun s => s.declareRuntime p.name p.typing
    else onScopes fun s => s.declareStatic p.name ((statics.lookup p.name).getD (.untyped [])) file
    declareParams file statics ps

/-- Writes the body of a dynamic function to its file. -/
def functionBody (file : FileId) (params : List Param) (statics : List (Name × Value))
    (body : Gen Unit) : Gen Unit :=
  writingTo file do
    inScope .function do
      declareParams file statics params
      returningTo .storage body

/-- The file with the body of a function for these static arguments. It is recorded before
it is generated, so that a call of the same kind inside the body goes to the same file. -/
def specialize (deeper : Deeper) (span : Span) (e : Entry FileId) (statics : List (Name × Value)) :
    Gen FileId := do
  let scopes := (← get).scopes
  let key := scopes.specializationKey e.function (statics.map Prod.snd)
  match (scopes.current e).specialized.lookup key with
  | some file => return file
  | none =>
    match deeper with
    | none => throw (.ofCause span (.specializationTooDeep e.signature))
    | some generate =>
      let file ← newFile
      modify fun s => { s with
        scopes := s.scopes.updateEntry e.id fun e => { e with specialized := (key, file) :: e.specialized } }
      nested (functionBody file e.signature.params statics (generate e.function.body))
      return file

/-- Fills the new frame of a function from the stack. -/
def fillFrame : List Param → Gen Unit
  | [] => return
  | p :: ps => do
    if p.name.dynamic then
      emit (.storeTop (.frame 1 p.name.text))
      emit .pop
    fillFrame ps

/-- Calls a dynamic function. `foldStatics` settles the arguments of static parameters,
`pushDynamics` pushes the others, the last one first. The returned value is pushed if the
call `isValue`. -/
def invoke (deeper : Deeper) (span : Span) (name : Name) (args : List Expr)
    (foldStatics : List Param → Gen (List (Name × Value))) (pushDynamics : List Param → Gen Unit)
    (isValue : Bool) : Gen Unit := do
  let e ← resolve span name args
  let params := e.signature.params
  if isValue && !Block.hasReturn e.function.body then
    throw (.ofCause span (.noReturnValue e.signature))
  let file ←
    if 0 < e.signature.staticParams then
      specialize deeper span e (← foldStatics params)
    else match e.file with
      | some file => pure file
      | none => throw (.defect .unplacedFunction)
  pushDynamics params
  emit .openFrame
  fillFrame params
  emit (.call file)
  emit .closeFrame
  if isValue then emit (.pushFrom .result)

end Gen
end PackScript
