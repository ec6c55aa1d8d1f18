import PackScript.Proofs.Generation.BlockLaw
import PackScript.Proofs.Generation.Confinement

/-! # The generator as procedures that call each other

Generation is written here once more, the way it runs: five procedures that call each other
without any order among them and look up how deep they are nested. One step of a procedure is
given whatever answers its calls. To compare a step with generation proper, it is enough to know
that the calls it makes are answered properly.
-/
namespace PackScript

structure Procedures where
  fold : Expr → Gen Value
  push : Expr → Gen Unit
  statement : Stmt → Gen Unit
  otherwise : Otherwise → Gen (Option FileId)
  block : Block → Gen Unit

namespace Procedures

open Gen

variable (P : Procedures)

/-- How bodies are generated one level below depth `d`. -/
def deeper (d : Nat) : Deeper := if d < maxNesting then some P.block else none

/-- How bodies are generated one level below the present one. -/
def below : Gen Deeper := do return P.deeper (← get).depth

def foldStatics : List Expr → List Param → Gen (List (Name × Value))
  | _, [] => return []
  | [], _ :: _ => throw (.defect .missingArgument)
  | a :: as, p :: ps => do
    if p.name.dynamic then foldStatics as ps
    else
      let v ← P.fold a
      let vs ← foldStatics as ps
      return (p.name, v) :: vs

def pushDynamics : List Expr → List Param → Gen Unit
  | _, [] => return
  | [], _ :: _ => throw (.defect .missingArgument)
  | a :: as, p :: ps => do
    pushDynamics as ps
    if p.name.dynamic then P.push a

def foldStep (e : Expr) : Gen Value :=
  if !e.isStatic then throw (.defect .foldedDynamic)
  else match e with
    | .number _ i => return .int i
    | .string _ s => return .string s
    | .bool _ b => return .bool b
    | .paren _ inner => P.fold inner
    | .var span n => do ofExcept ((← get).scopes.lookupStatic n span)
    | .sum span l r => do
      let a ← P.fold l
      let b ← P.fold r
      settle span (a.add b)
    | .product span l r => do
      let a ← P.fold l
      let b ← P.fold r
      settle span (a.multiply b)
    | .call span n args => do
      let f ← resolve span n args
      let arguments ← args.mapM P.fold
      match ← expand (← P.below) span f arguments with
      | some v => return v
      | none => throw (.ofCause span (.expansionWithoutValue n))

/-- A static expression is folded as part of the step. -/
def pushStep (e : Expr) : Gen Unit :=
  if e.isStatic then do emit (.pushValue (← P.foldStep e))
  else match e with
    | .var span n => do
      let (place, _) ← ofExcept ((← get).scopes.place n span)
      emit (.pushFrom place)
    | .paren _ inner => P.push inner
    | .sum span l r => do
      refuseStrings span l r
      P.push l
      P.push r
      combine .add
    | .product span l r => do
      refuseStrings span l r
      P.push l
      P.push r
      combine .multiply
    | .call span n args => do
      invoke (← P.below) span n args (P.foldStatics args) (P.pushDynamics args) true
    | _ => throw (.defect .unexpectedDynamic)

def commandText : List (Bytes × Expr) → Gen Bytes
  | [] => return []
  | (literal, e) :: parts => do
    let v ← P.fold e
    if v.content.any fun b => b = 10 || b = 13 then
      throw (.ofCause e.span .lineBreakInCommand)
    let rest ← commandText parts
    return literal ++ v.render ++ rest

def assignStatic (span : Span) (target : Name) (ty : Typing) (value : Expr) (declare : Bool) : Gen Unit := do
  let v ← P.fold value
  checkTyping target ty value v.typing
  let file ← currentFile
  if declare then onScopes fun s => s.declareStatic target v file
  else onScopes fun s => s.reassignStatic target v file span

def assignRuntime (span : Span) (target : Name) (ty : Typing) (value : Expr) (declare : Bool) : Gen Unit := do
  if value.isStatic then
    let v ← P.fold value
    checkTyping target ty value v.typing
    emit (.storeValue (← assignedPlace span target ty declare) v)
  else
    P.push value
    checkTyping target ty value ((← get).scopes.typingOf value)
    emit (.storeTop (← assignedPlace span target ty declare))
    emit .pop

def deliver (span : Span) (value : Expr) : Gen Unit := do
  match (← get).target with
  | none => throw (.ofCause span .returnOutsideFunction)
  | some (.expansion label file _) =>
    if (← currentFile) ≠ file then throw (.ofCause span (.returnBelowTopLevel label))
    let v ← P.fold value
    modify fun s => { s with target := some (.expansion label file (some v)) }
  | some .storage =>
    if value.isStatic then emit (.storeValue .result (← P.fold value))
    else
      P.push value
      emit (.storeTop .result)
      emit .pop

def callStatement (span : Span) (name : Name) (args : List Expr) : Gen Unit := do
  if name.isStatic then
    let f ← resolve span name args
    let arguments ← args.mapM P.fold
    let _ ← expand (← P.below) span f arguments
  else invoke (← P.below) span name args (P.foldStatics args) (P.pushDynamics args) false

def reservedBodies : List Stmt → List (Option FileId) → Gen Unit
  | .define _ sig body :: rest, some file :: files => do
    functionBody file sig.params [] (P.block body)
    reservedBodies rest files
  | _ :: rest, _ :: files => reservedBodies rest files
  | _, _ => return

def statementStep : Stmt → Gen Unit
  | .command _ parts tail => do emit (.verbatim ((← P.commandText parts) ++ tail))
  | .cond _ test body other => conditional (P.push test) (branch body (P.block body)) (P.otherwise other)
  | .assign span target ty value declare =>
    if target.isStatic then P.assignStatic span target ty value declare
    else P.assignRuntime span target ty value declare
  | .define _ _ _ => return
  | .call span name args => P.callStatement span name args
  | .ret span value => P.deliver span value

def otherwiseStep : Otherwise → Gen (Option FileId)
  | .nothing => return none
  | .block body => do return some (← branch body (P.block body))
  | .cond _ test body other => do
    return some (← inNewFile (conditional (P.push test) (branch body (P.block body)) (P.otherwise other)))

/-- The procedures as they are, with every call among them answered by `P`. -/
def step : Procedures where
  fold := P.foldStep
  push := P.pushStep
  statement := P.statementStep
  otherwise := P.otherwiseStep
  block b := inOrder b (P.reservedBodies b) (b.forM P.statement)

/-- The procedures with calls nested up to `k` deep; those beyond are answered by `P`. -/
def unrolled : Nat → Procedures
  | 0 => P
  | k + 1 => (unrolled k).step

def program (ns : Bytes) (p : Program) : Gen (List (Name × Value)) := do
  let file ← newFile
  writingTo file do
    inScope .root do
      onScopes fun s => s.declareStatic (.ofStatic "namespace") (.string ns) file
      P.block p.body
      return (← ofExcept (← get).scopes.top).staticValues

def generate (ns : Bytes) (p : Program) : Except Failure Generated :=
  match (P.program ns p).run {} with
  | .ok statics s =>
    .ok { ns, files := s.files.toList.map Array.toList, warnings := s.warnings.toList, statics }
  | .error f _ => .error f

/-- What the generator itself does, in a state of any depth. -/
def actual : Procedures where
  fold e s := Gen.fold (levels (maxNesting - s.depth)) e s
  push e s := Gen.push (levels (maxNesting - s.depth)) e s
  statement st s := Gen.statement (levels (maxNesting - s.depth)) st s
  otherwise o s := Gen.otherwise (levels (maxNesting - s.depth)) o s
  block b s := Gen.block (levels (maxNesting - s.depth)) b s

end Procedures

/-- Only the depth is looked up to know what is below. -/
theorem Gen.Mirrors.below {α : Type} {L : Law} {d : Nat} {Q : α → Prop} {P : Procedures} {m : Gen α}
    {k : Deeper → Gen α} (h : Mirrors L d Q m (k (P.deeper d))) : Mirrors L d Q m (P.below >>= k) := by
  refine ⟨h.lawful, fun s hs hd => ?_⟩
  change k (P.deeper s.depth) s = m s
  rw [hd]
  exact h.same hs hd

end PackScript
