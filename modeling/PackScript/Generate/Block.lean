import PackScript.Generate.Expr

/-! # Statements and blocks

A block is generated in two passes. First its functions are declared, so that a call may
stand before the declaration, and those without static parameters get their files, all
of them before the first body is generated; at the root the dynamic variables are
announced to those bodies. Then the statements follow in order.
-/
namespace PackScript.Gen

/-- The text of a command up to its final part. A value must not break the line. -/
def commandText (deeper : Deeper) : List (Bytes × Expr) → Gen Bytes
  | [] => return []
  | (literal, e) :: parts => do
    let v ← fold deeper e
    if v.content.any fun b => b = 10 || b = 13 then
      throw (.ofCause e.span .lineBreakInCommand)
    let rest ← commandText deeper parts
    return literal ++ v.render ++ rest

/-- Warns of an annotation that disagrees with the value. -/
def checkTyping (target : Name) (declared : Typing) (value : Expr) (got : Typing) : Gen Unit :=
  if declared = .unknown || got = .unknown || declared = got then return
  else warn (.typingMismatch value.span target declared got)

def assignStatic (deeper : Deeper) (span : Span) (target : Name) (ty : Typing) (value : Expr)
    (declare : Bool) : Gen Unit := do
  let v ← fold deeper value
  checkTyping target ty value v.typing
  let file ← currentFile
  if declare then onScopes fun s => s.declareStatic target v file
  else onScopes fun s => s.reassignStatic target v file span

/-- Declares the variable if the assignment does and gives its place. -/
def assignedPlace (span : Span) (target : Name) (ty : Typing) (declare : Bool) : Gen Place := do
  if declare then onScopes fun s => s.declareRuntime target ty
  let (place, _) ← ofExcept ((← get).scopes.place target span)
  return place

/-- The value is generated before the declaration takes effect: it may read a variable of
an outer scope with the same name. -/
def assignRuntime (deeper : Deeper) (span : Span) (target : Name) (ty : Typing) (value : Expr)
    (declare : Bool) : Gen Unit := do
  if value.isStatic then
    let v ← fold deeper value
    checkTyping target ty value v.typing
    emit (.storeValue (← assignedPlace span target ty declare) v)
  else
    push deeper value
    checkTyping target ty value ((← get).scopes.typingOf value)
    emit (.storeTop (← assignedPlace span target ty declare))
    emit .pop

/-- Delivers a value to the enclosing function. What follows still runs, and the last value
delivered counts. -/
def deliver (deeper : Deeper) (span : Span) (value : Expr) : Gen Unit := do
  match (← get).target with
  | none => throw (.ofCause span .returnOutsideFunction)
  | some (.expansion label file _) =>
    if (← currentFile) ≠ file then throw (.ofCause span (.returnBelowTopLevel label))
    let v ← fold deeper value
    modify fun s => { s with target := some (.expansion label file (some v)) }
  | some .storage =>
    if value.isStatic then emit (.storeValue .result (← fold deeper value))
    else
      push deeper value
      emit (.storeTop .result)
      emit .pop

def callStatement (deeper : Deeper) (span : Span) (name : Name) (args : List Expr) : Gen Unit := do
  if name.isStatic then
    let f ← resolve span name args
    let arguments ← foldAll deeper args
    let _ ← expand deeper span f arguments
  else invoke deeper span name args (foldStatics deeper args) (pushDynamics deeper args) false

/-- A branch has a file of its own, and a scope if it declares anything. -/
def branch (b : Block) (body : Gen Unit) : Gen FileId :=
  inNewFile (if Block.requiresScope b then inScope .block body else body)

/-- Evaluates a condition and runs one of two files on it. The condition is read anew
before each test, because a branch may overwrite the register. -/
def conditional (test : Gen Unit) (body : Gen FileId) (other : Gen (Option FileId)) : Gen Unit := do
  test
  let file ← body
  emit (.load .condition 1)
  emit (.runIf file)
  match ← other with
  | some file =>
    emit (.load .condition 1)
    emit (.runUnless file)
  | none => pure ()
  emit .pop

/-- Declares what a statement declares ahead of the block. The result is the file
reserved for the body of a dynamic function without static parameters. -/
def declareAhead (root : Bool) : Stmt → Gen (Option FileId)
  | .assign _ target ty _ true => do
    if root && target.dynamic then onScopes fun s => s.hoist target ty
    return none
  | .define span sig body => do
    let (id, scopes) ← ofExcept ((← get).scopes.register ⟨span, sig, body⟩)
    modify fun s => { s with scopes }
    if !sig.isStatic && sig.staticParams = 0 then
      let file ← newFile
      modify fun s => { s with
        scopes := s.scopes.updateEntry id fun e => { e with file := some file } }
      return some file
    return none
  | _ => return none

/-- The two passes over a block, given how the reserved bodies and the statements are generated. -/
def inOrder (b : Block) (bodies : List (Option FileId) → Gen Unit) (statements : Gen Unit) :
    Gen Unit := do
  let top ← ofExcept (← get).scopes.top
  let reserved ← b.mapM (declareAhead (top.kind = .root))
  bodies reserved
  statements

mutual
def statement (deeper : Deeper) : Stmt → Gen Unit
  | .command _ parts tail => do emit (.verbatim ((← commandText deeper parts) ++ tail))
  | .cond _ test body other =>
    conditional (push deeper test)
      (branch body (inOrder body (reservedBodies deeper body) (statements deeper body)))
      (otherwise deeper other)
  | .assign span target ty value declare =>
    if target.isStatic then assignStatic deeper span target ty value declare
    else assignRuntime deeper span target ty value declare
  | .define _ _ _ => return
  | .call span name args => callStatement deeper span name args
  | .ret span value => deliver deeper span value
/-- The file that runs when a condition fails. -/
def otherwise (deeper : Deeper) : Otherwise → Gen (Option FileId)
  | .nothing => return none
  | .block body => do
    return some (← branch body (inOrder body (reservedBodies deeper body) (statements deeper body)))
  | .cond _ test body other => do
    return some (← inNewFile (conditional (push deeper test)
      (branch body (inOrder body (reservedBodies deeper body) (statements deeper body)))
      (otherwise deeper other)))
def statements (deeper : Deeper) : List Stmt → Gen Unit
  | [] => return
  | s :: rest => do
    statement deeper s
    statements deeper rest
/-- The bodies of the functions of a block for which files are reserved. -/
def reservedBodies (deeper : Deeper) : List Stmt → List (Option FileId) → Gen Unit
  | .define _ sig body :: rest, some file :: files => do
    functionBody file sig.params []
      (inOrder body (reservedBodies deeper body) (statements deeper body))
    reservedBodies deeper rest files
  | _ :: rest, _ :: files => reservedBodies deeper rest files
  | _, _ => return
end

def block (deeper : Deeper) (b : Block) : Gen Unit :=
  inOrder b (reservedBodies deeper b) (statements deeper b)

/-- How bodies are generated with so many further levels of expansion and specialization. -/
def levels : Nat → Deeper
  | 0 => none
  | n + 1 => some (block (levels n))

end PackScript.Gen
