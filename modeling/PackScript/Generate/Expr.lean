import PackScript.Generate.Call

/-! # Expressions

A static expression is folded to a value while the pack is built; that may expand static
functions, which may write commands of their own. A dynamic one becomes commands that
leave its value on top of the stack.
-/
namespace PackScript

namespace Value

/-- Integers add with wrapping at 32 bits, texts are joined. -/
def add : Value → Value → Except Cause Value
  | .int a, .int b => .ok (.int (a + b))
  | .string a, .string b => .ok (.string (a ++ b))
  | a, b => .error (.cannotAdd a.typing b.typing)

/-- Integers multiply with wrapping at 32 bits. -/
def multiply : Value → Value → Except Cause Value
  | .int a, .int b => .ok (.int (a * b))
  | a, b => .error (.cannotMultiply a.typing b.typing)

end Value

namespace Gen

/-- The outcome of an operation on values, an error being reported at `span`. -/
def settle (span : Span) (r : Except Cause Value) : Gen Value :=
  match r with
  | .ok v => return v
  | .error cause => throw (.ofCause span cause)

mutual
/-- The value of a static expression. -/
def fold (deeper : Deeper) (e : Expr) : Gen Value :=
  if !e.isStatic then throw (.defect .foldedDynamic)
  else match e with
    | .number _ i => return .int i
    | .string _ s => return .string s
    | .bool _ b => return .bool b
    | .paren _ inner => fold deeper inner
    | .var span n => do ofExcept ((← get).scopes.lookupStatic n span)
    | .sum span l r => do
      let a ← fold deeper l
      let b ← fold deeper r
      settle span (a.add b)
    | .product span l r => do
      let a ← fold deeper l
      let b ← fold deeper r
      settle span (a.multiply b)
    | .call span n args => do
      let f ← resolve span n args
      let arguments ← foldAll deeper args
      match ← expand deeper span f arguments with
      | some v => return v
      | none => throw (.ofCause span (.expansionWithoutValue n))
def foldAll (deeper : Deeper) : List Expr → Gen (List Value)
  | [] => return []
  | e :: es => do
    let v ← fold deeper e
    let vs ← foldAll deeper es
    return v :: vs
end

/-- The values for the static parameters of a function, in their order. -/
def foldStatics (deeper : Deeper) (args : List Expr) : List Param → Gen (List (Name × Value)) :=
  go args
where
  go : List Expr → List Param → Gen (List (Name × Value))
    | _, [] => return []
    | [], _ :: _ => throw (.defect .missingArgument)
    | a :: as, p :: ps => do
      if p.name.dynamic then go as ps
      else
        let v ← fold deeper a
        let vs ← go as ps
        return (p.name, v) :: vs

/-- Moves both operands from the stack to the registers, combines them and pushes the result. -/
def combine (op : Operation) : Gen Unit := do
  emit (.load .left 2)
  emit (.load .right 1)
  emit .pop
  emit .pop
  emit (.operate op)
  emit (.pushValue (.int 0))
  emit .writeBack

/-- Registers hold integers, so an operand known to be a text is refused. -/
def refuseStrings (span : Span) (l r : Expr) : Gen Unit := do
  let scopes := (← get).scopes
  if scopes.typingOf l = .string || scopes.typingOf r = .string then
    throw (.ofCause span .stringArithmetic)

mutual
/-- Commands that leave the value of an expression on top of the stack. -/
def push (deeper : Deeper) (e : Expr) : Gen Unit :=
  if e.isStatic then do emit (.pushValue (← fold deeper e))
  else match e with
    | .var span n => do
      let (place, _) ← ofExcept ((← get).scopes.place n span)
      emit (.pushFrom place)
    | .paren _ inner => push deeper inner
    | .sum span l r => do
      refuseStrings span l r
      push deeper l
      push deeper r
      combine .add
    | .product span l r => do
      refuseStrings span l r
      push deeper l
      push deeper r
      combine .multiply
    | .call span n args =>
      invoke deeper span n args (foldStatics deeper args) (pushDynamics deeper args) true
    | _ => throw (.defect .unexpectedDynamic)
/-- Pushes the arguments of the dynamic parameters, the last one first. -/
def pushDynamics (deeper : Deeper) : List Expr → List Param → Gen Unit
  | _, [] => return
  | [], _ :: _ => throw (.defect .missingArgument)
  | a :: as, p :: ps => do
    pushDynamics deeper as ps
    if p.name.dynamic then push deeper a
end

end Gen
end PackScript
