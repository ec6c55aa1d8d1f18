import PackScript.Program.Value
import PackScript.Source.Span

/-! # Expressions

An expression is static if it can be settled while the pack is built. For a call
only the name decides: the grammar keeps dynamic arguments out of static calls.
-/
namespace PackScript

inductive Expr where
  | sum (span : Span) (left right : Expr)
  | product (span : Span) (left right : Expr)
  | number (span : Span) (value : Int32)
  | string (span : Span) (value : Bytes)
  | bool (span : Span) (value : Bool)
  | var (span : Span) (name : Name)
  | paren (span : Span) (inner : Expr)
  | call (span : Span) (name : Name) (args : List Expr)
deriving Repr

namespace Expr

def span : Expr → Span
  | .sum s _ _ => s
  | .product s _ _ => s
  | .number s _ => s
  | .string s _ => s
  | .bool s _ => s
  | .var s _ => s
  | .paren s _ => s
  | .call s _ _ => s

def isStatic : Expr → Bool
  | .sum _ l r => l.isStatic && r.isStatic
  | .product _ l r => l.isStatic && r.isStatic
  | .number _ _ => true
  | .string _ _ => true
  | .bool _ _ => true
  | .var _ n => n.isStatic
  | .paren _ e => e.isStatic
  | .call _ n _ => n.isStatic

/-- What the shape of an expression alone says of its value; names say nothing. -/
def typing : Expr → Typing
  | .sum _ l r => l.typing.meet r.typing
  | .product _ l r => l.typing.meet r.typing
  | .number _ _ => .int
  | .string _ _ => .string
  | .bool _ _ => .bool
  | .var _ _ => .unknown
  | .paren _ e => e.typing
  | .call _ _ _ => .unknown

end Expr

/-- The names that a piece of program refers to, each once, the latest to appear first: the
static variables that it reads or assigns, and the functions that it calls. -/
structure References where
  vars : List Name := []
  calls : List Name := []
deriving DecidableEq, Repr

namespace References

def withVar (r : References) (n : Name) : References :=
  if n.isStatic && !r.vars.any (· = n) then { r with vars := n :: r.vars } else r

def withCall (r : References) (n : Name) : References :=
  if r.calls.any (· = n) then r else { r with calls := n :: r.calls }

end References

mutual
/-- The references so far and those of an expression. -/
def Expr.references : Expr → References → References
  | .sum _ a b, r => b.references (a.references r)
  | .product _ a b, r => b.references (a.references r)
  | .number _ _, r => r
  | .string _ _, r => r
  | .bool _ _, r => r
  | .var _ n, r => r.withVar n
  | .paren _ e, r => e.references r
  | .call _ n args, r => Expr.referencesAll args (r.withCall n)
def Expr.referencesAll : List Expr → References → References
  | [], r => r
  | e :: es, r => Expr.referencesAll es (e.references r)
end

end PackScript
