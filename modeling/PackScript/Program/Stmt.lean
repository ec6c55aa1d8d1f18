import PackScript.Program.Expr

/-! # Statements and blocks

A conditional may go on with further conditions and end with a final block; an empty
final block is not the same as none. Whether a statement is static is read off its
shape: of an assignment and a declaration the name decides, of a conditional all its
parts.
-/
namespace PackScript

mutual
inductive Stmt where
  /-- A command line: literal texts, each followed by a hole, then a final text. -/
  | command (span : Span) (parts : List (Bytes × Expr)) (tail : Bytes)
  | cond (span : Span) (test : Expr) (body : List Stmt) (other : Otherwise)
  | assign (span : Span) (target : Name) (typing : Typing) (value : Expr) (declare : Bool)
  | define (span : Span) (signature : Signature) (body : List Stmt)
  | call (span : Span) (name : Name) (args : List Expr)
  | ret (span : Span) (value : Expr)
inductive Otherwise where
  | nothing
  | block (body : List Stmt)
  | cond (span : Span) (test : Expr) (body : List Stmt) (other : Otherwise)
end

abbrev Block := List Stmt

/-- A declared function. Its place in the source tells it from every other one. -/
structure Function where
  span : Span
  signature : Signature
  body : Block

structure Program where
  body : Block
  /-- The place where the source ends. -/
  stop : Span

namespace Stmt

def span : Stmt → Span
  | .command s _ _ => s
  | .cond s _ _ _ => s
  | .assign s _ _ _ _ => s
  | .define s _ _ => s
  | .call s _ _ => s
  | .ret s _ => s

end Stmt

mutual
def Stmt.isStatic : Stmt → Bool
  | .command _ _ _ => true
  | .cond _ test body other => test.isStatic && Block.isStatic body && other.isStatic
  | .assign _ target _ _ _ => target.isStatic
  | .define _ signature _ => signature.isStatic
  | .call _ name _ => name.isStatic
  | .ret _ value => value.isStatic
def Otherwise.isStatic : Otherwise → Bool
  | .nothing => true
  | .block body => Block.isStatic body
  | .cond _ test body other => test.isStatic && Block.isStatic body && other.isStatic
/-- Every statement is static. -/
def Block.isStatic : List Stmt → Bool
  | [] => true
  | s :: rest => s.isStatic && Block.isStatic rest
end

/-- Every statement is dynamic. A block of both kinds is neither static nor dynamic. -/
def Block.isDynamic (b : Block) : Bool := b.all fun s => !s.isStatic

mutual
def Stmt.requiresScope : Stmt → Bool
  | .command _ _ _ => false
  | .cond _ _ body other => Block.requiresScope body || other.requiresScope
  | .assign _ _ _ _ declare => declare
  | .define _ _ _ => true
  | .call _ _ _ => false
  | .ret _ _ => false
def Otherwise.requiresScope : Otherwise → Bool
  | .nothing => false
  | .block body => Block.requiresScope body
  | .cond _ _ body other => Block.requiresScope body || other.requiresScope
/-- Something is declared in the block or in a conditional of it. -/
def Block.requiresScope : List Stmt → Bool
  | [] => false
  | s :: rest => s.requiresScope || Block.requiresScope rest
end

mutual
def Stmt.hasReturn : Stmt → Bool
  | .command _ _ _ => false
  | .cond _ _ body other => Block.hasReturn body || other.hasReturn
  | .assign _ _ _ _ _ => false
  | .define _ _ _ => false
  | .call _ _ _ => false
  | .ret _ _ => true
def Otherwise.hasReturn : Otherwise → Bool
  | .nothing => false
  | .block body => Block.hasReturn body
  | .cond _ _ body other => Block.hasReturn body || other.hasReturn
/-- A return stands somewhere in the block, declared functions aside. -/
def Block.hasReturn : List Stmt → Bool
  | [] => false
  | s :: rest => s.hasReturn || Block.hasReturn rest
end

mutual
/-- The references so far and those of a statement. -/
def Stmt.references : Stmt → References → References
  | .command _ parts _, r => Expr.referencesAll (parts.map Prod.snd) r
  | .cond _ test body other, r => other.references (Block.references body (test.references r))
  | .assign _ target _ value _, r => value.references (r.withVar target)
  | .define _ _ body, r => Block.references body r
  | .call _ name args, r => Expr.referencesAll args (r.withCall name)
  | .ret _ value, r => value.references r
def Otherwise.references : Otherwise → References → References
  | .nothing, r => r
  | .block body, r => Block.references body r
  | .cond _ test body other, r => other.references (Block.references body (test.references r))
def Block.references : List Stmt → References → References
  | [], r => r
  | s :: rest, r => Block.references rest (s.references r)
end

namespace Block

/-- The static variables of the block, declared functions included, in order of first
appearance. -/
def vars (b : Block) : List Name := (Block.references b {}).vars.reverse

/-- The functions that the block calls, declared functions included, in order of first
appearance. -/
def calls (b : Block) : List Name := (Block.references b {}).calls.reverse

end Block
end PackScript
