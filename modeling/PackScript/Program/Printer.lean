import PackScript.Program.Stmt
import PackScript.Token.Basic

/-! # Canonical source text

A program as the source text that the grammar reads back as that program: one
statement a line, two blanks of indentation a level.
-/
namespace PackScript

namespace Print

def escapeByte (b : UInt8) : Bytes :=
  if b = 92 then "\\\\"
  else if b = 34 then "\\\""
  else if b = 10 then "\\n"
  else if b = 9 then "\\t"
  else [b]

def string (s : Bytes) : Bytes := "\"" ++ s.flatMap escapeByte ++ "\""

def bool : Bool → Bytes
  | true => "true"
  | false => "false"

mutual
def expr : Expr → Bytes
  | .sum _ l r => expr l ++ " + " ++ expr r
  | .product _ l r => expr l ++ " * " ++ expr r
  | .number _ i => Decimal.ofInt i.toInt
  | .string _ s => string s
  | .bool _ b => bool b
  | .var _ n => n.render
  | .paren _ e => "(" ++ expr e ++ ")"
  | .call _ n args => n.render ++ "(" ++ Bytes.join ", " (exprs args) ++ ")"
def exprs : List Expr → List Bytes
  | [] => []
  | e :: es => expr e :: exprs es
end

/-- A name with its annotation, if it has one. -/
def annotated (name : Name) (typing : Typing) : Bytes :=
  match typing with
  | .unknown => name.render
  | _ => name.render ++ ": " ++ typing.render

def signature (s : Signature) : Bytes :=
  s.name.render ++ "(" ++ Bytes.join ", " (s.params.map fun p => annotated p.name p.typing) ++ ")"

/-- A literal text and the hole behind it. -/
def part (p : Bytes × Expr) : Bytes := p.1 ++ "#\x7b" ++ expr p.2 ++ "\x7d"

def commandLine (parts : List (Bytes × Expr)) (tail : Bytes) : Bytes :=
  "/" ++ parts.flatMap part ++ tail

/-- A line of text at a level of nesting. -/
structure Line where
  level : Nat
  text : Bytes
deriving DecidableEq, Repr

def indentation (level : Nat) : Bytes := List.replicate (2 * level) 32

def Line.render (l : Line) : Bytes := indentation l.level ++ l.text ++ "\n"

def text (lines : List Line) : Bytes := lines.flatMap Line.render

mutual
def stmt (level : Nat) : Stmt → List Line
  | .command _ parts tail => [⟨level, commandLine parts tail⟩]
  | .cond _ test body other =>
    ⟨level, "if " ++ expr test ++ " \x7b"⟩ :: (block (level + 1) body ++ otherwise level other)
  | .assign _ target typing value declare =>
    [⟨level, annotated target typing ++ (if declare then " := " else " = ") ++ expr value ++ ";"⟩]
  | .define _ sig body =>
    ⟨level, "def " ++ signature sig ++ " \x7b"⟩ :: (block (level + 1) body ++ [⟨level, "\x7d"⟩])
  | .call _ n args => [⟨level, n.render ++ "(" ++ Bytes.join ", " (exprs args) ++ ");"⟩]
  | .ret _ value => [⟨level, "return " ++ expr value ++ ";"⟩]
/-- The lines from the one that closes a conditional's block. -/
def otherwise (level : Nat) : Otherwise → List Line
  | .nothing => [⟨level, "\x7d"⟩]
  | .block body => ⟨level, "\x7d else \x7b"⟩ :: (block (level + 1) body ++ [⟨level, "\x7d"⟩])
  | .cond _ test body other =>
    ⟨level, "\x7d else if " ++ expr test ++ " \x7b"⟩ ::
      (block (level + 1) body ++ otherwise level other)
def block (level : Nat) : List Stmt → List Line
  | [] => []
  | s :: rest => stmt level s ++ block level rest
end

end Print

def Program.print (p : Program) : Bytes := Print.text (Print.block 0 p.body)

end PackScript
