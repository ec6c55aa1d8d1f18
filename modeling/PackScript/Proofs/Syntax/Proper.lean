import PackScript.Program.Printer
import PackScript.Proofs.Syntax.Lexemes

/-! # Proper syntax trees

The trees that the grammar builds: operators group to the right, products bind tighter than
sums, numbers have no sign, and what only dynamic text could mean stays out of static places.
Each proper tree has a list of lexemes that the grammar reads back as that tree.
-/
namespace PackScript

mutual
/-- An expression no looser than `k`: a term at 0, a product at 1, a sum at 2. -/
def Expr.Proper : Expr → (k : Nat) → Prop
  | .sum _ l r, k => 2 ≤ k ∧ l.Proper 1 ∧ r.Proper 2
  | .product _ l r, k => 1 ≤ k ∧ l.Proper 0 ∧ r.Proper 1
  | .number _ i, _ => 0 ≤ i.toInt
  | .string _ _, _ => True
  | .bool _ _, _ => True
  | .var _ n, _ => n.Proper
  | .paren _ e, _ => e.Proper 2
  | .call _ n args, _ => n.Proper ∧ Expr.ProperAll args ∧ (n.isStatic = true → args.all Expr.isStatic = true)
def Expr.ProperAll : List Expr → Prop
  | [] => True
  | e :: es => e.Proper 2 ∧ Expr.ProperAll es
end

theorem Expr.Proper.mono {e : Expr} {j k : Nat} (h : e.Proper j) (hjk : j ≤ k) : e.Proper k := by
  cases e with
  | sum _ l r => exact ⟨Nat.le_trans h.1 hjk, h.2⟩
  | product _ l r => exact ⟨Nat.le_trans h.1 hjk, h.2⟩
  | _ => exact h

/-- Items behind the first one, each after a comma, with the closing parenthesis. -/
def Lexeme.following : List (List Lexeme) → List Lexeme
  | [] => [.mark .closeParen]
  | l :: ls => .mark .comma :: (l ++ Lexeme.following ls)

/-- Items separated by commas, with the closing parenthesis. -/
def Lexeme.enclosed : List (List Lexeme) → List Lexeme
  | [] => [.mark .closeParen]
  | l :: ls => l ++ Lexeme.following ls

mutual
def Expr.lexemes : Expr → List Lexeme
  | .sum _ l r => l.lexemes ++ .mark .plus :: r.lexemes
  | .product _ l r => l.lexemes ++ .mark .star :: r.lexemes
  | .number _ i => [.number (Decimal.ofInt i.toInt)]
  | .string _ s => [.string s]
  | .bool _ true => [.keyword .trueWord]
  | .bool _ false => [.keyword .falseWord]
  | .var _ n => [.name n]
  | .paren _ e => .mark .openParen :: (e.lexemes ++ [.mark .closeParen])
  | .call _ n args => .name n :: .mark .openParen :: Lexeme.enclosed (Expr.lexemesAll args)
def Expr.lexemesAll : List Expr → List (List Lexeme)
  | [] => []
  | e :: es => e.lexemes :: Expr.lexemesAll es
end

/-- The literal texts and holes of a command line, from brace depth `d` on. -/
inductive IsSegmented : (d : Nat) → List (Bytes × Expr) → Bytes → Prop
  | plain {d d' : Nat} {tail : Bytes} (h : Stretch d tail d') : IsSegmented d [] tail
  | hole {d d' : Nat} {literal tail : Bytes} {e : Expr} {parts : List (Bytes × Expr)}
      (hl : Stretch d literal d') (he : e.Proper 2) (hs : e.isStatic = true)
      (h : IsSegmented d' parts tail) : IsSegmented d ((literal, e) :: parts) tail

/-- The text of a command behind its slash. -/
def Print.lineText (parts : List (Bytes × Expr)) (tail : Bytes) : Bytes :=
  parts.flatMap Print.part ++ tail

structure Signature.Proper (sig : Signature) : Prop where
  name : sig.name.Proper
  params : ∀ p ∈ sig.params, p.name.Proper
  static : sig.name.isStatic = true → ∀ p ∈ sig.params, p.name.isStatic = true
  distinct : (sig.params.map Param.name).Nodup

mutual
def Stmt.Proper : Stmt → Prop
  | .command _ parts tail =>
    IsSegmented 0 parts tail ∧
      Bytes.trimRight isTrailing (Print.lineText parts tail) = Print.lineText parts tail
  | .cond _ test body other => test.Proper 2 ∧ Block.Proper body ∧ other.Proper
  | .assign _ target typing value declare =>
    target.Proper ∧ value.Proper 2 ∧ (target.isStatic = true → value.isStatic = true) ∧
      (typing ≠ .unknown → declare = true)
  | .define _ sig body =>
    sig.Proper ∧ Block.Proper body ∧ (sig.name.isStatic = true → body.all Stmt.isStatic = true)
  | .call _ n args =>
    n.Proper ∧ Expr.ProperAll args ∧ (n.isStatic = true → args.all Expr.isStatic = true)
  | .ret _ value => value.Proper 2
def Otherwise.Proper : Otherwise → Prop
  | .nothing => True
  | .block body => Block.Proper body
  | .cond _ test body other => test.Proper 2 ∧ Block.Proper body ∧ other.Proper
def Block.Proper : List Stmt → Prop
  | [] => True
  | s :: rest => s.Proper ∧ Block.Proper rest
end

/-- The lexemes of a name and of its annotation, if it has one. -/
def Param.lexemes (p : Param) : List Lexeme :=
  match p.typing with
  | .unknown => [.name p.name]
  | ty => [.name p.name, .mark .colon, .name (.ofStatic ty.render)]

theorem Param.lexemes_of_annotated (n : Name) {ty : Typing} (h : ty ≠ .unknown) :
    Param.lexemes ⟨n, ty⟩ = [.name n, .mark .colon, .name (.ofStatic ty.render)] := by
  cases ty with
  | unknown => exact absurd rfl h
  | _ => rfl

def Signature.lexemes (sig : Signature) : List Lexeme :=
  .name sig.name :: .mark .openParen :: Lexeme.enclosed (sig.params.map Param.lexemes)

mutual
def Stmt.lexemes : Stmt → List Lexeme
  | .command _ parts tail => [.command (Print.lineText parts tail)]
  | .cond _ test body other =>
    .keyword .ifWord :: (test.lexemes ++ .mark .openBrace :: (Block.lexemes body ++ other.lexemes))
  | .assign _ target typing value declare =>
    Param.lexemes ⟨target, typing⟩ ++
      .mark (if declare then .assign else .equals) :: (value.lexemes ++ [.mark .semicolon])
  | .define _ sig body =>
    .keyword .defWord ::
      (sig.lexemes ++ .mark .openBrace :: (Block.lexemes body ++ [.mark .closeBrace]))
  | .call _ n args =>
    .name n :: .mark .openParen :: (Lexeme.enclosed (Expr.lexemesAll args) ++ [.mark .semicolon])
  | .ret _ value => .keyword .returnWord :: (value.lexemes ++ [.mark .semicolon])
/-- What follows the block of a conditional, from the brace that closes the block. -/
def Otherwise.lexemes : Otherwise → List Lexeme
  | .nothing => [.mark .closeBrace]
  | .block body =>
    .mark .closeBrace :: .keyword .elseWord :: .mark .openBrace ::
      (Block.lexemes body ++ [.mark .closeBrace])
  | .cond _ test body other =>
    .mark .closeBrace :: .keyword .elseWord :: .keyword .ifWord ::
      (test.lexemes ++ .mark .openBrace :: (Block.lexemes body ++ other.lexemes))
def Block.lexemes : List Stmt → List Lexeme
  | [] => []
  | s :: rest => s.lexemes ++ Block.lexemes rest
end

end PackScript
