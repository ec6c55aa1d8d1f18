import PackScript.Program.Printer

/-! # Syntax without places

Two pieces of program are the same but for their places if they are equal once every span
is erased. Neither printing nor the distinction between static and dynamic looks at spans.
-/
namespace PackScript

mutual
def Expr.bare : Expr → Expr
  | .sum _ l r => .sum {} l.bare r.bare
  | .product _ l r => .product {} l.bare r.bare
  | .number _ i => .number {} i
  | .string _ s => .string {} s
  | .bool _ b => .bool {} b
  | .var _ n => .var {} n
  | .paren _ e => .paren {} e.bare
  | .call _ n args => .call {} n (Expr.bareAll args)
def Expr.bareAll : List Expr → List Expr
  | [] => []
  | e :: es => e.bare :: Expr.bareAll es
end

/-- The parts of a command line without the places of their holes. -/
def Stmt.bareParts (parts : List (Bytes × Expr)) : List (Bytes × Expr) :=
  parts.map fun p => (p.1, p.2.bare)

mutual
def Stmt.bare : Stmt → Stmt
  | .command _ parts tail => .command {} (Stmt.bareParts parts) tail
  | .cond _ test body other => .cond {} test.bare (Block.bare body) other.bare
  | .assign _ target typing value declare => .assign {} target typing value.bare declare
  | .define _ sig body => .define {} sig (Block.bare body)
  | .call _ n args => .call {} n (Expr.bareAll args)
  | .ret _ value => .ret {} value.bare
def Otherwise.bare : Otherwise → Otherwise
  | .nothing => .nothing
  | .block body => .block (Block.bare body)
  | .cond _ test body other => .cond {} test.bare (Block.bare body) other.bare
def Block.bare : List Stmt → List Stmt
  | [] => []
  | s :: rest => s.bare :: Block.bare rest
end

/-! ## Static and dynamic -/

@[simp] theorem Expr.isStatic_bare : (e : Expr) → e.bare.isStatic = e.isStatic
  | .sum _ l r => by simp only [bare, isStatic, isStatic_bare l, isStatic_bare r]
  | .product _ l r => by simp only [bare, isStatic, isStatic_bare l, isStatic_bare r]
  | .number .. => rfl
  | .string .. => rfl
  | .bool .. => rfl
  | .var .. => rfl
  | .paren _ e => by simp only [bare, isStatic, isStatic_bare e]
  | .call .. => rfl

theorem Expr.isStatic_eq_of_bare {e e' : Expr} (h : e'.bare = e.bare) : e'.isStatic = e.isStatic := by
  rw [← isStatic_bare e', h, isStatic_bare]

theorem Expr.all_isStatic_bareAll (es : List Expr) : (bareAll es).all isStatic = es.all isStatic := by
  induction es with
  | nil => rfl
  | cons e es ih => simp only [bareAll, List.all_cons, isStatic_bare, ih]

theorem Expr.all_isStatic_eq_of_bareAll {es fs : List Expr} (h : bareAll fs = bareAll es) :
    fs.all isStatic = es.all isStatic := by
  rw [← all_isStatic_bareAll fs, h, all_isStatic_bareAll]

mutual
@[simp] theorem Stmt.isStatic_bare : (s : Stmt) → s.bare.isStatic = s.isStatic
  | .command .. => rfl
  | .cond _ test body other => by
    simp only [Stmt.bare, Stmt.isStatic, Expr.isStatic_bare, Block.isStatic_bare body,
      Otherwise.isStatic_bare other]
  | .assign .. => rfl
  | .define .. => rfl
  | .call .. => rfl
  | .ret _ value => by simp only [Stmt.bare, Stmt.isStatic, Expr.isStatic_bare]
theorem Otherwise.isStatic_bare : (o : Otherwise) → o.bare.isStatic = o.isStatic
  | .nothing => rfl
  | .block body => by simp only [Otherwise.bare, Otherwise.isStatic, Block.isStatic_bare body]
  | .cond _ test body other => by
    simp only [Otherwise.bare, Otherwise.isStatic, Expr.isStatic_bare, Block.isStatic_bare body,
      Otherwise.isStatic_bare other]
theorem Block.isStatic_bare : (b : List Stmt) → Block.isStatic (Block.bare b) = Block.isStatic b
  | [] => rfl
  | s :: rest => by
    simp only [Block.bare, Block.isStatic, Stmt.isStatic_bare s, Block.isStatic_bare rest]
end

theorem Block.all_isStatic_bare : (b : List Stmt) → (Block.bare b).all Stmt.isStatic = b.all Stmt.isStatic
  | [] => rfl
  | s :: rest => by simp only [Block.bare, List.all_cons, Stmt.isStatic_bare, all_isStatic_bare rest]

/-! ## Printing -/

mutual
@[simp] theorem Print.expr_bare : (e : Expr) → Print.expr e.bare = Print.expr e
  | .sum _ l r => by simp only [Expr.bare, Print.expr, Print.expr_bare l, Print.expr_bare r]
  | .product _ l r => by simp only [Expr.bare, Print.expr, Print.expr_bare l, Print.expr_bare r]
  | .number .. => by simp only [Expr.bare, Print.expr]
  | .string .. => by simp only [Expr.bare, Print.expr]
  | .bool .. => by simp only [Expr.bare, Print.expr]
  | .var .. => by simp only [Expr.bare, Print.expr]
  | .paren _ e => by simp only [Expr.bare, Print.expr, Print.expr_bare e]
  | .call _ n args => by simp only [Expr.bare, Print.expr, Print.exprs_bareAll args]
theorem Print.exprs_bareAll : (es : List Expr) → Print.exprs (Expr.bareAll es) = Print.exprs es
  | [] => rfl
  | e :: es => by simp only [Expr.bareAll, Print.exprs, Print.expr_bare e, Print.exprs_bareAll es]
end

theorem Print.commandLine_bareParts (parts : List (Bytes × Expr)) (tail : Bytes) :
    Print.commandLine (Stmt.bareParts parts) tail = Print.commandLine parts tail := by
  have hpart (p : Bytes × Expr) : Print.part (p.1, p.2.bare) = Print.part p := by
    simp only [Print.part, Print.expr_bare]
  simp only [Print.commandLine, Stmt.bareParts, List.flatMap_map, hpart]

mutual
theorem Print.stmt_bare (level : Nat) : (s : Stmt) → Print.stmt level s.bare = Print.stmt level s
  | .command _ parts tail => by simp only [Stmt.bare, Print.stmt, Print.commandLine_bareParts]
  | .cond _ test body other => by
    simp only [Stmt.bare, Print.stmt, Print.expr_bare, Print.block_bare (level + 1) body,
      Print.otherwise_bare level other]
  | .assign .. => by simp only [Stmt.bare, Print.stmt, Print.expr_bare]
  | .define _ sig body => by simp only [Stmt.bare, Print.stmt, Print.block_bare (level + 1) body]
  | .call .. => by simp only [Stmt.bare, Print.stmt, Print.exprs_bareAll]
  | .ret .. => by simp only [Stmt.bare, Print.stmt, Print.expr_bare]
theorem Print.otherwise_bare (level : Nat) :
    (o : Otherwise) → Print.otherwise level o.bare = Print.otherwise level o
  | .nothing => rfl
  | .block body => by simp only [Otherwise.bare, Print.otherwise, Print.block_bare (level + 1) body]
  | .cond _ test body other => by
    simp only [Otherwise.bare, Print.otherwise, Print.expr_bare, Print.block_bare (level + 1) body,
      Print.otherwise_bare level other]
theorem Print.block_bare (level : Nat) :
    (b : List Stmt) → Print.block level (Block.bare b) = Print.block level b
  | [] => rfl
  | s :: rest => by
    simp only [Block.bare, Print.block, Print.stmt_bare level s, Print.block_bare level rest]
end

/-- Programs that differ in places only are printed alike. -/
theorem Program.print_eq_of_bare {p q : Program} (h : Block.bare p.body = Block.bare q.body) :
    p.print = q.print := by
  have hblock : Print.block 0 p.body = Print.block 0 q.body := by
    rw [← Print.block_bare 0 p.body, h, Print.block_bare]
  rw [Program.print, Program.print, hblock]

end PackScript
