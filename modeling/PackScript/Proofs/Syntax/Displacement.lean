import PackScript.Proofs.Syntax.StmtDerivation

/-! # Displaced texts

A text that stands further down in a longer one is cut into the same lexemes and derives the
same tree, but every place in it has moved by as many bytes and lines. Lengths stay as they
are, and so do columns as long as the text starts at the beginning of a line.
-/
namespace PackScript

/-- How many bytes and how many lines a text has moved. -/
structure Displacement where
  offset : Int64
  line : Int64
deriving DecidableEq, Repr

def Span.moved (d : Displacement) (s : Span) : Span :=
  { s with offset := s.offset + d.offset, line := s.line + d.line }

def Cursor.moved (d : Displacement) (c : Cursor) : Cursor :=
  { c with offset := c.offset + d.offset, line := c.line + d.line }

def Token.moved (d : Displacement) (t : Token) : Token := { t with span := t.span.moved d }

mutual
def Expr.moved (d : Displacement) : Expr → Expr
  | .sum s l r => .sum (s.moved d) (l.moved d) (r.moved d)
  | .product s l r => .product (s.moved d) (l.moved d) (r.moved d)
  | .number s i => .number (s.moved d) i
  | .string s t => .string (s.moved d) t
  | .bool s b => .bool (s.moved d) b
  | .var s n => .var (s.moved d) n
  | .paren s e => .paren (s.moved d) (e.moved d)
  | .call s n args => .call (s.moved d) n (Expr.movedAll d args)
def Expr.movedAll (d : Displacement) : List Expr → List Expr
  | [] => []
  | e :: es => e.moved d :: Expr.movedAll d es
end

/-- The parts of a command line, with their holes moved. -/
def Stmt.movedParts (d : Displacement) (parts : List (Bytes × Expr)) : List (Bytes × Expr) :=
  parts.map fun p => (p.1, p.2.moved d)

mutual
def Stmt.moved (d : Displacement) : Stmt → Stmt
  | .command s parts tail => .command (s.moved d) (Stmt.movedParts d parts) tail
  | .cond s test body other => .cond (s.moved d) (test.moved d) (Block.moved d body) (other.moved d)
  | .assign s target typing value declare => .assign (s.moved d) target typing (value.moved d) declare
  | .define s sig body => .define (s.moved d) sig (Block.moved d body)
  | .call s n args => .call (s.moved d) n (Expr.movedAll d args)
  | .ret s value => .ret (s.moved d) (value.moved d)
def Otherwise.moved (d : Displacement) : Otherwise → Otherwise
  | .nothing => .nothing
  | .block body => .block (Block.moved d body)
  | .cond s test body other => .cond (s.moved d) (test.moved d) (Block.moved d body) (other.moved d)
def Block.moved (d : Displacement) : List Stmt → List Stmt
  | [] => []
  | s :: rest => s.moved d :: Block.moved d rest
end

variable (d : Displacement)

theorem Expr.movedAll_eq_map (es : List Expr) : movedAll d es = es.map (moved d) := by
  induction es with
  | nil => rfl
  | cons e es ih => rw [movedAll, ih, List.map_cons]

theorem Block.moved_eq_map (b : Block) : Block.moved d b = b.map (Stmt.moved d) := by
  induction b with
  | nil => rfl
  | cons s b ih => rw [Block.moved, ih, List.map_cons]

/-! ## Static and dynamic -/

theorem Expr.isStatic_moved (e : Expr) : (e.moved d).isStatic = e.isStatic := by
  fun_induction isStatic e with
  | case1 _ l r ihl ihr => rw [moved, isStatic, ihl, ihr]
  | case2 _ l r ihl ihr => rw [moved, isStatic, ihl, ihr]
  | case7 _ e ih => rw [moved, isStatic, ih]
  | _ => rfl

mutual
theorem Stmt.isStatic_moved : (s : Stmt) → (s.moved d).isStatic = s.isStatic
  | .command .. => rfl
  | .cond _ test body other => by
    rw [Stmt.moved, Stmt.isStatic, Stmt.isStatic, Expr.isStatic_moved, Block.isStatic_moved body,
      Otherwise.isStatic_moved other]
  | .assign .. => rfl
  | .define .. => rfl
  | .call .. => rfl
  | .ret _ value => by rw [Stmt.moved, Stmt.isStatic, Stmt.isStatic, Expr.isStatic_moved]
theorem Otherwise.isStatic_moved : (o : Otherwise) → (o.moved d).isStatic = o.isStatic
  | .nothing => rfl
  | .block body => by rw [Otherwise.moved, Otherwise.isStatic, Otherwise.isStatic, Block.isStatic_moved body]
  | .cond _ test body other => by
    rw [Otherwise.moved, Otherwise.isStatic, Otherwise.isStatic, Expr.isStatic_moved,
      Block.isStatic_moved body, Otherwise.isStatic_moved other]
theorem Block.isStatic_moved : (b : List Stmt) → Block.isStatic (Block.moved d b) = Block.isStatic b
  | [] => rfl
  | s :: rest => by
    rw [Block.moved, Block.isStatic, Block.isStatic, Stmt.isStatic_moved s, Block.isStatic_moved rest]
end

/-! ## Tokens -/

theorem Cursor.step_moved (c : Cursor) (b : UInt8) : (c.moved d).step b = (c.step b).moved d := by
  by_cases hb : b = Bytes.newline
  · rw [step, if_pos hb, step, if_pos hb, moved, moved]
    dsimp only
    rw [Int64.add_assoc, Int64.add_comm d.offset, ← Int64.add_assoc, Int64.add_assoc c.line,
      Int64.add_comm d.line, ← Int64.add_assoc]
  · rw [step, if_neg hb, step, if_neg hb, moved, moved]
    dsimp only
    rw [Int64.add_assoc, Int64.add_comm d.offset, ← Int64.add_assoc]

theorem Cursor.past_moved (c : Cursor) (t : Bytes) : (c.moved d).past t = (c.past t).moved d := by
  induction t generalizing c with
  | nil => rfl
  | cons b t ih => rw [past_cons, step_moved, ih, past_cons]

theorem Span.through_moved (s t : Span) : (s.moved d).through (t.moved d) = (s.through t).moved d := by
  have hlength : t.offset + d.offset + t.length - (s.offset + d.offset) =
      t.offset + t.length - s.offset := by
    grind
  rw [through, stop, through, stop, moved, moved, moved]
  dsimp only
  rw [hlength]

theorem Token.extent_moved {toks : List Token} (h : toks ≠ []) :
    extent (toks.map (moved d)) = (extent toks).moved d := by
  obtain ⟨first, toks, rfl⟩ := List.exists_cons_of_ne_nil h
  rcases toks.eq_nil_or_concat with rfl | ⟨toks, last, rfl⟩
  · exact Span.through_moved d first.span first.span
  · rw [List.concat_eq_append, List.map_cons, List.map_append, List.map_singleton, extent_concat,
      extent_concat]
    exact Span.through_moved d first.span last.span

theorem TokenStream.tokens_moved (toks : List Token) :
    (ofTokens (toks.map (Token.moved d))).tokens = (ofTokens toks).tokens.map (Token.moved d) :=
  List.takeWhile_map

/-- The end of a list of tokens moves with it, if it has one. -/
theorem TokenStream.stop_moved {toks : List Token} {tok : Token} (hmem : tok ∈ toks)
    (hend : tok.lexeme = .endMarker) :
    (ofTokens (toks.map (Token.moved d))).stop = (ofTokens toks).stop.moved d := by
  have hmap : (toks.map (Token.moved d)).find? (fun t => t.lexeme = .endMarker) =
      (toks.find? fun t => t.lexeme = .endMarker).map (Token.moved d) := List.find?_map
  rw [ofTokens, ofTokens, hmap]
  cases hfind : toks.find? fun t => t.lexeme = .endMarker with
  | none => exact absurd (decide_eq_true hend) (List.find?_eq_none.1 hfind tok hmem)
  | some last => rfl

theorem scanFrom_of_drop_nil (c : Cursor) {t : Bytes} (h : t.drop (skipLength t) = []) :
    scanFrom c t =
      { tokens := [⟨.endMarker, (c.past (t.take (skipLength t))).span 0⟩]
        reached := c.past (t.take (skipLength t))
        fault := none } := by
  rw [scanFrom]
  split
  · rfl
  · rename_i b rest hdrop
    rw [h] at hdrop
    cases hdrop

theorem scanFrom_of_drop_cons (c : Cursor) {t rest : Bytes} {b : UInt8}
    (h : t.drop (skipLength t) = b :: rest) :
    scanFrom c t = match scan b rest with
      | .token lexeme length more =>
        (scanFrom ((c.past (t.take (skipLength t))).past (b :: rest.take more)) (rest.drop more)).cons
          ⟨lexeme, (c.past (t.take (skipLength t))).span length⟩
      | .fault cause start length more =>
        { tokens := []
          reached := (c.past (t.take (skipLength t))).past (b :: rest.take more)
          fault := some {
            cause
            span := ((c.past (t.take (skipLength t))).past ((b :: rest).take start)).span length
            incomplete := rest.length ≤ more } } := by
  rw [scanFrom]
  split
  · rename_i hdrop
    rw [h] at hdrop
    cases hdrop
  · rename_i b' rest' hdrop
    rw [h] at hdrop
    cases hdrop
    rfl

/-- The tokens of a text move with it. -/
theorem scanFrom_moved {c : Cursor} {t : Bytes} {toks : List Token}
    (h : (scanFrom c t).result = .ok toks) :
    (scanFrom (c.moved d) t).result = .ok (toks.map (Token.moved d)) := by
  fun_induction scanFrom c t generalizing toks with
  | case1 c t here =>
    rename_i hdrop
    cases h
    rw [scanFrom_of_drop_nil _ hdrop, Cursor.past_moved]
    rfl
  | case2 c t here b rest hdrop lexeme length more hscan =>
    rename_i ih
    rw [Scanned.result_cons] at h
    cases hrest : (scanFrom (here.past (b :: rest.take more)) (rest.drop more)).result with
    | error f =>
      rw [hrest] at h
      cases h
    | ok us =>
      rw [hrest] at h
      cases h
      rw [scanFrom_of_drop_cons _ hdrop, hscan]
      dsimp only
      rw [Scanned.result_cons, Cursor.past_moved, Cursor.past_moved, ih hrest]
      rfl
  | case3 => cases h

/-! ## Derivations -/

namespace Grammar

variable {toks : List Token} {span : Span}

theorem Separated.moved {items : List (List Token)} (h : Separated items toks) :
    Separated (items.map (List.map (Token.moved d))) (toks.map (Token.moved d)) := by
  induction h with
  | none => exact .none
  | one item => exact .one _
  | more item span h ih =>
    rw [List.map_append]
    exact .more _ (span.moved d) ih

/-- An item of a list, moved together with the tokens that it is read from. -/
def movedItem {α : Type} (f : α → α) (item : List Token × α) : List Token × α :=
  (item.1.map (Token.moved d), f item.2)

theorem Separated.map_movedItem {α : Type} {items : List (List Token × α)}
    (h : Separated (items.map Prod.fst) toks) (f : α → α) :
    Separated ((items.map (movedItem d f)).map Prod.fst) (toks.map (Token.moved d)) := by
  have hfst : (items.map (movedItem d f)).map Prod.fst =
      (items.map Prod.fst).map (List.map (Token.moved d)) := by
    rw [List.map_map, List.map_map]
    rfl
  rw [hfst]
  exact h.moved d

theorem map_snd_movedItem {α : Type} (f : α → α) (items : List (List Token × α)) :
    (items.map (movedItem d f)).map Prod.snd = (items.map Prod.snd).map f := by
  rw [List.map_map, List.map_map]
  rfl

theorem IsCall.ne_nil {n : Name} {es : List Expr} (h : IsCall toks n es) : toks ≠ [] := by
  cases h
  exact List.cons_ne_nil _ _

mutual
theorem IsExpr.moved {toks : List Token} {e : Expr} :
    IsExpr toks e → IsExpr (toks.map (Token.moved d)) (e.moved d)
  | .summand h => .summand h.moved
  | .sum hl hr => by
    rw [Expr.moved, ← Token.extent_moved d (by simp), List.map_append]
    exact .sum hl.moved hr.moved
theorem IsSummand.moved {toks : List Token} {e : Expr} :
    IsSummand toks e → IsSummand (toks.map (Token.moved d)) (e.moved d)
  | .term h => .term h.moved
  | .product hl hr => by
    rw [Expr.moved, ← Token.extent_moved d (by simp), List.map_append]
    exact .product hl.moved hr.moved
theorem IsTerm.moved {toks : List Token} {e : Expr} :
    IsTerm toks e → IsTerm (toks.map (Token.moved d)) (e.moved d)
  | .number hd hmax => .number hd hmax
  | .string => .string
  | .trueWord => .trueWord
  | .falseWord => .falseWord
  | .var => .var
  | .call h => by
    rw [Expr.moved, ← Token.extent_moved d h.ne_nil]
    exact .call h.moved
  | .paren h => by
    rw [Expr.moved, ← Token.extent_moved d (by simp), List.map_cons, List.map_append]
    exact .paren h.moved
theorem IsCall.moved {toks : List Token} {n : Name} {es : List Expr} :
    IsCall toks n es → IsCall (toks.map (Token.moved d)) n (Expr.movedAll d es)
  | @IsCall.call n span paren close inner items hsep hitems hstatic => by
    have hitems' : ∀ item ∈ items.map (movedItem d (Expr.moved d)), IsExpr item.1 item.2 := by
      intro item hitem
      obtain ⟨it, hit, rfl⟩ := List.mem_map.1 hitem
      exact (hitems it hit).moved
    have hstatic' : n.isStatic = true →
        ∀ item ∈ items.map (movedItem d (Expr.moved d)), item.2.isStatic = true := by
      intro hn item hitem
      obtain ⟨it, hit, rfl⟩ := List.mem_map.1 hitem
      exact (Expr.isStatic_moved d it.2).trans (hstatic hn it hit)
    rw [Expr.movedAll_eq_map, ← map_snd_movedItem, List.map_cons, List.map_cons, List.map_append]
    exact .call (hsep.map_movedItem d _) hitems' hstatic'
end

theorem holeStart_moved (span : Span) (before : Nat) :
    holeStart (span.moved d) before = (holeStart span before).moved d := by
  have hoffset : span.offset + d.offset + .ofNat before + 2 =
      span.offset + .ofNat before + 2 + d.offset := by
    grind
  rw [holeStart, holeStart, Span.moved, Cursor.moved]
  dsimp only
  rw [hoffset]

theorem IsInterpolated.moved {before : Nat} {line tail : Bytes} {parts : List (Bytes × Expr)}
    (h : IsInterpolated span before line parts tail) :
    IsInterpolated (span.moved d) before line (Stmt.movedParts d parts) tail := by
  induction h with
  | plain h => exact .plain h
  | hole hl hin hscan he hs h ih =>
    have hscan' := scanFrom_moved d hscan
    rw [← holeStart_moved] at hscan'
    have he' := he.moved d
    rw [← TokenStream.tokens_moved] at he'
    exact .hole hl hin hscan' he' ((Expr.isStatic_moved d _).trans hs) ih

theorem IsType.moved {t : Token} {ty : Typing} (h : IsType t ty) : IsType (t.moved d) ty := by
  cases h with
  | int => exact .int
  | string => exact .string
  | bool => exact .bool

theorem IsParam.moved {p : Param} (h : IsParam toks p) : IsParam (toks.map (Token.moved d)) p := by
  cases h with
  | plain => exact .plain
  | typed h => exact .typed (h.moved d)

theorem IsSignature.moved {sig : Signature} (h : IsSignature toks sig) :
    IsSignature (toks.map (Token.moved d)) sig := by
  cases h with
  | @named n span paren close inner items hsep hitems hdistinct hstatic =>
    have hparams : (items.map (movedItem d id)).map Prod.snd = items.map Prod.snd := by
      rw [map_snd_movedItem, List.map_id]
    have hitems' : ∀ item ∈ items.map (movedItem d id), IsParam item.1 item.2 := by
      intro item hitem
      obtain ⟨it, hit, rfl⟩ := List.mem_map.1 hitem
      exact (hitems it hit).moved d
    have hstatic' : n.isStatic = true →
        ∀ item ∈ items.map (movedItem d id), item.2.name.isStatic = true := by
      intro hn item hitem
      obtain ⟨it, hit, rfl⟩ := List.mem_map.1 hitem
      exact hstatic hn it hit
    rw [← hparams] at hdistinct ⊢
    rw [List.map_cons, List.map_cons, List.map_append]
    exact .named (hsep.map_movedItem d id) hitems' hdistinct hstatic'

theorem IsConditional.ne_nil {test : Expr} {body : Block} {other : Otherwise}
    (h : IsConditional toks test body other) : toks ≠ [] := by
  cases h <;> exact List.cons_ne_nil _ _

mutual
theorem IsStmt.moved {toks : List Token} {s : Stmt} :
    IsStmt toks s → IsStmt (toks.map (Token.moved d)) (s.moved d)
  | .command h => .command (h.moved d)
  | .cond h => by
    rw [Stmt.moved, ← Token.extent_moved d h.ne_nil]
    exact .cond h.moved
  | .define hsig hbody hstatic => by
    rw [Stmt.moved, ← Token.extent_moved d (by simp), List.map_cons, List.map_append]
    refine .define (hsig.moved d) hbody.moved fun hs s hmem => ?_
    rw [Block.moved_eq_map] at hmem
    obtain ⟨s', hs', rfl⟩ := List.mem_map.1 hmem
    rw [Stmt.isStatic_moved]
    exact hstatic hs s' hs'
  | .ret h => by
    rw [Stmt.moved, ← Token.extent_moved d (by simp), List.map_cons, List.map_append]
    exact .ret (h.moved d)
  | .declare ht h hstatic => by
    rw [Stmt.moved, ← Token.extent_moved d (by simp), List.map_append, List.map_cons, List.map_append]
    exact .declare (ht.moved d) (h.moved d) fun hs => (Expr.isStatic_moved d _).trans (hstatic hs)
  | .assign h hstatic => by
    rw [Stmt.moved, ← Token.extent_moved d (by simp), List.map_cons, List.map_cons, List.map_append]
    exact .assign (h.moved d) fun hs => (Expr.isStatic_moved d _).trans (hstatic hs)
  | .call h => by
    rw [Stmt.moved, ← Token.extent_moved d (by simp), List.map_append]
    exact .call (h.moved d)
theorem IsConditional.moved {toks : List Token} {test : Expr} {body : Block} {other : Otherwise} :
    IsConditional toks test body other →
      IsConditional (toks.map (Token.moved d)) (test.moved d) (Block.moved d body) (other.moved d)
  | .plain ht hb => by
    rw [List.map_cons, List.map_append]
    exact .plain (ht.moved d) hb.moved
  | .final ht hb hf => by
    rw [List.map_cons, List.map_append, List.map_append]
    exact .final (ht.moved d) hb.moved hf.moved
  | .chain ht hb hn => by
    rw [Otherwise.moved, ← Token.extent_moved d hn.ne_nil, List.map_cons, List.map_append, List.map_append]
    exact .chain (ht.moved d) hb.moved hn.moved
theorem IsBlock.moved {toks : List Token} {b : Block} :
    IsBlock toks b → IsBlock (toks.map (Token.moved d)) (Block.moved d b)
  | .block h => by
    rw [List.map_cons, List.map_append]
    exact .block h.moved
theorem IsStmts.moved {toks : List Token} {b : Block} :
    IsStmts toks b → IsStmts (toks.map (Token.moved d)) (Block.moved d b)
  | .nil => .nil
  | .cons hs h => by
    rw [List.map_append]
    exact .cons hs.moved h.moved
end

end Grammar
end PackScript
