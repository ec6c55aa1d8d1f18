import PackScript.Proofs.Syntax.ExprReading
import PackScript.Proofs.Syntax.PrintedText

/-! # Command lines and their holes

A command that the grammar reads is segmented into plain stretches and holes with proper
static expressions, and the line printed from such segments is segmented in the same way.
-/
namespace PackScript.Grammar

variable {line text tail : Bytes} {parts : List (Bytes × Expr)} {span : Span}

/-! ## A single hole -/

theorem wholeExpr_eq_ok {s : TokenStream} {e : Expr} :
    wholeExpr s = .ok e ↔ seen (expr s.stop s.tokens) = some (e, []) := by
  rw [wholeExpr]
  cases expr s.stop s.tokens with
  | error f => simp [Bind.bind, Except.bind]
  | ok r =>
    simp only [Bind.bind, Except.bind, seen_ok]
    cases r.rest with
    | nil => simp [pure, Except.pure]
    | cons t rest => simp

theorem hole_proper {place : Span} {inside : Bytes} {e : Expr} (h : hole place inside = .ok e) :
    e.Proper 2 := by
  rw [hole] at h
  dsimp only at h
  split at h
  · cases h
  · rename_i tokens hscan
    split at h
    · cases h
    split at h
    · cases h
    · rename_i e' hwhole
      cases h
      exact (expr_proper (proper_of_scanFrom hscan) (wholeExpr_eq_ok.1 hwhole)).1

/-- A hole filled with a printed expression holds that expression. -/
theorem hole_print (place : Span) {e : Expr} (he : e.Proper 2) :
    ∃ e', hole place (Print.expr e) = .ok e' ∧ e'.bare = e.bare := by
  have hlexemes : lexemes? (Print.expr e) = some e.lexemes := by
    have hspells := he.spells [] (by intro b hb; cases hb)
    have hnil : lexemes? [] = some [] := lexemes?_of_drop_nil List.drop_nil
    rwa [List.append_nil, hnil, Option.map_some, List.append_nil] at hspells
  obtain ⟨tokens, hscan, hmap⟩ :=
    exists_tokens_of_lexemes? ⟨place.offset + 2, place.line, place.column + 2⟩ hlexemes
  have hnonempty : (TokenStream.ofTokens tokens).tokens.isEmpty = false := by
    obtain ⟨l, ls, hl, -⟩ := exists_head_lexeme e
    rw [hl] at hmap
    obtain ⟨span, rest, htokens, -⟩ := cons_of_lexemes hmap
    rw [htokens]
    rfl
  rw [← List.append_nil e.lexemes] at hmap
  obtain ⟨e', rest, hseen, he', hrest⟩ := expr_readsBack (TokenStream.ofTokens tokens).stop e he hmap
    ⟨by simp, by simp, by simp⟩
  rw [List.map_eq_nil_iff.1 hrest] at hseen
  refine ⟨e', ?_, he'⟩
  rw [hole]
  dsimp only
  rw [hscan]
  dsimp only
  rw [if_neg (by rw [hnonempty]; decide), wholeExpr_eq_ok.2 hseen]

/-! ## All the holes of a line -/

theorem holes_of_plain {before : Nat} (h : cut text = .plain tail) :
    holes span before text = .ok ([], tail) := by
  rw [holes]
  split
  · rename_i tail' hcut
    cases h.symm.trans hcut
    rfl
  · rename_i hcut
    cases h.symm.trans hcut
  · rename_i hcut
    cases h.symm.trans hcut

theorem holes_of_hole {before : Nat} {literal inside after : Bytes}
    (h : cut text = .hole literal inside after) :
    holes span before text = .ok (parts, tail) ↔
      ∃ e rest, hole (holeSpan span (before + literal.length) (inside.length + 3)) inside = .ok e ∧
        e.isStatic = true ∧
        holes span (before + literal.length + inside.length + 3) after = .ok (rest, tail) ∧
        parts = (literal, e) :: rest := by
  rw [holes]
  split
  · rename_i hcut
    cases h.symm.trans hcut
  · rename_i hcut
    cases h.symm.trans hcut
  · rename_i literal' inside' after' hcut
    cases h.symm.trans hcut
    dsimp only
    cases hole (holeSpan span (before + literal.length) (inside.length + 3)) inside with
    | error f => simp [Bind.bind, Except.bind]
    | ok e =>
      cases hs : e.isStatic with
      | false => simp [Bind.bind, Except.bind, hs]
      | true =>
        cases holes span (before + literal.length + inside.length + 3) after with
        | error f => simp [Bind.bind, Except.bind, hs]
        | ok r =>
          obtain ⟨rest, tail'⟩ := r
          simp only [Bind.bind, Except.bind, hs, Bool.not_true, Bool.false_eq_true, if_false, pure,
            Except.pure]
          constructor
          · intro hok
            cases hok
            exact ⟨e, rest, rfl, hs, rfl, rfl⟩
          · rintro ⟨e', rest', he, -, hrest, rfl⟩
            cases he
            cases hrest
            rfl

theorem holeText_inj {inside rest rest' : Bytes} :
    holeText inside rest = holeText inside rest' ↔ rest = rest' := by
  simp [holeText]

/-- What the holes of a line leave: proper segments, with the same end. -/
theorem holes_segmented {d before : Nat} (hline : IsLine d line)
    (h : holes span before line = .ok (parts, tail)) :
    IsSegmented d parts tail ∧ (Bytes.trimRight isTrailing line = line →
      Bytes.trimRight isTrailing (Print.lineText parts tail) = Print.lineText parts tail) := by
  induction hline generalizing before parts with
  | plain hs =>
    rw [holes_of_plain hs.cut] at h
    cases h
    exact ⟨.plain hs, id⟩
  | @hole d d' literal inside rest hl hin _ ih =>
    obtain ⟨e, rest', he, hstatic, hrest, rfl⟩ := (holes_of_hole (hl.cut_append_holeText hin rest)).1 h
    obtain ⟨hseg, htrim⟩ := ih hrest
    refine ⟨.hole hl (hole_proper he) hstatic hseg, fun ht => ?_⟩
    rw [trimRight_append_holeText] at ht
    rw [Print.lineText_cons, trimRight_append_holeText, htrim (holeText_inj.1 (List.append_cancel_left ht))]

theorem holes_print (span : Span) (before : Nat) {d : Nat} (h : IsSegmented d parts tail) :
    ∃ parts', holes span before (Print.lineText parts tail) = .ok (parts', tail) ∧
      Stmt.bareParts parts' = Stmt.bareParts parts := by
  induction h generalizing before with
  | plain hs => exact ⟨[], holes_of_plain hs.cut, rfl⟩
  | @hole d d' literal tail e parts hl he hstatic _ ih =>
    obtain ⟨e', hhole, hbare⟩ := hole_print
      (holeSpan span (before + literal.length) ((Print.expr e).length + 3)) he
    obtain ⟨parts', hparts, hbares⟩ := ih (before + literal.length + (Print.expr e).length + 3)
    refine ⟨(literal, e') :: parts', ?_, ?_⟩
    · rw [Print.lineText_cons, holes_of_hole (hl.cut_append_holeText he.isInside _)]
      exact ⟨e', parts', hhole, (Expr.isStatic_eq_of_bare hbare).trans hstatic, hparts, rfl⟩
    · simp only [Stmt.bareParts, List.map_cons, hbare] at hbares ⊢
      rw [hbares]

end PackScript.Grammar
