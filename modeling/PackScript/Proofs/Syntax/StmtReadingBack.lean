import PackScript.Proofs.Syntax.StmtReading

/-! # Reading statements back

From the lexemes of a proper block the grammar reads that block again. A conditional without
a final block is read to its end only if no `else` follows, and no statement starts with one.
-/
namespace PackScript.Grammar

variable {toks : List Token} {ls : List Lexeme}

theorem assigned_readsBack (stop start : Span) {target : Name} (ty : Typing) {value : Expr} (declare : Bool)
    (hvalue : value.Proper 2) (hstatic : target.isStatic = true → value.isStatic = true)
    (htoks : toks.map Token.lexeme = value.lexemes ++ .mark .semicolon :: ls) :
    ReadsBack (assigned stop start target ty declare toks)
      (fun s => s.bare = .assign {} target ty value.bare declare) ls := by
  obtain ⟨value', mid, hseen, hvalue', hmid⟩ :=
    expr_readsBack stop value hvalue htoks ⟨by simp, by simp, by simp⟩
  obtain ⟨semi, rest, rfl, hrest⟩ := cons_of_lexemes hmid
  have hstatic' : target.isStatic = true → value'.isStatic = true := by
    rw [Expr.isStatic_eq_of_bare hvalue']
    exact hstatic
  refine ⟨.assign (start.through semi) target ty value' declare, rest, ?_, ?_, hrest⟩
  · rw [seen_assigned, show seen (expr stop toks) = _ from hseen, Option.bind_some, seen_expect_mark,
      Option.bind_some]
    dsimp only
    rw [if_pos hstatic']
  · simp only [Stmt.bare, hvalue']

theorem stmt_assign_readsBack (stop : Span) {target : Name} {ty : Typing} {value : Expr} {declare : Bool}
    (hvalue : value.Proper 2) (hstatic : target.isStatic = true → value.isStatic = true)
    (hty : ty ≠ .unknown → declare = true)
    (htoks : toks.map Token.lexeme = Param.lexemes ⟨target, ty⟩ ++
      .mark (if declare then .assign else .equals) :: (value.lexemes ++ .mark .semicolon :: ls)) :
    ReadsBack (stmt stop toks) (fun s => s.bare = .assign {} target ty value.bare declare) ls := by
  by_cases hunknown : ty = .unknown
  · subst hunknown
    obtain ⟨span, tail, rfl, htail⟩ := cons_of_lexemes htoks
    obtain ⟨span', after, rfl, hafter⟩ := cons_of_lexemes htail
    cases declare with
    | false =>
      exact .of_seen (seen_stmt_assigned stop span target after)
        (assigned_readsBack stop span .unknown false hvalue hstatic hafter)
    | true =>
      exact .of_seen (seen_stmt_declared stop span target after)
        (assigned_readsBack stop span .unknown true hvalue hstatic hafter)
  · rw [Param.lexemes_of_annotated target hunknown, hty hunknown, if_pos rfl] at htoks
    obtain ⟨span, tail, rfl, htail⟩ := cons_of_lexemes htoks
    obtain ⟨span', after, rfl, hafter⟩ := cons_of_lexemes htail
    obtain ⟨ty', mid, hseen, rfl, hmid⟩ := typing_readsBack stop hunknown hafter
    obtain ⟨op, after', rfl, hafter'⟩ := cons_of_lexemes hmid
    have hstmt : seen (stmt stop (⟨.name target, span⟩ :: ⟨.mark .colon, span'⟩ :: after)) =
        seen (assigned stop span target ty' true after') := by
      rw [seen_stmt_annotated, seen_annotatedAssignment, hseen, Option.bind_some, seen_expect_mark,
        Option.bind_some]
    rw [hty hunknown]
    exact .of_seen hstmt (assigned_readsBack stop span ty' true hvalue hstatic hafter')

/-- The tokens of a test and of the block behind it. -/
theorem test_readsBack (stop : Span) {test : Expr} {body : List Stmt} (htest : test.Proper 2)
    (hbody : ∀ {toks : List Token} {ls : List Lexeme},
      toks.map Token.lexeme = Block.lexemes body ++ .mark .closeBrace :: ls →
      ReadsBack (statements stop toks) (fun p => Block.bare p.1 = Block.bare body) ls)
    (htoks : toks.map Token.lexeme =
      test.lexemes ++ .mark .openBrace :: (Block.lexemes body ++ .mark .closeBrace :: ls)) :
    ∃ test' mid body' close tail, seen (expr stop toks) = some (test', mid) ∧
      seen (block stop mid) = some ((body', close), tail) ∧ test'.bare = test.bare ∧
      Block.bare body' = Block.bare body ∧ tail.map Token.lexeme = ls := by
  obtain ⟨test', mid, hseen, htest', hmid⟩ :=
    expr_readsBack stop test htest htoks ⟨by simp, by simp, by simp⟩
  obtain ⟨span, after, rfl, hafter⟩ := cons_of_lexemes hmid
  obtain ⟨⟨body', close⟩, tail, hstatements, hbody', htail⟩ := hbody hafter
  exact ⟨test', _, body', close, tail, hseen, (seen_block stop span after).trans hstatements, htest',
    hbody', htail⟩

theorem continuation_of_lexemes (h : toks.map Token.lexeme = ls)
    (hls : ls.head? ≠ some (.keyword .elseWord)) : continuation toks = .nothing := by
  have hnot : ∀ span after, toks = ⟨.keyword .elseWord, span⟩ :: after → False := by
    rintro span after rfl
    exact hls (by rw [← h]; rfl)
  rw [continuation]
  · intro span span' after heq
    exact hnot _ _ heq
  · exact hnot

theorem exists_head_of_stmt (s : Stmt) :
    ∃ l ms, s.lexemes = l :: ms ∧ l ≠ .mark .closeBrace ∧ l ≠ .keyword .elseWord := by
  cases s with
  | assign _ target ty value declare =>
    have hhead : ∃ ms, Param.lexemes ⟨target, ty⟩ = .name target :: ms := by
      cases ty <;> exact ⟨_, rfl⟩
    obtain ⟨ms, hms⟩ := hhead
    rw [Stmt.lexemes, hms]
    exact ⟨_, _, rfl, by simp, by simp⟩
  | _ => exact ⟨_, _, by rw [Stmt.lexemes], by simp, by simp⟩

theorem head?_block (b : List Stmt) {l : Lexeme} (hl : l ≠ .keyword .elseWord) :
    (Block.lexemes b ++ l :: ls).head? ≠ some (.keyword .elseWord) := by
  cases b with
  | nil => simpa [Block.lexemes] using hl
  | cons s rest =>
    obtain ⟨m, ms, hs, -, hne⟩ := exists_head_of_stmt s
    simpa [Block.lexemes, hs] using hne

mutual
/-- From the lexemes of a proper statement, the grammar reads that statement. -/
theorem stmt_readsBack (stop : Span) : (s : Stmt) → s.Proper → {toks : List Token} → {ls : List Lexeme} →
    toks.map Token.lexeme = s.lexemes ++ ls → ls.head? ≠ some (.keyword .elseWord) →
    ReadsBack (stmt stop toks) (fun s' => s'.bare = s.bare) ls
  | .command _ parts tail, h, toks, ls, htoks, _ => by
    rw [Stmt.lexemes, List.singleton_append] at htoks
    obtain ⟨span, rest, rfl, hrest⟩ := cons_of_lexemes htoks
    obtain ⟨parts', hparts, hbare⟩ := holes_print span 1 h.1
    refine ⟨.command span parts' tail, rest, ?_, ?_, hrest⟩
    · rw [seen_stmt_command, command, hparts]
      rfl
    · simp only [Stmt.bare, hbare]
  | .cond _ test body other, h, toks, ls, htoks, hls => by
    rw [Stmt.lexemes, List.cons_append, List.append_assoc, List.cons_append, List.append_assoc] at htoks
    obtain ⟨span, tail, rfl, htail⟩ := cons_of_lexemes htoks
    obtain ⟨b, rest, hseen, ⟨htest, hbody, hother⟩, hrest⟩ := branching_readsBack stop other h.2.2 h.1
      (fun hb => statements_readsBack stop body h.2.1 hb) htail hls
    refine ⟨.cond (span.through b.last) b.test b.body b.other, rest, ?_, ?_, hrest⟩
    · rw [seen_stmt_cond, hseen, Option.map_some]
    · simp only [Stmt.bare, htest, hbody, hother]
  | .assign _ target ty value declare, h, toks, ls, htoks, _ => by
    rw [Stmt.lexemes, List.append_assoc, List.cons_append, List.append_assoc,
      List.singleton_append] at htoks
    have hback := stmt_assign_readsBack stop h.2.1 h.2.2.1 h.2.2.2 htoks
    simpa only [Stmt.bare] using hback
  | .define _ sig body, h, toks, ls, htoks, _ => by
    rw [Stmt.lexemes, List.cons_append, List.append_assoc, List.cons_append, List.append_assoc,
      List.singleton_append] at htoks
    obtain ⟨span, tail, rfl, htail⟩ := cons_of_lexemes htoks
    obtain ⟨sig', mid, hsig, rfl, hmid⟩ := signature_readsBack stop h.1 htail
    obtain ⟨span', after, rfl, hafter⟩ := cons_of_lexemes hmid
    obtain ⟨⟨body', close⟩, rest, hbody, hbody', hrest⟩ := statements_readsBack stop body h.2.1 hafter
    have hstatic : sig'.name.isStatic = true → body'.all Stmt.isStatic = true := by
      rw [← Block.all_isStatic_bare, hbody', Block.all_isStatic_bare]
      exact h.2.2
    refine ⟨.define (span.through close) sig' body', rest, ?_, ?_, hrest⟩
    · rw [seen_stmt_define, hsig, Option.bind_some, seen_block, hbody, Option.bind_some]
      dsimp only
      rw [if_pos hstatic]
    · simp only [Stmt.bare, hbody']
  | .call _ n es, h, toks, ls, htoks, _ => by
    rw [Stmt.lexemes, List.cons_append, List.cons_append, List.append_assoc,
      List.singleton_append] at htoks
    obtain ⟨span, tail, rfl, htail⟩ := cons_of_lexemes htoks
    obtain ⟨span', after, rfl, hafter⟩ := cons_of_lexemes htail
    obtain ⟨⟨es', close⟩, mid, hes, hes', hmid⟩ := args_readsBack stop es h.2.1 hafter
    obtain ⟨semi, rest, rfl, hrest⟩ := cons_of_lexemes hmid
    have hstatic : n.isStatic = true → es'.all Expr.isStatic = true := by
      rw [Expr.all_isStatic_eq_of_bareAll hes']
      exact h.2.2
    refine ⟨.call (span.through semi) n es', rest, ?_, ?_, hrest⟩
    · rw [seen_stmt_call, hes, Option.bind_some]
      dsimp only
      rw [if_pos hstatic, seen_expect_mark, Option.map_some]
    · simp only [Stmt.bare, hes']
  | .ret _ value, h, toks, ls, htoks, _ => by
    have hvalue : value.Proper 2 := h
    rw [Stmt.lexemes, List.cons_append, List.append_assoc, List.singleton_append] at htoks
    obtain ⟨span, tail, rfl, htail⟩ := cons_of_lexemes htoks
    obtain ⟨value', mid, hseen, hvalue', hmid⟩ :=
      expr_readsBack stop value hvalue htail ⟨by simp, by simp, by simp⟩
    obtain ⟨semi, rest, rfl, hrest⟩ := cons_of_lexemes hmid
    refine ⟨.ret (span.through semi) value', rest, ?_, ?_, hrest⟩
    · rw [seen_stmt_ret, show seen (expr stop tail) = _ from hseen, Option.bind_some, seen_expect_mark,
        Option.map_some]
    · simp only [Stmt.bare, hvalue']
/-- The same for a conditional behind its keyword, by what comes after its block. -/
theorem branching_readsBack (stop : Span) : (o : Otherwise) → o.Proper → {test : Expr} →
    {body : List Stmt} → test.Proper 2 →
    (∀ {toks : List Token} {ls : List Lexeme},
      toks.map Token.lexeme = Block.lexemes body ++ .mark .closeBrace :: ls →
      ReadsBack (statements stop toks) (fun p => Block.bare p.1 = Block.bare body) ls) →
    {toks : List Token} → {ls : List Lexeme} →
    toks.map Token.lexeme =
      test.lexemes ++ .mark .openBrace :: (Block.lexemes body ++ (o.lexemes ++ ls)) →
    ls.head? ≠ some (.keyword .elseWord) →
    ReadsBack (branching stop toks) (fun b => b.test.bare = test.bare ∧
      Block.bare b.body = Block.bare body ∧ b.other.bare = o.bare) ls
  | .nothing, _, test, body, htest, hbody, toks, ls, htoks, hls => by
    rw [Otherwise.lexemes, List.singleton_append] at htoks
    obtain ⟨test', mid, body', close, tail, hseen, hblock, htest', hbody', htail⟩ :=
      test_readsBack stop htest hbody htoks
    refine ⟨⟨test', body', .nothing, close⟩, tail, ?_, ⟨htest', hbody', rfl⟩, htail⟩
    rw [seen_branching, hseen, Option.bind_some, hblock, Option.bind_some]
    dsimp only
    rw [continuation_of_lexemes htail hls]
  | .block final, h, test, body, htest, hbody, toks, ls, htoks, hls => by
    have hfinal : Block.Proper final := h
    rw [Otherwise.lexemes, List.cons_append, List.cons_append, List.cons_append, List.append_assoc,
      List.singleton_append] at htoks
    obtain ⟨test', mid, body', close, tail, hseen, hblock, htest', hbody', htail⟩ :=
      test_readsBack stop htest hbody htoks
    obtain ⟨other, after, rfl, hafter⟩ := cons_of_lexemes htail
    obtain ⟨brace, inner, rfl, hinner⟩ := cons_of_lexemes hafter
    obtain ⟨⟨final', close'⟩, rest, hfin, hfinal', hrest⟩ := statements_readsBack stop final hfinal hinner
    refine ⟨⟨test', body', .block final', close'⟩, rest, ?_, ⟨htest', hbody', ?_⟩, hrest⟩
    · rw [seen_branching, hseen, Option.bind_some, hblock, Option.bind_some]
      change (seen (block stop (⟨.mark .openBrace, brace⟩ :: inner))).map _ = _
      rw [seen_block, hfin, Option.map_some]
    · simp only [Otherwise.bare, hfinal']
  | .cond _ next inner other, h, test, body, htest, hbody, toks, ls, htoks, hls => by
    rw [Otherwise.lexemes, List.cons_append, List.cons_append, List.cons_append, List.append_assoc,
      List.cons_append, List.append_assoc] at htoks
    obtain ⟨test', mid, body', close, tail, hseen, hblock, htest', hbody', htail⟩ :=
      test_readsBack stop htest hbody htoks
    obtain ⟨elsewhere, after, rfl, hafter⟩ := cons_of_lexemes htail
    obtain ⟨span, rest, rfl, hrest⟩ := cons_of_lexemes hafter
    obtain ⟨b, left, hb, ⟨hnext, hinner, hother⟩, hleft⟩ := branching_readsBack stop other h.2.2 h.1
      (fun hb => statements_readsBack stop inner h.2.1 hb) hrest hls
    refine ⟨⟨test', body', .cond (span.through b.last) b.test b.body b.other, b.last⟩, left, ?_,
      ⟨htest', hbody', ?_⟩, hleft⟩
    · rw [seen_branching, hseen, Option.bind_some, hblock, Option.bind_some]
      change (seen (branching stop rest)).map _ = _
      rw [hb, Option.map_some]
    · simp only [Otherwise.bare, hnext, hinner, hother]
theorem statements_readsBack (stop : Span) : (b : List Stmt) → Block.Proper b → {toks : List Token} →
    {ls : List Lexeme} → toks.map Token.lexeme = Block.lexemes b ++ .mark .closeBrace :: ls →
    ReadsBack (statements stop toks) (fun p => Block.bare p.1 = Block.bare b) ls
  | [], _, toks, ls, htoks => by
    rw [Block.lexemes, List.nil_append] at htoks
    obtain ⟨span, rest, rfl, hrest⟩ := cons_of_lexemes htoks
    exact ⟨([], span), rest, seen_statements_nil stop span rest, rfl, hrest⟩
  | s :: b, h, toks, ls, htoks => by
    rw [Block.lexemes, List.append_assoc] at htoks
    obtain ⟨s', mid, hseen, hs', hmid⟩ := stmt_readsBack stop s h.1 htoks (head?_block b (by simp))
    obtain ⟨⟨b', close⟩, rest, hmore, hb', hrest⟩ := statements_readsBack stop b h.2 hmid
    obtain ⟨l, ms, hl, hclose, -⟩ := exists_head_of_stmt s
    rw [hl] at htoks
    obtain ⟨span, tail, rfl, -⟩ := cons_of_lexemes htoks
    refine ⟨(s' :: b', close), rest, ?_, ?_, hrest⟩
    · rw [seen_statements_cons stop hclose, hseen, Option.bind_some, hmore, Option.map_some]
    · simp only [Block.bare, hs', hb']
end

end PackScript.Grammar
