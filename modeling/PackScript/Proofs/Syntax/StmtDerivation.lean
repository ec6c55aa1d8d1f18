import PackScript.Proofs.Syntax.HoleDerivation
import PackScript.Proofs.Syntax.SignatureDerivation
import PackScript.Proofs.Syntax.RoundTrip

/-! # Derivations of statements and programs

A program is read from exactly the token lists that derive one, and it is the only one that
they derive. A conditional takes the `else` that follows it: no statement starts with one, so
the tokens of a statement are never the head of a longer derivation.
-/
namespace PackScript.Grammar

variable {toks us rest : List Token} {stop span close : Span} {s : Stmt} {b : Block}

/-- The last token stands at `close`. -/
def EndsAt (toks : List Token) (close : Span) : Prop := ∃ init lexeme, toks = init ++ [⟨lexeme, close⟩]

theorem EndsAt.append (h : EndsAt toks close) (us : List Token) : EndsAt (us ++ toks) close := by
  obtain ⟨init, lexeme, rfl⟩ := h
  exact ⟨us ++ init, lexeme, by simp⟩

theorem EndsAt.extent (h : EndsAt toks close) (t : Token) :
    Token.extent (t :: toks) = t.span.through close := by
  obtain ⟨init, lexeme, rfl⟩ := h
  exact Token.extent_concat t init ⟨lexeme, close⟩

/-! ## What is read is derived -/

theorem command_derived {line : Bytes} (h : (command span line).toOption = some s) :
    IsStmt [⟨.command line, span⟩] s := by
  rw [command] at h
  cases hh : holes span 1 line with
  | error f =>
    rw [hh] at h
    cases h
  | ok r =>
    rw [hh] at h
    cases h
    exact .command (holes_derived hh)

theorem assigned_derived {start : Span} {target : Name} {ty : Typing} {declare : Bool}
    (ht : AllProper toks) (h : seen (assigned stop start target ty declare toks) = some (s, rest)) :
    ∃ used value semi, toks = used ++ ⟨.mark .semicolon, semi⟩ :: rest ∧ IsExpr used value ∧
      (target.isStatic = true → value.isStatic = true) ∧
      s = .assign (start.through semi) target ty value declare := by
  rw [seen_assigned] at h
  obtain ⟨⟨value, mid⟩, hvalue, hnext⟩ := Option.bind_eq_some_iff.1 h
  obtain ⟨⟨semi, rest'⟩, hsemi, hassign⟩ := Option.bind_eq_some_iff.1 hnext
  obtain ⟨used, rfl, hused⟩ := expr_derived ht hvalue
  obtain rfl : mid = ⟨.mark .semicolon, semi⟩ :: rest' := of_expect hsemi
  dsimp only at hassign
  split at hassign
  · rename_i hstatic
    cases hassign
    exact ⟨used, value, semi, rfl, hused, hstatic, rfl⟩
  · cases hassign

/-- A declaration, from what its reader left to read behind the operator. -/
theorem declare_derived {head : List Token} {n : Name} {ty : Typing} {op : Span}
    (hp : IsParam (⟨.name n, span⟩ :: head) ⟨n, ty⟩) (ht : AllProper toks)
    (h : seen (assigned stop span n ty true toks) = some (s, rest)) :
    ∃ used, ⟨.name n, span⟩ :: (head ++ ⟨.mark .assign, op⟩ :: toks) = used ++ rest ∧ IsStmt used s := by
  obtain ⟨us, value, semi, rfl, hus, hstatic, rfl⟩ := assigned_derived ht h
  refine ⟨⟨.name n, span⟩ :: (head ++ ⟨.mark .assign, op⟩ :: (us ++ [⟨.mark .semicolon, semi⟩])),
    by simp, ?_⟩
  have hends : EndsAt (head ++ ⟨.mark .assign, op⟩ :: (us ++ [⟨.mark .semicolon, semi⟩])) semi :=
    ⟨head ++ ⟨.mark .assign, op⟩ :: us, .mark .semicolon, by simp⟩
  have hplace := hends.extent ⟨.name n, span⟩
  rw [← hplace]
  exact .declare hp hus hstatic

mutual
theorem stmt_derived {toks rest : List Token} {s : Stmt} (ht : AllProper toks)
    (h : seen (stmt stop toks) = some (s, rest)) : ∃ used, toks = used ++ rest ∧ IsStmt used s := by
  have hcase := h
  rw [stmt.eq_def] at hcase
  generalize htoks : toks = ts at hcase
  have hcount := congrArg List.length htoks
  rw [htoks] at ht h
  split at hcase
  · rename_i line span tail
    rw [seen_stmt_command] at h
    obtain ⟨s', hs', heq⟩ := Option.map_eq_some_iff.1 h
    cases heq
    exact ⟨[⟨.command line, span⟩], rfl, command_derived hs'⟩
  · rename_i span tail
    rw [seen_stmt_cond] at h
    obtain ⟨⟨b, rest'⟩, hb, heq⟩ := Option.map_eq_some_iff.1 h
    obtain ⟨us, rfl, hus, hends⟩ := branching_derived ht.tail hb
    cases heq
    refine ⟨⟨.keyword .ifWord, span⟩ :: us, rfl, ?_⟩
    rw [← hends.extent ⟨.keyword .ifWord, span⟩]
    exact .cond (hus span)
  · rename_i span tail
    rw [seen_stmt_define] at h
    obtain ⟨⟨sig, mid⟩, hsig, hnext⟩ := Option.bind_eq_some_iff.1 h
    obtain ⟨⟨⟨body, close⟩, rest'⟩, hbody, hdefine⟩ := Option.bind_eq_some_iff.1 hnext
    have hlength := length_of_seen hsig
    obtain ⟨head, rfl, hhead⟩ := signature_derived ht.tail hsig
    obtain ⟨us, rfl, hus, hends⟩ := block_derived ht.tail.of_append hbody
    dsimp only at hdefine
    split at hdefine
    · rename_i hstatic
      cases hdefine
      refine ⟨⟨.keyword .defWord, span⟩ :: (head ++ us), by simp, ?_⟩
      rw [← (hends.append head).extent ⟨.keyword .defWord, span⟩]
      exact .define hhead hus fun hs => List.all_eq_true.1 (hstatic hs)
    · cases hdefine
  · rename_i span tail
    rw [seen_stmt_ret] at h
    obtain ⟨⟨value, mid⟩, hvalue, hnext⟩ := Option.bind_eq_some_iff.1 h
    obtain ⟨⟨semi, rest'⟩, hsemi, heq⟩ := Option.map_eq_some_iff.1 hnext
    obtain ⟨us, rfl, hus⟩ := expr_derived ht.tail hvalue
    obtain rfl : mid = ⟨.mark .semicolon, semi⟩ :: rest' := of_expect hsemi
    cases heq
    refine ⟨⟨.keyword .returnWord, span⟩ :: (us ++ [⟨.mark .semicolon, semi⟩]), by simp, ?_⟩
    rw [← Token.extent_concat ⟨.keyword .returnWord, span⟩ us ⟨.mark .semicolon, semi⟩]
    exact .ret hus
  · rename_i n span colon tail
    rw [seen_stmt_annotated, seen_annotatedAssignment] at h
    obtain ⟨⟨ty, mid⟩, hty, hnext⟩ := Option.bind_eq_some_iff.1 h
    obtain ⟨⟨op, after⟩, hop, hassign⟩ := Option.bind_eq_some_iff.1 hnext
    obtain ⟨t, rfl, htype⟩ := typing_derived hty
    obtain rfl : mid = ⟨.mark .assign, op⟩ :: after := of_expect hop
    exact declare_derived (.typed htype) ht.tail.tail.tail.tail hassign
  · rename_i n span op tail
    rw [seen_stmt_declared] at h
    exact declare_derived .plain ht.tail.tail h
  · rename_i n span op tail
    rw [seen_stmt_assigned] at h
    obtain ⟨us, value, semi, rfl, hus, hstatic, rfl⟩ := assigned_derived ht.tail.tail h
    refine ⟨⟨.name n, span⟩ :: ⟨.mark .equals, op⟩ :: (us ++ [⟨.mark .semicolon, semi⟩]), by simp, ?_⟩
    rw [← Token.extent_concat ⟨.name n, span⟩ (⟨.mark .equals, op⟩ :: us) ⟨.mark .semicolon, semi⟩]
    exact .assign hus hstatic
  · rename_i n span paren tail
    rw [seen_stmt_call] at h
    obtain ⟨⟨⟨es, close⟩, mid⟩, hes, hnext⟩ := Option.bind_eq_some_iff.1 h
    obtain ⟨items, inner, rfl, hsep, hitems⟩ := args_derived ht.tail.tail hes
    dsimp only at hnext
    split at hnext
    · rename_i hstatic
      obtain ⟨⟨semi, rest'⟩, hsemi, heq⟩ := Option.map_eq_some_iff.1 hnext
      obtain rfl : mid = ⟨.mark .semicolon, semi⟩ :: rest' := of_expect hsemi
      cases heq
      refine ⟨⟨.name n, span⟩ :: ⟨.mark .openParen, paren⟩ :: (inner ++ [⟨.mark .closeParen, close⟩]) ++
        [⟨.mark .semicolon, semi⟩], by simp, ?_⟩
      rw [← Token.extent_concat ⟨.name n, span⟩
        (⟨.mark .openParen, paren⟩ :: (inner ++ [⟨.mark .closeParen, close⟩])) ⟨.mark .semicolon, semi⟩]
      exact .call (isCall_of_derived hsep hitems hstatic)
    · cases hnext
  · rw [seen_fail] at hcase
    cases hcase
  · cases hcase
  · rw [seen_fail] at hcase
    cases hcase
termination_by 3 * toks.length
decreasing_by all_goals simp only [List.length_cons, List.length_append] at *; omega
theorem branching_derived {toks rest : List Token} {b : Branching} (ht : AllProper toks)
    (h : seen (branching stop toks) = some (b, rest)) :
    ∃ used, toks = used ++ rest ∧
      (∀ span, IsConditional (⟨.keyword .ifWord, span⟩ :: used) b.test b.body b.other) ∧
      EndsAt used b.last := by
  rw [seen_branching] at h
  obtain ⟨⟨test, mid⟩, htest, hnext⟩ := Option.bind_eq_some_iff.1 h
  obtain ⟨⟨⟨body, close⟩, tail⟩, hbody, hother⟩ := Option.bind_eq_some_iff.1 hnext
  have hlength := length_of_seen htest
  have hshorter := length_of_seen hbody
  obtain ⟨us, hsplit, hus⟩ := expr_derived ht htest
  rw [hsplit] at ht
  obtain ⟨braced, rfl, hbraced, hends⟩ := block_derived ht.of_append hbody
  have htail : AllProper tail := ht.of_append.of_append
  dsimp only at hother
  cases hcont : continuation tail with
  | branch span after =>
    rw [hcont] at hother
    obtain ⟨⟨b', rest'⟩, hb', heq⟩ := Option.map_eq_some_iff.1 hother
    obtain ⟨other, rfl⟩ := of_continuation_branch hcont
    obtain ⟨more, rfl, hmore, hlast⟩ := branching_derived htail.tail.tail hb'
    cases heq
    refine ⟨us ++ (braced ++ ⟨.keyword .elseWord, other⟩ :: ⟨.keyword .ifWord, span⟩ :: more),
      by simp [hsplit], fun start => ?_, ?_⟩
    · rw [← hlast.extent ⟨.keyword .ifWord, span⟩]
      exact .chain hus hbraced (hmore span)
    · have hall := hlast.append (us ++ (braced ++ [⟨.keyword .elseWord, other⟩, ⟨.keyword .ifWord, span⟩]))
      simpa using hall
  | final after =>
    rw [hcont] at hother
    obtain ⟨⟨⟨final, close'⟩, rest'⟩, hfinal, heq⟩ := Option.map_eq_some_iff.1 hother
    obtain ⟨other, rfl⟩ := of_continuation_final hcont
    obtain ⟨last, rfl, hlast, hends'⟩ := block_derived htail.tail hfinal
    cases heq
    refine ⟨us ++ (braced ++ ⟨.keyword .elseWord, other⟩ :: last), by simp [hsplit],
      fun start => .final hus hbraced hlast, ?_⟩
    have hall := hends'.append (us ++ (braced ++ [⟨.keyword .elseWord, other⟩]))
    simpa using hall
  | nothing =>
    rw [hcont] at hother
    cases hother
    exact ⟨us ++ braced, by simp [hsplit], fun start => .plain hus hbraced, hends.append us⟩
termination_by 3 * toks.length
decreasing_by all_goals simp only [List.length_cons, List.length_append] at *; omega
theorem block_derived {toks rest : List Token} {b : Block} {close : Span} (ht : AllProper toks)
    (h : seen (block stop toks) = some ((b, close), rest)) :
    ∃ used, toks = used ++ rest ∧ IsBlock used b ∧ EndsAt used close := by
  have hcase := h
  rw [block.eq_def] at hcase
  generalize htoks : toks = ts at hcase
  have hcount := congrArg List.length htoks
  rw [htoks] at ht h
  split at hcase
  · rename_i span tail
    rw [seen_block] at h
    obtain ⟨us, rfl, hus⟩ := statements_derived ht.tail h
    exact ⟨⟨.mark .openBrace, span⟩ :: (us ++ [⟨.mark .closeBrace, close⟩]), by simp, .block hus,
      ⟨⟨.mark .openBrace, span⟩ :: us, .mark .closeBrace, rfl⟩⟩
  · rw [seen_fail] at hcase
    cases hcase
termination_by 3 * toks.length
decreasing_by simp only [List.length_cons] at hcount; omega
theorem statements_derived {toks rest : List Token} {b : Block} {close : Span} (ht : AllProper toks)
    (h : seen (statements stop toks) = some ((b, close), rest)) :
    ∃ used, toks = used ++ ⟨.mark .closeBrace, close⟩ :: rest ∧ IsStmts used b := by
  cases toks with
  | nil =>
    rw [statements] at h
    cases h
  | cons t tail =>
    by_cases hclose : t.lexeme = .mark .closeBrace
    · obtain ⟨l, span⟩ := t
      cases hclose
      rw [seen_statements_nil] at h
      cases h
      exact ⟨[], rfl, .nil⟩
    · rw [seen_statements_cons stop hclose] at h
      obtain ⟨⟨first, mid⟩, hfirst, hnext⟩ := Option.bind_eq_some_iff.1 h
      obtain ⟨⟨⟨more, close'⟩, rest'⟩, hmore, heq⟩ := Option.map_eq_some_iff.1 hnext
      have hlength := length_of_seen hfirst
      obtain ⟨us, hsplit, hus⟩ := stmt_derived ht hfirst
      rw [hsplit] at ht
      obtain ⟨vs, rfl, hvs⟩ := statements_derived ht.of_append hmore
      cases heq
      exact ⟨us ++ vs, by rw [hsplit, List.append_assoc], .cons hus hvs⟩
termination_by 3 * toks.length + 1
end

theorem wholeBlock_derived (stop : Span) {toks : List Token} {b : Block} (ht : AllProper toks)
    (h : wholeBlock stop toks = .ok b) : IsStmts toks b := by
  cases toks with
  | nil =>
    rw [wholeBlock] at h
    cases h
    exact .nil
  | cons t rest =>
    obtain ⟨s, mid, more, hs, hmore, rfl⟩ := (wholeBlock_cons stop t rest b).1 h
    have hlength := length_of_seen hs
    obtain ⟨us, hsplit, hus⟩ := stmt_derived ht hs
    rw [hsplit] at ht
    rw [hsplit]
    exact .cons hus (wholeBlock_derived stop ht.of_append hmore)
termination_by toks.length

/-! ## What is derived is read -/

theorem IsStmt.starts (h : IsStmt toks s) :
    ∃ t ts, toks = t :: ts ∧ t.lexeme ≠ .mark .closeBrace ∧ t.lexeme ≠ .keyword .elseWord := by
  cases h with
  | command h => exact ⟨_, _, rfl, by simp, by simp⟩
  | cond h => cases h <;> exact ⟨_, _, rfl, by simp, by simp⟩
  | define hsig hbody hstatic => exact ⟨_, _, rfl, by simp, by simp⟩
  | ret h => exact ⟨_, _, rfl, by simp, by simp⟩
  | declare hp h hstatic =>
    obtain ⟨span, ts, rfl⟩ := hp.starts
    exact ⟨_, _, rfl, by simp, by simp⟩
  | assign h hstatic => exact ⟨_, _, rfl, by simp, by simp⟩
  | call h =>
    cases h
    exact ⟨_, _, rfl, by simp, by simp⟩

/-- No `else` comes next. -/
def NoElse (rest : List Token) : Prop := (rest.map Token.lexeme).head? ≠ some (.keyword .elseWord)

theorem NoElse.append (hrest : NoElse rest) (h : IsStmts toks b) : NoElse (toks ++ rest) := by
  cases h with
  | nil => exact hrest
  | cons hs h =>
    obtain ⟨t, ts, rfl, -, ht⟩ := hs.starts
    simpa [NoElse] using ht

theorem IsBlock.follows (h : IsBlock toks b) (rest : List Token) :
    Follows 2 ((toks ++ rest).map Token.lexeme) := by
  cases h
  exact ⟨by simp, by simp, by simp⟩

theorem assigned_reads (stop start semi : Span) {target : Name} {ty : Typing} {declare : Bool}
    {value : Expr} (h : IsExpr toks value) (hstatic : target.isStatic = true → value.isStatic = true)
    (rest : List Token) :
    seen (assigned stop start target ty declare (toks ++ ⟨.mark .semicolon, semi⟩ :: rest)) =
      some (.assign (start.through semi) target ty value declare, rest) := by
  have hvalue : seen (expr stop (toks ++ ⟨.mark .semicolon, semi⟩ :: rest)) = _ :=
    h.reads stop _ ⟨by simp, by simp, by simp⟩
  rw [seen_assigned, hvalue, Option.bind_some, seen_expect_mark, Option.bind_some]
  dsimp only
  rw [if_pos hstatic]

/-- From the tokens of a declaration, with or without an annotation. -/
theorem declare_reads (stop op semi : Span) {head : List Token} {target : Name} {ty : Typing}
    {value : Expr} (hp : IsParam head ⟨target, ty⟩) (h : IsExpr toks value)
    (hstatic : target.isStatic = true → value.isStatic = true) (rest : List Token) :
    seen (stmt stop (head ++ ⟨.mark .assign, op⟩ :: (toks ++ [⟨.mark .semicolon, semi⟩]) ++ rest)) =
      some (.assign (Token.extent (head ++ ⟨.mark .assign, op⟩ :: (toks ++ [⟨.mark .semicolon, semi⟩])))
        target ty value true, rest) := by
  have hends : EndsAt (⟨.mark .assign, op⟩ :: (toks ++ [⟨.mark .semicolon, semi⟩])) semi :=
    ⟨⟨.mark .assign, op⟩ :: toks, .mark .semicolon, rfl⟩
  have htail : ⟨.mark .assign, op⟩ :: (toks ++ [⟨.mark .semicolon, semi⟩]) ++ rest =
      ⟨.mark .assign, op⟩ :: (toks ++ ⟨.mark .semicolon, semi⟩ :: rest) := by
    simp
  rw [List.append_assoc, htail]
  cases hp with
  | @plain _ span =>
    rw [List.singleton_append, List.singleton_append, hends.extent, seen_stmt_declared]
    exact assigned_reads stop span semi h hstatic rest
  | @typed t _ _ span colon htype =>
    have hplace := (hends.append [⟨.mark .colon, colon⟩, t]).extent ⟨.name target, span⟩
    simp only [List.cons_append, List.nil_append] at hplace ⊢
    rw [hplace, seen_stmt_annotated, seen_annotatedAssignment, htype.reads, Option.bind_some,
      seen_expect_mark, Option.bind_some]
    exact assigned_reads stop span semi h hstatic rest

mutual
theorem IsStmt.reads (stop : Span) {toks : List Token} {s : Stmt} : IsStmt toks s →
    ∀ rest, NoElse rest → seen (stmt stop (toks ++ rest)) = some (s, rest)
  | .command h, rest, _ => by
    rw [List.singleton_append, seen_stmt_command, command, h.holes_eq]
    rfl
  | .cond h, rest, hrest => by
    obtain ⟨span, used, last, rfl, hends, hread⟩ := h.reads stop
    rw [hends.extent, List.cons_append, seen_stmt_cond, hread rest hrest, Option.map_some]
  | @IsStmt.define head sig braced body span hsig hbody hstatic, rest, _ => by
    obtain ⟨close, hends, hread⟩ := hbody.reads stop
    have hall : sig.name.isStatic = true → body.all Stmt.isStatic = true :=
      fun hs => List.all_eq_true.2 (hstatic hs)
    rw [(hends.append head).extent, List.cons_append, List.append_assoc, seen_stmt_define, hsig.reads,
      Option.bind_some, hread, Option.bind_some]
    dsimp only
    rw [if_pos hall]
  | @IsStmt.ret us value span semi h, rest, _ => by
    have hvalue : seen (expr stop (us ++ ⟨.mark .semicolon, semi⟩ :: rest)) = _ :=
      h.reads stop _ ⟨by simp, by simp, by simp⟩
    rw [Token.extent_concat, List.cons_append, List.append_assoc, List.singleton_append, seen_stmt_ret,
      hvalue, Option.bind_some, seen_expect_mark, Option.map_some]
  | .declare hp h hstatic, rest, _ => declare_reads stop _ _ hp h hstatic rest
  | @IsStmt.assign us value target span op semi h hstatic, rest, _ => by
    have hplace := Token.extent_concat ⟨.name target, span⟩ (⟨.mark .equals, op⟩ :: us)
      ⟨.mark .semicolon, semi⟩
    rw [List.cons_append] at hplace
    rw [hplace, List.cons_append, List.cons_append, List.append_assoc, List.singleton_append,
      seen_stmt_assigned]
    exact assigned_reads stop span semi h hstatic rest
  | @IsStmt.call us n es semi h, rest, _ => by
    obtain ⟨span, paren, inner, close, rfl, -, hstatic, hargs⟩ := h.reads stop
    have hplace := Token.extent_concat ⟨.name n, span⟩
      (⟨.mark .openParen, paren⟩ :: (inner ++ [⟨.mark .closeParen, close⟩])) ⟨.mark .semicolon, semi⟩
    rw [← List.cons_append] at hplace
    have htail : ⟨.name n, span⟩ :: ⟨.mark .openParen, paren⟩ :: (inner ++ [⟨.mark .closeParen, close⟩]) ++
        [⟨.mark .semicolon, semi⟩] ++ rest = ⟨.name n, span⟩ :: ⟨.mark .openParen, paren⟩ ::
          (inner ++ ⟨.mark .closeParen, close⟩ :: ⟨.mark .semicolon, semi⟩ :: rest) := by
      simp
    rw [hplace, htail, seen_stmt_call, hargs, Option.bind_some]
    dsimp only
    rw [if_pos hstatic, seen_expect_mark, Option.map_some]
theorem IsConditional.reads (stop : Span) {toks : List Token} {test : Expr} {body : Block}
    {other : Otherwise} : IsConditional toks test body other →
    ∃ span used last, toks = ⟨.keyword .ifWord, span⟩ :: used ∧ EndsAt used last ∧
      ∀ rest, NoElse rest → seen (branching stop (used ++ rest)) = some (⟨test, body, other, last⟩, rest)
  | @IsConditional.plain us test braced body span ht hb => by
    obtain ⟨close, hends, hread⟩ := hb.reads stop
    refine ⟨span, us ++ braced, close, rfl, hends.append us, fun rest hrest => ?_⟩
    have htest : seen (expr stop (us ++ (braced ++ rest))) = _ := ht.reads stop _ (hb.follows rest)
    rw [List.append_assoc, seen_branching, htest, Option.bind_some, hread, Option.bind_some]
    dsimp only
    rw [continuation_of_lexemes rfl hrest]
  | @IsConditional.final us test braced body last final span other ht hb hf => by
    obtain ⟨close, -, hread⟩ := hb.reads stop
    obtain ⟨close', hends, hfinal⟩ := hf.reads stop
    have hall := hends.append (us ++ (braced ++ [⟨.keyword .elseWord, other⟩]))
    have hused : us ++ (braced ++ [⟨.keyword .elseWord, other⟩]) ++ last =
        us ++ (braced ++ ⟨.keyword .elseWord, other⟩ :: last) := by
      simp
    rw [hused] at hall
    refine ⟨span, _, close', rfl, hall, fun rest _ => ?_⟩
    have htest : seen (expr stop (us ++ (braced ++ (⟨.keyword .elseWord, other⟩ :: last ++ rest)))) = _ :=
      ht.reads stop _ (hb.follows _)
    have hcont : continuation (⟨.keyword .elseWord, other⟩ :: last ++ rest) = .final (last ++ rest) := by
      cases hf
      rfl
    rw [List.append_assoc, List.append_assoc, seen_branching, htest, Option.bind_some, hread,
      Option.bind_some]
    dsimp only
    rw [hcont]
    dsimp only
    rw [hfinal, Option.map_some]
  | @IsConditional.chain us test braced body next test' body' other' span other ht hb hn => by
    obtain ⟨close, -, hread⟩ := hb.reads stop
    obtain ⟨span', more, last, rfl, hends, hnext⟩ := hn.reads stop
    have hall := hends.append (us ++ (braced ++ [⟨.keyword .elseWord, other⟩, ⟨.keyword .ifWord, span'⟩]))
    have hused : us ++ (braced ++ [⟨.keyword .elseWord, other⟩, ⟨.keyword .ifWord, span'⟩]) ++ more =
        us ++ (braced ++ ⟨.keyword .elseWord, other⟩ :: ⟨.keyword .ifWord, span'⟩ :: more) := by
      simp
    rw [hused] at hall
    refine ⟨span, _, last, rfl, hall, fun rest hrest => ?_⟩
    have htest : seen (expr stop (us ++ (braced ++
        (⟨.keyword .elseWord, other⟩ :: ⟨.keyword .ifWord, span'⟩ :: more ++ rest)))) = _ :=
      ht.reads stop _ (hb.follows _)
    have hcont : continuation (⟨.keyword .elseWord, other⟩ :: ⟨.keyword .ifWord, span'⟩ :: more ++ rest) =
        .branch span' (more ++ rest) := rfl
    rw [hends.extent, List.append_assoc, List.append_assoc, seen_branching, htest, Option.bind_some,
      hread, Option.bind_some]
    dsimp only
    rw [hcont]
    dsimp only
    rw [hnext rest hrest, Option.map_some]
theorem IsBlock.reads (stop : Span) {toks : List Token} {b : Block} : IsBlock toks b →
    ∃ close, EndsAt toks close ∧ ∀ rest, seen (block stop (toks ++ rest)) = some ((b, close), rest)
  | @IsBlock.block us b span close h => by
    refine ⟨close, ⟨⟨.mark .openBrace, span⟩ :: us, .mark .closeBrace, rfl⟩, fun rest => ?_⟩
    rw [List.cons_append, List.append_assoc, List.singleton_append, seen_block]
    exact h.reads stop close rest
theorem IsStmts.reads (stop : Span) {toks : List Token} {b : Block} : IsStmts toks b →
    ∀ close rest, seen (statements stop (toks ++ ⟨.mark .closeBrace, close⟩ :: rest)) =
      some ((b, close), rest)
  | .nil, close, rest => seen_statements_nil stop close rest
  | @IsStmts.cons first s us b hs h, close, rest => by
    have hnext : NoElse (us ++ ⟨.mark .closeBrace, close⟩ :: rest) := .append (by simp [NoElse]) h
    have hfirst := hs.reads stop _ hnext
    obtain ⟨t, ts, rfl, ht, -⟩ := hs.starts
    rw [List.append_assoc, List.cons_append, seen_statements_cons stop ht, ← List.cons_append, hfirst,
      Option.bind_some, h.reads stop close rest, Option.map_some]
end

theorem IsStmts.wholeBlock_eq (stop : Span) {toks : List Token} {b : Block} (h : IsStmts toks b) :
    wholeBlock stop toks = .ok b := by
  cases h with
  | nil => rw [wholeBlock]
  | @cons first s us b hs h =>
    have hnext : NoElse (us ++ []) := .append (by simp [NoElse]) h
    have hfirst := hs.reads stop _ hnext
    rw [List.append_nil] at hfirst
    have hrest := h.wholeBlock_eq stop
    obtain ⟨t, ts, rfl, -, -⟩ := hs.starts
    exact (wholeBlock_cons stop t (ts ++ us) (s :: b)).2 ⟨s, us, b, hfirst, hrest, rfl⟩

/-- Tokens that were cut from a text derive at most one block, the one that is read. -/
theorem wholeBlock_eq_ok (stop : Span) (ht : AllProper toks) :
    wholeBlock stop toks = .ok b ↔ IsStmts toks b :=
  ⟨wholeBlock_derived stop ht, IsStmts.wholeBlock_eq stop⟩

end PackScript.Grammar

namespace PackScript.Program

theorem exists_end_of_scanFrom {c : Cursor} {t : Bytes} {toks : List Token}
    (h : (scanFrom c t).result = .ok toks) :
    ∃ stop, toks = (TokenStream.ofTokens toks).tokens ++ [⟨.endMarker, stop⟩] := by
  have hscan := scanFrom_lexemes c t
  rw [h] at hscan
  obtain ⟨ls, hls, hmap⟩ := Option.map_eq_some_iff.1 hscan.symm
  obtain ⟨body, last, rfl, rfl, hlast⟩ := List.map_eq_append_iff.1 hmap.symm
  obtain ⟨stop, rest, rfl, hrest⟩ := Grammar.cons_of_lexemes hlast
  obtain rfl := List.map_eq_nil_iff.1 hrest
  refine ⟨stop, ?_⟩
  have hbody : ∀ tok ∈ body, decide (tok.lexeme ≠ .endMarker) = true := by
    intro tok htok
    refine decide_eq_true fun hend => ?_
    have hproper := proper_of_lexemes? hls _ (List.mem_map_of_mem htok)
    rw [hend] at hproper
    exact hproper
  rw [TokenStream.ofTokens]
  dsimp only
  rw [List.takeWhile_append_of_pos hbody]
  simp

theorem ofTokens_eq_ok {tokens : List Token} {p : Program} :
    ofTokens tokens = .ok p ↔
      Grammar.wholeBlock (TokenStream.ofTokens tokens).stop (TokenStream.ofTokens tokens).tokens =
        .ok p.body ∧ p.stop = (TokenStream.ofTokens tokens).stop := by
  obtain ⟨body', stop⟩ := p
  rw [ofTokens]
  dsimp only
  cases Grammar.wholeBlock (TokenStream.ofTokens tokens).stop (TokenStream.ofTokens tokens).tokens with
  | error f => simp [Bind.bind, Except.bind]
  | ok body => simp [Bind.bind, Except.bind, pure, Except.pure, eq_comm]

/-- Of the tokens of a text, those before the end are read as a program exactly if they
derive a block, and the program that is read is the only one they derive. -/
theorem ofTokens_iff_derives {source : Bytes} {tokens : List Token} (h : tokenize source = .ok tokens) :
    ∃ body stop, tokens = body ++ [⟨.endMarker, stop⟩] ∧
      ((∃ p, ofTokens tokens = .ok p) ↔ ∃ b, Grammar.IsStmts body b) ∧
      ∀ p, ofTokens tokens = .ok p → ∀ b, Grammar.IsStmts body b ↔ b = p.body := by
  obtain ⟨stop, htokens⟩ := exists_end_of_scanFrom h
  have hproper : Grammar.AllProper (TokenStream.ofTokens tokens).tokens := proper_of_scanFrom h
  have hread (b : Block) := Grammar.wholeBlock_eq_ok (TokenStream.ofTokens tokens).stop (b := b) hproper
  refine ⟨(TokenStream.ofTokens tokens).tokens, stop, htokens, ⟨?_, ?_⟩, ?_⟩
  · rintro ⟨p, hp⟩
    exact ⟨p.body, (hread p.body).1 (ofTokens_eq_ok.1 hp).1⟩
  · rintro ⟨b, hb⟩
    exact ⟨⟨b, (TokenStream.ofTokens tokens).stop⟩, ofTokens_eq_ok.2 ⟨(hread b).2 hb, rfl⟩⟩
  · intro p hp b
    have hbody := (ofTokens_eq_ok.1 hp).1
    constructor
    · intro hb
      exact Except.ok.inj (((hread b).2 hb).symm.trans hbody)
    · rintro rfl
      exact (hread p.body).1 hbody

/-- A chain of conditionals, and a sum whose first summand is a product. -/
theorem ofTokens_iff_derives_chain : ∃ tokens p,
    tokenize "if a\x7b\x7delse if b\x7b\x7delse\x7b\x7d$x:=2*$y*3+f(a,(1+b))+4;" = .ok tokens ∧
      ofTokens tokens = .ok p ∧
      p.print = "if a \x7b\n\x7d else if b \x7b\n\x7d else \x7b\n\x7d\n$x := 2 * $y * 3 + f(a, (1 + b)) + 4;\n" ∧
      ∃ body stop, tokens = body ++ [⟨.endMarker, stop⟩] ∧ ∀ b, Grammar.IsStmts body b ↔ b = p.body := by
  have htext : ((tokenize
      "if a\x7b\x7delse if b\x7b\x7delse\x7b\x7d$x:=2*$y*3+f(a,(1+b))+4;").toOption.bind
        fun tokens => (ofTokens tokens).toOption).map print =
      some "if a \x7b\n\x7d else if b \x7b\n\x7d else \x7b\n\x7d\n$x := 2 * $y * 3 + f(a, (1 + b)) + 4;\n" := by
    decide +kernel
  cases ht : tokenize "if a\x7b\x7delse if b\x7b\x7delse\x7b\x7d$x:=2*$y*3+f(a,(1+b))+4;" with
  | error f =>
    rw [ht] at htext
    cases htext
  | ok tokens =>
    rw [ht] at htext
    obtain ⟨body, stop, htokens, -, hunique⟩ := ofTokens_iff_derives ht
    cases hp : ofTokens tokens with
    | error f =>
      rw [show (Except.ok tokens : Except Failure _).toOption = some tokens from rfl, Option.bind_some,
        hp] at htext
      cases htext
    | ok p =>
      rw [show (Except.ok tokens : Except Failure _).toOption = some tokens from rfl, Option.bind_some,
        hp] at htext
      exact ⟨tokens, p, rfl, hp, Option.some.inj htext, body, stop, htokens, hunique p hp⟩

end PackScript.Program
