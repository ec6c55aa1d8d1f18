import PackScript.Proofs.Syntax.HoleReading
import PackScript.Proofs.Syntax.SignatureReading

/-! # Statements and their lexemes

Every statement that the grammar reads is proper, and from the lexemes of a proper block it
reads that block again. A conditional without a final block is read to its end only if no
`else` follows, which no statement starts with.
-/
namespace PackScript.Grammar

variable {toks rest : List Token} {stop : Span} {ls : List Lexeme}

/-- What follows the block of a conditional. -/
inductive Continuation where
  | branch (span : Span) (after : List Token)
  | final (after : List Token)
  | nothing

def continuation : List Token → Continuation
  | ⟨.keyword .elseWord, _⟩ :: ⟨.keyword .ifWord, span⟩ :: after => .branch span after
  | ⟨.keyword .elseWord, _⟩ :: after => .final after
  | _ => .nothing

/-! ## What each reader does -/

theorem seen_assigned (stop start : Span) (target : Name) (ty : Typing) (declare : Bool)
    (toks : List Token) :
    seen (assigned stop start target ty declare toks) = (seen (expr stop toks)).bind fun p =>
      (seen (expect stop .semicolon .semicolon p.2)).bind fun q =>
        if target.isStatic = true → p.1.isStatic = true then
          some (.assign (start.through q.1) target ty p.1 declare, q.2)
        else none := by
  rw [assigned]
  cases expr stop toks with
  | error f => rfl
  | ok value =>
    simp only [Bind.bind, Except.bind, seen_ok, Option.bind_some]
    cases expect stop .semicolon .semicolon value.rest with
    | error f => rfl
    | ok semi =>
      simp only [seen_ok, Option.bind_some]
      cases target.isStatic <;> cases value.value.isStatic <;> rfl

theorem seen_annotatedAssignment (stop start : Span) (target : Name) (toks : List Token) :
    seen (annotatedAssignment stop start target toks) = (seen (typing stop toks)).bind fun p =>
      (seen (expect stop .assign .declaration p.2)).bind fun q =>
        seen (assigned stop start target p.1 true q.2) := by
  rw [annotatedAssignment]
  cases typing stop toks with
  | error f => rfl
  | ok ty =>
    simp only [Bind.bind, Except.bind, seen_ok, Option.bind_some]
    cases expect stop .assign .declaration ty.rest with
    | error f => rfl
    | ok op =>
      simp only [seen_ok, Option.bind_some]
      cases assigned stop start target ty.value true op.rest <;> rfl

theorem checkBody_eq_ok (sig : Signature) (body : Block) :
    checkBody sig body = .ok () ↔ (sig.name.isStatic = true → body.all Stmt.isStatic = true) := by
  rw [checkBody, ← find?_not_eq_none]
  cases sig.name.isStatic with
  | false => simp
  | true => cases body.find? fun s => !s.isStatic <;> simp

theorem seen_stmt_command (stop span : Span) (line : Bytes) (rest : List Token) :
    seen (stmt stop (⟨.command line, span⟩ :: rest)) =
      ((command span line).toOption).map fun s => (s, rest) := by
  rw [stmt]
  cases command span line <;> rfl

theorem seen_stmt_cond (stop span : Span) (rest : List Token) :
    seen (stmt stop (⟨.keyword .ifWord, span⟩ :: rest)) =
      (seen (branching stop rest)).map fun p =>
        (.cond (span.through p.1.last) p.1.test p.1.body p.1.other, p.2) := by
  rw [stmt]
  cases branching stop rest <;> rfl

theorem seen_stmt_define (stop span : Span) (rest : List Token) :
    seen (stmt stop (⟨.keyword .defWord, span⟩ :: rest)) =
      (seen (signature stop rest)).bind fun p => (seen (block stop p.2)).bind fun q =>
        if p.1.name.isStatic = true → q.1.1.all Stmt.isStatic = true then
          some (.define (span.through q.1.2) p.1 q.1.1, q.2)
        else none := by
  rw [stmt]
  cases signature stop rest with
  | error f => rfl
  | ok sig =>
    simp only [Bind.bind, Except.bind, seen_ok, Option.bind_some]
    cases block stop sig.rest with
    | error f => rfl
    | ok body =>
      simp only [seen_ok, Option.bind_some]
      by_cases hs : sig.value.name.isStatic = true → body.value.1.all Stmt.isStatic = true
      · rw [if_pos hs, (checkBody_eq_ok _ _).2 hs]
        rfl
      · rw [if_neg hs]
        cases hc : checkBody sig.value body.value.1 with
        | error f => rfl
        | ok u => exact absurd ((checkBody_eq_ok _ _).1 hc) hs

theorem seen_stmt_ret (stop span : Span) (rest : List Token) :
    seen (stmt stop (⟨.keyword .returnWord, span⟩ :: rest)) =
      (seen (expr stop rest)).bind fun p =>
        (seen (expect stop .semicolon .semicolon p.2)).map fun q =>
          (.ret (span.through q.1) p.1, q.2) := by
  rw [stmt]
  cases expr stop rest with
  | error f => rfl
  | ok value =>
    simp only [Bind.bind, Except.bind, seen_ok, Option.bind_some]
    cases expect stop .semicolon .semicolon value.rest <;> rfl

theorem seen_stmt_annotated (stop span : Span) {span' : Span} (n : Name) (rest : List Token) :
    seen (stmt stop (⟨.name n, span⟩ :: ⟨.mark .colon, span'⟩ :: rest)) =
      seen (annotatedAssignment stop span n rest) := by
  rw [stmt]
  cases annotatedAssignment stop span n rest <;> rfl

theorem seen_stmt_declared (stop span : Span) {span' : Span} (n : Name) (rest : List Token) :
    seen (stmt stop (⟨.name n, span⟩ :: ⟨.mark .assign, span'⟩ :: rest)) =
      seen (assigned stop span n .unknown true rest) := by
  rw [stmt]
  cases assigned stop span n .unknown true rest <;> rfl

theorem seen_stmt_assigned (stop span : Span) {span' : Span} (n : Name) (rest : List Token) :
    seen (stmt stop (⟨.name n, span⟩ :: ⟨.mark .equals, span'⟩ :: rest)) =
      seen (assigned stop span n .unknown false rest) := by
  rw [stmt]
  cases assigned stop span n .unknown false rest <;> rfl

theorem seen_stmt_call (stop span : Span) {span' : Span} (n : Name) (rest : List Token) :
    seen (stmt stop (⟨.name n, span⟩ :: ⟨.mark .openParen, span'⟩ :: rest)) =
      (seen (args stop rest)).bind fun p =>
        if n.isStatic = true → p.1.1.all Expr.isStatic = true then
          (seen (expect stop .semicolon .semicolonAfterCall p.2)).map fun q =>
            (.call (span.through q.1) n p.1.1, q.2)
        else none := by
  rw [stmt]
  cases args stop rest with
  | error f => rfl
  | ok r =>
    simp only [Bind.bind, Except.bind, seen_ok, Option.bind_some]
    by_cases hs : n.isStatic = true → r.value.1.all Expr.isStatic = true
    · rw [if_pos hs, (checkArgs_eq_ok n _).2 hs]
      dsimp only
      cases expect stop .semicolon .semicolonAfterCall r.rest <;> rfl
    · rw [if_neg hs]
      cases hc : checkArgs n r.value.1 with
      | error f => rfl
      | ok u => exact absurd ((checkArgs_eq_ok n _).1 hc) hs

theorem seen_branching (stop : Span) (toks : List Token) :
    seen (branching stop toks) = (seen (expr stop toks)).bind fun p =>
      (seen (block stop p.2)).bind fun q =>
        match continuation q.2 with
        | .branch span after => (seen (branching stop after)).map fun r =>
            (⟨p.1, q.1.1, .cond (span.through r.1.last) r.1.test r.1.body r.1.other, r.1.last⟩, r.2)
        | .final after => (seen (block stop after)).map fun r =>
            (⟨p.1, q.1.1, .block r.1.1, r.1.2⟩, r.2)
        | .nothing => some (⟨p.1, q.1.1, .nothing, q.1.2⟩, q.2) := by
  rw [branching]
  cases expr stop toks with
  | error f => rfl
  | ok test =>
    simp only [Bind.bind, Except.bind, seen_ok, Option.bind_some]
    cases block stop test.rest with
    | error f => rfl
    | ok body =>
      simp only [seen_ok, Option.bind_some]
      split
      · rename_i span' span after hrest
        have hnext : continuation body.rest = .branch span after := by rw [hrest]; rfl
        rw [hnext]
        dsimp only
        cases branching stop after <;> rfl
      · rename_i span' after hif hrest
        have hnext : continuation body.rest = .final after := by
          rw [hrest, continuation]
          exact hif
        rw [hnext]
        dsimp only
        cases block stop after <;> rfl
      · rename_i hif helse
        have hnext : continuation body.rest = .nothing := by
          rw [continuation]
          · exact hif
          · exact helse
        rw [hnext]
        rfl

theorem seen_block (stop span : Span) (rest : List Token) :
    seen (block stop (⟨.mark .openBrace, span⟩ :: rest)) = seen (statements stop rest) := by
  rw [block]
  cases statements stop rest <;> rfl

theorem seen_statements_nil (stop span : Span) (rest : List Token) :
    seen (statements stop (⟨.mark .closeBrace, span⟩ :: rest)) = some (([], span), rest) := by
  rw [statements]
  rfl

theorem seen_statements_cons (stop : Span) {t : Token} (ht : t.lexeme ≠ .mark .closeBrace)
    (rest : List Token) :
    seen (statements stop (t :: rest)) = (seen (stmt stop (t :: rest))).bind fun p =>
      (seen (statements stop p.2)).map fun q => ((p.1 :: q.1.1, q.1.2), q.2) := by
  rw [statements]
  · cases stmt stop (t :: rest) with
    | error f => rfl
    | ok first =>
      simp only [Bind.bind, Except.bind, seen_ok, Option.bind_some]
      cases statements stop first.rest <;> rfl
  · simp
  · rintro span tail ⟨⟩
    exact ht rfl

/-! ## What is read is proper -/

theorem command_proper {span : Span} {line : Bytes} {s : Stmt} (hline : (Lexeme.command line).Proper)
    (h : (command span line).toOption = some s) : s.Proper := by
  rw [command] at h
  cases hh : holes span 1 line with
  | error f =>
    rw [hh] at h
    cases h
  | ok r =>
    rw [hh] at h
    cases h
    obtain ⟨hsegmented, htrimmed⟩ := holes_segmented hline.1 hh
    exact ⟨hsegmented, htrimmed hline.2⟩

theorem assigned_proper {start : Span} {target : Name} {ty : Typing} {declare : Bool} {s : Stmt}
    (ht : AllProper toks) (htarget : target.Proper) (hty : ty ≠ .unknown → declare = true)
    (h : seen (assigned stop start target ty declare toks) = some (s, rest)) :
    s.Proper ∧ AllProper rest := by
  rw [seen_assigned] at h
  obtain ⟨⟨value, mid⟩, hvalue, h⟩ := Option.bind_eq_some_iff.1 h
  obtain ⟨⟨semi, rest'⟩, hsemi, h⟩ := Option.bind_eq_some_iff.1 h
  obtain ⟨hvp, hmid⟩ := expr_proper ht hvalue
  dsimp only at h
  split at h
  · rename_i hstatic
    cases h
    exact ⟨⟨htarget, hvp, hstatic, hty⟩, hmid.behind (behind?_of_expect hsemi)⟩
  · cases h

theorem annotatedAssignment_proper {start : Span} {target : Name} {s : Stmt} (ht : AllProper toks)
    (htarget : target.Proper) (h : seen (annotatedAssignment stop start target toks) = some (s, rest)) :
    s.Proper ∧ AllProper rest := by
  rw [seen_annotatedAssignment] at h
  obtain ⟨⟨ty, mid⟩, hty, h⟩ := Option.bind_eq_some_iff.1 h
  obtain ⟨⟨op, after⟩, hop, h⟩ := Option.bind_eq_some_iff.1 h
  have hmid := (typing_proper ht hty).2
  exact assigned_proper (hmid.behind (behind?_of_expect hop)) htarget (fun _ => rfl) h

theorem of_continuation_branch {after : List Token} {span : Span}
    (h : continuation toks = .branch span after) :
    ∃ other, toks = ⟨.keyword .elseWord, other⟩ :: ⟨.keyword .ifWord, span⟩ :: after := by
  rw [continuation.eq_def] at h
  split at h <;> cases h
  exact ⟨_, rfl⟩

theorem of_continuation_final {after : List Token} (h : continuation toks = .final after) :
    ∃ other, toks = ⟨.keyword .elseWord, other⟩ :: after := by
  rw [continuation.eq_def] at h
  split at h <;> cases h
  exact ⟨_, rfl⟩

mutual
theorem stmt_proper {toks rest : List Token} {s : Stmt} (ht : AllProper toks)
    (h : seen (stmt stop toks) = some (s, rest)) : s.Proper ∧ AllProper rest := by
  have hcase := h
  rw [stmt.eq_def] at hcase
  generalize htoks : toks = ts at hcase
  have hcount := congrArg List.length htoks
  rw [htoks] at ht h
  split at hcase
  · rename_i line span tail
    rw [seen_stmt_command] at h
    obtain ⟨s', hs', heq⟩ := Option.map_eq_some_iff.1 h
    cases heq
    exact ⟨command_proper (ht _ List.mem_cons_self) hs', ht.tail⟩
  · rename_i span tail
    rw [seen_stmt_cond] at h
    obtain ⟨⟨b, rest'⟩, hb, heq⟩ := Option.map_eq_some_iff.1 h
    have hproper := branching_proper ht.tail hb
    cases heq
    exact hproper
  · rename_i span tail
    rw [seen_stmt_define] at h
    obtain ⟨⟨sig, mid⟩, hsig, h⟩ := Option.bind_eq_some_iff.1 h
    have hlength := length_of_seen hsig
    obtain ⟨hsp, hmid⟩ := signature_proper ht.tail hsig
    obtain ⟨⟨⟨body, close⟩, rest'⟩, hbody, h⟩ := Option.bind_eq_some_iff.1 h
    obtain ⟨hbp, hrest⟩ := block_proper hmid hbody
    dsimp only at h
    split at h
    · rename_i hstatic
      cases h
      exact ⟨⟨hsp, hbp, hstatic⟩, hrest⟩
    · cases h
  · rename_i span tail
    rw [seen_stmt_ret] at h
    obtain ⟨⟨value, mid⟩, hvalue, h⟩ := Option.bind_eq_some_iff.1 h
    obtain ⟨⟨semi, rest'⟩, hsemi, heq⟩ := Option.map_eq_some_iff.1 h
    obtain ⟨hvp, hmid⟩ := expr_proper ht.tail hvalue
    cases heq
    exact ⟨hvp, hmid.behind (behind?_of_expect hsemi)⟩
  · rw [seen_stmt_annotated] at h
    exact annotatedAssignment_proper ht.tail.tail (ht _ List.mem_cons_self) h
  · rw [seen_stmt_declared] at h
    exact assigned_proper ht.tail.tail (ht _ List.mem_cons_self) (fun _ => rfl) h
  · rw [seen_stmt_assigned] at h
    exact assigned_proper ht.tail.tail (ht _ List.mem_cons_self) (fun hty => absurd rfl hty) h
  · rename_i n span span' tail
    rw [seen_stmt_call] at h
    obtain ⟨⟨⟨es, close⟩, mid⟩, hes, h⟩ := Option.bind_eq_some_iff.1 h
    obtain ⟨hep, hmid⟩ := args_proper ht.tail.tail hes
    dsimp only at h
    split at h
    · rename_i hstatic
      obtain ⟨⟨semi, rest'⟩, hsemi, heq⟩ := Option.map_eq_some_iff.1 h
      cases heq
      exact ⟨⟨ht _ List.mem_cons_self, hep, hstatic⟩, hmid.behind (behind?_of_expect hsemi)⟩
    · cases h
  · rw [seen_fail] at hcase
    cases hcase
  · cases hcase
  · rw [seen_fail] at hcase
    cases hcase
termination_by 3 * toks.length
decreasing_by all_goals simp only [List.length_cons] at hcount; omega
theorem branching_proper {toks rest : List Token} {b : Branching} (ht : AllProper toks)
    (h : seen (branching stop toks) = some (b, rest)) :
    (b.test.Proper 2 ∧ Block.Proper b.body ∧ b.other.Proper) ∧ AllProper rest := by
  rw [seen_branching] at h
  obtain ⟨⟨test, mid⟩, htest, h⟩ := Option.bind_eq_some_iff.1 h
  have hlength := length_of_seen htest
  obtain ⟨htp, hmid⟩ := expr_proper ht htest
  obtain ⟨⟨⟨body, close⟩, tail⟩, hbody, h⟩ := Option.bind_eq_some_iff.1 h
  have hshorter := length_of_seen hbody
  obtain ⟨hbp, htail⟩ := block_proper hmid hbody
  dsimp only at h
  cases hnext : continuation tail with
  | branch span after =>
    rw [hnext] at h
    obtain ⟨⟨b', rest'⟩, hb', heq⟩ := Option.map_eq_some_iff.1 h
    obtain ⟨other, rfl⟩ := of_continuation_branch hnext
    obtain ⟨hproper, hrest⟩ := branching_proper htail.tail.tail hb'
    cases heq
    exact ⟨⟨htp, hbp, hproper⟩, hrest⟩
  | final after =>
    rw [hnext] at h
    obtain ⟨⟨⟨final, close'⟩, rest'⟩, hfinal, heq⟩ := Option.map_eq_some_iff.1 h
    obtain ⟨other, rfl⟩ := of_continuation_final hnext
    obtain ⟨hproper, hrest⟩ := block_proper htail.tail hfinal
    cases heq
    exact ⟨⟨htp, hbp, hproper⟩, hrest⟩
  | nothing =>
    rw [hnext] at h
    cases h
    exact ⟨⟨htp, hbp, trivial⟩, htail⟩
termination_by 3 * toks.length
decreasing_by all_goals simp only [List.length_cons] at *; omega
theorem block_proper {toks rest : List Token} {b : Block} {close : Span} (ht : AllProper toks)
    (h : seen (block stop toks) = some ((b, close), rest)) : Block.Proper b ∧ AllProper rest := by
  have hcase := h
  rw [block.eq_def] at hcase
  generalize htoks : toks = ts at hcase
  have hcount := congrArg List.length htoks
  rw [htoks] at ht h
  split at hcase
  · rw [seen_block] at h
    exact statements_proper ht.tail h
  · rw [seen_fail] at hcase
    cases hcase
termination_by 3 * toks.length
decreasing_by simp only [List.length_cons] at hcount; omega
theorem statements_proper {toks rest : List Token} {b : Block} {close : Span} (ht : AllProper toks)
    (h : seen (statements stop toks) = some ((b, close), rest)) : Block.Proper b ∧ AllProper rest := by
  cases toks with
  | nil =>
    rw [statements] at h
    cases h
  | cons t tail =>
    by_cases hclose : t.lexeme = .mark .closeBrace
    · obtain ⟨l, span⟩ := t
      cases hclose
      rw [seen_statements_nil] at h
      cases h
      exact ⟨trivial, ht.tail⟩
    · rw [seen_statements_cons stop hclose] at h
      obtain ⟨⟨first, mid⟩, hfirst, h⟩ := Option.bind_eq_some_iff.1 h
      have hlength := length_of_seen hfirst
      obtain ⟨hfp, hmid⟩ := stmt_proper ht hfirst
      obtain ⟨⟨⟨more, close'⟩, rest'⟩, hmore, heq⟩ := Option.map_eq_some_iff.1 h
      obtain ⟨hmp, hrest⟩ := statements_proper hmid hmore
      cases heq
      exact ⟨⟨hfp, hmp⟩, hrest⟩
termination_by 3 * toks.length + 1
end

end PackScript.Grammar
