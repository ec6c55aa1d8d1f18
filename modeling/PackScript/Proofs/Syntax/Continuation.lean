import PackScript.Program.Parser

/-! # Reading with more tokens behind

A reader looks at most one token beyond what it reads. So tokens that are put behind the others
change nothing of an error that speaks of a token, and nothing of what was read, unless it could
have gone on: an expression may go on with an operator, a conditional with an alternative. What is
closed by its last token cannot go on.
-/
namespace PackScript.Grammar

variable {α β : Type} {toks toks' more more' us : List Token} {stop stop' : Span} {closed : Bool}

/-- `y` is what comes of the reading `x` with the tokens `us` put behind the others, for a construct that
its last token closes or not. -/
def Stands (us : List Token) (closed : Bool) (x : Except Failure (Reading toks α))
    (y : Except Failure (Reading toks' α)) : Prop :=
  match x with
  | .error f => f.incomplete = false → y = .error f
  | .ok r => closed = true ∨ r.rest ≠ [] →
    ∃ r', y = .ok r' ∧ r'.value = r.value ∧ r'.rest = r.rest ++ us

/-- Reading came to the end of the tokens without being closed by one. -/
def RunsOut (closed : Bool) (x : Except Failure (Reading toks α)) : Prop :=
  match x with
  | .error f => f.incomplete = true
  | .ok r => closed = false ∧ r.rest = []

theorem RunsOut.stands {x : Except Failure (Reading toks α)} (h : RunsOut closed x)
    (y : Except Failure (Reading toks' α)) : Stands us closed x y := by
  cases x with
  | error f =>
    intro hf
    rw [RunsOut, hf] at h
    cases h
  | ok r =>
    intro hr
    rcases hr with hr | hr
    · rw [h.1] at hr
      cases hr
    · exact absurd h.2 hr

theorem Stands.ok {v : α} {rest : List Token} (h : rest.length < toks.length)
    (h' : (rest ++ us).length < toks'.length) :
    Stands us closed (.ok (⟨v, rest, h⟩ : Reading toks α)) (.ok (⟨v, rest ++ us, h'⟩ : Reading toks' α)) :=
  fun _ => ⟨_, rfl, rfl, rfl⟩

theorem Stands.error (f : Failure) : Stands us closed (.error f : Except Failure (Reading toks α))
    (.error f : Except Failure (Reading toks' α)) := fun _ => rfl

/-- What is read behind `x` is read behind `y`, but for the case that `x` came to the end. -/
theorem Stands.bind {c : Bool} {x : Except Failure (Reading toks α)} {y : Except Failure (Reading toks' α)}
    {f : Reading toks α → Except Failure (Reading more β)}
    {g : Reading toks' α → Except Failure (Reading more' β)} (h : Stands us c x y)
    (hend : c = false → ∀ v h, RunsOut closed (f ⟨v, [], h⟩))
    (hmore : ∀ v rest h h', (c = false → rest ≠ []) →
      Stands us closed (f ⟨v, rest, h⟩) (g ⟨v, rest ++ us, h'⟩)) :
    Stands us closed (x >>= f) (y >>= g) := by
  cases x with
  | error e =>
    intro he
    rw [h he]
    rfl
  | ok r =>
    obtain ⟨v, rest, hr⟩ := r
    by_cases hne : c = true ∨ rest ≠ []
    · obtain ⟨⟨v', rest', hr'⟩, rfl, hv, hrest⟩ := h hne
      dsimp only at hv hrest
      subst hv hrest
      exact hmore v' rest hr hr' fun hc => hne.resolve_left (by rw [hc]; decide)
    · have hc : c = false := by
        cases c with
        | false => rfl
        | true => exact absurd (.inl rfl) hne
      have hrest : rest = [] := Classical.byContradiction fun hn => hne (.inr hn)
      subst hrest
      exact (hend hc v hr).stands _

theorem expect_stands (m : Mark) (what : Expectation) (toks : List Token) :
    Stands us true (expect stop m what toks) (expect stop' m what (toks ++ us)) := by
  cases toks with
  | nil => exact RunsOut.stands (x := expect stop m what []) rfl _
  | cons t rest =>
    rw [List.cons_append, expect, expect]
    by_cases ht : t.lexeme = .mark m
    · rw [if_pos ht, if_pos ht]
      exact Stands.ok _ _
    · rw [if_neg ht, if_neg ht]
      exact Stands.error _

theorem term_nil (stop : Span) : term stop [] = fail stop .invalidExpression [] := by
  rw [term.eq_def]

theorem expr_nil (stop : Span) : expr stop [] = fail stop .invalidExpression [] := by
  rw [expr, summand, term_nil]
  rfl

theorem args_nil (stop : Span) : args stop [] = fail stop .invalidExpression [] := by
  rw [args.eq_def]
  dsimp only
  rw [expr_nil]
  rfl

theorem moreArgs_nil (stop : Span) : moreArgs stop [] = fail stop (.expected .commaOrClosingParen) [] := by
  rw [moreArgs.eq_def]

mutual
theorem expr_stands (toks : List Token) : Stands us false (expr stop toks) (expr stop' (toks ++ us)) := by
  rw [expr, expr]
  refine (summand_stands toks).bind (fun _ v h => ⟨rfl, rfl⟩) fun v rest h h' hne => ?_
  cases rest with
  | nil => exact absurd rfl (hne rfl)
  | cons t rest =>
    have hlt : rest.length < toks.length := Nat.lt_of_succ_lt h
    obtain ⟨l, span⟩ := t
    cases l with
    | mark m =>
      cases m with
      | plus => exact (expr_stands rest).bind (fun _ v h => ⟨rfl, rfl⟩) fun v rest h h' _ => .ok _ _
      | _ => exact .ok _ _
    | _ => exact .ok _ _
termination_by 4 * toks.length + 2
theorem summand_stands (toks : List Token) :
    Stands us false (summand stop toks) (summand stop' (toks ++ us)) := by
  rw [summand, summand]
  refine (term_stands toks).bind (fun _ v h => ⟨rfl, rfl⟩) fun v rest h h' hne => ?_
  cases rest with
  | nil => exact absurd rfl (hne rfl)
  | cons t rest =>
    have hlt : rest.length < toks.length := Nat.lt_of_succ_lt h
    obtain ⟨l, span⟩ := t
    cases l with
    | mark m =>
      cases m with
      | star => exact (summand_stands rest).bind (fun _ v h => ⟨rfl, rfl⟩) fun v rest h h' _ => .ok _ _
      | _ => exact .ok _ _
    | _ => exact .ok _ _
termination_by 4 * toks.length + 1
theorem term_stands (toks : List Token) : Stands us false (term stop toks) (term stop' (toks ++ us)) := by
  cases toks with
  | nil =>
    rw [term_nil]
    exact RunsOut.stands (x := fail stop .invalidExpression []) rfl _
  | cons t rest =>
    obtain ⟨l, span⟩ := t
    rw [List.cons_append, term.eq_def stop, term.eq_def stop']
    cases l with
    | name n =>
      cases rest with
      | nil => exact RunsOut.stands (x := .ok (.single _)) ⟨rfl, rfl⟩ _
      | cons t rest =>
        obtain ⟨l', span'⟩ := t
        cases l' with
        | mark m =>
          cases m with
          | openParen =>
            refine (args_stands rest).bind (fun h => nomatch h) fun v rest h h' _ => ?_
            dsimp only
            cases checkArgs n v.1 with
            | error f => exact .error f
            | ok u => exact .ok _ _
          | _ => exact .ok _ _
        | _ => exact .ok _ _
    | number digits =>
      dsimp only
      cases Decimal.int32? digits with
      | none => exact .error _
      | some i => exact .ok _ _
    | string s => exact .ok _ _
    | keyword k =>
      cases k with
      | trueWord => exact .ok _ _
      | falseWord => exact .ok _ _
      | _ => exact .error _
    | mark m =>
      cases m with
      | openParen =>
        refine (expr_stands rest).bind (fun _ v h => rfl) fun v rest' h h' _ => ?_
        exact (expect_stands _ _ _).bind (fun h => nomatch h) fun v' rest'' h h' _ => .ok _ _
      | _ => exact .error _
    | _ => exact .error _
termination_by 4 * toks.length
theorem args_stands (toks : List Token) : Stands us true (args stop toks) (args stop' (toks ++ us)) := by
  cases toks with
  | nil =>
    rw [args_nil]
    exact RunsOut.stands (x := fail stop .invalidExpression []) rfl _
  | cons t rest =>
    by_cases ht : t.lexeme = .mark .closeParen
    · obtain ⟨l, span⟩ := t
      dsimp only at ht
      subst ht
      rw [List.cons_append, args, args]
      exact .ok _ _
    · have hclose (rest' : List Token) :
          ∀ span after, t :: rest' = ⟨.mark .closeParen, span⟩ :: after → False := by
        intro span after heq
        cases heq
        exact ht rfl
      rw [List.cons_append, args, args]
      · refine (expr_stands (t :: rest)).bind (fun _ v h => ?_) fun v rest' h h' _ => ?_
        · dsimp only
          rw [moreArgs_nil]
          rfl
        · have hlt : rest'.length < rest.length + 1 := h
          exact (moreArgs_stands rest').bind (fun h => nomatch h) fun v rest' h h' _ => .ok _ _
      · exact hclose _
      · exact hclose _
termination_by 4 * toks.length + 3
theorem moreArgs_stands (toks : List Token) :
    Stands us true (moreArgs stop toks) (moreArgs stop' (toks ++ us)) := by
  cases toks with
  | nil =>
    rw [moreArgs_nil]
    exact RunsOut.stands (x := fail stop (.expected .commaOrClosingParen) []) rfl _
  | cons t rest =>
    obtain ⟨l, span⟩ := t
    rw [List.cons_append, moreArgs.eq_def stop, moreArgs.eq_def stop']
    cases l with
    | mark m =>
      cases m with
      | closeParen => exact .ok _ _
      | comma =>
        refine (expr_stands rest).bind (fun _ v h => ?_) fun v rest' h h' _ => ?_
        · dsimp only
          rw [moreArgs_nil]
          rfl
        · exact (moreArgs_stands rest').bind (fun h => nomatch h) fun v rest' h h' _ => .ok _ _
      | _ => exact .error _
    | _ => exact .error _
termination_by 4 * toks.length
end

theorem typing_stands (toks : List Token) :
    Stands us true (typing stop toks) (typing stop' (toks ++ us)) := by
  cases toks with
  | nil => exact RunsOut.stands (x := typing stop []) rfl _
  | cons t rest =>
    obtain ⟨l, span⟩ := t
    cases l with
    | name n =>
      rw [List.cons_append, typing, typing]
      cases (if n.isStatic then Typing.ofAnnotation? n.text else none) with
      | none => exact .error _
      | some ty => exact .ok _ _
    | _ => exact .error _

theorem assigned_stands (start : Span) (target : Name) (ty : Typing) (declare : Bool) (toks : List Token) :
    Stands us true (assigned stop start target ty declare toks)
      (assigned stop' start target ty declare (toks ++ us)) := by
  rw [assigned, assigned]
  refine (expr_stands toks).bind (fun _ v h => rfl) fun v rest h h' _ => ?_
  refine (expect_stands _ _ _).bind (fun h => nomatch h) fun semi rest' h h' _ => ?_
  dsimp only
  cases target.isStatic && !v.isStatic with
  | true => exact .error _
  | false => exact .ok _ _

theorem annotatedAssignment_stands (start : Span) (target : Name) (toks : List Token) :
    Stands us true (annotatedAssignment stop start target toks)
      (annotatedAssignment stop' start target (toks ++ us)) := by
  rw [annotatedAssignment, annotatedAssignment]
  refine (typing_stands toks).bind (fun h => nomatch h) fun ty rest h h' _ => ?_
  refine (expect_stands _ _ _).bind (fun h => nomatch h) fun op rest' h h' _ => ?_
  exact (assigned_stands start target ty true rest').bind (fun h => nomatch h) fun v rest h h' _ => .ok _ _

theorem param_stands (owner : Name) (seen : List Param) (toks : List Token) :
    Stands us false (param stop owner seen toks) (param stop' owner seen (toks ++ us)) := by
  cases toks with
  | nil => exact RunsOut.stands (x := param stop owner seen []) rfl _
  | cons t rest =>
    obtain ⟨l, span⟩ := t
    cases l with
    | name n =>
      unfold param
      dsimp only [List.cons_append]
      by_cases howner : (owner.isStatic && n.dynamic) = true
      · rw [if_pos howner, if_pos howner]
        exact .error _
      rw [if_neg howner, if_neg howner]
      by_cases hseen : (seen.any fun p => p.name = n) = true
      · rw [if_pos hseen, if_pos hseen]
        exact .error _
      rw [if_neg hseen, if_neg hseen]
      cases rest with
      | nil => exact RunsOut.stands (x := .ok (.single _)) ⟨rfl, rfl⟩ _
      | cons t rest =>
        obtain ⟨l', span'⟩ := t
        cases l' with
        | mark m =>
          cases m with
          | colon => exact (typing_stands rest).bind (fun h => nomatch h) fun v rest h h' _ => .ok _ _
          | _ => exact .ok _ _
        | _ => exact .ok _ _
    | _ => exact .error _

theorem params_nil (owner : Name) (seen : List Param) (p : Param) :
    params stop owner (seen ++ [p]) [] = fail stop (.expected .commaOrClosingParen) [] := by
  rw [params.eq_def]
  dsimp only
  rw [if_neg (by simp)]
  rfl

theorem params_stands (owner : Name) (seen : List Param) (toks : List Token) :
    Stands us true (params stop owner seen toks) (params stop' owner seen (toks ++ us)) := by
  by_cases hclose : ∃ span rest, toks = ⟨.mark .closeParen, span⟩ :: rest
  · obtain ⟨span, rest, rfl⟩ := hclose
    rw [List.cons_append, params, params]
    exact .ok _ _
  cases toks with
  | nil =>
    have hnil : RunsOut true (params stop owner seen []) := by
      rw [params.eq_def]
      dsimp only
      split <;> rfl
    exact hnil.stands _
  | cons t rest =>
    rw [List.cons_append, params, params]
    · split
      · refine (param_stands owner seen (t :: rest)).bind (fun _ p h => ?_) fun p rest' h h' _ => ?_
        · dsimp only
          rw [params_nil]
          rfl
        · have hlt : rest'.length < rest.length + 1 := h
          exact (params_stands owner (seen ++ [p]) rest').bind (fun h => nomatch h) fun v rest h h' _ => .ok _ _
      · refine (expect_stands _ _ (t :: rest)).bind (fun h => nomatch h) fun comma rest' h h' _ => ?_
        refine (param_stands owner seen rest').bind (fun _ p h => ?_) fun p rest'' hp h' _ => ?_
        · dsimp only
          rw [params_nil]
          rfl
        · have hlt : rest''.length < rest.length + 1 := Nat.lt_trans hp h
          exact (params_stands owner (seen ++ [p]) rest'').bind (fun h => nomatch h) fun v rest h h' _ => .ok _ _
    · rintro span after heq
      cases heq
      exact hclose ⟨_, _, rfl⟩
    · rintro span after heq
      cases heq
      exact hclose ⟨_, _, rfl⟩
termination_by toks.length

theorem signature_stands (toks : List Token) :
    Stands us true (signature stop toks) (signature stop' (toks ++ us)) := by
  cases toks with
  | nil => exact RunsOut.stands (x := signature stop []) rfl _
  | cons t rest =>
    obtain ⟨l, span⟩ := t
    cases l with
    | name n =>
      rw [List.cons_append, signature, signature]
      refine (expect_stands _ _ _).bind (fun h => nomatch h) fun paren rest' h h' _ => ?_
      exact (params_stands n [] rest').bind (fun h => nomatch h) fun v rest h h' _ => .ok _ _
    | _ => exact .error _

theorem block_nil (stop : Span) : block stop [] = fail stop (.expected .openingBrace) [] := by
  rw [block.eq_def]

theorem statements_nil (stop : Span) : statements stop [] = fail stop (.expected .closingBrace) [] := by
  rw [statements.eq_def]

mutual
theorem stmt_stands (toks : List Token) : Stands us false (stmt stop toks) (stmt stop' (toks ++ us)) := by
  cases toks with
  | nil =>
    have hnil : RunsOut false (stmt stop []) := by
      rw [stmt.eq_def]
      rfl
    exact hnil.stands _
  | cons t rest =>
    obtain ⟨l, span⟩ := t
    rw [List.cons_append, stmt.eq_def stop, stmt.eq_def stop']
    cases l with
    | command line =>
      dsimp only
      cases command span line with
      | error f => exact .error _
      | ok s => exact .ok _ _
    | keyword k =>
      cases k with
      | ifWord => exact (branching_stands rest).bind (fun _ v h => ⟨rfl, rfl⟩) fun v rest h h' _ => .ok _ _
      | defWord =>
        refine (signature_stands rest).bind (fun h => nomatch h) fun sig rest' h h' _ => ?_
        refine (block_stands rest').bind (fun h => nomatch h) fun v rest h h' _ => ?_
        dsimp only
        cases checkBody sig v.1 with
        | error f => exact .error _
        | ok u => exact .ok _ _
      | returnWord =>
        refine (expr_stands rest).bind (fun _ v h => rfl) fun v rest h h' _ => ?_
        exact (expect_stands _ _ _).bind (fun h => nomatch h) fun v rest h h' _ => .ok _ _
      | _ => exact .error _
    | name n =>
      cases rest with
      | nil => exact RunsOut.stands (x := fail stop (.expected (.useOf n)) []) rfl _
      | cons t rest =>
        obtain ⟨l', span'⟩ := t
        cases l' with
        | mark m =>
          cases m with
          | colon =>
            exact (annotatedAssignment_stands span n rest).bind (fun h => nomatch h) fun v rest h h' _ => .ok _ _
          | assign =>
            exact (assigned_stands span n _ _ rest).bind (fun h => nomatch h) fun v rest h h' _ => .ok _ _
          | equals =>
            exact (assigned_stands span n _ _ rest).bind (fun h => nomatch h) fun v rest h h' _ => .ok _ _
          | openParen =>
            refine (args_stands rest).bind (fun h => nomatch h) fun v rest h h' _ => ?_
            dsimp only
            cases checkArgs n v.1 with
            | error f => exact .error f
            | ok u => exact (expect_stands _ _ _).bind (fun h => nomatch h) fun v rest h h' _ => .ok _ _
          | _ => exact .error _
        | _ => exact .error _
    | mark m =>
      cases m with
      | closeBrace => exact .error _
      | _ => exact .error _
    | _ => exact .error _
termination_by 3 * toks.length
theorem branching_stands (toks : List Token) :
    Stands us false (branching stop toks) (branching stop' (toks ++ us)) := by
  rw [branching, branching]
  refine (expr_stands toks).bind (fun _ v h => ?_) fun test rest h h' _ => ?_
  · dsimp only
    rw [block_nil]
    rfl
  refine (block_stands rest).bind (fun h => nomatch h) fun body rest' hb hb' _ => ?_
  -- A closing brace at the end may still be followed by an alternative.
  cases rest' with
  | nil => exact RunsOut.stands (x := .ok ⟨_, [], Nat.lt_trans hb h⟩) ⟨rfl, rfl⟩ _
  | cons t rest' =>
    have hlt : rest'.length < toks.length := Nat.lt_of_succ_lt (Nat.lt_trans hb h)
    obtain ⟨l, span⟩ := t
    cases l with
    | keyword k =>
      cases k with
      | elseWord =>
        cases rest' with
        | nil =>
          dsimp only
          rw [block_nil]
          exact RunsOut.stands (x := fail stop (.expected .openingBrace) []) rfl _
        | cons t rest' =>
          have hlt : rest'.length + 1 < toks.length := hlt
          obtain ⟨l, span'⟩ := t
          cases l with
          | keyword k =>
            cases k with
            | ifWord => exact (branching_stands rest').bind (fun _ v h => ⟨rfl, rfl⟩) fun v rest h h' _ => .ok _ _
            | _ => exact (block_stands (_ :: rest')).bind (fun h => nomatch h) fun v rest h h' _ => .ok _ _
          | _ => exact (block_stands (_ :: rest')).bind (fun h => nomatch h) fun v rest h h' _ => .ok _ _
      | _ => exact .ok _ _
    | _ => exact .ok _ _
termination_by 3 * toks.length
theorem block_stands (toks : List Token) : Stands us true (block stop toks) (block stop' (toks ++ us)) := by
  cases toks with
  | nil =>
    rw [block_nil]
    exact RunsOut.stands (x := fail stop (.expected .openingBrace) []) rfl _
  | cons t rest =>
    obtain ⟨l, span⟩ := t
    rw [List.cons_append, block.eq_def stop, block.eq_def stop']
    cases l with
    | mark m =>
      cases m with
      | openBrace => exact (statements_stands rest).bind (fun h => nomatch h) fun v rest h h' _ => .ok _ _
      | _ => exact .error _
    | _ => exact .error _
termination_by 3 * toks.length
theorem statements_stands (toks : List Token) :
    Stands us true (statements stop toks) (statements stop' (toks ++ us)) := by
  by_cases hclose : ∃ span rest, toks = ⟨.mark .closeBrace, span⟩ :: rest
  · obtain ⟨span, rest, rfl⟩ := hclose
    rw [List.cons_append, statements, statements]
    exact .ok _ _
  cases toks with
  | nil =>
    rw [statements_nil]
    exact RunsOut.stands (x := fail stop (.expected .closingBrace) []) rfl _
  | cons t rest =>
    rw [List.cons_append, statements, statements]
    · refine (stmt_stands (t :: rest)).bind (fun _ v h => ?_) fun v rest' h h' _ => ?_
      · dsimp only
        rw [statements_nil]
        rfl
      · have hlt : rest'.length < rest.length + 1 := h
        exact (statements_stands rest').bind (fun h => nomatch h) fun v rest h h' _ => .ok _ _
    · exact List.cons_ne_nil _ _
    · intro span after heq
      cases heq
      exact hclose ⟨_, _, rfl⟩
    · exact List.cons_ne_nil _ _
    · intro span after heq
      cases heq
      exact hclose ⟨_, _, rfl⟩
termination_by 3 * toks.length + 1
end

/-- An error that speaks of a token of the program is not mended by tokens behind it. -/
theorem wholeBlock_error_append {f : Failure} (toks : List Token) (h : wholeBlock stop toks = .error f)
    (hf : f.incomplete = false) : wholeBlock stop' (toks ++ us) = .error f := by
  cases toks with
  | nil =>
    rw [wholeBlock] at h
    cases h
  | cons t rest =>
    have hstands : Stands us false (stmt stop (t :: rest)) (stmt stop' (t :: (rest ++ us))) :=
      stmt_stands (t :: rest)
    rw [wholeBlock] at h
    rw [List.cons_append, wholeBlock]
    cases hstmt : stmt stop (t :: rest) with
    | error e =>
      rw [hstmt] at h hstands
      cases h
      rw [hstands hf]
      rfl
    | ok r =>
      rw [hstmt] at h hstands
      have hlt : r.rest.length < rest.length + 1 := r.shorter
      cases hmore : wholeBlock stop r.rest with
      | ok b =>
        dsimp only [Bind.bind, Except.bind] at h
        rw [hmore] at h
        cases h
      | error e =>
        have he : e = f := by
          dsimp only [Bind.bind, Except.bind] at h
          rw [hmore] at h
          cases h
          rfl
        have hne : r.rest ≠ [] := by
          intro hnil
          rw [hnil, wholeBlock] at hmore
          cases hmore
        obtain ⟨r', hr', -, hrest⟩ := hstands (.inr hne)
        rw [hr']
        dsimp only [Bind.bind, Except.bind]
        rw [hrest, wholeBlock_error_append r.rest (hmore.trans (congrArg _ he)) hf]
termination_by toks.length

end PackScript.Grammar
