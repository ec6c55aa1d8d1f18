import PackScript.Proofs.Syntax.StmtDerivation

/-! # What the readers do with their tokens

A reader of the grammar has two ways to end, whatever tokens it is given. It takes tokens off the front,
at least one, and what it makes of them is placed on them. Or it refuses, and its error has a place
among the tokens: it is at the end of the text, or it covers some of the tokens, one after the other, or
it comes from the line of a command. Nothing else goes wrong while a program is read.
-/
namespace PackScript.Grammar

variable {α β : Type} {toks more all used us mid rest : List Token} {stop start close : Span} {lines : Bool}
  {t : Token} {e : Expr} {s : Stmt} {f : Failure}

/-- An error about the tokens `all` of a text that ends at `stop`. An expression is never refused for
the line of a command: `lines` says whether the line is looked at. -/
inductive Refused (stop : Span) (all : List Token) (lines : Bool) : Failure → Prop
  | atEnd (cause : Cause) : Refused stop all lines (.diagnostic ⟨cause, stop, true⟩)
  | tokens {used : List Token} (hne : used ≠ []) (hused : used <:+: all) (cause : Cause) :
      Refused stop all lines (.ofCause (Token.extent used) cause)
  | command {line : Bytes} {span : Span} {f : Failure} (hlines : lines = true)
      (hmem : ⟨.command line, span⟩ ∈ all) (h : Grammar.command span line = .error f) : Refused stop all lines f

theorem Refused.token (h : t :: rest <:+ all) (cause : Cause) : Refused stop all lines (.ofCause t.span cause) := by
  have hone : [t] <:+: all := List.IsInfix.trans ⟨[], rest, rfl⟩ h.isInfix
  rw [← Token.extent_singleton]
  exact .tokens (List.cons_ne_nil _ _) hone cause

/-! ## Taken tokens -/

/-- The tokens in front of `rest`, of which there is at least one. -/
structure Took (toks used rest : List Token) : Prop where
  ne_nil : used ≠ []
  eq : toks = used ++ rest

namespace Took

theorem one (t : Token) (rest : List Token) : Took (t :: rest) [t] rest := ⟨List.cons_ne_nil _ _, rfl⟩

theorem skip (h : Took toks used rest) (t : Token) : Took (t :: toks) (t :: used) rest :=
  ⟨List.cons_ne_nil _ _, congrArg (t :: ·) h.eq⟩

theorem trans (h : Took toks used mid) (h' : Took mid us rest) : Took toks (used ++ us) rest :=
  ⟨List.append_ne_nil_of_left_ne_nil h.ne_nil us, by rw [h.eq, h'.eq, List.append_assoc]⟩

theorem isSuffix (h : Took toks used rest) (hall : toks <:+ all) : rest <:+ all :=
  List.IsSuffix.trans ⟨used, h.eq.symm⟩ hall

theorem isInfix (h : Took toks used rest) (hall : toks <:+ all) : used <:+: all :=
  List.IsInfix.trans ⟨[], rest, h.eq.symm⟩ hall.isInfix

end Took

/-- A reader that was given `toks` took some of them, and they are as `made` says for what it made of
them; or its error is about `all`. -/
def Minds (stop : Span) (all : List Token) (lines : Bool) (made : List Token → α → Prop)
    (x : Except Failure (Reading toks α)) : Prop :=
  match x with
  | .error f => Refused stop all lines f
  | .ok r => ∃ used, Took toks used r.rest ∧ made used r.value

theorem Minds.ok {made : List Token → α → Prop} {r : Reading toks α} (h : Took toks used r.rest)
    (hmade : made used r.value) : Minds stop all lines made (.ok r) := ⟨used, h, hmade⟩

theorem Minds.bind {made : List Token → α → Prop} {made' : List Token → β → Prop}
    {x : Except Failure (Reading toks α)} {f : Reading toks α → Except Failure (Reading more β)}
    (h : Minds stop all lines made x) (hf : ∀ used v rest hlt, Took toks used rest → made used v →
      Minds stop all lines made' (f ⟨v, rest, hlt⟩)) : Minds stop all lines made' (x >>= f) := by
  cases x with
  | error e => exact h
  | ok r =>
    obtain ⟨used, htook, hmade⟩ := h
    exact hf used r.value r.rest r.shorter htook hmade

/-- A check between two readings. -/
theorem Minds.check {made : List Token → α → Prop} {u : Except Failure Unit}
    {k : Unit → Except Failure (Reading toks α)} (hu : ∀ f, u = .error f → Refused stop all lines f)
    (hk : Minds stop all lines made (k ())) : Minds stop all lines made (u >>= k) := by
  cases u with
  | error f => exact hu f rfl
  | ok _ => exact hk

theorem fail_minds {made : List Token → α → Prop} (h : toks <:+ all) (cause : Cause) :
    Minds stop all lines made (fail stop cause toks : Except Failure (Reading more α)) := by
  cases toks with
  | nil => exact .atEnd cause
  | cons t rest => exact .token h cause

theorem expect_minds (h : toks <:+ all) (m : Mark) (what : Expectation) :
    Minds stop all lines EndsAt (expect stop m what toks) := by
  cases toks with
  | nil => exact .atEnd _
  | cons t rest =>
    rw [expect]
    split
    · exact .ok (.one t rest) ⟨[], t.lexeme, rfl⟩
    · exact fail_minds h _

/-! ## Places -/

/-- What was read stands on its tokens. -/
def Placed (place : α → Span) (used : List Token) (a : α) : Prop := place a = Token.extent used

theorem Placed.single {place : α → Span} {a : α} (h : place a = t.span) : Placed place [t] a :=
  h.trans (Token.extent_singleton t).symm

theorem EndsAt.cons (h : EndsAt used close) (t : Token) : EndsAt (t :: used) close := h.append [t]

theorem EndsAt.placed {place : α → Span} {a : α} (h : EndsAt used close) (ha : place a = t.span.through close) :
    Placed place (t :: used) a := ha.trans (h.extent t).symm

/-- Items up to a closing token: each stands on some of the tokens in front of it. -/
structure Enclosed (place : α → Span) (used : List Token) (r : List α × Span) : Prop where
  close : EndsAt used r.2
  items : ∀ a ∈ r.1, ∃ us, us ≠ [] ∧ us <:+: used ∧ Placed place us a

namespace Enclosed

variable {place : α → Span} {a : α} {as : List α} {r : List α × Span}

theorem nil (t : Token) : Enclosed place [t] ([], t.span) := ⟨⟨[], t.lexeme, rfl⟩, List.forall_mem_nil _⟩

theorem append (h : Enclosed place used r) (us : List Token) : Enclosed place (us ++ used) r := by
  refine ⟨h.close.append us, fun a ha => ?_⟩
  obtain ⟨ws, hne, hin, hplace⟩ := h.items a ha
  exact ⟨ws, hne, hin.trans (List.suffix_append us used).isInfix, hplace⟩

theorem cons (hne : us ≠ []) (ha : Placed place us a) (h : Enclosed place used (as, close)) :
    Enclosed place (us ++ used) (a :: as, close) := by
  obtain ⟨hclose, hitems⟩ := h.append us
  refine ⟨hclose, List.forall_mem_cons.2 ⟨⟨us, hne, (List.prefix_append us used).isInfix, ha⟩, hitems⟩⟩

theorem refused (h : Enclosed place used r) (hin : used <:+: all) (ha : a ∈ r.1) (cause : Cause) :
    Refused stop all lines (.ofCause (place a) cause) := by
  obtain ⟨us, hne, hus, hplace⟩ := h.items a ha
  rw [hplace]
  exact .tokens hne (hus.trans hin) cause

end Enclosed

/-- Arguments that were read can be refused only for one of them. -/
theorem checkArgs_refused {n : Name} {es : List Expr} (hes : Enclosed Expr.span used (es, close)) (hin : used <:+: all)
    (h : checkArgs n es = .error f) : Refused stop all lines f := by
  rw [checkArgs] at h
  split at h
  · rename_i a ha
    cases h
    split at ha
    · exact hes.refused hin (List.mem_of_find?_eq_some ha) _
    · cases ha
  · cases h

/-- A body that was read can be refused only for one of its statements. -/
theorem checkBody_refused {sig : Signature} {b : Block} (hb : Enclosed Stmt.span used (b, close)) (hin : used <:+: all)
    (h : checkBody sig b = .error f) : Refused stop all lines f := by
  rw [checkBody] at h
  split at h
  · rename_i s hs
    cases h
    split at hs
    · exact hb.refused hin (List.mem_of_find?_eq_some hs) _
    · cases hs
  · cases h

/-! ## Expressions -/

theorem Placed.between {l r : Expr} (hl : Placed Expr.span used l) (hr : Placed Expr.span us r) (hne : used ≠ [])
    (hne' : us ≠ []) (t : Token) (he : e.span = l.span.through r.span) : Placed Expr.span (used ++ t :: us) e := by
  rw [Placed, he, hl, hr, Token.extent_between hne hne']

mutual
theorem expr_minds (toks : List Token) (h : toks <:+ all) : Minds stop all lines (Placed Expr.span) (expr stop toks) := by
  rw [expr]
  refine (summand_minds toks h).bind fun used v rest hlt htook hv => ?_
  cases rest with
  | nil => exact .ok htook hv
  | cons t rest =>
    have hlt : rest.length < toks.length := Nat.lt_of_succ_lt hlt
    have hrest := (List.suffix_cons t rest).trans (htook.isSuffix h)
    obtain ⟨l, span⟩ := t
    cases l with
    | mark m =>
      cases m with
      | plus =>
        refine (expr_minds rest hrest).bind fun us w rest' hlt' htook' hw => ?_
        exact .ok (htook.trans (htook'.skip _)) (hv.between hw htook.ne_nil htook'.ne_nil _ rfl)
      | _ => exact .ok htook hv
    | _ => exact .ok htook hv
termination_by 4 * toks.length + 2
decreasing_by all_goals omega
theorem summand_minds (toks : List Token) (h : toks <:+ all) :
    Minds stop all lines (Placed Expr.span) (summand stop toks) := by
  rw [summand]
  refine (term_minds toks h).bind fun used v rest hlt htook hv => ?_
  cases rest with
  | nil => exact .ok htook hv
  | cons t rest =>
    have hlt : rest.length < toks.length := Nat.lt_of_succ_lt hlt
    have hrest := (List.suffix_cons t rest).trans (htook.isSuffix h)
    obtain ⟨l, span⟩ := t
    cases l with
    | mark m =>
      cases m with
      | star =>
        refine (summand_minds rest hrest).bind fun us w rest' hlt' htook' hw => ?_
        exact .ok (htook.trans (htook'.skip _)) (hv.between hw htook.ne_nil htook'.ne_nil _ rfl)
      | _ => exact .ok htook hv
    | _ => exact .ok htook hv
termination_by 4 * toks.length + 1
decreasing_by all_goals omega
theorem term_minds (toks : List Token) (h : toks <:+ all) : Minds stop all lines (Placed Expr.span) (term stop toks) := by
  cases toks with
  | nil =>
    rw [term.eq_def]
    exact fail_minds h _
  | cons t rest =>
    have hrest := (List.suffix_cons t rest).trans h
    obtain ⟨l, span⟩ := t
    rw [term.eq_def]
    cases l with
    | name n =>
      cases rest with
      | nil => exact .ok (.one _ _) (.single rfl)
      | cons t rest =>
        have hbehind := (List.suffix_cons t rest).trans hrest
        obtain ⟨l', span'⟩ := t
        cases l' with
        | mark m =>
          cases m with
          | openParen =>
            refine (args_minds rest hbehind).bind fun used v rest' hlt htook hv => ?_
            refine Minds.check (fun f hf => checkArgs_refused hv (htook.isInfix hbehind) hf) ?_
            exact .ok ((htook.skip _).skip _) ((hv.close.cons _).placed rfl)
          | _ => exact .ok (.one _ _) (.single rfl)
        | _ => exact .ok (.one _ _) (.single rfl)
    | number digits =>
      dsimp only
      cases Decimal.int32? digits with
      | none => exact .token h _
      | some i => exact .ok (.one _ _) (.single rfl)
    | string s => exact .ok (.one _ _) (.single rfl)
    | keyword k =>
      cases k with
      | trueWord => exact .ok (.one _ _) (.single rfl)
      | falseWord => exact .ok (.one _ _) (.single rfl)
      | _ => exact fail_minds h _
    | mark m =>
      cases m with
      | openParen =>
        refine (expr_minds rest hrest).bind fun used v rest' hlt htook hv => ?_
        refine (expect_minds (htook.isSuffix hrest) _ _).bind fun us close rest'' hlt' htook' hclose => ?_
        exact .ok ((htook.trans htook').skip _) ((hclose.append used).placed rfl)
      | _ => exact fail_minds h _
    | _ => exact fail_minds h _
termination_by 4 * toks.length
decreasing_by all_goals subst_vars; simp only [List.length_cons]; omega
theorem args_minds (toks : List Token) (h : toks <:+ all) :
    Minds stop all lines (Enclosed Expr.span) (args stop toks) := by
  by_cases hclose : ∃ span rest, toks = ⟨.mark .closeParen, span⟩ :: rest
  · obtain ⟨span, rest, rfl⟩ := hclose
    rw [args]
    exact .ok (.one _ _) (.nil _)
  rw [args]
  · refine (expr_minds toks h).bind fun used v rest hlt htook hv => ?_
    refine (moreArgs_minds rest (htook.isSuffix h)).bind fun us r rest' hlt' htook' hr => ?_
    exact .ok (htook.trans htook') (hr.cons htook.ne_nil hv)
  · intro span after heq
    exact hclose ⟨span, after, heq⟩
termination_by 4 * toks.length + 3
decreasing_by all_goals omega
theorem moreArgs_minds (toks : List Token) (h : toks <:+ all) :
    Minds stop all lines (Enclosed Expr.span) (moreArgs stop toks) := by
  cases toks with
  | nil =>
    rw [moreArgs.eq_def]
    exact fail_minds h _
  | cons t rest =>
    have hrest := (List.suffix_cons t rest).trans h
    obtain ⟨l, span⟩ := t
    rw [moreArgs.eq_def]
    cases l with
    | mark m =>
      cases m with
      | closeParen => exact .ok (.one _ _) (.nil _)
      | comma =>
        refine (expr_minds rest hrest).bind fun used v rest' hlt htook hv => ?_
        have hlt : rest'.length < rest.length + 1 := Nat.lt_succ_of_lt hlt
        refine (moreArgs_minds rest' (htook.isSuffix hrest)).bind fun us r rest'' hlt' htook' hr => ?_
        exact .ok ((htook.trans htook').skip _) ((hr.cons htook.ne_nil hv).append [_])
      | _ => exact fail_minds h _
    | _ => exact fail_minds h _
termination_by 4 * toks.length
decreasing_by all_goals subst_vars; simp only [List.length_cons]; omega
end

theorem wholeExpr_refused {stream : TokenStream} (h : wholeExpr stream = .error f) :
    Refused stream.stop stream.tokens false f := by
  have hminds : Minds stream.stop stream.tokens false (Placed Expr.span) (Grammar.expr stream.stop stream.tokens) :=
    expr_minds stream.tokens List.suffix_rfl
  rw [wholeExpr] at h
  cases hexpr : Grammar.expr stream.stop stream.tokens with
  | error f' =>
    rw [hexpr] at h hminds
    cases h
    exact hminds
  | ok r =>
    rw [hexpr] at h hminds
    obtain ⟨used, htook, -⟩ := hminds
    obtain ⟨v, rest, hlt⟩ := r
    cases rest with
    | nil => cases h
    | cons t rest =>
      cases h
      exact .token (htook.isSuffix List.suffix_rfl) _

/-! ## Signatures -/

theorem typing_minds (h : toks <:+ all) : Minds stop all lines (fun _ _ => True) (typing stop toks) := by
  cases toks with
  | nil => exact fail_minds h _
  | cons t rest =>
    obtain ⟨l, span⟩ := t
    cases l with
    | name n =>
      rw [typing]
      cases (if n.isStatic then Typing.ofAnnotation? n.text else none) with
      | none => exact .token h _
      | some ty => exact .ok (.one _ _) trivial
    | _ => exact fail_minds h _

theorem param_minds (owner : Name) (ps : List Param) (h : toks <:+ all) :
    Minds stop all lines (fun _ _ => True) (param stop owner ps toks) := by
  unfold param
  split
  · next n span rest =>
    have hrest := (List.suffix_cons ⟨.name n, span⟩ rest).trans h
    split
    · exact .token h _
    split
    · exact .token h _
    split
    · next colon after =>
      have hafter := (List.suffix_cons ⟨.mark .colon, colon⟩ after).trans hrest
      refine (typing_minds hafter).bind fun used ty rest' hlt htook _ => ?_
      exact .ok ((htook.skip _).skip _) trivial
    · exact .ok (.one _ _) trivial
  · exact fail_minds h _

theorem params_minds (owner : Name) (ps : List Param) (toks : List Token) (h : toks <:+ all) :
    Minds stop all lines (fun _ _ => True) (params stop owner ps toks) := by
  by_cases hclose : ∃ span rest, toks = ⟨.mark .closeParen, span⟩ :: rest
  · obtain ⟨span, rest, rfl⟩ := hclose
    rw [params]
    exact .ok (.one _ _) trivial
  rw [params]
  · split
    · refine (param_minds owner ps h).bind fun used p rest hlt htook _ => ?_
      refine (params_minds owner (ps ++ [p]) rest (htook.isSuffix h)).bind fun us qs rest' hlt' htook' _ => ?_
      exact .ok (htook.trans htook') trivial
    · refine (expect_minds h _ _).bind fun cs comma mid hmid hcomma _ => ?_
      refine (param_minds owner ps (hcomma.isSuffix h)).bind fun used p rest hlt htook _ => ?_
      have hlt : rest.length < toks.length := Nat.lt_trans hlt hmid
      refine (params_minds owner (ps ++ [p]) rest (htook.isSuffix (hcomma.isSuffix h))).bind
        fun us qs rest' hlt' htook' _ => ?_
      exact .ok (hcomma.trans (htook.trans htook')) trivial
  · intro span after heq
    exact hclose ⟨span, after, heq⟩
termination_by toks.length

theorem signature_minds (h : toks <:+ all) : Minds stop all lines (fun _ _ => True) (signature stop toks) := by
  cases toks with
  | nil => exact fail_minds h _
  | cons t rest =>
    have hrest := (List.suffix_cons t rest).trans h
    obtain ⟨l, span⟩ := t
    cases l with
    | name n =>
      rw [signature]
      refine (expect_minds hrest _ _).bind fun used paren mid hlt htook _ => ?_
      refine (params_minds n [] mid (htook.isSuffix hrest)).bind fun us ps rest' hlt' htook' _ => ?_
      exact .ok ((htook.trans htook').skip _) trivial
    | _ => exact fail_minds h _

/-! ## Statements -/

/-- A statement that began at `start` ends with the tokens. -/
def StmtFrom (start : Span) (used : List Token) (s : Stmt) : Prop := ∃ last, EndsAt used last ∧ s.span = start.through last

theorem StmtFrom.append (h : StmtFrom start used s) (us : List Token) : StmtFrom start (us ++ used) s := by
  obtain ⟨last, hlast, hspan⟩ := h
  exact ⟨last, hlast.append us, hspan⟩

theorem StmtFrom.placed (h : StmtFrom t.span used s) : Placed Stmt.span (t :: used) s := by
  obtain ⟨last, hlast, hspan⟩ := h
  exact hlast.placed hspan

theorem span_of_command {span : Span} {line : Bytes} (h : command span line = .ok s) : s.span = span := by
  rw [command] at h
  cases hh : holes span 1 line with
  | error f =>
    rw [hh] at h
    cases h
  | ok r =>
    rw [hh] at h
    cases h
    rfl

theorem assigned_minds (h : toks <:+ all) (start : Span) (target : Name) (ty : Typing) (declare : Bool) :
    Minds stop all lines (StmtFrom start) (assigned stop start target ty declare toks) := by
  rw [assigned]
  refine (expr_minds toks h).bind fun used v rest hlt htook hv => ?_
  refine (expect_minds (htook.isSuffix h) _ _).bind fun us semi rest' hlt' htook' hsemi => ?_
  dsimp only
  split
  · change Refused stop all lines (.ofCause v.span _)
    rw [hv]
    exact .tokens htook.ne_nil (htook.isInfix h) _
  · exact .ok (htook.trans htook') ⟨semi, hsemi.append used, rfl⟩

theorem annotatedAssignment_minds (h : toks <:+ all) (start : Span) (target : Name) :
    Minds stop all lines (StmtFrom start) (annotatedAssignment stop start target toks) := by
  rw [annotatedAssignment]
  refine (typing_minds h).bind fun used ty rest hlt htook _ => ?_
  have hrest := htook.isSuffix h
  refine (expect_minds hrest _ _).bind fun us op rest' hlt' htook' _ => ?_
  refine (assigned_minds (htook'.isSuffix hrest) start target ty true).bind fun ws s rest'' hlt'' htook'' hs => ?_
  exact .ok (htook.trans (htook'.trans htook'')) ((hs.append us).append used)

mutual
theorem stmt_minds (toks : List Token) (h : toks <:+ all) : Minds stop all true (Placed Stmt.span) (stmt stop toks) := by
  cases toks with
  | nil =>
    rw [stmt.eq_def]
    exact fail_minds h _
  | cons t rest =>
    have hrest := (List.suffix_cons t rest).trans h
    obtain ⟨l, span⟩ := t
    rw [stmt.eq_def]
    cases l with
    | command line =>
      dsimp only
      cases hc : Grammar.command span line with
      | error f => exact .command rfl (h.mem List.mem_cons_self) hc
      | ok s =>
        exact .ok (.one _ _) (.single (span_of_command hc))
    | keyword k =>
      cases k with
      | ifWord =>
        refine (branching_minds rest hrest).bind fun used b rest' hlt htook hb => ?_
        exact .ok (htook.skip _) (hb.placed rfl)
      | defWord =>
        refine (signature_minds hrest).bind fun used sig rest' hlt htook _ => ?_
        have hlt : rest'.length < rest.length + 1 := Nat.lt_succ_of_lt hlt
        have hrest' := htook.isSuffix hrest
        refine (block_minds rest' hrest').bind fun us r rest'' hlt' htook' hr => ?_
        refine Minds.check (fun f hf => checkBody_refused hr (htook'.isInfix hrest') hf) ?_
        exact .ok ((htook.trans htook').skip _) ((hr.close.append used).placed rfl)
      | returnWord =>
        refine (expr_minds rest hrest).bind fun used v rest' hlt htook _ => ?_
        refine (expect_minds (htook.isSuffix hrest) _ _).bind fun us semi rest'' hlt' htook' hsemi => ?_
        exact .ok ((htook.trans htook').skip _) ((hsemi.append used).placed rfl)
      | _ => exact fail_minds h _
    | name n =>
      cases rest with
      | nil => exact fail_minds hrest _
      | cons t rest =>
        have hbehind := (List.suffix_cons t rest).trans hrest
        obtain ⟨l', span'⟩ := t
        cases l' with
        | mark m =>
          cases m with
          | colon =>
            refine (annotatedAssignment_minds hbehind span n).bind fun used s rest' hlt htook hs => ?_
            exact .ok ((htook.skip _).skip _) (hs.append [_]).placed
          | assign =>
            refine (assigned_minds hbehind span n _ _).bind fun used s rest' hlt htook hs => ?_
            exact .ok ((htook.skip _).skip _) (hs.append [_]).placed
          | equals =>
            refine (assigned_minds hbehind span n _ _).bind fun used s rest' hlt htook hs => ?_
            exact .ok ((htook.skip _).skip _) (hs.append [_]).placed
          | openParen =>
            refine (args_minds rest hbehind).bind fun used r rest' hlt htook hr => ?_
            refine Minds.check (fun f hf => checkArgs_refused hr (htook.isInfix hbehind) hf) ?_
            refine (expect_minds (htook.isSuffix hbehind) _ _).bind fun us semi rest'' hlt' htook' hsemi => ?_
            exact .ok (((htook.trans htook').skip _).skip _) (((hsemi.append used).cons _).placed rfl)
          | _ => exact fail_minds hrest _
        | _ => exact fail_minds hrest _
    | mark m =>
      cases m with
      | closeBrace => exact .token h _
      | _ => exact fail_minds h _
    | _ => exact fail_minds h _
termination_by 3 * toks.length
decreasing_by all_goals subst_vars; simp only [List.length_cons]; omega
theorem branching_minds (toks : List Token) (h : toks <:+ all) :
    Minds stop all true (fun used b => EndsAt used b.last) (branching stop toks) := by
  rw [branching]
  refine (expr_minds toks h).bind fun used test rest hlt htook _ => ?_
  have hrest := htook.isSuffix h
  refine (block_minds rest hrest).bind fun us body rest' hb htook' hbody => ?_
  have hrest' := htook'.isSuffix hrest
  cases rest' with
  | nil => exact .ok (htook.trans htook') (hbody.close.append used)
  | cons t rest' =>
    have hlt : rest'.length < toks.length := Nat.lt_of_succ_lt (Nat.lt_trans hb hlt)
    have hbehind := (List.suffix_cons t rest').trans hrest'
    obtain ⟨l, span⟩ := t
    cases l with
    | keyword k =>
      cases k with
      | elseWord =>
        have htrans {ws rest''} (h : Took rest' ws rest'') := htook.trans (htook'.trans (h.skip ⟨.keyword .elseWord, span⟩))
        have hends {ws last} (h : EndsAt ws last) := ((h.cons ⟨.keyword .elseWord, span⟩).append us).append used
        have hblock : Minds stop all true (Enclosed Stmt.span) (block stop rest') := block_minds rest' hbehind
        cases rest' with
        | nil => exact hblock.bind fun ws r rest'' h htook'' hr => .ok (htrans htook'') (hends hr.close)
        | cons t rest' =>
          have hlt : rest'.length + 1 < toks.length := hlt
          have hlater := (List.suffix_cons t rest').trans hbehind
          obtain ⟨l, span'⟩ := t
          cases l with
          | keyword k =>
            cases k with
            | ifWord =>
              refine (branching_minds rest' hlater).bind fun ws b rest'' h htook'' hb => ?_
              exact .ok (htrans (htook''.skip _)) (hends (hb.cons _))
            | _ => exact hblock.bind fun ws r rest'' h htook'' hr => .ok (htrans htook'') (hends hr.close)
          | _ => exact hblock.bind fun ws r rest'' h htook'' hr => .ok (htrans htook'') (hends hr.close)
      | _ => exact .ok (htook.trans htook') (hbody.close.append used)
    | _ => exact .ok (htook.trans htook') (hbody.close.append used)
termination_by 3 * toks.length
decreasing_by all_goals omega
theorem block_minds (toks : List Token) (h : toks <:+ all) :
    Minds stop all true (Enclosed Stmt.span) (block stop toks) := by
  cases toks with
  | nil =>
    rw [block.eq_def]
    exact fail_minds h _
  | cons t rest =>
    have hrest := (List.suffix_cons t rest).trans h
    obtain ⟨l, span⟩ := t
    rw [block.eq_def]
    cases l with
    | mark m =>
      cases m with
      | openBrace =>
        refine (statements_minds rest hrest).bind fun used r rest' hlt htook hr => ?_
        exact .ok (htook.skip _) (hr.append [_])
      | _ => exact fail_minds h _
    | _ => exact fail_minds h _
termination_by 3 * toks.length
decreasing_by all_goals subst_vars; simp only [List.length_cons]; omega
theorem statements_minds (toks : List Token) (h : toks <:+ all) :
    Minds stop all true (Enclosed Stmt.span) (statements stop toks) := by
  by_cases hclose : ∃ span rest, toks = ⟨.mark .closeBrace, span⟩ :: rest
  · obtain ⟨span, rest, rfl⟩ := hclose
    rw [statements]
    exact .ok (.one _ _) (.nil _)
  cases toks with
  | nil =>
    rw [statements.eq_def]
    exact fail_minds h _
  | cons t rest =>
    rw [statements]
    · refine (stmt_minds (t :: rest) h).bind fun used s rest' hlt htook hs => ?_
      have hlt : rest'.length < rest.length + 1 := hlt
      refine (statements_minds rest' (htook.isSuffix h)).bind fun us r rest'' hlt' htook' hr => ?_
      exact .ok (htook.trans htook') (hr.cons htook.ne_nil hs)
    · exact List.cons_ne_nil _ _
    · intro span after heq
      exact hclose ⟨span, after, heq⟩
termination_by 3 * toks.length + 1
end

/-! ## Programs -/

theorem cases_of_wholeBlock {b : Block} (h : wholeBlock stop toks = .ok b) : (toks = [] ∧ b = []) ∨
    ∃ r more, stmt stop toks = .ok r ∧ wholeBlock stop r.rest = .ok more ∧ b = r.value :: more := by
  cases toks with
  | nil =>
    rw [wholeBlock] at h
    cases h
    exact .inl ⟨rfl, rfl⟩
  | cons t rest =>
    rw [wholeBlock] at h
    cases hstmt : stmt stop (t :: rest) with
    | error f =>
      rw [hstmt] at h
      cases h
    | ok r =>
      cases hmore : wholeBlock stop r.rest with
      | error f =>
        simp only [hstmt, hmore, Bind.bind, Except.bind] at h
        cases h
      | ok more =>
        simp only [hstmt, hmore, Bind.bind, Except.bind] at h
        cases h
        exact .inr ⟨r, more, rfl, hmore, rfl⟩

/-- The error of a program that cannot be read is about its tokens. -/
theorem wholeBlock_refused (toks : List Token) (h : toks <:+ all) (hf : wholeBlock stop toks = .error f) :
    Refused stop all true f := by
  cases toks with
  | nil =>
    rw [wholeBlock] at hf
    cases hf
  | cons t rest =>
    have hminds : Minds stop all true (Placed Stmt.span) (stmt stop (t :: rest)) := stmt_minds (t :: rest) h
    rw [wholeBlock] at hf
    cases hstmt : stmt stop (t :: rest) with
    | error e =>
      rw [hstmt] at hf hminds
      cases hf
      exact hminds
    | ok r =>
      rw [hstmt] at hf hminds
      obtain ⟨used, htook, -⟩ := hminds
      have hlt : r.rest.length < rest.length + 1 := r.shorter
      cases hmore : wholeBlock stop r.rest with
      | ok b =>
        dsimp only [Bind.bind, Except.bind] at hf
        rw [hmore] at hf
        cases hf
      | error e =>
        have he : e = f := by
          dsimp only [Bind.bind, Except.bind] at hf
          rw [hmore] at hf
          cases hf
          rfl
        exact wholeBlock_refused r.rest (htook.isSuffix h) (hmore.trans (congrArg _ he))
termination_by toks.length

end PackScript.Grammar
