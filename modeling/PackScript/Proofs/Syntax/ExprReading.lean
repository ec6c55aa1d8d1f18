import PackScript.Proofs.Syntax.Bare
import PackScript.Proofs.Syntax.Numeral
import PackScript.Proofs.Syntax.Proper

/-! # Expressions and their lexemes

Every expression that the grammar reads is proper, and from the lexemes of a proper
expression the grammar reads that expression again, whatever the places of the tokens.
-/
namespace PackScript.Grammar

variable {α : Type} {toks rest after : List Token} {stop : Span}

/-- What was read and what is left, if reading succeeds. -/
def seen (x : Except Failure (Reading toks α)) : Option (α × List Token) :=
  match x with
  | .ok r => some (r.value, r.rest)
  | .error _ => none

@[simp] theorem seen_ok (r : Reading toks α) : seen (.ok r) = some (r.value, r.rest) := rfl

@[simp] theorem seen_error (f : Failure) : seen (.error f : Except Failure (Reading toks α)) = none := rfl

theorem seen_fail (stop : Span) (cause : Cause) (ts : List Token) :
    seen (fail stop cause ts : Except Failure (Reading toks α)) = none := by
  cases ts <;> rfl

theorem length_of_seen {x : Except Failure (Reading toks α)} {a : α} (h : seen x = some (a, rest)) :
    rest.length < toks.length := by
  cases x with
  | error f => cases h
  | ok r =>
    cases h
    exact r.shorter

/-- The tokens behind a punctuation mark, if it comes next. -/
def behind? (m : Mark) : List Token → Option (List Token)
  | [] => none
  | t :: rest => if t.lexeme = .mark m then some rest else none

@[simp] theorem behind?_mark (m : Mark) (span : Span) (rest : List Token) :
    behind? m (⟨.mark m, span⟩ :: rest) = some rest := if_pos rfl

theorem behind?_eq_none {m : Mark}
    (h : ∀ span after, toks = ⟨.mark m, span⟩ :: after → False) : behind? m toks = none := by
  cases toks with
  | nil => rfl
  | cons t rest => exact if_neg fun ht => h t.span rest (by rw [← ht])

/-! ## What each reader does -/

theorem seen_expr (stop : Span) (toks : List Token) :
    seen (expr stop toks) = (seen (summand stop toks)).bind fun p =>
      match behind? .plus p.2 with
      | some after => (seen (expr stop after)).map fun q =>
          (.sum (p.1.span.through q.1.span) p.1 q.1, q.2)
      | none => some p := by
  rw [expr]
  cases summand stop toks with
  | error f => rfl
  | ok left =>
    simp only [Bind.bind, Except.bind, seen_ok, Option.bind_some]
    split
    · rename_i span after hrest
      have hbehind : behind? .plus left.rest = some after := by rw [hrest, behind?_mark]
      rw [hbehind]
      dsimp only
      cases expr stop after <;> rfl
    · rename_i hrest
      rw [behind?_eq_none hrest]
      rfl

theorem seen_summand (stop : Span) (toks : List Token) :
    seen (summand stop toks) = (seen (term stop toks)).bind fun p =>
      match behind? .star p.2 with
      | some after => (seen (summand stop after)).map fun q =>
          (.product (p.1.span.through q.1.span) p.1 q.1, q.2)
      | none => some p := by
  rw [summand]
  cases term stop toks with
  | error f => rfl
  | ok left =>
    simp only [Bind.bind, Except.bind, seen_ok, Option.bind_some]
    split
    · rename_i span after hrest
      have hbehind : behind? .star left.rest = some after := by rw [hrest, behind?_mark]
      rw [hbehind]
      dsimp only
      cases summand stop after <;> rfl
    · rename_i hrest
      rw [behind?_eq_none hrest]
      rfl

theorem seen_expect_mark (stop : Span) (m : Mark) (what : Expectation) (span : Span) (rest : List Token) :
    seen (expect stop m what (⟨.mark m, span⟩ :: rest)) = some (span, rest) := by
  rw [expect, if_pos rfl]
  rfl

theorem behind?_eq (stop : Span) (m : Mark) (what : Expectation) (toks : List Token) :
    behind? m toks = (seen (expect stop m what toks)).map Prod.snd := by
  cases toks with
  | nil => rfl
  | cons t rest =>
    rw [expect, behind?]
    split <;> rfl

theorem behind?_of_expect {m : Mark} {what : Expectation} {span : Span}
    (h : seen (expect stop m what toks) = some (span, rest)) : behind? m toks = some rest := by
  rw [behind?_eq stop m what, h, Option.map_some]

theorem seen_args_nil (stop span : Span) (rest : List Token) :
    seen (args stop (⟨.mark .closeParen, span⟩ :: rest)) = some (([], span), rest) := by
  rw [args]
  rfl

theorem seen_args_cons (stop : Span) {toks : List Token}
    (h : ∀ span rest, toks = ⟨.mark .closeParen, span⟩ :: rest → False) :
    seen (args stop toks) = (seen (expr stop toks)).bind fun p =>
      (seen (moreArgs stop p.2)).map fun q => ((p.1 :: q.1.1, q.1.2), q.2) := by
  rw [args]
  · cases expr stop toks with
    | error f => rfl
    | ok first =>
      simp only [Bind.bind, Except.bind, seen_ok, Option.bind_some]
      cases moreArgs stop first.rest <;> rfl
  · exact h

theorem seen_moreArgs_nil (stop span : Span) (rest : List Token) :
    seen (moreArgs stop (⟨.mark .closeParen, span⟩ :: rest)) = some (([], span), rest) := by
  rw [moreArgs]
  rfl

theorem seen_moreArgs_cons (stop span : Span) (rest : List Token) :
    seen (moreArgs stop (⟨.mark .comma, span⟩ :: rest)) = (seen (expr stop rest)).bind fun p =>
      (seen (moreArgs stop p.2)).map fun q => ((p.1 :: q.1.1, q.1.2), q.2) := by
  rw [moreArgs]
  cases expr stop rest with
  | error f => rfl
  | ok next =>
    simp only [Bind.bind, Except.bind, seen_ok, Option.bind_some]
    cases moreArgs stop next.rest <;> rfl

theorem seen_term_paren (stop span : Span) (rest : List Token) :
    seen (term stop (⟨.mark .openParen, span⟩ :: rest)) = (seen (expr stop rest)).bind fun p =>
      (seen (expect stop .closeParen .closingParen p.2)).map fun q =>
        (.paren (span.through q.1) p.1, q.2) := by
  rw [term]
  cases expr stop rest with
  | error f => rfl
  | ok inner =>
    simp only [Bind.bind, Except.bind, seen_ok, Option.bind_some]
    cases expect stop .closeParen .closingParen inner.rest <;> rfl

theorem find?_not_eq_none {β : Type} {p : β → Bool} {l : List β} :
    l.find? (fun b => !p b) = none ↔ l.all p = true := by
  simp [List.find?_eq_none]

theorem checkArgs_eq_ok (n : Name) (es : List Expr) :
    checkArgs n es = .ok () ↔ (n.isStatic = true → es.all Expr.isStatic = true) := by
  rw [checkArgs, ← find?_not_eq_none]
  cases n.isStatic with
  | false => simp
  | true => cases es.find? fun a => !a.isStatic <;> simp

theorem seen_term_call (stop span : Span) {span' : Span} (n : Name) (rest : List Token) :
    seen (term stop (⟨.name n, span⟩ :: ⟨.mark .openParen, span'⟩ :: rest)) =
      (seen (args stop rest)).bind fun p =>
        if n.isStatic = true → p.1.1.all Expr.isStatic = true then
          some (.call (span.through p.1.2) n p.1.1, p.2)
        else none := by
  rw [term]
  cases args stop rest with
  | error f => rfl
  | ok r =>
    simp only [Bind.bind, Except.bind, seen_ok, Option.bind_some]
    by_cases hs : n.isStatic = true → r.value.1.all Expr.isStatic = true
    · rw [if_pos hs, (checkArgs_eq_ok n _).2 hs]
      rfl
    · rw [if_neg hs]
      cases hc : checkArgs n r.value.1 with
      | error f => rfl
      | ok u => exact absurd ((checkArgs_eq_ok n _).1 hc) hs

/-! ## What is read is proper -/

/-- Tokens that were cut from a text. -/
def AllProper (toks : List Token) : Prop := ∀ t ∈ toks, t.lexeme.Proper

theorem AllProper.tail {t : Token} (h : AllProper (t :: toks)) : AllProper toks :=
  fun u hu => h u (List.mem_cons_of_mem t hu)

theorem AllProper.behind {m : Mark} (h : AllProper toks) (hm : behind? m toks = some rest) :
    AllProper rest := by
  cases toks with
  | nil => cases hm
  | cons t toks =>
    rw [behind?] at hm
    split at hm
    · cases hm
      exact h.tail
    · cases hm

theorem length_behind {m : Mark} (h : behind? m toks = some rest) : rest.length < toks.length := by
  cases toks with
  | nil => cases h
  | cons t toks =>
    rw [behind?] at h
    split at h
    · cases h
      exact Nat.lt_succ_self _
    · cases h

mutual
theorem expr_proper {toks rest : List Token} {e : Expr} (ht : AllProper toks)
    (h : seen (expr stop toks) = some (e, rest)) : e.Proper 2 ∧ AllProper rest := by
  rw [seen_expr] at h
  obtain ⟨⟨l, mid⟩, hl, h⟩ := Option.bind_eq_some_iff.1 h
  have hlength := length_of_seen hl
  obtain ⟨hlp, hmid⟩ := summand_proper ht hl
  dsimp only at h
  cases hb : behind? .plus mid with
  | none =>
    rw [hb] at h
    cases h
    exact ⟨hlp.mono (by decide), hmid⟩
  | some after =>
    rw [hb] at h
    obtain ⟨⟨r, rest'⟩, hr, heq⟩ := Option.map_eq_some_iff.1 h
    have hshorter := length_behind hb
    obtain ⟨hrp, hrest⟩ := expr_proper (hmid.behind hb) hr
    cases heq
    exact ⟨⟨Nat.le_refl 2, hlp, hrp⟩, hrest⟩
termination_by 4 * toks.length + 2
theorem summand_proper {toks rest : List Token} {e : Expr} (ht : AllProper toks)
    (h : seen (summand stop toks) = some (e, rest)) : e.Proper 1 ∧ AllProper rest := by
  rw [seen_summand] at h
  obtain ⟨⟨l, mid⟩, hl, h⟩ := Option.bind_eq_some_iff.1 h
  have hlength := length_of_seen hl
  obtain ⟨hlp, hmid⟩ := term_proper ht hl
  dsimp only at h
  cases hb : behind? .star mid with
  | none =>
    rw [hb] at h
    cases h
    exact ⟨hlp.mono (by decide), hmid⟩
  | some after =>
    rw [hb] at h
    obtain ⟨⟨r, rest'⟩, hr, heq⟩ := Option.map_eq_some_iff.1 h
    have hshorter := length_behind hb
    obtain ⟨hrp, hrest⟩ := summand_proper (hmid.behind hb) hr
    cases heq
    exact ⟨⟨Nat.le_refl 1, hlp, hrp⟩, hrest⟩
termination_by 4 * toks.length + 1
theorem term_proper {toks rest : List Token} {e : Expr} (ht : AllProper toks)
    (h : seen (term stop toks) = some (e, rest)) : e.Proper 0 ∧ AllProper rest := by
  have hcase := h
  rw [term.eq_def] at hcase
  generalize htoks : toks = ts at hcase
  have hcount := congrArg List.length htoks
  rw [htoks] at ht h
  split at hcase
  · rename_i digits span tail
    cases hi : Decimal.int32? digits with
    | none =>
      rw [hi] at hcase
      cases hcase
    | some i =>
      rw [hi] at hcase
      cases hcase
      exact ⟨Decimal.nonneg_of_int32? (ht _ List.mem_cons_self) hi, ht.tail⟩
  · cases hcase
    exact ⟨trivial, ht.tail⟩
  · cases hcase
    exact ⟨trivial, ht.tail⟩
  · cases hcase
    exact ⟨trivial, ht.tail⟩
  · rename_i n span span' after
    rw [seen_term_call] at h
    obtain ⟨⟨⟨es, close⟩, mid⟩, hes, h⟩ := Option.bind_eq_some_iff.1 h
    obtain ⟨hep, hmid⟩ := args_proper ht.tail.tail hes
    dsimp only at h
    split at h
    · rename_i hstatic
      cases h
      exact ⟨⟨ht _ List.mem_cons_self, hep, hstatic⟩, hmid⟩
    · cases h
  · cases hcase
    exact ⟨ht _ List.mem_cons_self, ht.tail⟩
  · rename_i span tail
    rw [seen_term_paren] at h
    obtain ⟨⟨inner, mid⟩, hinner, h⟩ := Option.bind_eq_some_iff.1 h
    obtain ⟨hip, hmid⟩ := expr_proper ht.tail hinner
    obtain ⟨⟨close, rest'⟩, hclose, heq⟩ := Option.map_eq_some_iff.1 h
    cases heq
    exact ⟨hip, hmid.behind (behind?_of_expect hclose)⟩
  · rw [seen_fail] at hcase
    cases hcase
termination_by 4 * toks.length
theorem args_proper {toks rest : List Token} {es : List Expr} {close : Span} (ht : AllProper toks)
    (h : seen (args stop toks) = some ((es, close), rest)) : Expr.ProperAll es ∧ AllProper rest := by
  have hcase := h
  rw [args.eq_def] at hcase
  generalize htoks : toks = ts at hcase
  have hcount := congrArg List.length htoks
  rw [htoks] at ht h
  split at hcase
  · cases hcase
    exact ⟨trivial, ht.tail⟩
  · rename_i hother
    rw [seen_args_cons stop hother] at h
    obtain ⟨⟨first, mid⟩, hfirst, h⟩ := Option.bind_eq_some_iff.1 h
    have hlength := length_of_seen hfirst
    obtain ⟨hfp, hmid⟩ := expr_proper ht hfirst
    obtain ⟨⟨⟨more, close'⟩, rest'⟩, hmore, heq⟩ := Option.map_eq_some_iff.1 h
    obtain ⟨hmp, hrest⟩ := moreArgs_proper hmid hmore
    cases heq
    exact ⟨⟨hfp, hmp⟩, hrest⟩
termination_by 4 * toks.length + 3
theorem moreArgs_proper {toks rest : List Token} {es : List Expr} {close : Span} (ht : AllProper toks)
    (h : seen (moreArgs stop toks) = some ((es, close), rest)) : Expr.ProperAll es ∧ AllProper rest := by
  have hcase := h
  rw [moreArgs.eq_def] at hcase
  generalize htoks : toks = ts at hcase
  have hcount := congrArg List.length htoks
  rw [htoks] at ht h
  split at hcase
  · cases hcase
    exact ⟨trivial, ht.tail⟩
  · rename_i span tail
    rw [seen_moreArgs_cons] at h
    obtain ⟨⟨next, mid⟩, hnext, h⟩ := Option.bind_eq_some_iff.1 h
    have hlength := length_of_seen hnext
    obtain ⟨hnp, hmid⟩ := expr_proper ht.tail hnext
    obtain ⟨⟨⟨more, close'⟩, rest'⟩, hmore, heq⟩ := Option.map_eq_some_iff.1 h
    obtain ⟨hmp, hrest⟩ := moreArgs_proper hmid hmore
    cases heq
    exact ⟨⟨hnp, hmp⟩, hrest⟩
  · rw [seen_fail] at hcase
    cases hcase
termination_by 4 * toks.length
decreasing_by
  all_goals simp only [List.length_cons] at hcount; omega
end

/-! ## What is proper is read -/

/-- Something that satisfies `P` is read, and tokens with the lexemes `ls` are left. -/
def ReadsBack (x : Except Failure (Reading toks α)) (P : α → Prop) (ls : List Lexeme) : Prop :=
  ∃ a rest, seen x = some (a, rest) ∧ P a ∧ rest.map Token.lexeme = ls

theorem ReadsBack.of_seen {ts : List Token} {x : Except Failure (Reading toks α)}
    {y : Except Failure (Reading ts α)} {P : α → Prop} {ls : List Lexeme} (h : seen x = seen y)
    (hy : ReadsBack y P ls) : ReadsBack x P ls := by
  obtain ⟨a, rest, hseen, ha, hrest⟩ := hy
  exact ⟨a, rest, h.trans hseen, ha, hrest⟩

theorem cons_of_lexemes {l : Lexeme} {ls : List Lexeme} (h : toks.map Token.lexeme = l :: ls) :
    ∃ span rest, toks = ⟨l, span⟩ :: rest ∧ rest.map Token.lexeme = ls := by
  obtain ⟨⟨l', span⟩, rest, rfl, hl, hrest⟩ := List.map_eq_cons_iff.1 h
  cases hl
  exact ⟨span, rest, rfl, hrest⟩

theorem behind?_of_lexemes {m : Mark} {ls : List Lexeme} (h : toks.map Token.lexeme = ls)
    (hls : ls.head? ≠ some (.mark m)) : behind? m toks = none := by
  refine behind?_eq_none fun span after htoks => hls ?_
  rw [← h, htoks]
  rfl

/-- The reader of expressions no looser than `k`. -/
def readAt (k : Nat) (stop : Span) (toks : List Token) : Except Failure (Reading toks Expr) :=
  match k with
  | 0 => term stop toks
  | 1 => summand stop toks
  | _ => expr stop toks

/-- Lexemes that do not carry on an expression no looser than `k`. -/
structure Follows (k : Nat) (ls : List Lexeme) : Prop where
  call : ls.head? ≠ some (.mark .openParen)
  star : 1 ≤ k → ls.head? ≠ some (.mark .star)
  plus : 2 ≤ k → ls.head? ≠ some (.mark .plus)

theorem Follows.anti {j k : Nat} {ls : List Lexeme} (h : Follows k ls) (hjk : j ≤ k) : Follows j ls :=
  ⟨h.call, fun hj => h.star (Nat.le_trans hj hjk), fun hj => h.plus (Nat.le_trans hj hjk)⟩

theorem follows_following {k : Nat} (lss : List (List Lexeme)) (ls : List Lexeme) :
    Follows k (Lexeme.following lss ++ ls) := by
  cases lss <;> exact ⟨by simp [Lexeme.following], by simp [Lexeme.following], by simp [Lexeme.following]⟩

theorem readAt_of_two_le {k : Nat} (hk : 2 ≤ k) : readAt k stop toks = expr stop toks := by
  match k, hk with
  | k + 2, _ => rfl

theorem readsBack_of_summand {P : Expr → Prop} {ls : List Lexeme} {k : Nat} (hk : 1 ≤ k)
    (h : ReadsBack (summand stop toks) P ls) (hls : Follows k ls) :
    ReadsBack (readAt k stop toks) P ls := by
  obtain ⟨e, rest, hseen, he, hrest⟩ := h
  match k, hk with
  | 1, _ => exact ⟨e, rest, hseen, he, hrest⟩
  | k + 2, _ =>
    refine ⟨e, rest, ?_, he, hrest⟩
    change seen (expr stop toks) = _
    rw [seen_expr, hseen, Option.bind_some]
    dsimp only
    rw [behind?_of_lexemes hrest (hls.plus (by omega))]

theorem readsBack_of_term {P : Expr → Prop} {ls : List Lexeme} {k : Nat}
    (h : ReadsBack (term stop toks) P ls) (hls : Follows k ls) : ReadsBack (readAt k stop toks) P ls := by
  cases k with
  | zero => exact h
  | succ k =>
    obtain ⟨e, rest, hseen, he, hrest⟩ := h
    refine readsBack_of_summand (by omega) ⟨e, rest, ?_, he, hrest⟩ hls
    rw [seen_summand, hseen, Option.bind_some]
    dsimp only
    rw [behind?_of_lexemes hrest (hls.star (by omega))]

theorem exists_head_lexeme : (e : Expr) → ∃ l ls, e.lexemes = l :: ls ∧ l ≠ .mark .closeParen
  | .sum _ a b => by
    obtain ⟨l, ls, hl, hne⟩ := exists_head_lexeme a
    exact ⟨l, _, by rw [Expr.lexemes, hl]; rfl, hne⟩
  | .product _ a b => by
    obtain ⟨l, ls, hl, hne⟩ := exists_head_lexeme a
    exact ⟨l, _, by rw [Expr.lexemes, hl]; rfl, hne⟩
  | .number .. => ⟨_, _, by rw [Expr.lexemes], by simp⟩
  | .string .. => ⟨_, _, by rw [Expr.lexemes], by simp⟩
  | .bool _ true => ⟨_, _, by rw [Expr.lexemes], by simp⟩
  | .bool _ false => ⟨_, _, by rw [Expr.lexemes], by simp⟩
  | .var .. => ⟨_, _, by rw [Expr.lexemes], by simp⟩
  | .paren .. => ⟨_, _, by rw [Expr.lexemes], by simp⟩
  | .call .. => ⟨_, _, by rw [Expr.lexemes], by simp⟩

mutual
/-- From the lexemes of a proper expression, the grammar reads that expression. -/
theorem expr_readsBack (stop : Span) : (e : Expr) → {k : Nat} → e.Proper k → {toks : List Token} →
    {ls : List Lexeme} → toks.map Token.lexeme = e.lexemes ++ ls → Follows k ls →
    ReadsBack (readAt k stop toks) (fun e' => e'.bare = e.bare) ls
  | .sum _ l r, k, h, toks, ls, htoks, hls => by
    obtain ⟨hk, hl, hr⟩ := h
    rw [Expr.lexemes, List.append_assoc, List.cons_append] at htoks
    obtain ⟨l', mid, hseen, hl', hmid⟩ := expr_readsBack stop l hl htoks ⟨by simp, by simp, by simp⟩
    obtain ⟨span, after, rfl, hafter⟩ := cons_of_lexemes hmid
    obtain ⟨r', rest, hseen', hr', hrest⟩ := expr_readsBack stop r hr hafter (hls.anti hk)
    rw [readAt_of_two_le hk]
    refine ⟨.sum (l'.span.through r'.span) l' r', rest, ?_, ?_, hrest⟩
    · rw [seen_expr, show seen (summand stop toks) = _ from hseen, Option.bind_some]
      dsimp only
      rw [behind?_mark]
      dsimp only
      rw [show seen (expr stop after) = _ from hseen', Option.map_some]
    · simp only [Expr.bare, hl', hr']
  | .product _ l r, k, h, toks, ls, htoks, hls => by
    obtain ⟨hk, hl, hr⟩ := h
    rw [Expr.lexemes, List.append_assoc, List.cons_append] at htoks
    obtain ⟨l', mid, hseen, hl', hmid⟩ := expr_readsBack stop l hl htoks ⟨by simp, by simp, by simp⟩
    obtain ⟨span, after, rfl, hafter⟩ := cons_of_lexemes hmid
    obtain ⟨r', rest, hseen', hr', hrest⟩ := expr_readsBack stop r hr hafter (hls.anti hk)
    refine readsBack_of_summand hk ⟨.product (l'.span.through r'.span) l' r', rest, ?_, ?_, hrest⟩ hls
    · rw [seen_summand, show seen (term stop toks) = _ from hseen, Option.bind_some]
      dsimp only
      rw [behind?_mark]
      dsimp only
      rw [show seen (summand stop after) = _ from hseen', Option.map_some]
    · simp only [Expr.bare, hl', hr']
  | .number _ i, k, h, toks, ls, htoks, hls => by
    rw [Expr.lexemes, List.singleton_append] at htoks
    obtain ⟨span, rest, rfl, hrest⟩ := cons_of_lexemes htoks
    refine readsBack_of_term ⟨.number span i, rest, ?_, rfl, hrest⟩ hls
    rw [term, Decimal.int32?_ofInt h]
    rfl
  | .string _ s, k, _, toks, ls, htoks, hls => by
    rw [Expr.lexemes, List.singleton_append] at htoks
    obtain ⟨span, rest, rfl, hrest⟩ := cons_of_lexemes htoks
    refine readsBack_of_term ⟨.string span s, rest, ?_, rfl, hrest⟩ hls
    rw [term]
    rfl
  | .bool _ true, k, _, toks, ls, htoks, hls => by
    rw [Expr.lexemes, List.singleton_append] at htoks
    obtain ⟨span, rest, rfl, hrest⟩ := cons_of_lexemes htoks
    refine readsBack_of_term ⟨.bool span true, rest, ?_, rfl, hrest⟩ hls
    rw [term]
    rfl
  | .bool _ false, k, _, toks, ls, htoks, hls => by
    rw [Expr.lexemes, List.singleton_append] at htoks
    obtain ⟨span, rest, rfl, hrest⟩ := cons_of_lexemes htoks
    refine readsBack_of_term ⟨.bool span false, rest, ?_, rfl, hrest⟩ hls
    rw [term]
    rfl
  | .var _ n, k, h, toks, ls, htoks, hls => by
    rw [Expr.lexemes, List.singleton_append] at htoks
    obtain ⟨span, rest, rfl, hrest⟩ := cons_of_lexemes htoks
    refine readsBack_of_term ⟨.var span n, rest, ?_, rfl, hrest⟩ hls
    rw [term]
    · rfl
    · intro span' after hopen
      refine hls.call ?_
      rw [← hrest, hopen]
      rfl
  | .paren _ e, k, h, toks, ls, htoks, hls => by
    have he : e.Proper 2 := h
    rw [Expr.lexemes, List.cons_append, List.append_assoc, List.singleton_append] at htoks
    obtain ⟨span, inner, rfl, hinner⟩ := cons_of_lexemes htoks
    obtain ⟨e', mid, hseen, he', hmid⟩ := expr_readsBack stop e he hinner ⟨by simp, by simp, by simp⟩
    obtain ⟨close, rest, rfl, hrest⟩ := cons_of_lexemes hmid
    refine readsBack_of_term ⟨.paren (span.through close) e', rest, ?_, ?_, hrest⟩ hls
    · rw [seen_term_paren, show seen (expr stop inner) = _ from hseen, Option.bind_some]
      dsimp only
      rw [seen_expect_mark, Option.map_some]
    · simp only [Expr.bare, he']
  | .call _ n es, k, h, toks, ls, htoks, hls => by
    obtain ⟨hn, hes, hstatic⟩ := h
    rw [Expr.lexemes, List.cons_append, List.cons_append] at htoks
    obtain ⟨span, tail, rfl, htail⟩ := cons_of_lexemes htoks
    obtain ⟨span', after, rfl, hafter⟩ := cons_of_lexemes htail
    obtain ⟨⟨es', close⟩, rest, hseen, hes', hrest⟩ := args_readsBack stop es hes hafter
    have hstatic' : n.isStatic = true → es'.all Expr.isStatic = true := by
      rw [Expr.all_isStatic_eq_of_bareAll hes']
      exact hstatic
    refine readsBack_of_term ⟨.call (span.through close) n es', rest, ?_, ?_, hrest⟩ hls
    · rw [seen_term_call, hseen, Option.bind_some]
      dsimp only
      rw [if_pos hstatic']
    · simp only [Expr.bare, hes']
theorem args_readsBack (stop : Span) : (es : List Expr) → Expr.ProperAll es → {toks : List Token} →
    {ls : List Lexeme} → toks.map Token.lexeme = Lexeme.enclosed (Expr.lexemesAll es) ++ ls →
    ReadsBack (args stop toks) (fun p => Expr.bareAll p.1 = Expr.bareAll es) ls
  | [], _, toks, ls, htoks => by
    rw [Expr.lexemesAll, Lexeme.enclosed, List.singleton_append] at htoks
    obtain ⟨span, rest, rfl, hrest⟩ := cons_of_lexemes htoks
    exact ⟨_, rest, seen_args_nil stop span rest, rfl, hrest⟩
  | e :: es, h, toks, ls, htoks => by
    rw [Expr.lexemesAll, Lexeme.enclosed, List.append_assoc] at htoks
    have hnot : ∀ span rest, toks = ⟨.mark .closeParen, span⟩ :: rest → False := by
      intro span rest hclose
      obtain ⟨l, ms, hl, hne⟩ := exists_head_lexeme e
      rw [hclose, hl] at htoks
      exact hne (List.cons.inj htoks).1.symm
    obtain ⟨e', mid, hseen, he', hmid⟩ := expr_readsBack stop e h.1 htoks (follows_following _ ls)
    obtain ⟨⟨es', close⟩, rest, hmore, hes', hrest⟩ := moreArgs_readsBack stop es h.2 hmid
    refine ⟨(e' :: es', close), rest, ?_, ?_, hrest⟩
    · rw [seen_args_cons stop hnot, show seen (expr stop toks) = _ from hseen, Option.bind_some]
      dsimp only
      rw [hmore, Option.map_some]
    · simp only [Expr.bareAll, he', hes']
theorem moreArgs_readsBack (stop : Span) : (es : List Expr) → Expr.ProperAll es → {toks : List Token} →
    {ls : List Lexeme} → toks.map Token.lexeme = Lexeme.following (Expr.lexemesAll es) ++ ls →
    ReadsBack (moreArgs stop toks) (fun p => Expr.bareAll p.1 = Expr.bareAll es) ls
  | [], _, toks, ls, htoks => by
    rw [Expr.lexemesAll, Lexeme.following, List.singleton_append] at htoks
    obtain ⟨span, rest, rfl, hrest⟩ := cons_of_lexemes htoks
    exact ⟨_, rest, seen_moreArgs_nil stop span rest, rfl, hrest⟩
  | e :: es, h, toks, ls, htoks => by
    rw [Expr.lexemesAll, Lexeme.following, List.cons_append, List.append_assoc] at htoks
    obtain ⟨span, tail, rfl, htail⟩ := cons_of_lexemes htoks
    obtain ⟨e', mid, hseen, he', hmid⟩ := expr_readsBack stop e h.1 htail (follows_following _ ls)
    obtain ⟨⟨es', close⟩, rest, hmore, hes', hrest⟩ := moreArgs_readsBack stop es h.2 hmid
    refine ⟨(e' :: es', close), rest, ?_, ?_, hrest⟩
    · rw [seen_moreArgs_cons, show seen (expr stop tail) = _ from hseen, Option.bind_some]
      dsimp only
      rw [hmore, Option.map_some]
    · simp only [Expr.bareAll, he', hes']
end

end PackScript.Grammar
