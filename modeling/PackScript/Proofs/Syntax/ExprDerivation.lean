import PackScript.Proofs.Syntax.Derivation
import PackScript.Proofs.Syntax.ExprReading

/-! # Derivations of expressions

What a reader takes off the tokens derives what it returns, and from the tokens of a
derivation it returns the derived tree, whatever comes behind.
-/
namespace PackScript.Grammar

variable {toks us rest : List Token} {stop span : Span} {e l r : Expr}

/-! ## What a derivation covers -/

/-- An expression stands where its tokens do, and its first token does not close a list. -/
structure Covers (toks : List Token) (e : Expr) : Prop where
  starts : ∃ t ts, toks = t :: ts ∧ t.lexeme ≠ .mark .closeParen
  span : e.span = Token.extent toks

theorem Covers.ne_nil (h : Covers toks e) : toks ≠ [] := by
  obtain ⟨t, ts, rfl, -⟩ := h.starts
  exact List.cons_ne_nil t ts

theorem Covers.extent (hl : Covers toks l) (hr : Covers us r) (t : Token) :
    Token.extent (toks ++ t :: us) = l.span.through r.span := by
  rw [Token.extent_between hl.ne_nil hr.ne_nil, hl.span, hr.span]

theorem Covers.append (h : Covers toks l) (us : List Token) (he : e.span = Token.extent (toks ++ us)) :
    Covers (toks ++ us) e := by
  obtain ⟨t, ts, rfl, ht⟩ := h.starts
  exact ⟨⟨t, ts ++ us, rfl, ht⟩, he⟩

theorem Covers.singleton {t : Token} (ht : t.lexeme ≠ .mark .closeParen) (he : e.span = t.span) :
    Covers [t] e :=
  ⟨⟨t, [], rfl, ht⟩, he.trans (Token.extent_singleton t).symm⟩

mutual
theorem IsExpr.covers {toks : List Token} {e : Expr} : IsExpr toks e → Covers toks e
  | .summand h => h.covers
  | .sum hl _ => hl.covers.append _ rfl
theorem IsSummand.covers {toks : List Token} {e : Expr} : IsSummand toks e → Covers toks e
  | .term h => h.covers
  | .product hl _ => hl.covers.append _ rfl
theorem IsTerm.covers {toks : List Token} {e : Expr} : IsTerm toks e → Covers toks e
  | .number _ _ => .singleton (by simp) rfl
  | .string => .singleton (by simp) rfl
  | .trueWord => .singleton (by simp) rfl
  | .falseWord => .singleton (by simp) rfl
  | .var => .singleton (by simp) rfl
  | .call (.call _ _ _) => ⟨⟨_, _, rfl, by simp⟩, rfl⟩
  | .paren _ => ⟨⟨_, _, rfl, by simp⟩, rfl⟩
end

/-! ## What is read is derived -/

theorem AllProper.of_append (h : AllProper (us ++ toks)) : AllProper toks :=
  fun t ht => h t (List.mem_append_right us ht)

theorem of_behind? {m : Mark} (h : behind? m toks = some rest) :
    ∃ span, toks = ⟨.mark m, span⟩ :: rest := by
  cases toks with
  | nil => cases h
  | cons t ts =>
    obtain ⟨lexeme, span⟩ := t
    rw [behind?] at h
    split at h
    · rename_i hm
      cases h
      cases hm
      exact ⟨span, rfl⟩
    · cases h

theorem of_expect {m : Mark} {what : Expectation} (h : seen (expect stop m what toks) = some (span, rest)) :
    toks = ⟨.mark m, span⟩ :: rest := by
  obtain ⟨span', rfl⟩ := of_behind? (behind?_of_expect h)
  rw [seen_expect_mark] at h
  cases h
  rfl

theorem value_of_int32? {digits : Bytes} {i : Int32} (hd : IsNumeral digits)
    (h : Decimal.int32? digits = some i) :
    Decimal.value digits ≤ 2147483647 ∧ i = .ofNat (Decimal.value digits) := by
  rw [Decimal.int32?, Decimal.signed?_of_isNumeral hd] at h
  dsimp only at h
  split at h
  · cases h
    exact ⟨by omega, rfl⟩
  · cases h

/-- Arguments that were read up to a closing parenthesis: each is derived. -/
def Derived (items : List (List Token × Expr)) (es : List Expr) : Prop :=
  items.map Prod.snd = es ∧ ∀ item ∈ items, IsExpr item.1 item.2

theorem Derived.cons {items : List (List Token × Expr)} {es : List Expr} (he : IsExpr toks e)
    (h : Derived items es) : Derived ((toks, e) :: items) (e :: es) := by
  obtain ⟨rfl, hitems⟩ := h
  refine ⟨rfl, fun item hitem => ?_⟩
  rcases List.mem_cons.1 hitem with rfl | hitem
  · exact he
  · exact hitems item hitem

theorem isCall_of_derived {items : List (List Token × Expr)} {es : List Expr} {n : Name}
    {paren close : Span} (hsep : Separated (items.map Prod.fst) toks) (h : Derived items es)
    (hstatic : n.isStatic = true → es.all Expr.isStatic = true) :
    IsCall (⟨.name n, span⟩ :: ⟨.mark .openParen, paren⟩ :: (toks ++ [⟨.mark .closeParen, close⟩])) n es := by
  obtain ⟨rfl, hitems⟩ := h
  refine .call hsep hitems fun hn item hitem => ?_
  exact List.all_eq_true.1 (hstatic hn) _ (List.mem_map_of_mem hitem)

mutual
theorem expr_derived {toks rest : List Token} {e : Expr} (ht : AllProper toks)
    (h : seen (expr stop toks) = some (e, rest)) : ∃ used, toks = used ++ rest ∧ IsExpr used e := by
  rw [seen_expr] at h
  obtain ⟨⟨l, mid⟩, hl, hnext⟩ := Option.bind_eq_some_iff.1 h
  have hlength := length_of_seen hl
  obtain ⟨ls, rfl, hls⟩ := summand_derived ht hl
  dsimp only at hnext
  cases hb : behind? .plus mid with
  | none =>
    rw [hb] at hnext
    cases hnext
    exact ⟨ls, rfl, .summand hls⟩
  | some after =>
    rw [hb] at hnext
    obtain ⟨⟨r, rest'⟩, hr, heq⟩ := Option.map_eq_some_iff.1 hnext
    have hshorter := length_behind hb
    obtain ⟨span, rfl⟩ := of_behind? hb
    obtain ⟨rs, rfl, hrs⟩ := expr_derived ht.of_append.tail hr
    cases heq
    refine ⟨ls ++ ⟨.mark .plus, span⟩ :: rs, by simp, ?_⟩
    rw [← hls.covers.extent hrs.covers]
    exact .sum hls hrs
termination_by 4 * toks.length + 2
theorem summand_derived {toks rest : List Token} {e : Expr} (ht : AllProper toks)
    (h : seen (summand stop toks) = some (e, rest)) : ∃ used, toks = used ++ rest ∧ IsSummand used e := by
  rw [seen_summand] at h
  obtain ⟨⟨l, mid⟩, hl, hnext⟩ := Option.bind_eq_some_iff.1 h
  have hlength := length_of_seen hl
  obtain ⟨ls, rfl, hls⟩ := term_derived ht hl
  dsimp only at hnext
  cases hb : behind? .star mid with
  | none =>
    rw [hb] at hnext
    cases hnext
    exact ⟨ls, rfl, .term hls⟩
  | some after =>
    rw [hb] at hnext
    obtain ⟨⟨r, rest'⟩, hr, heq⟩ := Option.map_eq_some_iff.1 hnext
    have hshorter := length_behind hb
    obtain ⟨span, rfl⟩ := of_behind? hb
    obtain ⟨rs, rfl, hrs⟩ := summand_derived ht.of_append.tail hr
    cases heq
    refine ⟨ls ++ ⟨.mark .star, span⟩ :: rs, by simp, ?_⟩
    rw [← hls.covers.extent hrs.covers]
    exact .product hls hrs
termination_by 4 * toks.length + 1
theorem term_derived {toks rest : List Token} {e : Expr} (ht : AllProper toks)
    (h : seen (term stop toks) = some (e, rest)) : ∃ used, toks = used ++ rest ∧ IsTerm used e := by
  have hcase := h
  rw [term.eq_def] at hcase
  generalize htoks : toks = ts at hcase
  have hcount := congrArg List.length htoks
  rw [htoks] at ht h
  split at hcase
  · rename_i digits span tail
    cases hi : Decimal.int32? digits with
    | none =>
      rw [hi] at hcase
      cases hcase
    | some i =>
      rw [hi] at hcase
      cases hcase
      have hd : IsNumeral digits := ht _ List.mem_cons_self
      obtain ⟨hmax, rfl⟩ := value_of_int32? hd hi
      exact ⟨[⟨.number digits, span⟩], rfl, .number hd hmax⟩
  · rename_i content span tail
    cases hcase
    exact ⟨[⟨.string content, span⟩], rfl, .string⟩
  · rename_i span tail
    cases hcase
    exact ⟨[⟨.keyword .trueWord, span⟩], rfl, .trueWord⟩
  · rename_i span tail
    cases hcase
    exact ⟨[⟨.keyword .falseWord, span⟩], rfl, .falseWord⟩
  · rename_i n span paren after
    rw [seen_term_call] at h
    obtain ⟨⟨⟨es, close⟩, mid⟩, hes, hcall⟩ := Option.bind_eq_some_iff.1 h
    obtain ⟨items, inner, rfl, hsep, hitems⟩ := args_derived ht.tail.tail hes
    dsimp only at hcall
    split at hcall
    · rename_i hstatic
      cases hcall
      refine ⟨⟨.name n, span⟩ :: ⟨.mark .openParen, paren⟩ :: (inner ++ [⟨.mark .closeParen, close⟩]),
        by simp, ?_⟩
      rw [← Token.extent_concat ⟨.name n, span⟩ (⟨.mark .openParen, paren⟩ :: inner)
        ⟨.mark .closeParen, close⟩]
      exact .call (isCall_of_derived hsep hitems hstatic)
    · cases hcall
  · rename_i n span tail _
    cases hcase
    exact ⟨[⟨.name n, span⟩], rfl, .var⟩
  · rename_i span tail
    rw [seen_term_paren] at h
    obtain ⟨⟨inner, mid⟩, hinner, hparen⟩ := Option.bind_eq_some_iff.1 h
    obtain ⟨⟨close, rest'⟩, hclose, heq⟩ := Option.map_eq_some_iff.1 hparen
    obtain ⟨us, rfl, hus⟩ := expr_derived ht.tail hinner
    obtain rfl : mid = ⟨.mark .closeParen, close⟩ :: rest' := of_expect hclose
    cases heq
    refine ⟨⟨.mark .openParen, span⟩ :: (us ++ [⟨.mark .closeParen, close⟩]), by simp, ?_⟩
    rw [← Token.extent_concat ⟨.mark .openParen, span⟩ us ⟨.mark .closeParen, close⟩]
    exact .paren hus
  · rw [seen_fail] at hcase
    cases hcase
termination_by 4 * toks.length
theorem args_derived {toks rest : List Token} {es : List Expr} {close : Span} (ht : AllProper toks)
    (h : seen (args stop toks) = some ((es, close), rest)) :
    ∃ items inner, toks = inner ++ ⟨.mark .closeParen, close⟩ :: rest ∧
      Separated (items.map Prod.fst) inner ∧ Derived items es := by
  have hcase := h
  rw [args.eq_def] at hcase
  generalize htoks : toks = ts at hcase
  have hcount := congrArg List.length htoks
  rw [htoks] at ht h
  split at hcase
  · cases hcase
    exact ⟨[], [], rfl, .none, rfl, by simp⟩
  · rename_i hother
    rw [seen_args_cons stop hother] at h
    obtain ⟨⟨first, mid⟩, hfirst, hlist⟩ := Option.bind_eq_some_iff.1 h
    obtain ⟨⟨⟨more, close'⟩, rest'⟩, hmore, heq⟩ := Option.map_eq_some_iff.1 hlist
    have hlength := length_of_seen hfirst
    obtain ⟨us, rfl, hus⟩ := expr_derived ht hfirst
    obtain ⟨items, inner, rfl, hsep, hitems⟩ := moreArgs_derived ht.of_append hmore
    cases heq
    exact ⟨(us, first) :: items, us ++ inner, by simp, hsep us, hitems.cons hus⟩
termination_by 4 * toks.length + 3
/-- The tokens read carry on any list that has an item already. -/
theorem moreArgs_derived {toks rest : List Token} {es : List Expr} {close : Span} (ht : AllProper toks)
    (h : seen (moreArgs stop toks) = some ((es, close), rest)) :
    ∃ items inner, toks = inner ++ ⟨.mark .closeParen, close⟩ :: rest ∧
      (∀ first, Separated (first :: items.map Prod.fst) (first ++ inner)) ∧ Derived items es := by
  have hcase := h
  rw [moreArgs.eq_def] at hcase
  generalize htoks : toks = ts at hcase
  have hcount := congrArg List.length htoks
  rw [htoks] at ht h
  split at hcase
  · cases hcase
    refine ⟨[], [], rfl, fun first => ?_, rfl, by simp⟩
    rw [List.append_nil]
    exact .one first
  · rename_i span tail
    rw [seen_moreArgs_cons] at h
    obtain ⟨⟨next, mid⟩, hnext, hlist⟩ := Option.bind_eq_some_iff.1 h
    obtain ⟨⟨⟨more, close'⟩, rest'⟩, hmore, heq⟩ := Option.map_eq_some_iff.1 hlist
    have hlength := length_of_seen hnext
    obtain ⟨us, rfl, hus⟩ := expr_derived ht.tail hnext
    obtain ⟨items, inner, rfl, hsep, hitems⟩ := moreArgs_derived ht.tail.of_append hmore
    cases heq
    exact ⟨(us, next) :: items, ⟨.mark .comma, span⟩ :: (us ++ inner), by simp,
      fun first => .more first span (hsep us), hitems.cons hus⟩
  · rw [seen_fail] at hcase
    cases hcase
termination_by 4 * toks.length
decreasing_by
  all_goals simp only [List.length_cons, List.length_append] at *; omega
end

/-! ## What is derived is read -/

/-- Exactly these tokens are read as `e`, by the reader of expressions no looser than `k`. -/
def Reads (k : Nat) (stop : Span) (toks : List Token) (e : Expr) : Prop :=
  ∀ rest, Follows k (rest.map Token.lexeme) → seen (readAt k stop (toks ++ rest)) = some (e, rest)

theorem int32?_of_value {digits : Bytes} (hd : IsNumeral digits) (hmax : Decimal.value digits ≤ 2147483647) :
    Decimal.int32? digits = some (.ofNat (Decimal.value digits)) := by
  rw [Decimal.int32?, Decimal.signed?_of_isNumeral hd]
  dsimp only
  rw [if_pos (by omega)]
  rfl

theorem moreArgs_reads (stop close : Span) (rest : List Token) {items : List (List Token × Expr)}
    (hitems : ∀ item ∈ items, Reads 2 stop item.1 item.2) {first toks : List Token}
    (hsep : Separated (first :: items.map Prod.fst) toks) :
    ∃ tail, toks = first ++ tail ∧
      Follows 2 ((tail ++ ⟨.mark .closeParen, close⟩ :: rest).map Token.lexeme) ∧
      seen (moreArgs stop (tail ++ ⟨.mark .closeParen, close⟩ :: rest)) =
        some ((items.map Prod.snd, close), rest) := by
  induction items generalizing first toks with
  | nil =>
    cases hsep
    exact ⟨[], (List.append_nil _).symm, ⟨by simp, by simp, by simp⟩, seen_moreArgs_nil stop close rest⟩
  | cons item items ih =>
    cases hsep with
    | more _ span h =>
      obtain ⟨tail, rfl, hfollows, hmore⟩ := ih (fun i hi => hitems i (List.mem_cons_of_mem item hi)) h
      refine ⟨⟨.mark .comma, span⟩ :: (item.1 ++ tail), rfl, ⟨by simp, by simp, by simp⟩, ?_⟩
      have hitem : seen (expr stop (item.1 ++ (tail ++ ⟨.mark .closeParen, close⟩ :: rest))) = _ :=
        hitems item List.mem_cons_self _ hfollows
      rw [List.cons_append, seen_moreArgs_cons, List.append_assoc, hitem, Option.bind_some]
      dsimp only
      rw [hmore, Option.map_some, List.map_cons]

theorem args_reads (stop close : Span) (rest : List Token) {items : List (List Token × Expr)}
    (hitems : ∀ item ∈ items, Reads 2 stop item.1 item.2) (hcovers : ∀ item ∈ items, Covers item.1 item.2)
    (hsep : Separated (items.map Prod.fst) toks) :
    seen (args stop (toks ++ ⟨.mark .closeParen, close⟩ :: rest)) =
      some ((items.map Prod.snd, close), rest) := by
  cases items with
  | nil =>
    cases hsep
    exact seen_args_nil stop close rest
  | cons item items =>
    obtain ⟨tail, rfl, hfollows, hmore⟩ :=
      moreArgs_reads stop close rest (fun i hi => hitems i (List.mem_cons_of_mem item hi)) hsep
    have hitem : seen (expr stop (item.1 ++ (tail ++ ⟨.mark .closeParen, close⟩ :: rest))) = _ :=
      hitems item List.mem_cons_self _ hfollows
    have hopen : ∀ span after, item.1 ++ (tail ++ ⟨.mark .closeParen, close⟩ :: rest) =
        ⟨.mark .closeParen, span⟩ :: after → False := by
      intro span after heq
      obtain ⟨t, ts, ht, hne⟩ := (hcovers item List.mem_cons_self).starts
      rw [ht] at heq
      cases heq
      exact hne rfl
    rw [List.append_assoc, seen_args_cons stop hopen, hitem, Option.bind_some]
    dsimp only
    rw [hmore, Option.map_some, List.map_cons]

mutual
theorem IsExpr.reads (stop : Span) {toks : List Token} {e : Expr} : IsExpr toks e → Reads 2 stop toks e
  | .summand h => by
    intro rest hrest
    have hseen : seen (summand stop (toks ++ rest)) = _ := h.reads stop rest (hrest.anti (by decide))
    change seen (expr stop (toks ++ rest)) = _
    rw [seen_expr, hseen, Option.bind_some]
    dsimp only
    rw [behind?_of_lexemes rfl (hrest.plus (by decide))]
  | @IsExpr.sum ls l rs r span hl hr => by
    intro rest hrest
    have hleft : seen (summand stop (ls ++ (⟨.mark .plus, span⟩ :: rs ++ rest))) = _ :=
      hl.reads stop _ ⟨by simp, by simp, by simp⟩
    have hright : seen (expr stop (rs ++ rest)) = _ := hr.reads stop rest hrest
    change seen (expr stop (ls ++ ⟨.mark .plus, span⟩ :: rs ++ rest)) = _
    rw [List.append_assoc, seen_expr, hleft, Option.bind_some, hl.covers.extent hr.covers]
    dsimp only
    rw [List.cons_append, behind?_mark]
    dsimp only
    rw [hright, Option.map_some]
theorem IsSummand.reads (stop : Span) {toks : List Token} {e : Expr} :
    IsSummand toks e → Reads 1 stop toks e
  | .term h => by
    intro rest hrest
    have hseen : seen (term stop (toks ++ rest)) = _ := h.reads stop rest (hrest.anti (by decide))
    change seen (summand stop (toks ++ rest)) = _
    rw [seen_summand, hseen, Option.bind_some]
    dsimp only
    rw [behind?_of_lexemes rfl (hrest.star (by decide))]
  | @IsSummand.product ls l rs r span hl hr => by
    intro rest hrest
    have hleft : seen (term stop (ls ++ (⟨.mark .star, span⟩ :: rs ++ rest))) = _ :=
      hl.reads stop _ ⟨by simp, by simp, by simp⟩
    have hright : seen (summand stop (rs ++ rest)) = _ := hr.reads stop rest hrest
    change seen (summand stop (ls ++ ⟨.mark .star, span⟩ :: rs ++ rest)) = _
    rw [List.append_assoc, seen_summand, hleft, Option.bind_some, hl.covers.extent hr.covers]
    dsimp only
    rw [List.cons_append, behind?_mark]
    dsimp only
    rw [hright, Option.map_some]
theorem IsTerm.reads (stop : Span) {toks : List Token} {e : Expr} : IsTerm toks e → Reads 0 stop toks e
  | .number hd hmax => by
    intro rest _
    change seen (term stop _) = _
    rw [List.singleton_append, term, int32?_of_value hd hmax]
    rfl
  | .string => by
    intro rest _
    change seen (term stop _) = _
    rw [List.singleton_append, term]
    rfl
  | .trueWord => by
    intro rest _
    change seen (term stop _) = _
    rw [List.singleton_append, term]
    rfl
  | .falseWord => by
    intro rest _
    change seen (term stop _) = _
    rw [List.singleton_append, term]
    rfl
  | .var => by
    intro rest hrest
    change seen (term stop _) = _
    rw [List.singleton_append, term]
    · rfl
    · rintro span after rfl
      exact hrest.call rfl
  | @IsTerm.call _ n es h => by
    intro rest _
    obtain ⟨span, paren, inner, close, rfl, hextent, hstatic, hargs⟩ := h.reads stop
    change seen (term stop _) = _
    rw [hextent, List.cons_append, List.cons_append, List.append_assoc, List.singleton_append,
      seen_term_call, hargs rest, Option.bind_some]
    dsimp only
    rw [if_pos hstatic]
  | @IsTerm.paren us inner span close h => by
    intro rest _
    have hseen : seen (expr stop (us ++ ⟨.mark .closeParen, close⟩ :: rest)) = _ :=
      h.reads stop _ ⟨by simp, by simp, by simp⟩
    change seen (term stop _) = _
    rw [Token.extent_concat, List.cons_append, List.append_assoc, List.singleton_append, seen_term_paren,
      hseen, Option.bind_some]
    dsimp only
    rw [seen_expect_mark, Option.map_some]
theorem IsCall.reads (stop : Span) {toks : List Token} {n : Name} {es : List Expr} : IsCall toks n es →
    ∃ span paren inner close,
      toks = ⟨.name n, span⟩ :: ⟨.mark .openParen, paren⟩ :: (inner ++ [⟨.mark .closeParen, close⟩]) ∧
      Token.extent toks = span.through close ∧ (n.isStatic = true → es.all Expr.isStatic = true) ∧
      ∀ rest, seen (args stop (inner ++ ⟨.mark .closeParen, close⟩ :: rest)) = some ((es, close), rest)
  | @IsCall.call n span paren close inner items hsep hitems hstatic => by
    refine ⟨span, paren, inner, close, rfl, ?_, ?_, fun rest => ?_⟩
    · exact Token.extent_concat ⟨.name n, span⟩ (⟨.mark .openParen, paren⟩ :: inner) _
    · intro hn
      simpa using fun t e hmem => hstatic hn (t, e) hmem
    · exact args_reads stop close rest (fun item hitem => (hitems item hitem).reads stop)
        (fun item hitem => (hitems item hitem).covers) hsep
end

end PackScript.Grammar
