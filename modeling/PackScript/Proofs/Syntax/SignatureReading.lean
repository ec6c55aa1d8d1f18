import PackScript.Proofs.Syntax.ExprReading

/-! # Annotations, parameters and signatures

Every signature that the grammar reads is proper, and from the lexemes of a proper
signature it reads that signature again.
-/
namespace PackScript.Grammar

variable {toks rest : List Token} {stop : Span} {ls : List Lexeme} {owner : Name} {ps : List Param}

/-! ## Annotations -/

theorem typing_proper {ty : Typing} (ht : AllProper toks) (h : seen (typing stop toks) = some (ty, rest)) :
    ty ≠ .unknown ∧ AllProper rest := by
  rw [typing.eq_def] at h
  split at h
  · rename_i n span tail
    split at h
    · rename_i ty' hty
      cases h
      refine ⟨?_, ht.tail⟩
      rintro rfl
      split at hty
      · have hmem := List.mem_of_find?_eq_some hty
        simp at hmem
      · cases hty
    · cases h
  · rw [seen_fail] at h
    cases h

theorem typing_readsBack (stop : Span) {ty : Typing} (hty : ty ≠ .unknown)
    (htoks : toks.map Token.lexeme = .name (.ofStatic ty.render) :: ls) :
    ReadsBack (typing stop toks) (· = ty) ls := by
  obtain ⟨span, rest, rfl, hrest⟩ := cons_of_lexemes htoks
  refine ⟨ty, rest, ?_, rfl, hrest⟩
  cases ty with
  | unknown => exact absurd rfl hty
  | _ => rfl

/-! ## Parameters -/

theorem seen_param (stop : Span) (owner : Name) (ps : List Param) (n : Name) (span : Span)
    (rest : List Token) :
    seen (param stop owner ps (⟨.name n, span⟩ :: rest)) =
      if (owner.isStatic = true → n.isStatic = true) ∧ n ∉ ps.map Param.name then
        match behind? .colon rest with
        | some after => (seen (typing stop after)).map fun p => (⟨n, p.1⟩, p.2)
        | none => some (⟨n, .unknown⟩, rest)
      else none := by
  have hdynamic : (owner.isStatic && n.dynamic) = true ↔ ¬(owner.isStatic = true → n.isStatic = true) := by
    rw [Name.isStatic, Name.isStatic]
    cases owner.dynamic <;> cases n.dynamic <;> decide
  have hseen : (ps.any fun p => decide (p.name = n)) = true ↔ n ∈ ps.map Param.name := by
    simp
  rw [param.eq_def]
  dsimp only
  by_cases hs : owner.isStatic = true → n.isStatic = true
  · by_cases hn : n ∈ ps.map Param.name
    · rw [if_neg (fun h => hdynamic.1 h hs), if_pos (hseen.2 hn), if_neg (fun h => h.2 hn)]
      rfl
    · rw [if_neg (fun h => hdynamic.1 h hs), if_neg (fun h => hn (hseen.1 h)), if_pos ⟨hs, hn⟩]
      split
      · rename_i span' after
        rw [behind?_mark]
        dsimp only
        cases typing stop after <;> rfl
      · rename_i hcolon
        rw [behind?_eq_none hcolon]
        rfl
  · rw [if_pos (hdynamic.2 hs), if_neg (fun h => hs h.1)]
    rfl

theorem param_proper {p : Param} (ht : AllProper toks) (hps : (⟨owner, ps⟩ : Signature).Proper)
    (h : seen (param stop owner ps toks) = some (p, rest)) :
    (⟨owner, ps ++ [p]⟩ : Signature).Proper ∧ AllProper rest := by
  have hcase := h
  rw [param.eq_def] at hcase
  split at hcase
  · rename_i n span tail
    rw [seen_param] at h
    split at h
    · rename_i hn
      have hname : p.name = n ∧ AllProper rest := by
        cases hb : behind? .colon tail with
        | none =>
          rw [hb] at h
          cases h
          exact ⟨rfl, ht.tail⟩
        | some after =>
          rw [hb] at h
          obtain ⟨⟨ty, rest'⟩, hty, heq⟩ := Option.map_eq_some_iff.1 h
          cases heq
          exact ⟨rfl, (typing_proper (ht.tail.behind hb) hty).2⟩
      obtain ⟨rfl, hrest⟩ := hname
      refine ⟨⟨hps.name, ?_, ?_, ?_⟩, hrest⟩
      · intro q hq
        rcases List.mem_append.1 hq with hq | hq
        · exact hps.params q hq
        · rw [List.mem_singleton.1 hq]
          exact ht _ List.mem_cons_self
      · intro hs q hq
        rcases List.mem_append.1 hq with hq | hq
        · exact hps.static hs q hq
        · rw [List.mem_singleton.1 hq]
          exact hn.1 hs
      · rw [List.map_append, List.map_singleton, List.nodup_append]
        refine ⟨hps.distinct, by simp, ?_⟩
        rintro m hm m' hm' rfl
        rw [List.mem_singleton.1 hm'] at hm
        exact hn.2 hm
    · cases h
  · rw [seen_fail] at hcase
    cases hcase

theorem seen_params_nil (stop : Span) (owner : Name) (ps : List Param) (span : Span) (rest : List Token) :
    seen (params stop owner ps (⟨.mark .closeParen, span⟩ :: rest)) = some (ps, rest) := by
  rw [params]
  rfl

theorem seen_params_first (stop : Span) (owner : Name) {toks : List Token}
    (h : ∀ span rest, toks = ⟨.mark .closeParen, span⟩ :: rest → False) :
    seen (params stop owner [] toks) = (seen (param stop owner [] toks)).bind fun p =>
      seen (params stop owner [p.1] p.2) := by
  rw [params.eq_def]
  split
  · exact (h _ _ rfl).elim
  · rw [if_pos List.isEmpty_nil]
    cases param stop owner [] toks with
    | error f => rfl
    | ok p =>
      simp only [Bind.bind, Except.bind, seen_ok, Option.bind_some, List.nil_append]
      cases params stop owner [p.value] p.rest <;> rfl

theorem seen_params_more (stop : Span) (owner : Name) {ps : List Param} (hps : ps ≠ [])
    {toks : List Token} (h : ∀ span rest, toks = ⟨.mark .closeParen, span⟩ :: rest → False) :
    seen (params stop owner ps toks) = (behind? .comma toks).bind fun after =>
      (seen (param stop owner ps after)).bind fun p => seen (params stop owner (ps ++ [p.1]) p.2) := by
  rw [params.eq_def]
  split
  · exact (h _ _ rfl).elim
  · rw [if_neg (by simpa using hps)]
    rw [behind?_eq stop .comma .commaOrClosingParen]
    cases expect stop .comma .commaOrClosingParen toks with
    | error f => rfl
    | ok comma =>
      simp only [Bind.bind, Except.bind, seen_ok, Option.map_some, Option.bind_some]
      cases param stop owner ps comma.rest with
      | error f => rfl
      | ok p =>
        simp only [seen_ok, Option.bind_some]
        cases params stop owner (ps ++ [p.value]) p.rest <;> rfl

theorem params_proper {toks rest : List Token} {ps qs : List Param} (ht : AllProper toks) (hps : (⟨owner, ps⟩ : Signature).Proper)
    (h : seen (params stop owner ps toks) = some (qs, rest)) :
    (⟨owner, qs⟩ : Signature).Proper ∧ AllProper rest := by
  by_cases hclose : ∃ span rest, toks = ⟨.mark .closeParen, span⟩ :: rest
  · obtain ⟨span, tail, rfl⟩ := hclose
    rw [seen_params_nil] at h
    cases h
    exact ⟨hps, ht.tail⟩
  have hother : ∀ span rest, toks = ⟨.mark .closeParen, span⟩ :: rest → False :=
    fun span rest heq => hclose ⟨span, rest, heq⟩
  cases ps with
  | nil =>
    rw [seen_params_first stop owner hother] at h
    obtain ⟨⟨p, mid⟩, hp, h⟩ := Option.bind_eq_some_iff.1 h
    have hlength := length_of_seen hp
    obtain ⟨hpp, hmid⟩ := param_proper ht hps hp
    exact params_proper hmid hpp h
  | cons q ps =>
    rw [seen_params_more stop owner (List.cons_ne_nil q ps) hother] at h
    obtain ⟨after, hafter, h⟩ := Option.bind_eq_some_iff.1 h
    obtain ⟨⟨p, mid⟩, hp, h⟩ := Option.bind_eq_some_iff.1 h
    have hshorter := length_behind hafter
    have hlength := length_of_seen hp
    obtain ⟨hpp, hmid⟩ := param_proper (ht.behind hafter) hps hp
    exact params_proper hmid hpp h
termination_by toks.length

theorem param_readsBack (stop : Span) {p : Param} (hs : owner.isStatic = true → p.name.isStatic = true)
    (hn : p.name ∉ ps.map Param.name) (htoks : toks.map Token.lexeme = p.lexemes ++ ls)
    (hls : ls.head? ≠ some (.mark .colon)) : ReadsBack (param stop owner ps toks) (· = p) ls := by
  obtain ⟨n, ty⟩ := p
  by_cases hty : ty = .unknown
  · subst hty
    obtain ⟨span, rest, rfl, hrest⟩ := cons_of_lexemes htoks
    refine ⟨⟨n, .unknown⟩, rest, ?_, rfl, hrest⟩
    rw [seen_param, if_pos ⟨hs, hn⟩, behind?_of_lexemes hrest hls]
  · rw [Param.lexemes_of_annotated n hty] at htoks
    obtain ⟨span, tail, rfl, htail⟩ := cons_of_lexemes htoks
    obtain ⟨span', after, rfl, hafter⟩ := cons_of_lexemes htail
    obtain ⟨ty', rest, hseen, rfl, hrest⟩ := typing_readsBack stop hty hafter
    refine ⟨⟨n, ty'⟩, rest, ?_, rfl, hrest⟩
    rw [seen_param, if_pos ⟨hs, hn⟩, behind?_mark]
    dsimp only
    rw [hseen, Option.map_some]

theorem next_of_proper {p : Param} {qs : List Param}
    (h : (⟨owner, ps ++ p :: qs⟩ : Signature).Proper) :
    (owner.isStatic = true → p.name.isStatic = true) ∧ p.name ∉ ps.map Param.name := by
  refine ⟨fun hs => h.static hs p (by simp), fun hmem => ?_⟩
  have hdistinct := h.distinct
  simp only [List.map_append, List.map_cons] at hdistinct
  rw [List.nodup_append] at hdistinct
  exact hdistinct.2.2 _ hmem _ List.mem_cons_self rfl

theorem head?_following (lss : List (List Lexeme)) (ls : List Lexeme) :
    (Lexeme.following lss ++ ls).head? ≠ some (.mark .colon) := by
  cases lss <;> simp [Lexeme.following]

theorem moreParams_readsBack (stop : Span) (qs : List Param) {ps : List Param} (hps : ps ≠ [])
    {toks : List Token} (h : (⟨owner, ps ++ qs⟩ : Signature).Proper)
    (htoks : toks.map Token.lexeme = Lexeme.following (qs.map Param.lexemes) ++ ls) :
    ReadsBack (params stop owner ps toks) (· = ps ++ qs) ls := by
  induction qs generalizing ps toks with
  | nil =>
    obtain ⟨span, rest, rfl, hrest⟩ := cons_of_lexemes htoks
    exact ⟨ps, rest, seen_params_nil stop owner ps span rest, (List.append_nil ps).symm, hrest⟩
  | cons q qs ih =>
    rw [List.map_cons, Lexeme.following, List.cons_append, List.append_assoc] at htoks
    obtain ⟨span, tail, rfl, htail⟩ := cons_of_lexemes htoks
    obtain ⟨hs, hn⟩ := next_of_proper h
    obtain ⟨q', mid, hq, rfl, hmid⟩ := param_readsBack stop hs hn htail (head?_following _ ls)
    rw [List.append_cons ps q' qs] at h
    obtain ⟨qs', rest, hqs, hall, hrest⟩ := ih (by simp) h hmid
    refine ⟨qs', rest, ?_, hall.trans (List.append_cons ps q' qs).symm, hrest⟩
    rw [seen_params_more stop owner hps (by rintro _ _ ⟨⟩), behind?_mark, Option.bind_some, hq,
      Option.bind_some]
    exact hqs

theorem params_readsBack (stop : Span) {qs : List Param} (h : (⟨owner, qs⟩ : Signature).Proper)
    (htoks : toks.map Token.lexeme = Lexeme.enclosed (qs.map Param.lexemes) ++ ls) :
    ReadsBack (params stop owner [] toks) (· = qs) ls := by
  cases qs with
  | nil =>
    obtain ⟨span, rest, rfl, hrest⟩ := cons_of_lexemes htoks
    exact ⟨[], rest, seen_params_nil stop owner [] span rest, rfl, hrest⟩
  | cons q qs =>
    rw [List.map_cons, Lexeme.enclosed, List.append_assoc] at htoks
    have hother : ∀ span rest, toks = ⟨.mark .closeParen, span⟩ :: rest → False := by
      rintro span rest rfl
      obtain ⟨n, ty⟩ := q
      cases ty <;> cases htoks
    obtain ⟨hs, hn⟩ := next_of_proper (show (⟨owner, [] ++ q :: qs⟩ : Signature).Proper from h)
    obtain ⟨q', mid, hq, rfl, hmid⟩ := param_readsBack stop hs hn htoks (head?_following _ ls)
    obtain ⟨qs', rest, hqs, hall, hrest⟩ := moreParams_readsBack stop qs (List.cons_ne_nil q' []) h hmid
    refine ⟨qs', rest, ?_, hall, hrest⟩
    rw [seen_params_first stop owner hother, hq, Option.bind_some]
    exact hqs

/-! ## Signatures -/

theorem seen_signature (stop : Span) (n : Name) (span : Span) (rest : List Token) :
    seen (signature stop (⟨.name n, span⟩ :: rest)) = (behind? .openParen rest).bind fun after =>
      (seen (params stop n [] after)).map fun p => (⟨n, p.1⟩, p.2) := by
  rw [signature, behind?_eq stop .openParen .openingParen]
  cases expect stop .openParen .openingParen rest with
  | error f => rfl
  | ok paren =>
    simp only [Bind.bind, Except.bind, seen_ok, Option.map_some, Option.bind_some]
    cases params stop n [] paren.rest <;> rfl

theorem signature_proper {sig : Signature} (ht : AllProper toks)
    (h : seen (signature stop toks) = some (sig, rest)) : sig.Proper ∧ AllProper rest := by
  have hcase := h
  rw [signature.eq_def] at hcase
  split at hcase
  · rename_i n span tail
    rw [seen_signature] at h
    obtain ⟨after, hafter, h⟩ := Option.bind_eq_some_iff.1 h
    obtain ⟨⟨ps, rest'⟩, hps, heq⟩ := Option.map_eq_some_iff.1 h
    have hempty : (⟨n, []⟩ : Signature).Proper :=
      ⟨ht _ List.mem_cons_self, by simp, by simp, List.nodup_nil⟩
    cases heq
    exact params_proper (ht.tail.behind hafter) hempty hps
  · rw [seen_fail] at hcase
    cases hcase

theorem signature_readsBack (stop : Span) {sig : Signature} (h : sig.Proper)
    (htoks : toks.map Token.lexeme = sig.lexemes ++ ls) :
    ReadsBack (signature stop toks) (· = sig) ls := by
  obtain ⟨n, ps⟩ := sig
  rw [Signature.lexemes, List.cons_append, List.cons_append] at htoks
  obtain ⟨span, tail, rfl, htail⟩ := cons_of_lexemes htoks
  obtain ⟨span', after, rfl, hafter⟩ := cons_of_lexemes htail
  obtain ⟨ps', rest, hps, rfl, hrest⟩ := params_readsBack stop h hafter
  refine ⟨⟨n, ps'⟩, rest, ?_, rfl, hrest⟩
  rw [seen_signature, behind?_mark, Option.bind_some, hps, Option.map_some]

end PackScript.Grammar
