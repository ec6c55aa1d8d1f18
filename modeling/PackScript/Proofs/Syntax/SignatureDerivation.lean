import PackScript.Proofs.Syntax.ExprDerivation
import PackScript.Proofs.Syntax.SignatureReading

/-! # Derivations of signatures

Parameters are read one after the other, with those before them at hand. The conditions on
all the parameters of a signature are what the checks on each of them come to.
-/
namespace PackScript.Grammar

variable {toks rest : List Token} {stop : Span} {owner : Name} {p : Param} {t : Token} {ty : Typing}

/-! ## Annotations and single parameters -/

theorem isType_of_annotation {text : Bytes} (h : Typing.ofAnnotation? text = some ty) (span : Span) :
    IsType ⟨.name (.ofStatic text), span⟩ ty := by
  have hrender : ty.render = text := by simpa using List.find?_some h
  have hmem := List.mem_of_find?_eq_some h
  subst hrender
  simp only [List.mem_cons, List.not_mem_nil, or_false] at hmem
  rcases hmem with rfl | rfl | rfl
  · exact .int
  · exact .string
  · exact .bool

theorem typing_derived (h : seen (typing stop toks) = some (ty, rest)) :
    ∃ t, toks = t :: rest ∧ IsType t ty := by
  rw [typing.eq_def] at h
  split at h
  · rename_i n span tail
    split at h
    · rename_i ty' hty
      cases h
      split at hty
      · rename_i hn
        have hname : n = .ofStatic n.text := by
          obtain ⟨text, dynamic⟩ := n
          cases dynamic with
          | false => rfl
          | true => cases hn
        refine ⟨_, rfl, ?_⟩
        rw [hname]
        exact isType_of_annotation hty span
      · cases hty
    · cases h
  · rw [seen_fail] at h
    cases h

theorem IsType.reads (stop : Span) (rest : List Token) (h : IsType t ty) :
    seen (typing stop (t :: rest)) = some (ty, rest) := by
  cases h <;> rfl

theorem param_derived {ps : List Param} (h : seen (param stop owner ps toks) = some (p, rest)) :
    ∃ used, toks = used ++ rest ∧ IsParam used p := by
  have hcase := h
  rw [param.eq_def] at hcase
  split at hcase
  · rename_i n span tail
    rw [seen_param] at h
    split at h
    · cases hb : behind? .colon tail with
      | none =>
        rw [hb] at h
        cases h
        exact ⟨_, rfl, .plain⟩
      | some after =>
        rw [hb] at h
        obtain ⟨⟨ty, rest'⟩, hty, heq⟩ := Option.map_eq_some_iff.1 h
        obtain ⟨colon, rfl⟩ := of_behind? hb
        obtain ⟨t, rfl, ht⟩ := typing_derived hty
        cases heq
        exact ⟨[⟨.name n, span⟩, ⟨.mark .colon, colon⟩, t], rfl, .typed ht⟩
    · cases h
  · rw [seen_fail] at hcase
    cases hcase

theorem IsParam.starts (h : IsParam toks p) : ∃ span ts, toks = ⟨.name p.name, span⟩ :: ts := by
  cases h <;> exact ⟨_, _, rfl⟩

theorem IsParam.reads (stop : Span) {ps : List Param} (h : IsParam toks p)
    (hs : owner.isStatic = true → p.name.isStatic = true) (hn : p.name ∉ ps.map Param.name)
    (hrest : behind? .colon rest = none) :
    seen (param stop owner ps (toks ++ rest)) = some (p, rest) := by
  cases h with
  | plain => rw [List.singleton_append, seen_param, if_pos ⟨hs, hn⟩, hrest]
  | typed ht =>
    rw [List.cons_append, seen_param, if_pos ⟨hs, hn⟩, List.cons_append, behind?_mark]
    dsimp only
    rw [List.singleton_append, ht.reads, Option.map_some]

/-! ## Lists of parameters -/

theorem params_derived {toks rest : List Token} {ps qs : List Param}
    (h : seen (params stop owner ps toks) = some (qs, rest)) :
    ∃ (items : List (List Token × Param)) (inner : List Token) (close : Span),
      toks = inner ++ ⟨.mark .closeParen, close⟩ :: rest ∧
      qs = ps ++ items.map Prod.snd ∧ (∀ item ∈ items, IsParam item.1 item.2) ∧
      (ps = [] → Separated (items.map Prod.fst) inner) ∧
      (ps ≠ [] → ∀ first, Separated (first :: items.map Prod.fst) (first ++ inner)) := by
  by_cases hclose : ∃ span after, toks = ⟨.mark .closeParen, span⟩ :: after
  · obtain ⟨span, after, rfl⟩ := hclose
    rw [seen_params_nil] at h
    cases h
    refine ⟨[], [], span, rfl, by simp, by simp, fun _ => .none, fun _ first => ?_⟩
    rw [List.append_nil]
    exact .one first
  have hother : ∀ span after, toks = ⟨.mark .closeParen, span⟩ :: after → False :=
    fun span after heq => hclose ⟨span, after, heq⟩
  cases ps with
  | nil =>
    rw [seen_params_first stop owner hother] at h
    obtain ⟨⟨p, mid⟩, hp, hmore⟩ := Option.bind_eq_some_iff.1 h
    have hlength := length_of_seen hp
    obtain ⟨us, rfl, hus⟩ := param_derived hp
    obtain ⟨items, inner, close, rfl, rfl, hitems, -, hsep⟩ := params_derived hmore
    refine ⟨(us, p) :: items, us ++ inner, close, by simp, by simp, ?_, ?_, ?_⟩
    · exact List.forall_mem_cons.2 ⟨hus, hitems⟩
    · exact fun _ => hsep (by simp) us
    · exact fun hne => absurd rfl hne
  | cons q ps =>
    rw [seen_params_more stop owner (List.cons_ne_nil q ps) hother] at h
    obtain ⟨after, hafter, hnext⟩ := Option.bind_eq_some_iff.1 h
    obtain ⟨⟨p, mid⟩, hp, hmore⟩ := Option.bind_eq_some_iff.1 hnext
    have hshorter := length_behind hafter
    have hlength := length_of_seen hp
    obtain ⟨span, rfl⟩ := of_behind? hafter
    obtain ⟨us, rfl, hus⟩ := param_derived hp
    obtain ⟨items, inner, close, rfl, rfl, hitems, -, hsep⟩ := params_derived hmore
    refine ⟨(us, p) :: items, ⟨.mark .comma, span⟩ :: (us ++ inner), close, by simp, by simp, ?_, ?_, ?_⟩
    · exact List.forall_mem_cons.2 ⟨hus, hitems⟩
    · exact fun heq => absurd heq (List.cons_ne_nil q ps)
    · exact fun _ first => .more first span (hsep (by simp) us)
termination_by toks.length

theorem moreParams_reads (stop close : Span) (rest : List Token) {items : List (List Token × Param)}
    {ps : List Param} (hps : ps ≠ []) (hitems : ∀ item ∈ items, IsParam item.1 item.2)
    (hdistinct : ((ps ++ items.map Prod.snd).map Param.name).Nodup)
    (hstatic : owner.isStatic = true → ∀ item ∈ items, item.2.name.isStatic = true)
    {first toks : List Token} (hsep : Separated (first :: items.map Prod.fst) toks) :
    ∃ tail, toks = first ++ tail ∧ behind? .colon (tail ++ ⟨.mark .closeParen, close⟩ :: rest) = none ∧
      seen (params stop owner ps (tail ++ ⟨.mark .closeParen, close⟩ :: rest)) =
        some (ps ++ items.map Prod.snd, rest) := by
  induction items generalizing ps first toks with
  | nil =>
    cases hsep
    refine ⟨[], (List.append_nil _).symm, rfl, ?_⟩
    rw [List.nil_append, seen_params_nil, List.map_nil, List.append_nil]
  | cons item items ih =>
    cases hsep with
    | more _ span h =>
      rw [List.map_cons, List.append_cons] at hdistinct
      have hfresh : item.2.name ∉ ps.map Param.name := by
        intro hmem
        simp only [List.map_append, List.map_cons, List.map_nil] at hdistinct
        have hpair := (List.nodup_append.1 (List.nodup_append.1 hdistinct).1).2.2
        exact hpair _ hmem _ (List.mem_singleton.2 rfl) rfl
      obtain ⟨tail, rfl, hcolon, hmore⟩ := ih (by simp)
        (fun i hi => hitems i (List.mem_cons_of_mem item hi)) hdistinct
        (fun hs i hi => hstatic hs i (List.mem_cons_of_mem item hi)) h
      have hitem := (hitems item List.mem_cons_self).reads stop
        (fun hs => hstatic hs item List.mem_cons_self) hfresh hcolon
      refine ⟨⟨.mark .comma, span⟩ :: (item.1 ++ tail), rfl, rfl, ?_⟩
      rw [List.cons_append, seen_params_more stop owner hps (by rintro _ _ ⟨⟩), behind?_mark,
        Option.bind_some, List.append_assoc, hitem, Option.bind_some]
      dsimp only
      rw [hmore, List.append_assoc, List.singleton_append, List.map_cons]

/-! ## Signatures -/

theorem signature_derived {sig : Signature} (ht : AllProper toks)
    (h : seen (signature stop toks) = some (sig, rest)) :
    ∃ used, toks = used ++ rest ∧ IsSignature used sig := by
  have hproper := (signature_proper ht h).1
  have hcase := h
  rw [signature.eq_def] at hcase
  split at hcase
  · rename_i n span tail
    rw [seen_signature] at h
    obtain ⟨after, hafter, hnext⟩ := Option.bind_eq_some_iff.1 h
    obtain ⟨⟨ps, rest'⟩, hps, heq⟩ := Option.map_eq_some_iff.1 hnext
    obtain ⟨paren, rfl⟩ := of_behind? hafter
    obtain ⟨items, inner, close, rfl, rfl, hitems, hsep, -⟩ := params_derived hps
    cases heq
    refine ⟨⟨.name n, span⟩ :: ⟨.mark .openParen, paren⟩ :: (inner ++ [⟨.mark .closeParen, close⟩]),
      by simp, .named (hsep rfl) hitems hproper.distinct ?_⟩
    intro hs item hitem
    exact hproper.static hs item.2 (List.mem_map_of_mem hitem)
  · rw [seen_fail] at hcase
    cases hcase

theorem IsSignature.reads (stop : Span) (rest : List Token) {sig : Signature} (h : IsSignature toks sig) :
    seen (signature stop (toks ++ rest)) = some (sig, rest) := by
  obtain @⟨n, span, paren, close, inner, items, hsep, hitems, hdistinct, hstatic⟩ := h
  have hparams : seen (params stop n [] (inner ++ ⟨.mark .closeParen, close⟩ :: rest)) =
      some (items.map Prod.snd, rest) := by
    cases items with
    | nil =>
      cases hsep
      exact seen_params_nil stop n [] close rest
    | cons item items =>
      obtain ⟨tail, rfl, hcolon, hmore⟩ := moreParams_reads stop close rest (List.cons_ne_nil item.2 [])
        (fun i hi => hitems i (List.mem_cons_of_mem item hi)) hdistinct
        (fun hs i hi => hstatic hs i (List.mem_cons_of_mem item hi)) hsep
      have hitem : seen (param stop n [] (item.1 ++ (tail ++ ⟨.mark .closeParen, close⟩ :: rest))) = _ :=
        (hitems item List.mem_cons_self).reads stop (fun hs => hstatic hs item List.mem_cons_self)
          (by simp) hcolon
      obtain ⟨span', ts, hts⟩ := (hitems item List.mem_cons_self).starts
      rw [List.append_assoc, seen_params_first stop n (by rw [hts]; rintro _ _ ⟨⟩), hitem,
        Option.bind_some]
      exact hmore
  rw [List.cons_append, List.cons_append, List.append_assoc, List.singleton_append, seen_signature,
    behind?_mark, Option.bind_some, hparams, Option.map_some]

end PackScript.Grammar
