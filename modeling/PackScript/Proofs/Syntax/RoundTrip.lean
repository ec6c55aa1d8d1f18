import PackScript.Proofs.Syntax.StmtReadingBack

/-! # Printing and parsing

The text printed from a parsed program is a source text of the same program: parsing it
gives the same statements in other places, and printing those gives the same text.
-/
namespace PackScript.Grammar

theorem wholeBlock_cons (stop : Span) (t : Token) (rest : List Token) (b : Block) :
    wholeBlock stop (t :: rest) = .ok b ↔ ∃ s mid more, seen (stmt stop (t :: rest)) = some (s, mid) ∧
      wholeBlock stop mid = .ok more ∧ b = s :: more := by
  rw [wholeBlock]
  cases stmt stop (t :: rest) with
  | error f => simp [Bind.bind, Except.bind]
  | ok first =>
    simp only [Bind.bind, Except.bind, seen_ok]
    cases hmore : wholeBlock stop first.rest with
    | error f =>
      constructor
      · intro h
        cases h
      · rintro ⟨s, mid, more, hs, hm, rfl⟩
        cases hs
        cases hmore.symm.trans hm
    | ok more =>
      constructor
      · intro h
        cases h
        exact ⟨_, _, more, rfl, hmore, rfl⟩
      · rintro ⟨s, mid, more', hs, hm, rfl⟩
        cases hs
        cases hmore.symm.trans hm
        rfl

theorem wholeBlock_proper (stop : Span) {toks : List Token} {b : Block} (ht : AllProper toks)
    (h : wholeBlock stop toks = .ok b) : Block.Proper b := by
  cases toks with
  | nil =>
    rw [wholeBlock] at h
    cases h
    trivial
  | cons t rest =>
    obtain ⟨s, mid, more, hs, hmore, rfl⟩ := (wholeBlock_cons stop t rest b).1 h
    have hlength := length_of_seen hs
    obtain ⟨hsp, hmid⟩ := stmt_proper ht hs
    exact ⟨hsp, wholeBlock_proper stop hmid hmore⟩
termination_by toks.length

theorem wholeBlock_readsBack (stop : Span) (b : List Stmt) (h : Block.Proper b) {toks : List Token}
    (htoks : toks.map Token.lexeme = Block.lexemes b) :
    ∃ b', wholeBlock stop toks = .ok b' ∧ Block.bare b' = Block.bare b := by
  induction b generalizing toks with
  | nil =>
    rw [Block.lexemes, List.map_eq_nil_iff] at htoks
    subst htoks
    exact ⟨[], by rw [wholeBlock], rfl⟩
  | cons s b ih =>
    rw [Block.lexemes] at htoks
    have hnext : (Block.lexemes b).head? ≠ some (.keyword .elseWord) := by
      cases b with
      | nil => simp [Block.lexemes]
      | cons s' b =>
        obtain ⟨m, ms, hs', -, hne⟩ := exists_head_of_stmt s'
        simpa [Block.lexemes, hs'] using hne
    obtain ⟨s', mid, hseen, hs', hmid⟩ := stmt_readsBack stop s h.1 htoks hnext
    obtain ⟨b', hb, hb'⟩ := ih h.2 hmid
    obtain ⟨l, ms, hl, -⟩ := exists_head_of_stmt s
    rw [hl] at htoks
    obtain ⟨span, tail, rfl, -⟩ := cons_of_lexemes htoks
    refine ⟨s' :: b', (wholeBlock_cons stop _ tail _).2 ⟨s', mid, b', hseen, hb, rfl⟩, ?_⟩
    simp only [Block.bare, hs', hb']

end PackScript.Grammar

namespace PackScript.Program

theorem parse_eq_ok {source : Bytes} {p : Program} :
    parse source = .ok p ↔ ∃ tokens, (scanFrom .start source).result = .ok tokens ∧
      Grammar.wholeBlock (TokenStream.ofTokens tokens).stop (TokenStream.ofTokens tokens).tokens =
        .ok p.body ∧ p.stop = (TokenStream.ofTokens tokens).stop := by
  rw [parse, tokenize]
  cases (scanFrom .start source).result with
  | error f => simp [Bind.bind, Except.bind]
  | ok tokens =>
    simp only [Bind.bind, Except.bind, ofTokens, Except.ok.injEq, exists_eq_left']
    cases Grammar.wholeBlock (TokenStream.ofTokens tokens).stop (TokenStream.ofTokens tokens).tokens with
    | error f => simp
    | ok body =>
      obtain ⟨body', stop⟩ := p
      simp [pure, Except.pure, eq_comm]

theorem proper_of_parse {source : Bytes} {p : Program} (h : parse source = .ok p) :
    Block.Proper p.body := by
  obtain ⟨tokens, hscan, hbody, -⟩ := parse_eq_ok.1 h
  exact Grammar.wholeBlock_proper _ (proper_of_scanFrom hscan) hbody

/-- Whatever source a program was parsed from, its printed text parses to a program that is
the same but for places, and that is printed alike. -/
theorem parse_print {source : Bytes} {p : Program} (h : parse source = .ok p) :
    ∃ q, parse p.print = .ok q ∧ Block.bare q.body = Block.bare p.body ∧ q.print = p.print := by
  have hproper := proper_of_parse h
  obtain ⟨tokens, hscan, htokens⟩ := exists_tokens_of_lexemes? .start (lexemes?_print hproper)
  obtain ⟨body, hbody, hbare⟩ :=
    Grammar.wholeBlock_readsBack (TokenStream.ofTokens tokens).stop p.body hproper htokens
  exact ⟨⟨body, _⟩, parse_eq_ok.2 ⟨tokens, hscan, hbody, rfl⟩, hbare, print_eq_of_bare hbare⟩

/-- A string in a hole that holds a brace, an empty final block, and a numeral with zeros. -/
theorem parse_print_conditional : ∃ p q,
    parse "if a\x7b/say #\x7b\"\x7d\"+b\x7d #\n\x7delse\x7b\x7d x: int:=(007*2)*y';" = .ok p ∧
      p.print = "if a \x7b\n  /say #\x7b\"\x7d\" + b\x7d #\n\x7d else \x7b\n\x7d\nx: int := (7 * 2) * y';\n" ∧
      parse p.print = .ok q ∧ Block.bare q.body = Block.bare p.body ∧ q.print = p.print := by
  have htext : (parse
      "if a\x7b/say #\x7b\"\x7d\"+b\x7d #\n\x7delse\x7b\x7d x: int:=(007*2)*y';").toOption.map print =
      some "if a \x7b\n  /say #\x7b\"\x7d\" + b\x7d #\n\x7d else \x7b\n\x7d\nx: int := (7 * 2) * y';\n" := by
    decide +kernel
  cases hp : parse "if a\x7b/say #\x7b\"\x7d\"+b\x7d #\n\x7delse\x7b\x7d x: int:=(007*2)*y';" with
  | error f =>
    rw [hp] at htext
    cases htext
  | ok p =>
    rw [hp] at htext
    obtain ⟨q, hq⟩ := parse_print hp
    exact ⟨p, q, rfl, Option.some.inj htext, hq⟩

end PackScript.Program
