import PackScript.Proofs.Syntax.HoleAgreement

/-! # Progress of the grammar

The readers go through a list of tokens with a cursor. Whatever the tokens are, no reader goes back, and
none goes beyond the first end marker or the end of the list. A reader that succeeds leaves the cursor
further on than it found it, and what it read extends from one token of the list to another. A reader
that fails blames the end, some tokens of the list or the line of one of them. So reading a program is a
run from the first token to the end, statement by statement, or it is broken off by an error with a place.
-/
namespace PackScript

variable {α : Type} {tokens used rest : List Token} {stop : Span} {i j : Nat}

/-! ## Closed holes -/

namespace Grammar

/-- Every hole of a command line is closed. -/
inductive HolesClosed : Bytes → Prop
  | plain {tail : Bytes} (h : Unbroken tail) : HolesClosed tail
  | hole {literal inside rest : Bytes} (hl : Unbroken literal) (hin : IsInside inside) (h : HolesClosed rest) :
      HolesClosed (literal ++ holeText inside rest)

theorem HolesClosed.segments? {line : Bytes} (h : HolesClosed line) :
    ∃ segs tail, segments? line = some (segs, tail) := by
  induction h with
  | plain h => exact ⟨[], _, segments?_of_plain (cut_of_unbroken h)⟩
  | @hole literal inside rest hl hin h ih =>
    obtain ⟨segs, tail, hsegs⟩ := ih
    refine ⟨(literal, inside) :: segs, tail, ?_⟩
    rw [segments?_of_hole (cut_append_holeText hl hin rest), hsegs, Option.map_some]

theorem HolesClosed.located {line : Bytes} (hline : HolesClosed line) {span : Span} {f : Failure}
    (h : command span line = .error f) : ∃ d, f = .diagnostic d := by
  obtain ⟨segs, tail, hsegs⟩ := hline.segments?
  rw [command, holes_of_segments? hsegs] at h
  cases hfilled : filled span 1 segs with
  | error f' =>
    rw [hfilled] at h
    cases h
    exact filled_located hfilled
  | ok parts =>
    rw [hfilled] at h
    cases h

/-- All holes in the commands among the tokens are closed. -/
def AllClosed (tokens : List Token) : Prop := ∀ line span, ⟨.command line, span⟩ ∈ tokens → HolesClosed line

end Grammar

/-! ## Cursors -/

namespace TokenStream

/-- How far a cursor can go: to the first end marker, or to the end of a list without one. -/
def limit (tokens : List Token) : Nat := tokens.findIdx fun t => t.lexeme = .endMarker

/-- The tokens from a cursor on. -/
def unread (tokens : List Token) (i : Nat) : List Token := (ofTokens tokens).tokens.drop i

/-- From the token at one cursor to the token in front of another one. -/
def Spans (tokens : List Token) (i j : Nat) (s : Span) : Prop :=
  ∃ first last, tokens[i]? = some first ∧ tokens[j - 1]? = some last ∧ s = first.span.through last.span

/-- The place of the token in front of a cursor. -/
def ClosesAt (tokens : List Token) (j : Nat) (s : Span) : Prop := ∃ last, tokens[j - 1]? = some last ∧ s = last.span

theorem tokens_eq_take (tokens : List Token) : (ofTokens tokens).tokens = tokens.take (limit tokens) := by
  rw [ofTokens, List.takeWhile_eq_take_findIdx_not, limit]
  simp

theorem limit_le (tokens : List Token) : limit tokens ≤ tokens.length := List.findIdx_le_length

theorem length_unread (tokens : List Token) (i : Nat) : (unread tokens i).length = limit tokens - i := by
  have hle := limit_le tokens
  simp only [unread, tokens_eq_take, List.length_drop, List.length_take]
  omega

theorem getElem?_unread {k : Nat} (hk : i + k < limit tokens) : (unread tokens i)[k]? = tokens[i + k]? := by
  simp [unread, tokens_eq_take, hk]

/-- A reader that takes tokens at a cursor moves it forward, over these tokens. -/
theorem moves_of_took (h : Grammar.Took (unread tokens i) used rest) :
    i < i + used.length ∧ i + used.length ≤ limit tokens ∧ rest = unread tokens (i + used.length) ∧
      ∀ k < used.length, used[k]? = tokens[i + k]? := by
  have hpos : 0 < used.length := List.length_pos_iff.2 h.ne_nil
  have hlength := congrArg List.length h.eq
  rw [length_unread, List.length_append] at hlength
  refine ⟨by omega, by omega, ?_, ?_⟩
  · rw [unread, ← List.drop_drop]
    change rest = (unread tokens i).drop used.length
    simp [h.eq]
  · intro k hk
    rw [← getElem?_unread (by omega), h.eq, List.getElem?_append_left hk]

theorem spans_of_took (h : Grammar.Took (unread tokens i) used rest) :
    Spans tokens i (i + used.length) (Token.extent used) := by
  obtain ⟨-, -, -, hget⟩ := moves_of_took h
  have hpos : 0 < used.length := List.length_pos_iff.2 h.ne_nil
  have hindex : i + used.length - 1 = i + (used.length - 1) := by omega
  refine ⟨used.head h.ne_nil, used.getLast h.ne_nil, ?_, ?_, ?_⟩
  · rw [← List.head?_eq_some_head, List.head?_eq_getElem?, hget 0 hpos, Nat.add_zero]
  · rw [← List.getLast?_eq_some_getLast, List.getLast?_eq_getElem?, hindex, hget _ (by omega)]
  · rw [Token.extent, List.head?_eq_some_head h.ne_nil, List.getLast?_eq_some_getLast h.ne_nil]

theorem closesAt_of_took (h : Grammar.Took (unread tokens i) used rest) {close : Span}
    (hclose : Grammar.EndsAt used close) : ClosesAt tokens (i + used.length) close := by
  obtain ⟨-, -, -, hget⟩ := moves_of_took h
  obtain ⟨init, lexeme, rfl⟩ := hclose
  have hlast := hget init.length (by simp)
  have hindex : i + (init ++ [(⟨lexeme, close⟩ : Token)]).length - 1 = i + init.length := by simp
  refine ⟨⟨lexeme, close⟩, ?_, rfl⟩
  rw [hindex, ← hlast]
  simp

/-- An infix of the tokens before the end stands between two cursors. -/
theorem took_of_infix (hne : used ≠ []) (h : used <:+: (ofTokens tokens).tokens) :
    ∃ i rest, Grammar.Took (unread tokens i) used rest := by
  obtain ⟨front, rest, heq⟩ := h
  refine ⟨front.length, rest, hne, ?_⟩
  simp [unread, ← heq]

/-! ## Placed errors -/

/-- An error at the end, on the tokens between two cursors, or in the line of a command. -/
inductive Blames (tokens : List Token) : Diagnostic → Prop
  | atEnd (cause : Cause) : Blames tokens ⟨cause, (ofTokens tokens).stop, true⟩
  | between {i j : Nat} {span : Span} (hij : i < j) (hj : j ≤ limit tokens) (h : Spans tokens i j span) (cause : Cause) :
      Blames tokens ⟨cause, span, false⟩
  | command {i : Nat} {line : Bytes} {span : Span} {d : Diagnostic} (hi : i < limit tokens)
      (h : tokens[i]? = some ⟨.command line, span⟩) (hd : Grammar.command span line = .error (.diagnostic d)) :
      Blames tokens d

/-- What is refused is blamed on something, if all holes of commands are closed. -/
theorem blames_of_refused {lines : Bool} {f : Failure} (hclosed : Grammar.AllClosed tokens)
    (h : Grammar.Refused (ofTokens tokens).stop (ofTokens tokens).tokens lines f) :
    ∃ d, f = .diagnostic d ∧ Blames tokens d := by
  cases h with
  | atEnd cause => exact ⟨_, rfl, .atEnd cause⟩
  | tokens hne hused cause =>
    obtain ⟨i, rest, htook⟩ := took_of_infix hne hused
    obtain ⟨hij, hj, -, -⟩ := moves_of_took htook
    exact ⟨_, rfl, .between hij hj (spans_of_took htook) cause⟩
  | @command line span f hlines hmem hf =>
    rw [tokens_eq_take] at hmem
    obtain ⟨d, rfl⟩ := (hclosed line span (List.mem_of_mem_take hmem)).located hf
    obtain ⟨i, hi, hget⟩ := List.mem_iff_getElem.1 hmem
    have hlt : i < limit tokens := by
      rw [List.length_take] at hi
      omega
    refine ⟨d, rfl, .command hlt ?_ hf⟩
    rw [← List.getElem?_take_of_lt hlt, List.getElem?_eq_getElem hi, hget]

/-! ## Steps and runs -/

/-- What a reader does at cursor `i`. If it succeeds, the cursor has moved forward, not beyond the
limit, and `made` holds of what was read and the new cursor. If it fails, its error has a place. -/
def Steps (tokens : List Token) (i : Nat) (made : α → Nat → Prop)
    (x : Except Failure (Reading (unread tokens i) α)) : Prop :=
  match x with
  | .error f => ∃ d, f = .diagnostic d ∧ Blames tokens d
  | .ok r => ∃ j, i < j ∧ j ≤ limit tokens ∧ r.rest = unread tokens j ∧ made r.value j

/-- A reader steps wherever the cursor stands. -/
def Progresses (tokens : List Token) (read : Span → Reader α) (made : Nat → α → Nat → Prop) : Prop :=
  ∀ i, Steps tokens i (made i) (read (ofTokens tokens).stop (unread tokens i))

theorem steps_of_minds {lines : Bool} {made : List Token → α → Prop} {made' : α → Nat → Prop}
    {x : Except Failure (Reading (unread tokens i) α)} (hclosed : Grammar.AllClosed tokens)
    (h : Grammar.Minds (ofTokens tokens).stop (ofTokens tokens).tokens lines made x)
    (hmade : ∀ used rest v, Grammar.Took (unread tokens i) used rest → made used v → made' v (i + used.length)) :
    Steps tokens i made' x := by
  cases x with
  | error f => exact blames_of_refused hclosed h
  | ok r =>
    obtain ⟨used, htook, hv⟩ := h
    obtain ⟨hij, hj, hrest, -⟩ := moves_of_took htook
    exact ⟨i + used.length, hij, hj, hrest, hmade used r.rest r.value htook hv⟩

theorem progresses_of_placed {place : α → Span} {read : Span → Reader α}
    (hclosed : Grammar.AllClosed tokens) (h : ∀ {stop : Span} {all : List Token} (toks : List Token),
      toks <:+ all → Grammar.Minds stop all true (Grammar.Placed place) (read stop toks)) :
    Progresses tokens read fun i a j => Spans tokens i j (place a) := by
  intro i
  refine steps_of_minds hclosed (h _ (List.drop_suffix i _)) ?_
  intro used rest a htook ha
  have hspans := spans_of_took htook
  rwa [← ha] at hspans

theorem progresses_of_enclosed {place : α → Span} {read : Span → Reader (List α × Span)}
    (hclosed : Grammar.AllClosed tokens) (h : ∀ {stop : Span} {all : List Token} (toks : List Token),
      toks <:+ all → Grammar.Minds stop all true (Grammar.Enclosed place) (read stop toks)) :
    Progresses tokens read fun _ r j => ClosesAt tokens j r.2 := by
  intro i
  refine steps_of_minds hclosed (h _ (List.drop_suffix i _)) ?_
  intro used rest r htook hr
  exact closesAt_of_took htook hr.close

theorem stmt_progresses (hclosed : Grammar.AllClosed tokens) :
    Progresses tokens Grammar.stmt fun i s j => Spans tokens i j s.span :=
  progresses_of_placed hclosed Grammar.stmt_minds

/-- Statements are read from cursor `i` on, each from where the one before it ended, up to the limit. -/
inductive Run (tokens : List Token) : Nat → Block → Prop
  | done : Run tokens (limit tokens) []
  | step {i j : Nat} {r : Reading (unread tokens i) Stmt} {b : Block}
      (hread : Grammar.stmt (ofTokens tokens).stop (unread tokens i) = .ok r) (hij : i < j) (hj : j ≤ limit tokens)
      (hrest : r.rest = unread tokens j) (hspan : Spans tokens i j r.value.span) (hmore : Run tokens j b) :
      Run tokens i (r.value :: b)

theorem run_of_wholeBlock (hclosed : Grammar.AllClosed tokens) {b : Block} (hi : i ≤ limit tokens)
    (h : Grammar.wholeBlock (ofTokens tokens).stop (unread tokens i) = .ok b) : Run tokens i b := by
  induction b generalizing i with
  | nil =>
    rcases Grammar.cases_of_wholeBlock h with ⟨hnil, -⟩ | ⟨r, more, -, -, heq⟩
    · have hlength := length_unread tokens i
      rw [hnil, List.length_nil] at hlength
      obtain rfl : i = limit tokens := by omega
      exact .done
    · cases heq
  | cons s b ih =>
    rcases Grammar.cases_of_wholeBlock h with ⟨-, heq⟩ | ⟨r, more, hread, hmore, heq⟩
    · cases heq
    · cases heq
      have hstep := stmt_progresses hclosed i
      rw [hread] at hstep
      obtain ⟨j, hij, hj, hrest, hspan⟩ := hstep
      rw [hrest] at hmore
      exact .step hread hij hj hrest hspan (ih hj hmore)

end TokenStream

open TokenStream in
/-- Tokens in any order, with end markers anywhere or nowhere, are read as a program or refused with a
placed error, if only the holes in commands are closed. A program is read in one run from the first token
to the limit of the cursor, and no end marker stands in front of the limit. Wherever the cursor stands,
each reader leaves it further on within the limit, or fails with a placed error. What it read extends
from the token at the old cursor to the one in front of the new cursor, and lists end with that token. -/
theorem Program.ofTokens_progresses (tokens : List Token) (hclosed : Grammar.AllClosed tokens) :
    ((∃ p, ofTokens tokens = .ok p ∧ Run tokens 0 p.body) ∨
      ∃ d, ofTokens tokens = .error (.diagnostic d) ∧ Blames tokens d) ∧
    (limit tokens ≤ tokens.length ∧ ∀ t ∈ tokens.take (limit tokens), t.lexeme ≠ .endMarker) ∧
    Progresses tokens Grammar.stmt (fun i s j => Spans tokens i j s.span) ∧
    Progresses tokens Grammar.expr (fun i e j => Spans tokens i j e.span) ∧
    Progresses tokens Grammar.summand (fun i e j => Spans tokens i j e.span) ∧
    Progresses tokens Grammar.term (fun i e j => Spans tokens i j e.span) ∧
    Progresses tokens Grammar.args (fun _ r j => ClosesAt tokens j r.2) ∧
    Progresses tokens Grammar.block (fun _ r j => ClosesAt tokens j r.2) := by
  refine ⟨?_, ⟨limit_le tokens, ?_⟩, stmt_progresses hclosed, ?_, ?_, ?_, ?_, ?_⟩
  · cases h : ofTokens tokens with
    | ok p => exact .inl ⟨p, rfl, run_of_wholeBlock hclosed (Nat.zero_le _) (ofTokens_eq_ok.1 h).1⟩
    | error f =>
      have hrefused := Grammar.wholeBlock_refused _ List.suffix_rfl (ofTokens_eq_error.1 h)
      obtain ⟨d, rfl, hd⟩ := blames_of_refused hclosed hrefused
      exact .inr ⟨d, rfl, hd⟩
  · intro t ht
    rw [← tokens_eq_take] at ht
    simpa using List.all_eq_true.1 List.all_takeWhile t ht
  · exact progresses_of_placed hclosed Grammar.expr_minds
  · exact progresses_of_placed hclosed Grammar.summand_minds
  · exact progresses_of_placed hclosed Grammar.term_minds
  · exact progresses_of_enclosed hclosed Grammar.args_minds
  · exact progresses_of_enclosed hclosed Grammar.block_minds

open TokenStream in
/-- The end is marked in the middle, a number has a sign, and a statement starts before the one in front
of it. -/
theorem Program.ofTokens_progresses_marked : ∃ tokens p, tokens = [
      (⟨.command "say #\x7b1\x7d", ⟨9, 9, 1, 9⟩⟩ : Token), ⟨.name (.ofStatic "x"), ⟨3, 1, 0, 3⟩⟩, ⟨.mark .assign, ⟨4, 2, 0, 4⟩⟩,
      ⟨.number "-5", ⟨6, 2, 0, 6⟩⟩, ⟨.mark .semicolon, ⟨50, 1, 0, 50⟩⟩, ⟨.endMarker, ⟨7, 0, 2, 0⟩⟩, ⟨.unknown, ⟨0, 0, 0, 0⟩⟩] ∧
    Grammar.AllClosed tokens ∧ ofTokens tokens = .ok p ∧ limit tokens = 5 ∧ Run tokens 0 p.body ∧
      p.body.map Stmt.span = [⟨9, 9, 1, 9⟩, ⟨3, 48, 0, 3⟩] := by
  generalize htokens : [
    (⟨.command "say #\x7b1\x7d", ⟨9, 9, 1, 9⟩⟩ : Token), ⟨.name (.ofStatic "x"), ⟨3, 1, 0, 3⟩⟩, ⟨.mark .assign, ⟨4, 2, 0, 4⟩⟩,
    ⟨.number "-5", ⟨6, 2, 0, 6⟩⟩, ⟨.mark .semicolon, ⟨50, 1, 0, 50⟩⟩, ⟨.endMarker, ⟨7, 0, 2, 0⟩⟩,
    ⟨.unknown, ⟨0, 0, 0, 0⟩⟩] = tokens
  have hclosed : Grammar.AllClosed tokens := by
    intro line span hmem
    obtain ⟨rfl, -⟩ : line = "say #\x7b1\x7d" ∧ span = ⟨9, 9, 1, 9⟩ := by
      rw [← htokens] at hmem
      simpa using hmem
    have hline : ("say #\x7b1\x7d" : Bytes) = "say " ++ holeText "1" [] := by decide
    rw [hline]
    refine .hole ?_ ?_ (.plain Grammar.unbroken_nil)
    · unfold Grammar.Unbroken
      decide
    · unfold IsInside
      decide
  have hspans : (ofTokens tokens).toOption.map (fun p => p.body.map Stmt.span) =
      some [⟨9, 9, 1, 9⟩, ⟨3, 48, 0, 3⟩] := by
    rw [← htokens]
    decide +kernel
  have hlimit : limit tokens = 5 := by
    rw [← htokens]
    rfl
  obtain ⟨hends, -⟩ := ofTokens_progresses tokens hclosed
  rcases hends with ⟨p, hp, hrun⟩ | ⟨d, hd, -⟩
  · rw [hp] at hspans
    exact ⟨tokens, p, rfl, hclosed, hp, hlimit, hrun, Option.some.inj hspans⟩
  · rw [hd] at hspans
    cases hspans

end PackScript
