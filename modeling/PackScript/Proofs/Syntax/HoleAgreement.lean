import PackScript.Proofs.Syntax.LineBreaks
import PackScript.Proofs.Syntax.Refusal

/-! # The holes of a command, twice

The lexer passes over the holes of a command to find its end, and the grammar cuts the command at its
holes to read them. Both find the same holes: the text between them has no hole in it and no line
break, and it closes no brace that it has not opened. So a hole that was passed over is closed, and
reading a program, whatever its text, comes to an end or to an error with a place.
-/
namespace PackScript

/-! ## What the lexer passes over -/

/-- A hole that starts further on; holes are given by their start and the length of what is inside. -/
def shiftHole (k : Nat) (h : Nat × Nat) : Nat × Nat := (h.1 + k, h.2)

/-- The extent of a command line, with a record of the holes that are passed over. -/
def traced (depth : Nat) : Bytes → CommandExtent × List (Nat × Nat)
  | [] => (.closed 0, [])
  | b :: rest =>
    if isLineEnd b then (.closed 0, [])
    else if b = 35 ∧ rest.head? = some 123 then
      match holeEnd? false (rest.drop 1) with
      | none => (.openHole 0 (lineLength (b :: rest)), [])
      | some n => (traced depth (rest.drop (n + 2))).map (.shift (n + 3)) fun hs => (0, n) :: hs.map (shiftHole (n + 3))
    else if b = 123 then (traced (depth + 1) rest).map (.shift 1) (List.map (shiftHole 1))
    else if b = 125 then
      match depth with
      | 0 => (.closed 0, [])
      | depth + 1 => (traced depth rest).map (.shift 1) (List.map (shiftHole 1))
    else (traced depth rest).map (.shift 1) (List.map (shiftHole 1))
termination_by t => t.length
decreasing_by all_goals simp only [List.length_cons, List.length_drop]; omega

/-- Keeping a record changes nothing of the extent. -/
theorem traced_fst (d : Nat) (t : Bytes) : (traced d t).1 = commandExtent d t := by
  fun_induction traced d t with
  | case1 => rw [commandExtent]
  | case2 d b rest hend =>
    rw [commandExtent.eq_def]
    dsimp only
    rw [if_pos hend]
  | case3 d b rest hend hb hm =>
    rw [commandExtent.eq_def]
    dsimp only
    rw [if_neg hend, if_pos hb, hm]
  | case4 d b rest hend hb n hm ih =>
    rw [commandExtent.eq_def]
    dsimp only
    rw [if_neg hend, if_pos hb, hm, Prod.map_fst, ih]
  | case5 d rest hend hb ih =>
    rw [commandExtent_openBrace, Prod.map_fst, ih]
  | case6 rest hend hb ho =>
    rw [commandExtent.eq_def]
    dsimp only
    rw [if_neg hend, if_neg hb, if_neg ho, if_pos rfl]
  | case7 rest d hend hb ho ih =>
    rw [commandExtent_closeBrace, Prod.map_fst, ih]
  | case8 d b rest hend hb ho hc ih =>
    rw [commandExtent_byte (Bool.not_eq_true _ ▸ hend) hb ho hc, Prod.map_fst, ih]

/-! ## The pieces of a line -/

/-- A line made of literal texts, each followed by a hole, and a tail. -/
def joined : List (Bytes × Bytes) → Bytes → Bytes
  | [], tail => tail
  | (literal, inside) :: segs, tail => literal ++ holeText inside (joined segs tail)

/-- Where the holes of a line are that starts `before` bytes behind some place. -/
def holePlaces (before : Nat) : List (Bytes × Bytes) → List (Nat × Nat)
  | [] => []
  | (literal, inside) :: segs =>
    (before + literal.length, inside.length) :: holePlaces (before + literal.length + inside.length + 3) segs

/-- The text of a line outside its holes. -/
def outside (segs : List (Bytes × Bytes)) (tail : Bytes) : Bytes := (segs.map Prod.fst).flatten ++ tail

/-- A line from brace depth `d` on, with its pieces. -/
inductive Pieces : (d : Nat) → Bytes → List (Bytes × Bytes) → Bytes → Prop
  | plain {d d' : Nat} {t : Bytes} (h : Stretch d t d') : Pieces d t [] t
  | hole {d d' : Nat} {literal inside rest tail : Bytes} {segs : List (Bytes × Bytes)} (hl : Stretch d literal d')
      (hin : IsInside inside) (h : Pieces d' rest segs tail) :
      Pieces d (literal ++ holeText inside rest) ((literal, inside) :: segs) tail

theorem holePlaces_shift (k before : Nat) (segs : List (Bytes × Bytes)) :
    holePlaces (before + k) segs = (holePlaces before segs).map (shiftHole k) := by
  induction segs generalizing before with
  | nil => rfl
  | cons seg segs ih =>
    obtain ⟨literal, inside⟩ := seg
    rw [holePlaces, holePlaces, List.map_cons, ← ih]
    have hstart : before + k + literal.length = before + literal.length + k := by omega
    have hlater : before + k + literal.length + inside.length + 3 =
        before + literal.length + inside.length + 3 + k := by omega
    rw [hlater, hstart]
    rfl

variable {d d' n : Nat} {t line literal inside rest tail : Bytes} {segs : List (Bytes × Bytes)}

/-- A byte or more in front of a line belong to its first literal text. -/
theorem Pieces.behind (pre : Bytes) (h : Pieces d' t segs tail)
    (hstretch : ∀ {literal k}, (literal <+: t) → Stretch d' literal k → Stretch d (pre ++ literal) k) :
    ∃ segs' tail', Pieces d (pre ++ t) segs' tail' ∧
      holePlaces 0 segs' = (holePlaces 0 segs).map (shiftHole pre.length) := by
  cases h with
  | plain h => exact ⟨[], pre ++ t, .plain (hstretch List.prefix_rfl h), rfl⟩
  | @hole _ k literal inside rest _ segs hl hin h =>
    refine ⟨(pre ++ literal, inside) :: segs, tail, ?_, ?_⟩
    · rw [← List.append_assoc]
      exact .hole (hstretch (List.prefix_append _ _) hl) hin h
    · rw [← holePlaces_shift, holePlaces, holePlaces]
      simp only [List.length_append, Nat.zero_add]

/-- The lexer takes a line whose holes are those that it passes over. -/
theorem pieces_of_traced (h : (traced d t).1 = .closed n) :
    ∃ segs tail, Pieces d (t.take n) segs tail ∧ (traced d t).2 = holePlaces 0 segs := by
  fun_induction traced d t generalizing n with
  | case1 =>
    cases h
    exact ⟨[], _, .plain (.nil _), rfl⟩
  | case2 =>
    cases h
    exact ⟨[], _, .plain (.nil _), rfl⟩
  | case3 => cases h
  | case4 d b t hend hb m hm ih =>
    obtain ⟨k, hk, rfl⟩ := CommandExtent.shift_eq_closed h
    obtain ⟨rfl, hb⟩ := hb
    obtain ⟨u, rfl⟩ : ∃ u, t = 123 :: u := by
      cases t with
      | nil => cases hb
      | cons c u => cases hb; exact ⟨u, rfl⟩
    obtain ⟨inside, after, rfl, rfl, hin⟩ := holeEnd?_split hm
    obtain ⟨segs, tail, hpieces, hplaces⟩ := ih hk
    rw [drop_behind_hole] at hpieces hplaces
    have htake : (35 :: 123 :: (inside ++ 125 :: after)).take (k + (inside.length + 3)) =
        holeText inside (after.take k) := by
      rw [show k + (inside.length + 3) = inside.length + (k + 1) + 1 + 1 by omega,
        List.take_succ_cons, List.take_succ_cons, List.take_append, List.take_of_length_le (by omega),
        holeText]
      simp
    refine ⟨([], inside) :: segs, tail, ?_, ?_⟩
    · rw [htake]
      exact .hole (.nil d) (hin []) hpieces
    · rw [drop_behind_hole, Prod.map_snd, hplaces, ← holePlaces_shift]
      simp only [holePlaces, List.length_nil, Nat.zero_add]
  | case5 d t hend hb ih =>
    obtain ⟨k, hk, rfl⟩ := CommandExtent.shift_eq_closed h
    obtain ⟨segs, tail, hpieces, hplaces⟩ := ih hk
    obtain ⟨segs', tail', hpieces', hplaces'⟩ := hpieces.behind [123] fun _ hl => .openBrace hl
    refine ⟨segs', tail', hpieces', ?_⟩
    rw [Prod.map_snd, hplaces]
    exact hplaces'.symm
  | case6 =>
    cases h
    exact ⟨[], _, .plain (.nil _), rfl⟩
  | case7 t d hend hb ho ih =>
    obtain ⟨k, hk, rfl⟩ := CommandExtent.shift_eq_closed h
    obtain ⟨segs, tail, hpieces, hplaces⟩ := ih hk
    obtain ⟨segs', tail', hpieces', hplaces'⟩ := hpieces.behind [125] fun _ hl => .closeBrace hl
    refine ⟨segs', tail', hpieces', ?_⟩
    rw [Prod.map_snd, hplaces]
    exact hplaces'.symm
  | case8 d b t hend hb ho hc ih =>
    obtain ⟨k, hk, rfl⟩ := CommandExtent.shift_eq_closed h
    obtain ⟨segs, tail, hpieces, hplaces⟩ := ih hk
    have hbyte {literal : Bytes} {k' : Nat} (hl : literal <+: t.take k) (h : Stretch d literal k') :
        Stretch d ([b] ++ literal) k' := by
      refine .byte (Bool.not_eq_true _ ▸ hend) (fun hh => hb ⟨hh.1, ?_⟩) ho hc h
      obtain ⟨u, hu⟩ := hl.trans (List.take_prefix k t)
      rw [← hu]
      exact head?_of_append hh.2
    obtain ⟨segs', tail', hpieces', hplaces'⟩ := hpieces.behind [b] hbyte
    refine ⟨segs', tail', hpieces', ?_⟩
    rw [Prod.map_snd, hplaces]
    exact hplaces'.symm

theorem Pieces.trimRight (h : Pieces d t segs tail) :
    Pieces d (Bytes.trimRight isTrailing t) segs (Bytes.trimRight isTrailing tail) := by
  induction h with
  | @plain d d' t h =>
    obtain ⟨u, hu⟩ := trimRight_isPrefix isTrailing t
    obtain ⟨k, hk⟩ := (hu ▸ h : Stretch d (_ ++ u) d').of_append
    exact .plain hk
  | hole hl hin h ih =>
    rw [trimRight_append_holeText]
    exact .hole hl hin ih

theorem Pieces.joined (h : Pieces d t segs tail) : t = joined segs tail := by
  induction h with
  | plain h => rfl
  | hole hl hin h ih => rw [PackScript.joined, ← ih]

/-! ## The text outside of holes -/

theorem Stretch.unbroken (h : Stretch d t d') : Grammar.Unbroken t := (Grammar.of_cut_plain h.cut).2

theorem Pieces.literals (h : Pieces d t segs tail) :
    ∀ text ∈ tail :: segs.map Prod.fst, Grammar.Unbroken text ∧ Bytes.newline ∉ text := by
  induction h with
  | plain h => exact List.forall_mem_singleton.2 ⟨h.unbroken, h.newline_notMem⟩
  | hole hl hin h ih =>
    rw [List.forall_mem_cons] at ih
    rw [List.map_cons, List.forall_mem_cons, List.forall_mem_cons]
    exact ⟨ih.1, ⟨hl.unbroken, hl.newline_notMem⟩, ih.2⟩

/-- The depth counts the braces that are open. -/
theorem Stretch.depth (h : Stretch d t d') : d + t.count 123 = d' + t.count 125 := by
  induction h with
  | nil => rfl
  | byte hend hhole hopen hclose h ih =>
    rw [List.count_cons_of_ne hopen, List.count_cons_of_ne hclose]
    exact ih
  | openBrace h ih =>
    rw [List.count_cons_self, List.count_cons_of_ne (by decide)]
    omega
  | closeBrace h ih =>
    rw [List.count_cons_self, List.count_cons_of_ne (by decide)]
    omega

theorem Stretch.closes {p : Bytes} (h : Stretch d t d') (hp : p <+: t) : p.count 125 ≤ d + p.count 123 := by
  obtain ⟨u, rfl⟩ := hp
  obtain ⟨k, hk⟩ := h.of_append
  have hdepth := hk.depth
  omega

/-- No brace is closed outside of holes that was not opened there. -/
theorem Pieces.closes {p : Bytes} (h : Pieces d t segs tail) (hp : p <+: outside segs tail) :
    p.count 125 ≤ d + p.count 123 := by
  induction h generalizing p with
  | plain h => exact h.closes hp
  | @hole d d' literal inside rest tail segs hl hin h ih =>
    have houtside : outside ((literal, inside) :: segs) tail = literal ++ outside segs tail := by
      rw [outside, List.map_cons, List.flatten_cons, List.append_assoc, outside]
    rw [houtside] at hp
    rcases List.prefix_or_prefix_of_prefix hp (List.prefix_append literal _) with hp' | ⟨q, rfl⟩
    · exact hl.closes hp'
    · have hdepth := hl.depth
      have hq := ih ((List.prefix_append_right_inj literal).1 hp)
      rw [List.count_append, List.count_append]
      omega

/-! ## What the grammar cuts -/

namespace Grammar

/-- The pieces that a command line is cut into, if all its holes are closed. -/
def segments? (text : Bytes) : Option (List (Bytes × Bytes) × Bytes) :=
  match _h : cut text with
  | .plain tail => some ([], tail)
  | .unclosed => none
  | .hole literal inside after => (segments? after).map fun r => ((literal, inside) :: r.1, r.2)
termination_by text.length
decreasing_by exact cut_hole_length _h

/-- The expressions of the holes of a command at `span`, from `before` bytes into it on. -/
def filled (span : Span) (before : Nat) : List (Bytes × Bytes) → Except Failure (List (Bytes × Expr))
  | [] => .ok []
  | (literal, inside) :: segs => do
    let place := holeSpan span (before + literal.length) (inside.length + 3)
    let e ← hole place inside
    if !e.isStatic then .error (.ofCause place .dynamicHole)
    let parts ← filled span (before + literal.length + inside.length + 3) segs
    return (literal, e) :: parts

theorem segments?_of_plain (h : cut line = .plain tail) : segments? line = some ([], tail) := by
  rw [segments?]
  split
  · rename_i hcut
    cases h.symm.trans hcut
    rfl
  · rename_i hcut
    cases h.symm.trans hcut
  · rename_i hcut
    cases h.symm.trans hcut

theorem segments?_of_hole {literal inside after : Bytes} (h : cut line = .hole literal inside after) :
    segments? line = (segments? after).map fun r => ((literal, inside) :: r.1, r.2) := by
  rw [segments?]
  split
  · rename_i hcut
    cases h.symm.trans hcut
  · rename_i hcut
    cases h.symm.trans hcut
  · rename_i hcut
    cases h.symm.trans hcut
    rfl

theorem segments?_of_pieces (h : Pieces d line segs tail) : segments? line = some (segs, tail) := by
  induction h with
  | plain h => exact segments?_of_plain h.cut
  | hole hl hin h ih => rw [segments?_of_hole (hl.cut_append_holeText hin _), ih, Option.map_some]

/-- A line is read by filling its holes, one after the other. -/
theorem holes_of_segments? (h : segments? line = some (segs, tail)) (span : Span) (before : Nat) :
    holes span before line = (filled span before segs).map (·, tail) := by
  fun_induction segments? line generalizing segs before with
  | case1 text tail hcut =>
    cases h
    exact holes_of_plain hcut
  | case2 => cases h
  | case3 text literal inside after hcut ih =>
    obtain ⟨⟨segs, tail⟩, hsegs, heq⟩ := Option.map_eq_some_iff.1 h
    cases heq
    rw [holes]
    split
    · rename_i hcut'
      cases hcut.symm.trans hcut'
    · rename_i hcut'
      cases hcut.symm.trans hcut'
    · rename_i hcut'
      cases hcut.symm.trans hcut'
      rw [filled, ih hsegs]
      dsimp only
      cases hole (holeSpan span (before + literal.length) (inside.length + 3)) inside with
      | error f => rfl
      | ok e =>
        dsimp only [Bind.bind, Except.bind]
        cases !e.isStatic with
        | true => rfl
        | false =>
          cases filled span (before + literal.length + inside.length + 3) segs with
          | error f => rfl
          | ok parts => rfl

theorem holes_eq_filled (h : Pieces d line segs tail) (span : Span) (before : Nat) :
    holes span before line = (filled span before segs).map (·, tail) :=
  holes_of_segments? (segments?_of_pieces h) span before

/-! ## Errors with a place -/

theorem Refused.located {stop : Span} {all : List Token} {f : Failure} (h : Refused stop all false f) :
    ∃ x, f = .diagnostic x := by
  cases h with
  | atEnd cause => exact ⟨_, rfl⟩
  | tokens hne hused cause => exact ⟨_, rfl⟩
  | command hlines hmem h => cases hlines

theorem hole_located {place : Span} {inside : Bytes} {f : Failure} (h : hole place inside = .error f) :
    ∃ x, f = .diagnostic x := by
  rw [hole] at h
  dsimp only at h
  split at h
  · rename_i f' hscan
    rw [Scanned.result] at hscan
    split at hscan
    · cases hscan
    · cases hscan
      cases h
      exact ⟨_, rfl⟩
  · rename_i toks hscan
    split at h
    · cases h
      exact ⟨_, rfl⟩
    split at h
    · rename_i f' hwhole
      obtain ⟨x, rfl⟩ := (wholeExpr_refused hwhole).located
      cases h
      exact ⟨_, rfl⟩
    · cases h

theorem filled_located {span : Span} {before : Nat} {f : Failure} (h : filled span before segs = .error f) :
    ∃ x, f = .diagnostic x := by
  induction segs generalizing before with
  | nil => cases h
  | cons seg segs ih =>
    obtain ⟨literal, inside⟩ := seg
    rw [filled] at h
    cases hhole : hole (holeSpan span (before + literal.length) (inside.length + 3)) inside with
    | error f' =>
      rw [hhole] at h
      cases h
      exact hole_located hhole
    | ok e =>
      simp only [hhole, Bind.bind, Except.bind] at h
      cases hs : !e.isStatic with
      | true =>
        rw [hs] at h
        cases h
        exact ⟨_, rfl⟩
      | false =>
        rw [hs] at h
        cases hrest : filled span (before + literal.length + inside.length + 3) segs with
        | error f' =>
          simp only [hrest] at h
          cases h
          exact ih hrest
        | ok parts =>
          simp only [hrest] at h
          cases h

theorem command_located {c : Cursor} {place span : Span} (hmem : ⟨.command line, span⟩ ∈ (scanFrom c t).tokens)
    {f : Failure} (h : command place line = .error f) : ∃ x, f = .diagnostic x := by
  obtain ⟨_, _, rest, _, more, -, hscan, -⟩ := scan_of_mem_tokens hmem (by simp)
  obtain ⟨-, hextent, rfl, -⟩ := command_of_scan hscan
  obtain ⟨segs, tail, hpieces, -⟩ := pieces_of_traced ((traced_fst 0 rest).trans hextent)
  rw [command, holes_eq_filled hpieces.trimRight] at h
  cases hfilled : filled place 1 segs with
  | error f' =>
    rw [hfilled] at h
    cases h
    exact filled_located hfilled
  | ok parts =>
    rw [hfilled] at h
    cases h

end Grammar

theorem Scanned.result_eq_ok {s : Scanned} {toks : List Token} (h : s.result = .ok toks) : s.tokens = toks := by
  rw [Scanned.result] at h
  split at h
  · exact Except.ok.inj h
  · cases h

/-- What is wrong with a text that is no program has a place in it. -/
theorem Program.parse_located {src : Bytes} {f : Failure} (h : parse src = .error f) : ∃ x, f = .diagnostic x := by
  rw [parse, tokenize] at h
  cases hscan : (scanFrom .start src).result with
  | error f' =>
    rw [hscan] at h
    rw [Scanned.result] at hscan
    split at hscan
    · cases hscan
    · cases hscan
      cases h
      exact ⟨_, rfl⟩
  | ok toks =>
    rw [hscan] at h
    have hrefused := Grammar.wholeBlock_refused _ List.suffix_rfl (ofTokens_eq_error.1 h)
    cases hrefused with
    | atEnd cause => exact ⟨_, rfl⟩
    | tokens hne hused cause => exact ⟨_, rfl⟩
    | command _ hmem hcommand =>
      rw [← Scanned.result_eq_ok hscan] at hmem
      exact Grammar.command_located ((List.takeWhile_prefix _).mem hmem) hcommand

/-- Reading a program never breaks down. For every command that a text is cut into, the grammar finds the
end of each hole, and the holes it finds are those that the lexer passed over. The pieces that the
line is cut into make up the line, its holes are read one after the other, and outside of them there
is no start of a hole, no line break, and no closing brace without an opening one in front of it. -/
theorem holes_agree :
    (∀ src x, Program.parse src ≠ .error (.defect x)) ∧
    (∀ d u, (traced d u).1 = commandExtent d u) ∧
    ∀ (c : Cursor) (t : Bytes) (toks : List Token), (scanFrom c t).result = .ok toks →
      ∀ line span, ⟨.command line, span⟩ ∈ toks → ∃ before rest n segs tail,
        (t = before ++ 47 :: rest ∧ span = (c.past before).span (line.length + 1) ∧
          line = Bytes.trimRight isTrailing (rest.take n)) ∧
        traced 0 rest = (.closed n, holePlaces 0 segs) ∧
        Grammar.segments? line = some (segs, tail) ∧
        (∀ place, Grammar.command place line =
          (Grammar.filled place 1 segs).map fun parts => .command place parts tail) ∧
        line = joined segs tail ∧
        (∀ text ∈ tail :: segs.map Prod.fst, Grammar.Unbroken text ∧ Bytes.newline ∉ text) ∧
        ∀ p, p <+: outside segs tail → p.count 125 ≤ p.count 123 := by
  refine ⟨fun src x h => ?_, traced_fst, fun c t toks h line span hmem => ?_⟩
  · obtain ⟨_, hx⟩ := Program.parse_located h
    cases hx
  · rw [← Scanned.result_eq_ok h] at hmem
    obtain ⟨before, b, rest, length, more, htext, hscan, hspan⟩ := scan_of_mem_tokens hmem (by simp)
    obtain ⟨rfl, hextent, hline, rfl⟩ := command_of_scan hscan
    have htraced : (traced 0 rest).1 = .closed more := (traced_fst 0 rest).trans hextent
    obtain ⟨segs, tail, hpieces, hplaces⟩ := pieces_of_traced htraced
    have hpieces := hpieces.trimRight
    rw [← hline] at hpieces
    refine ⟨before, rest, more, segs, _, ⟨htext, hspan, hline⟩, Prod.ext htraced hplaces,
      Grammar.segments?_of_pieces hpieces, fun place => ?_, hpieces.joined, hpieces.literals, fun p hp => ?_⟩
    · rw [Grammar.command, Grammar.holes_eq_filled hpieces]
      cases Grammar.filled place 1 segs <;> rfl
    · have hcloses := hpieces.closes hp
      omega

/-- A command with braces around its first hole, in which a string literal holds a brace, and a block
that ends behind the second hole. -/
theorem holes_agree_braces : ∃ toks before rest n segs tail,
    (scanFrom ⟨40, 3, 7⟩ "\x7b/a \x7b#\x7b\"\x7d\"\x7d\x7d#\x7b1\x7d b \x7d").result = .ok toks ∧
      ⟨.command "a \x7b#\x7b\"\x7d\"\x7d\x7d#\x7b1\x7d b", ⟨41, 17, 3, 8⟩⟩ ∈ toks ∧
      ("\x7b/a \x7b#\x7b\"\x7d\"\x7d\x7d#\x7b1\x7d b \x7d" : Bytes) = before ++ 47 :: rest ∧
      traced 0 rest = (.closed n, holePlaces 0 segs) ∧ holePlaces 0 segs = [(3, 3), (10, 1)] ∧
      segs = [(.ofString "a \x7b", .ofString "\"\x7d\""), (.ofString "\x7d", .ofString "1")] ∧ tail = " b" := by
  have hspans : (scanFrom ⟨40, 3, 7⟩ "\x7b/a \x7b#\x7b\"\x7d\"\x7d\x7d#\x7b1\x7d b \x7d").result.toOption =
      some [⟨.mark .openBrace, ⟨40, 1, 3, 7⟩⟩,
        ⟨.command "a \x7b#\x7b\"\x7d\"\x7d\x7d#\x7b1\x7d b", ⟨41, 17, 3, 8⟩⟩,
        ⟨.mark .closeBrace, ⟨59, 1, 3, 26⟩⟩, ⟨.endMarker, ⟨60, 0, 3, 27⟩⟩] := by
    decide +kernel
  have hsegments : Grammar.segments? "a \x7b#\x7b\"\x7d\"\x7d\x7d#\x7b1\x7d b" =
      some ([(.ofString "a \x7b", .ofString "\"\x7d\""), (.ofString "\x7d", .ofString "1")], .ofString " b") := by
    decide +kernel
  cases h : (scanFrom ⟨40, 3, 7⟩ "\x7b/a \x7b#\x7b\"\x7d\"\x7d\x7d#\x7b1\x7d b \x7d").result with
  | error f =>
    rw [h] at hspans
    cases hspans
  | ok toks =>
    rw [h] at hspans
    have hmem : ⟨.command "a \x7b#\x7b\"\x7d\"\x7d\x7d#\x7b1\x7d b", ⟨41, 17, 3, 8⟩⟩ ∈ toks := by
      rw [Option.some.inj hspans]
      exact List.mem_cons_of_mem _ List.mem_cons_self
    obtain ⟨before, rest, n, segs, tail, ⟨htext, -, -⟩, htraced, hcut, -⟩ := holes_agree.2.2 _ _ _ h _ _ hmem
    obtain ⟨rfl, rfl⟩ := Prod.mk.inj (Option.some.inj (hcut.symm.trans hsegments))
    exact ⟨toks, before, rest, n, _, _, rfl, hmem, htext, htraced, by decide +kernel, rfl, rfl⟩

end PackScript
