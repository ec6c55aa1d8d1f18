import PackScript.Cli.Repl
import PackScript.Proofs.Syntax.Continuation
import PackScript.Proofs.Syntax.Joining

/-! # Errors that no further line mends

An error that is not marked as one that more text could mend stands, whatever follows behind a
line break: the tokens in front of it are cut as they would be alone, and the grammar meets the
token that the error speaks of. The one exception is a hole left open on a line that ends in a
backslash. The hole goes on behind the line break, but its error is placed on its first line,
as if the text did not end there.
-/
namespace PackScript

variable {t rest : Bytes} {b : UInt8} {cause : Cause} {start length more : Nat}

/-- Some line, other than the last one, ends in a backslash. -/
def EscapesLineEnd (t : Bytes) : Prop := [92, Bytes.newline] <:+: t

instance (t : Bytes) : Decidable (EscapesLineEnd t) := inferInstanceAs (Decidable (_ <:+: _))

theorem EscapesLineEnd.cons (b : UInt8) (h : EscapesLineEnd t) : EscapesLineEnd (b :: t) :=
  h.trans (List.suffix_cons b t).isInfix

theorem EscapesLineEnd.of_drop {n : Nat} (h : EscapesLineEnd (t.drop n)) : EscapesLineEnd t :=
  h.trans (List.drop_suffix n t).isInfix

theorem newline_mem_of_lineLength (h : lineLength t < t.length) : Bytes.newline ∈ t := by
  induction t with
  | nil => exact absurd h (Nat.lt_irrefl _)
  | cons b t ih =>
    by_cases hb : isLineEnd b = true
    · have hb : b = Bytes.newline := of_decide_eq_true hb
      rw [hb]
      exact List.mem_cons_self
    · have hlength : lineLength (b :: t) = lineLength t + 1 := by
        rw [lineLength, List.takeWhile_cons_of_pos (by simpa using hb)]
        rfl
      rw [hlength, List.length_cons] at h
      exact List.mem_cons_of_mem b (ih (Nat.lt_of_succ_lt_succ h))

/-! ## Single tokens -/

/-- A hole that a line break keeps open stays open, whatever follows. -/
theorem holeEnd?_none_append {inString : Bool} (h : holeEnd? inString t = none) (hline : Bytes.newline ∈ t)
    (hescape : ¬EscapesLineEnd t) (u : Bytes) : holeEnd? inString (t ++ u) = none := by
  have hbehind {b : UInt8} {t : Bytes} (hend : ¬isLineEnd b = true) (hline : Bytes.newline ∈ b :: t) :
      Bytes.newline ∈ t := by
    apply List.mem_of_ne_of_mem _ hline
    rintro rfl
    exact hend rfl
  fun_induction holeEnd? inString t with
  | case1 => cases hline
  | case2 inString b t hend =>
    rw [List.cons_append, holeEnd?.eq_def]
    dsimp only
    rw [if_pos hend]
  | case3 inString b hend hslash => cases hbehind hend hline
  | case4 inString b hend hslash e t ih =>
    obtain ⟨rfl, rfl⟩ := hslash
    have he : ¬isLineEnd e = true := by
      intro he
      have he : e = Bytes.newline := of_decide_eq_true he
      exact hescape ⟨[], t, by rw [he]; rfl⟩
    have hrest := ih (Option.map_eq_none_iff.1 h) (hbehind he (hbehind hend hline))
      (fun hin => hescape ((hin.cons e).cons 92))
    rw [List.cons_append, List.cons_append, holeEnd?_escape, hrest]
    rfl
  | case5 inString t hend hslash ih =>
    have hrest := ih (Option.map_eq_none_iff.1 h) (hbehind hend hline) fun hin => hescape (hin.cons _)
    rw [List.cons_append, holeEnd?_quote, hrest]
    rfl
  | case6 => cases h
  | case7 inString b t hend hslash hquote hclose ih =>
    have hrest := ih (Option.map_eq_none_iff.1 h) (hbehind hend hline) fun hin => hescape (hin.cons _)
    rw [List.cons_append, holeEnd?_byte hend hslash hquote hclose, hrest]
    rfl

namespace Scan

theorem string_fault_append {read : Nat} {content : Bytes}
    (h : string read content t = .fault cause start length more) (hmore : more < read + t.length) (u : Bytes) :
    start = 0 ∧ string read content (t ++ u) = .fault cause start length more := by
  fun_induction string read content t with
  | case1 read content =>
    cases h
    exact absurd hmore (Nat.lt_irrefl _)
  | case2 => cases h
  | case3 read content b t hquote hend =>
    cases h
    refine ⟨rfl, ?_⟩
    rw [List.cons_append, string.eq_def]
    dsimp only
    rw [if_neg hquote, if_pos hend]
  | case4 read content hquote hend =>
    cases h
    exact absurd hmore (Nat.lt_irrefl _)
  | case5 read content e t c he hquote hend ih =>
    rw [List.length_cons, List.length_cons] at hmore
    obtain ⟨hstart, hrest⟩ := ih h (by omega)
    exact ⟨hstart, (string_escape he read content _).trans hrest⟩
  | case6 read content e t he hquote hend =>
    cases h
    refine ⟨rfl, ?_⟩
    rw [List.cons_append, List.cons_append, string.eq_def]
    dsimp only
    rw [if_neg hquote, if_neg hend, if_pos rfl, he]
  | case7 read content b t hquote hend hslash ih =>
    rw [List.length_cons] at hmore
    obtain ⟨hstart, hrest⟩ := ih h (by omega)
    exact ⟨hstart, (string_byte hquote hend hslash read content _).trans hrest⟩

end Scan

theorem CommandExtent.shift_eq_openHole {x : CommandExtent} {m : Nat} (h : x.shift m = .openHole start length) :
    ∃ k, x = .openHole k length ∧ start = k + m := by
  cases x with
  | closed k => cases h
  | openHole k => cases h; exact ⟨k, rfl, rfl⟩

/-- A hole that the end of its line keeps open stays open. -/
theorem commandExtent_openHole_append {d : Nat} (h : commandExtent d t = .openHole start length)
    (hline : start + length < t.length) (hescape : ¬EscapesLineEnd t) (u : Bytes) :
    commandExtent d (t ++ Bytes.newline :: u) = .openHole start length := by
  fun_induction commandExtent d t generalizing start with
  | case1 => cases h
  | case2 => cases h
  | case3 d b t hend hb hm =>
    obtain ⟨rfl, hb⟩ := hb
    obtain ⟨v, rfl⟩ : ∃ v, t = 123 :: v := by
      cases t with
      | nil => cases hb
      | cons c v => cases hb; exact ⟨v, rfl⟩
    cases h
    have hnewline : Bytes.newline ∈ v := by
      have hmem : Bytes.newline ∈ 35 :: 123 :: v := newline_mem_of_lineLength (by omega)
      exact List.mem_of_ne_of_mem (by decide) (List.mem_of_ne_of_mem (by decide) hmem)
    have hrest : holeEnd? false (v ++ Bytes.newline :: u) = none :=
      holeEnd?_none_append hm hnewline (fun hin => hescape ((hin.cons _).cons _)) _
    have hlength := lineLength_append (clears_newline (lineLength (35 :: 123 :: v)) (35 :: 123 :: v) u)
    rw [List.cons_append, List.cons_append] at hlength ⊢
    rw [commandExtent.eq_def]
    dsimp only
    rw [if_neg hend, if_pos ⟨rfl, rfl⟩, List.drop_one, List.tail_cons, hrest]
    dsimp only
    rw [hlength]
  | case4 d b t hend hb m hm ih =>
    obtain ⟨k, hk, rfl⟩ := CommandExtent.shift_eq_openHole h
    obtain ⟨rfl, hb⟩ := hb
    obtain ⟨v, rfl⟩ : ∃ v, t = 123 :: v := by
      cases t with
      | nil => cases hb
      | cons c v => cases hb; exact ⟨v, rfl⟩
    obtain ⟨inside, after, rfl, rfl, hin⟩ := holeEnd?_split hm
    rw [drop_behind_hole] at ih hk
    have hin : IsInside inside := hin []
    have htext : 35 :: 123 :: (inside ++ 125 :: after) ++ Bytes.newline :: u =
        holeText inside (after ++ Bytes.newline :: u) := by
      simp [holeText]
    have hrest := ih hk (by simp only [List.length_cons, List.length_append] at hline; omega)
      fun hesc => hescape (hesc.trans ⟨35 :: 123 :: (inside ++ [125]), [], by simp⟩)
    rw [htext, hin.commandExtent_holeText, hrest, CommandExtent.shift]
  | case5 d t hend hb ih =>
    obtain ⟨k, hk, rfl⟩ := CommandExtent.shift_eq_openHole h
    rw [List.length_cons] at hline
    have hrest := ih hk (by omega) fun hin => hescape (hin.cons _)
    rw [List.cons_append, commandExtent_openBrace, hrest, CommandExtent.shift]
  | case6 => cases h
  | case7 t d hend hb ho ih =>
    obtain ⟨k, hk, rfl⟩ := CommandExtent.shift_eq_openHole h
    rw [List.length_cons] at hline
    have hrest := ih hk (by omega) fun hin => hescape (hin.cons _)
    rw [List.cons_append, commandExtent_closeBrace, hrest, CommandExtent.shift]
  | case8 d b t hend hb ho hc ih =>
    obtain ⟨k, hk, rfl⟩ := CommandExtent.shift_eq_openHole h
    rw [List.length_cons] at hline
    have hrest := ih hk (by omega) fun hin => hescape (hin.cons _)
    have hhole : ¬(b = 35 ∧ (t ++ Bytes.newline :: u).head? = some 123) := fun hh =>
      head?_append_ne (by decide) (fun hhead => hb ⟨hh.1, hhead⟩) (clears_newline _ _ _) hh.2
    rw [List.cons_append, commandExtent_byte (Bool.not_eq_true _ ▸ hend) hhole ho hc, hrest,
      CommandExtent.shift]

namespace Scan

theorem command_fault_append (h : command t = .fault cause start length more) (hmore : more < t.length)
    (hescape : ¬EscapesLineEnd t) (u : Bytes) :
    start ≤ t.length ∧ command (t ++ Bytes.newline :: u) = .fault cause start length more := by
  rw [command] at h
  cases hc : commandExtent 0 t with
  | closed n =>
    rw [hc] at h
    cases h
  | openHole k n =>
    rw [hc] at h
    cases h
    refine ⟨by omega, ?_⟩
    rw [command, commandExtent_openHole_append hc hmore hescape]

theorem sigiled_fault_append (h : sigiled t = .fault cause start length more) (hmore : more < t.length)
    (u : Bytes) : start = 0 ∧ sigiled (t ++ u) = .fault cause start length more := by
  cases t with
  | nil => exact absurd hmore (Nat.not_lt_zero _)
  | cons b t =>
    rw [sigiled] at h
    split at h
    · cases h
    · rename_i hb
      cases h
      refine ⟨rfl, ?_⟩
      rw [List.cons_append, sigiled, if_neg hb]

end Scan

/-- What is wrong at the head of a text stays wrong, if the text goes on behind what was read of it. -/
theorem scan_fault_append (h : scan b rest = .fault cause start length more) (hmore : more < rest.length)
    (hescape : ¬EscapesLineEnd rest) (u : Bytes) :
    start ≤ rest.length ∧ scan b (rest ++ Bytes.newline :: u) = .fault cause start length more := by
  revert h
  fun_cases scan b rest with
  | case12 =>
    intro h
    obtain ⟨rfl, hstring⟩ := Scan.string_fault_append h (by omega) (Bytes.newline :: u)
    subst_vars
    exact ⟨Nat.zero_le _, hstring⟩
  | case13 =>
    intro h
    subst_vars
    exact Scan.command_fault_append h hmore hescape u
  | case14 =>
    intro h
    obtain ⟨rfl, hsigiled⟩ := Scan.sigiled_fault_append h hmore (Bytes.newline :: u)
    subst_vars
    exact ⟨Nat.zero_le _, hsigiled⟩
  | case15 =>
    intro h
    cases h
  | case16 =>
    intro h
    rw [Scan.word_eq] at h
    cases h
  | case17 =>
    intro h
    cases h
    refine ⟨Nat.zero_le _, ?_⟩
    simp_all [scan]
  | _ =>
    intro h
    cases h

/-! ## Whole texts -/

/-- A text that cannot be cut, and whose end is not the reason, cannot be cut with more text behind
a line break either. -/
theorem scanFrom_fault_append {c : Cursor} {d : Diagnostic} (h : (scanFrom c t).fault = some d)
    (hd : d.incomplete = false) (hescape : ¬EscapesLineEnd t) (u : Bytes) :
    (scanFrom c (t ++ Bytes.newline :: u)).fault = some d := by
  fun_induction scanFrom c t with
  | case1 => cases h
  | case2 c t here b rest hdrop lexeme length more hscan =>
    rename_i ih
    have hrest : ¬EscapesLineEnd (rest.drop more) := by
      intro hin
      have hcons : EscapesLineEnd (t.drop (skipLength t)) := by
        rw [hdrop]
        exact hin.of_drop.cons b
      exact hescape hcons.of_drop
    rw [scanFrom_append_of_token c hdrop hscan (clears_newline _ _ _)]
    exact ih h hrest
  | case3 c t here b rest hdrop cause start length more hscan =>
    have hskip := skipLength_le t
    have hlength := skipLength_append hdrop (Bytes.newline :: u)
    have hrest : ¬EscapesLineEnd rest := by
      intro hin
      have hcons : EscapesLineEnd (t.drop (skipLength t)) := by
        rw [hdrop]
        exact hin.cons b
      exact hescape hcons.of_drop
    cases h
    have hmore : more < rest.length := Nat.lt_of_not_le (of_decide_eq_false hd)
    obtain ⟨hstart, hscan'⟩ := scan_fault_append hscan hmore hrest u
    have hdrop' : (t ++ Bytes.newline :: u).drop (skipLength (t ++ Bytes.newline :: u)) =
        b :: (rest ++ Bytes.newline :: u) := by
      rw [hlength, List.drop_append_of_le_length hskip, hdrop, List.cons_append]
    have hincomplete : decide ((rest ++ Bytes.newline :: u).length ≤ more) = decide (rest.length ≤ more) := by
      rw [decide_eq_false (Nat.not_le_of_lt hmore)]
      apply decide_eq_false
      rw [List.length_append]
      omega
    rw [scanFrom_of_drop_cons c hdrop', hscan']
    dsimp only
    rw [hincomplete, hlength, List.take_append_of_le_length hskip, ← List.cons_append,
      List.take_append_of_le_length (by rw [List.length_cons]; omega)]

namespace Program

theorem ofTokens_eq_error {toks : List Token} {f : Failure} :
    ofTokens toks = .error f ↔
      Grammar.wholeBlock (TokenStream.ofTokens toks).stop (TokenStream.ofTokens toks).tokens = .error f := by
  rw [ofTokens]
  cases Grammar.wholeBlock (TokenStream.ofTokens toks).stop (TokenStream.ofTokens toks).tokens with
  | error e =>
    constructor
    · intro h
      cases h
      rfl
    · intro h
      cases h
      rfl
  | ok b =>
    constructor
    · intro h
      cases h
    · intro h
      cases h

/-- An error of the grammar stands, unless the text behind the line break cannot be cut. -/
theorem parse_append_of_ofTokens {src : Bytes} {toks : List Token} {f : Failure}
    (hcut : tokenize src = .ok toks) (h : ofTokens toks = .error f) (hf : f.incomplete = false) (t : Bytes) :
    ∃ g, parse (src ++ Bytes.newline :: t) = .error g ∧ ((∃ us, tokenize t = .ok us) → g = f) := by
  have hjoined := scanFrom_append_newline hcut t
  rw [Cursor.past_newline] at hjoined
  rw [parse, tokenize, hjoined]
  cases hrest : (scanFrom (Cursor.start.moved _) t).result with
  | error g =>
    refine ⟨g, rfl, ?_⟩
    rintro ⟨us, hus⟩
    rw [scanFrom_moved _ hus] at hrest
    cases hrest
  | ok us =>
    refine ⟨f, ?_, fun _ => rfl⟩
    apply ofTokens_eq_error.2
    rw [TokenStream.ofTokens_append]
    exact Grammar.wholeBlock_error_append _ (ofTokens_eq_error.1 h) hf

theorem parse_append_newline {src : Bytes} {f : Failure} (h : parse src = .error f)
    (hf : f.incomplete = false) (hcut : (∃ toks, tokenize src = .ok toks) ∨ ¬EscapesLineEnd src) (t : Bytes) :
    ∃ g, parse (src ++ Bytes.newline :: t) = .error g ∧ ((∃ us, tokenize t = .ok us) → g = f) := by
  cases htokens : tokenize src with
  | ok toks =>
    rw [parse, htokens] at h
    exact parse_append_of_ofTokens htokens h hf t
  | error e =>
    have he : e = f := by
      rw [parse, htokens] at h
      cases h
      rfl
    have hescape : ¬EscapesLineEnd src := by
      apply hcut.resolve_left
      rintro ⟨toks, htoks⟩
      rw [htokens] at htoks
      cases htoks
    refine ⟨f, ?_, fun _ => rfl⟩
    rw [tokenize, Scanned.result] at htokens
    cases hfault : (scanFrom .start src).fault with
    | none =>
      rw [hfault] at htokens
      cases htokens
    | some d =>
      rw [hfault] at htokens
      cases htokens
      rw [← he] at hf ⊢
      rw [parse, tokenize, Scanned.result, scanFrom_fault_append hfault hf hescape t]
      rfl

end Program

/-! ## Entries of several lines -/

namespace Cli.Repl

/-- The text that a line makes up with the lines that are waiting for it. -/
def entry (r : Repl) (line : Bytes) : Bytes :=
  if r.pending.isEmpty then line else r.pending ++ "\n" ++ line

/-- An entry with further lines. -/
def joined (entry : Bytes) (lines : List Bytes) : Bytes :=
  lines.foldl (fun e l => e ++ [Bytes.newline] ++ l) entry

theorem joined_cons (e l : Bytes) (lines : List Bytes) :
    ∃ t, joined e (l :: lines) = e ++ Bytes.newline :: t := by
  induction lines generalizing e l with
  | nil => exact ⟨l, List.append_cons e _ l |>.symm⟩
  | cons l' lines ih =>
    obtain ⟨t, ht⟩ := ih (e ++ [Bytes.newline] ++ l) l'
    refine ⟨l ++ Bytes.newline :: t, ht.trans ?_⟩
    simp

/-- Reading stops at an error only if it is not marked as one that more text could mend. -/
theorem complete_of_feed {r : Repl} {line : Bytes} {f : Failure}
    (h : Program.parse (r.entry line) = .error f)
    (hentry : (Blank.trimStart (r.entry line)).head? ≠ some 58) (hstop : (r.feed line).next.pending = []) :
    f.incomplete = false := by
  rw [← Bool.not_eq_true]
  intro hf
  have hincomplete : isIncomplete (r.entry line) = true := by
    rw [isIncomplete, h]
    exact hf
  have hfeed : (r.feed line).next.pending = r.entry line := by
    have hunfold : r.feed line = if (Blank.trimStart (r.entry line)).head? = some 58 then
        { r with pending := [] }.obey (Blank.trim (r.entry line))
      else if isIncomplete (r.entry line) then { next := { r with pending := r.entry line } }
      else if (Blank.trimStart (r.entry line)).isEmpty then { next := { r with pending := [] } }
      else { r with pending := [] }.evaluate (r.entry line) := rfl
    rw [hunfold, if_neg hentry, if_pos hincomplete]
  have hempty : (Program.parse []).toOption.isSome = true := by decide +kernel
  rw [← hfeed, hstop] at h
  rw [h] at hempty
  cases hempty

end Cli.Repl

/-- A text that the grammar refuses for another reason than its end is refused with every text behind
a line break, and for the same reason, unless that text cannot be cut. So a session that stops reading
at an error refuses no entry that further lines would have completed. Lines that end in a backslash are
left out, unless the text can be cut. -/
theorem Program.parse_final {src : Bytes} {f : Failure} (h : parse src = .error f)
    (hcut : (∃ toks, tokenize src = .ok toks) ∨ ¬EscapesLineEnd src) :
    (f.incomplete = false → ∀ t, ∃ g, parse (src ++ [Bytes.newline] ++ t) = .error g ∧
        ((∃ us, tokenize t = .ok us) → g = f)) ∧
      ∀ (r : Cli.Repl) (line : Bytes), r.entry line = src → (Blank.trimStart src).head? ≠ some 58 →
        (r.feed line).next.pending = [] → ∀ lines, ∃ g, parse (Cli.Repl.joined src lines) = .error g := by
  refine ⟨fun hf t => ?_, ?_⟩
  · rw [List.append_assoc, List.singleton_append]
    exact parse_append_newline h hf hcut t
  · rintro r line rfl hentry hstop lines
    cases lines with
    | nil => exact ⟨f, h⟩
    | cons l lines =>
      obtain ⟨t, ht⟩ := Cli.Repl.joined_cons (r.entry line) l lines
      have hf := Cli.Repl.complete_of_feed h hentry hstop
      obtain ⟨g, hg, -⟩ := parse_append_newline h hf hcut t
      exact ⟨g, (congrArg parse ht).trans hg⟩

/-- A static function is called with a dynamic argument. The error shows at the closing parenthesis, in
the second line of an entry whose conditional is still open. -/
theorem Program.parse_final_argument :
    let r : Cli.Repl := { color := false, session := { ns := "quill" }, pending := "if x\x7b" }
    ∃ f, parse (r.entry "$y=f(1,$y)") = .error f ∧ f.incomplete = false ∧
      parse (r.entry "$y=f(1,$y)" ++ [Bytes.newline] ++ ";\x7d") = .error f ∧
      (r.feed "$y=f(1,$y)").next.pending = [] ∧
      ∀ lines, ∃ g, parse (Cli.Repl.joined (r.entry "$y=f(1,$y)") lines) = .error g := by
  intro r
  have hfinal : ((parse (r.entry "$y=f(1,$y)")).mapError Failure.incomplete).map (fun _ => ()) = .error false := by
    decide +kernel
  have hcut : (tokenize (r.entry "$y=f(1,$y)")).toOption.isSome = true := by decide +kernel
  have hrest : (tokenize ";\x7d").toOption.isSome = true := by decide +kernel
  have hstop : (r.feed "$y=f(1,$y)").next.pending = [] := by decide +kernel
  have hentry : (Blank.trimStart (r.entry "$y=f(1,$y)")).head? ≠ some 58 := by decide +kernel
  have htokens {t : Bytes} (h : (tokenize t).toOption.isSome = true) : ∃ toks, tokenize t = .ok toks := by
    cases htoks : tokenize t with
    | error e =>
      rw [htoks] at h
      cases h
    | ok toks => exact ⟨toks, rfl⟩
  cases h : parse (r.entry "$y=f(1,$y)") with
  | ok p =>
    rw [h] at hfinal
    cases hfinal
  | error f =>
    rw [h] at hfinal
    have hf : f.incomplete = false := Except.error.inj hfinal
    obtain ⟨hmore, hlines⟩ := parse_final h (.inl (htokens hcut))
    obtain ⟨g, hg, hsame⟩ := hmore hf ";\x7d"
    rw [hsame (htokens hrest)] at hg
    exact ⟨f, rfl, hf, hg, hstop, hlines r "$y=f(1,$y)" rfl hentry hstop⟩

/-- A hole that goes on behind a backslash at the end of its line: the session stops reading after the
second line, although the third one would have completed the command. -/
theorem Cli.Repl.feed_refuses_unfinished :
    let r : Repl := { color := false, session := { ns := "quill" } }
    let waiting := (r.feed "/say #\x7b1 # \"\\").next
    waiting.pending = "/say #\x7b1 # \"\\" ∧ waiting.entry "# \\" = "/say #\x7b1 # \"\\\n# \\" ∧
      (waiting.feed "# \\").next.pending = [] ∧
      (Program.parse (waiting.entry "# \\")).toOption = none ∧
      ((Program.parse (joined (waiting.entry "# \\") ["# \"\x7d"])).toOption.map Program.print) =
        some "/say #\x7b1\x7d\n" := by
  decide +kernel

end PackScript
