import PackScript.Proofs.Syntax.FinalErrors

/-! # Texts that end too early

An error of the lexer is marked as one that more text could mend if the lexer stood at the end of the
text when it found it. For a name without its first letter, for a string and for a hole that is true:
some further bytes complete them. But the lexer also stands at the end when the last byte is itself
what is wrong, and then nothing that follows can mend the text.
-/
namespace PackScript

variable {t u rest : Bytes} {b p : UInt8} {cause : Cause} {start length more n : Nat}

/-- The error is about the last byte of the text: it starts no token, it is no escape, or it is a line
break inside a string. -/
def Cause.BlamesLast (cause : Cause) (t : Bytes) : Prop :=
  ∃ b, t.getLast? = some b ∧
    (cause = .unexpectedByte b ∨ cause = .invalidEscape b ∨ cause = .unterminatedString ∧ b = Bytes.newline)

theorem Cause.blamesLast_cons_cons : cause.BlamesLast (p :: b :: t) ↔ cause.BlamesLast (b :: t) := by
  rw [BlamesLast, BlamesLast, List.getLast?_cons_cons]

theorem Cause.blamesLast_append_cons (s : Bytes) : cause.BlamesLast (s ++ b :: t) ↔ cause.BlamesLast (b :: t) := by
  rw [BlamesLast, BlamesLast, List.getLast?_append_cons]

theorem Cause.blamesLast_singleton : cause.BlamesLast [b] ↔
    cause = .unexpectedByte b ∨ cause = .invalidEscape b ∨ cause = .unterminatedString ∧ b = Bytes.newline := by
  simp [BlamesLast]

/-! ## Strings -/

/-- A string that is not finished can be finished, unless its last byte is wrong. The byte in front of
the rest of the string is `p`. -/
theorem Scan.string_fault_end {read : Nat} {content : Bytes} (h : string read content t = .fault cause start length more)
    (hmore : read + t.length ≤ more) (hp : p ≠ Bytes.newline) :
    (¬cause.BlamesLast (p :: t) ∧ ∃ u l n, string read content (t ++ u) = .token l n (read + (t ++ u).length)) ∨
      (cause.BlamesLast (p :: t) ∧ ∀ u, string read content (t ++ u) = .fault cause start length more) := by
  fun_induction string read content t generalizing p with
  | case1 read content =>
    cases h
    refine .inl ⟨?_, [34], .string content.reverse, more + 2, string_quote more content []⟩
    simp [Cause.blamesLast_singleton, hp]
  | case2 => cases h
  | case3 read content b t hquote hend =>
    cases h
    obtain rfl : t = [] := by
      rw [List.length_cons] at hmore
      exact List.eq_nil_of_length_eq_zero (by omega)
    refine .inr ⟨?_, fun u => ?_⟩
    · rw [Cause.blamesLast_cons_cons, Cause.blamesLast_singleton]
      exact .inr (.inr ⟨rfl, of_decide_eq_true hend⟩)
    · rw [List.cons_append, string.eq_def]
      dsimp only
      rw [if_neg hquote, if_pos hend]
  | case4 read content hquote hend =>
    cases h
    refine .inl ⟨?_, [34, 34], _, _, (string_escape rfl read content [34]).trans (string_quote _ _ _)⟩
    rw [Cause.blamesLast_cons_cons, Cause.blamesLast_singleton]
    simp [Bytes.newline]
  | case5 read content e t c he hquote hend ih =>
    have hne : e ≠ Bytes.newline := by
      rintro rfl
      have hnone : unescape? Bytes.newline = none := rfl
      cases hnone.symm.trans he
    rw [List.length_cons, List.length_cons] at hmore
    rw [Cause.blamesLast_cons_cons, Cause.blamesLast_cons_cons]
    rcases ih h (by omega) hne with ⟨hblames, u, l, n, hu⟩ | ⟨hblames, hu⟩
    · refine .inl ⟨hblames, u, l, n, (string_escape he read content _).trans (hu.trans ?_)⟩
      simp only [List.cons_append, List.length_cons]
      congr 1
      omega
    · exact .inr ⟨hblames, fun u => (string_escape he read content _).trans (hu u)⟩
  | case6 read content e t he hquote hend =>
    cases h
    obtain rfl : t = [] := by
      rw [List.length_cons, List.length_cons] at hmore
      exact List.eq_nil_of_length_eq_zero (by omega)
    refine .inr ⟨?_, fun u => ?_⟩
    · rw [Cause.blamesLast_cons_cons, Cause.blamesLast_cons_cons, Cause.blamesLast_singleton]
      exact .inr (.inl rfl)
    · rw [List.cons_append, List.cons_append, string.eq_def]
      dsimp only
      rw [if_neg hquote, if_neg hend, if_pos rfl, he]
  | case7 read content b t hquote hend hslash ih =>
    have hne : b ≠ Bytes.newline := fun hb => hend (decide_eq_true hb)
    rw [List.length_cons] at hmore
    rw [Cause.blamesLast_cons_cons]
    rcases ih h (by omega) hne with ⟨hblames, u, l, n, hu⟩ | ⟨hblames, hu⟩
    · refine .inl ⟨hblames, u, l, n, (string_byte hquote hend hslash read content _).trans (hu.trans ?_)⟩
      simp only [List.cons_append, List.length_cons]
      congr 1
      omega
    · exact .inr ⟨hblames, fun u => (string_byte hquote hend hslash read content _).trans (hu u)⟩

/-! ## Holes -/

/-- A hole that its line leaves open can be closed. -/
theorem exists_holeEnd? {s : Bool} (hline : Bytes.newline ∉ t) (h : holeEnd? s t = none) :
    ∃ u n, holeEnd? s (t ++ u) = some n ∧ n + 1 = (t ++ u).length := by
  fun_induction holeEnd? s t with
  | case1 s =>
    cases s with
    | false => exact ⟨[125], 0, rfl, rfl⟩
    | true => exact ⟨[34, 125], 1, rfl, rfl⟩
  | case2 s b t hend =>
    obtain rfl : b = Bytes.newline := of_decide_eq_true hend
    exact absurd List.mem_cons_self hline
  | case3 s b hend hslash =>
    obtain ⟨rfl, rfl⟩ := hslash
    exact ⟨[34, 34, 125], 3, rfl, rfl⟩
  | case4 s b hend hslash e t ih =>
    obtain ⟨rfl, rfl⟩ := hslash
    simp only [List.mem_cons, not_or] at hline
    obtain ⟨u, n, hn, hlength⟩ := ih hline.2.2 (Option.map_eq_none_iff.1 h)
    refine ⟨u, n + 2, ?_, ?_⟩
    · rw [List.cons_append, List.cons_append, holeEnd?_escape, hn, Option.map_some]
    · simp only [List.cons_append, List.length_cons, ← hlength]
  | case5 s t hend hslash ih =>
    rw [List.mem_cons, not_or] at hline
    obtain ⟨u, n, hn, hlength⟩ := ih hline.2 (Option.map_eq_none_iff.1 h)
    refine ⟨u, n + 1, ?_, ?_⟩
    · rw [List.cons_append, holeEnd?_quote, hn, Option.map_some]
    · rw [List.cons_append, List.length_cons, hlength]
  | case6 => cases h
  | case7 s b t hend hslash hquote hclose ih =>
    rw [List.mem_cons, not_or] at hline
    obtain ⟨u, n, hn, hlength⟩ := ih hline.2 (Option.map_eq_none_iff.1 h)
    refine ⟨u, n + 1, ?_, ?_⟩
    · rw [List.cons_append, holeEnd?_byte hend hslash hquote hclose, hn, Option.map_some]
    · rw [List.cons_append, List.length_cons, hlength]

theorem newline_notMem_of_lineLength (h : t.length ≤ lineLength t) : Bytes.newline ∉ t := by
  have htake : t.takeWhile (fun b => !isLineEnd b) = t :=
    (List.takeWhile_prefix _).eq_of_length_le h
  intro hmem
  rw [← htake] at hmem
  exact absurd (List.all_eq_true.1 List.all_takeWhile _ hmem) (by decide)

/-- A command whose last hole is open at the end of the text ends where that hole is closed. -/
theorem commandExtent_openHole_end {d : Nat} (h : commandExtent d t = .openHole start length)
    (hend : t.length ≤ start + length) : ∃ u, commandExtent d (t ++ u) = .closed (t ++ u).length := by
  fun_induction commandExtent d t generalizing start with
  | case1 => cases h
  | case2 => cases h
  | case3 d b t hline hb hnone =>
    obtain ⟨rfl, hb⟩ := hb
    obtain ⟨v, rfl⟩ : ∃ v, t = 123 :: v := by
      cases t with
      | nil => cases hb
      | cons c v => cases hb; exact ⟨v, rfl⟩
    cases h
    rw [Nat.zero_add] at hend
    have hnewline := newline_notMem_of_lineLength hend
    simp only [List.mem_cons, not_or] at hnewline
    obtain ⟨u, n, hn, hlength⟩ := exists_holeEnd? hnewline.2.2 hnone
    refine ⟨u, ?_⟩
    rw [List.cons_append, List.cons_append, commandExtent.eq_def]
    dsimp only
    rw [if_neg hline, if_pos ⟨rfl, rfl⟩, List.drop_one, List.tail_cons, hn]
    dsimp only
    rw [List.drop_eq_nil_of_le (by rw [List.length_cons]; omega), commandExtent, CommandExtent.shift,
      List.length_cons, List.length_cons, ← hlength]
    congr 1
    omega
  | case4 d b t hline hb m hm ih =>
    obtain ⟨k, hk, rfl⟩ := CommandExtent.shift_eq_openHole h
    obtain ⟨rfl, hb⟩ := hb
    obtain ⟨v, rfl⟩ : ∃ v, t = 123 :: v := by
      cases t with
      | nil => cases hb
      | cons c v => cases hb; exact ⟨v, rfl⟩
    obtain ⟨inside, after, rfl, rfl, hin⟩ := holeEnd?_split hm
    rw [drop_behind_hole] at ih hk
    have hin : IsInside inside := hin []
    obtain ⟨u, hu⟩ := ih hk (by simp only [List.length_cons, List.length_append] at hend; omega)
    have htext : 35 :: 123 :: (inside ++ 125 :: after) ++ u = holeText inside (after ++ u) := by
      simp [holeText]
    refine ⟨u, ?_⟩
    rw [htext, hin.commandExtent_holeText, hu, CommandExtent.shift, holeText]
    simp only [List.length_cons, List.length_append]
    congr 1
    omega
  | case5 d t hline hb ih =>
    obtain ⟨k, hk, rfl⟩ := CommandExtent.shift_eq_openHole h
    rw [List.length_cons] at hend
    obtain ⟨u, hu⟩ := ih hk (by omega)
    refine ⟨u, ?_⟩
    rw [List.cons_append, commandExtent_openBrace, hu, CommandExtent.shift, List.length_cons]
  | case6 => cases h
  | case7 t d hline hb ho ih =>
    obtain ⟨k, hk, rfl⟩ := CommandExtent.shift_eq_openHole h
    rw [List.length_cons] at hend
    obtain ⟨u, hu⟩ := ih hk (by omega)
    refine ⟨u, ?_⟩
    rw [List.cons_append, commandExtent_closeBrace, hu, CommandExtent.shift, List.length_cons]
  | case8 d b t hline hb ho hc ih =>
    obtain ⟨k, hk, rfl⟩ := CommandExtent.shift_eq_openHole h
    rw [List.length_cons] at hend
    obtain ⟨u, hu⟩ := ih hk (by omega)
    -- there is a hole in `t`, so the byte behind `b` is the same with `u`
    have hpos : 0 < t.length := by
      cases t with
      | nil =>
        rw [commandExtent] at hk
        cases hk
      | cons c t => exact Nat.succ_pos _
    have hhole : ¬(b = 35 ∧ (t ++ u).head? = some 123) := fun hh =>
      head?_append_ne (by decide) (fun hhead => hb ⟨hh.1, hhead⟩) (.inl hpos) hh.2
    refine ⟨u, ?_⟩
    rw [List.cons_append, commandExtent_byte (Bool.not_eq_true _ ▸ hline) hhole ho hc, hu, CommandExtent.shift,
      List.length_cons]

/-! ## Single tokens -/

/-- What is wrong at the head of a text, when the lexer has read the whole text: it is the last byte,
or some further bytes make one token of the text. -/
theorem scan_fault_end (h : scan b rest = .fault cause start length more) (hmore : rest.length ≤ more) :
    (¬cause.BlamesLast (b :: rest) ∧ ∃ u l n, scan b (rest ++ u) = .token l n (rest ++ u).length) ∨
      (cause.BlamesLast (b :: rest) ∧ ∀ u, scan b (rest ++ u) = .fault cause start length more) := by
  revert h
  fun_cases scan b rest with
  | case12 =>
    intro h
    subst_vars
    have hend := Scan.string_fault_end (p := 34) h (by omega) (by decide)
    simp only [Nat.zero_add] at hend
    exact hend
  | case13 =>
    intro h
    subst_vars
    rw [Scan.command] at h
    cases hc : commandExtent 0 rest with
    | closed n =>
      rw [hc] at h
      cases h
    | openHole k n =>
      rw [hc] at h
      cases h
      obtain ⟨u, hu⟩ := commandExtent_openHole_end hc hmore
      have hcommand : scan 47 (rest ++ u) = Scan.command (rest ++ u) := rfl
      refine .inl ⟨by simp [Cause.BlamesLast], u, ?_⟩
      rw [hcommand, Scan.command, hu]
      exact ⟨_, _, rfl⟩
  | case14 =>
    intro h
    subst_vars
    cases rest with
    | nil =>
      cases h
      exact .inl ⟨by simp [Cause.BlamesLast], [97], _, _, rfl⟩
    | cons c rest =>
      rw [Scan.sigiled] at h
      split at h
      · cases h
      · cases h
        exact absurd hmore (Nat.not_succ_le_zero _)
  | case15 =>
    intro h
    cases h
  | case16 =>
    intro h
    rw [Scan.word_eq] at h
    cases h
  | case17 =>
    intro h
    cases h
    obtain rfl : rest = [] := List.eq_nil_of_length_eq_zero (Nat.le_zero.1 hmore)
    refine .inr ⟨Cause.blamesLast_singleton.2 (.inl rfl), fun u => ?_⟩
    simp_all [scan]
  | _ =>
    intro h
    cases h

/-! ## Whole texts -/

/-- Only what is neither blank nor a comment is left behind what is skipped. -/
theorem skipLength_of_drop (h : t.drop (skipLength t) = b :: rest) (u : Bytes) : skipLength (b :: u) = 0 := by
  fun_induction skipLength t with
  | case1 => cases h
  | case2 c t hc ih => exact ih h
  | case3 t hc ih =>
    rw [drop_remark] at h
    exact ih h
  | case4 c t hc hremark =>
    cases h
    rw [skipLength, if_neg hc, if_neg hremark]

/-- The place where a text stops being cut: in front of it the text is cut in the same way, whatever
stands behind the text. -/
theorem exists_scan_of_fault {c : Cursor} {d : Diagnostic} (h : (scanFrom c t).fault = some d) :
    ∃ before b rest start length more c', t = before ++ b :: rest ∧ (∀ u, skipLength (b :: u) = 0) ∧
      scan b rest = .fault d.cause start length more ∧ d.incomplete = decide (rest.length ≤ more) ∧
      ∀ u, (scanFrom c (t ++ u)).fault = (scanFrom c' (b :: (rest ++ u))).fault := by
  fun_induction scanFrom c t with
  | case1 => cases h
  | case2 c t here b rest hdrop lexeme length more hscan =>
    rename_i ih
    obtain ⟨before, b', rest', start, length', more', c', hrest, hskip, hfault, hincomplete, hbehind⟩ := ih h
    have htext : t = t.take (skipLength t) ++ b :: (rest.take more ++ rest.drop more) := by
      rw [List.take_append_drop, ← hdrop, List.take_append_drop]
    have hmore : more < rest.length := by
      have hlength := congrArg List.length hrest
      simp only [List.length_drop, List.length_append, List.length_cons] at hlength
      omega
    refine ⟨t.take (skipLength t) ++ b :: rest.take more ++ before, b', rest', start, length', more', c', ?_, hskip,
      hfault, hincomplete, fun u => ?_⟩
    · rw [List.append_assoc, List.append_assoc, List.cons_append, ← hrest]
      exact htext
    · rw [scanFrom_append_of_token c hdrop hscan (.inl hmore)]
      exact hbehind u
  | case3 c t here b rest hdrop cause start length more hscan =>
    cases h
    have hskip := skipLength_of_drop hdrop
    have htext : t = t.take (skipLength t) ++ b :: rest := by
      rw [← hdrop, List.take_append_drop]
    refine ⟨_, b, rest, start, length, more, here, htext, hskip, hscan, rfl, fun u => ?_⟩
    have hle := skipLength_le t
    congr 1
    apply scanFrom_eq_of_drop
    · rw [skipLength_append hdrop, List.take_append_of_le_length hle, hskip]
      rfl
    · rw [skipLength_append hdrop, List.drop_append_of_le_length hle, hdrop, hskip]
      rfl

theorem tokenize_eq_ok {s : Bytes} : (∃ toks, tokenize s = .ok toks) ↔ (scanFrom .start s).fault = none := by
  rw [tokenize, Scanned.result]
  cases (scanFrom .start s).fault <;> simp

theorem tokenize_eq_error {s : Bytes} {d : Diagnostic} :
    tokenize s = .error (.diagnostic d) ↔ (scanFrom .start s).fault = some d := by
  rw [tokenize, Scanned.result]
  cases (scanFrom .start s).fault <;> simp

/-- A text that cannot be cut because it ends too early can be completed, unless its last byte is itself
what is wrong; in that case no text completes it. -/
theorem tokenize_completed_iff {s : Bytes} {d : Diagnostic} (h : tokenize s = .error (.diagnostic d))
    (hd : d.incomplete = true) :
    (∃ t toks, tokenize (s ++ t) = .ok toks) ↔ ¬d.cause.BlamesLast s := by
  obtain ⟨before, b, rest, start, length, more, c, rfl, hskip, hscan, hincomplete, hbehind⟩ :=
    exists_scan_of_fault (tokenize_eq_error.1 h)
  have hmore : rest.length ≤ more := of_decide_eq_true (hincomplete.symm.trans hd)
  have hdrop (u : Bytes) : (b :: (rest ++ u)).drop (skipLength (b :: (rest ++ u))) = b :: (rest ++ u) := by
    rw [hskip, List.drop_zero]
  rw [Cause.blamesLast_append_cons]
  simp only [tokenize_eq_ok, hbehind, scanFrom_of_drop_cons c (hdrop _)]
  rcases scan_fault_end hscan hmore with ⟨hblames, u, l, n, hu⟩ | ⟨hblames, hspoilt⟩
  · refine ⟨fun _ => hblames, fun _ => ⟨u, ?_⟩⟩
    rw [hu]
    dsimp only
    rw [List.drop_length, scanFrom_of_drop_nil _ List.drop_nil]
    rfl
  · constructor
    · rintro ⟨u, hu⟩
      rw [hspoilt u] at hu
      cases hu
    · exact fun h => absurd hblames h

/-- A command with an open brace and a hole, which ends in the middle of an escape in a string. -/
theorem tokenize_completed_iff_escape : ∃ d,
    tokenize "n := 1;\n/say \x7b#\x7bn + \"\x7d\\" = .error (.diagnostic d) ∧ d.incomplete = true ∧
      d.cause = .unterminatedHole ∧ ∃ t toks, tokenize ("n := 1;\n/say \x7b#\x7bn + \"\x7d\\" ++ t) = .ok toks := by
  have hfault : (scanFrom .start "n := 1;\n/say \x7b#\x7bn + \"\x7d\\").fault =
      some ⟨.unterminatedHole, ⟨14, 9, 2, 6⟩, true⟩ := by
    decide +kernel
  have herror := tokenize_eq_error.2 hfault
  refine ⟨_, herror, rfl, rfl, (tokenize_completed_iff herror rfl).2 ?_⟩
  simp [Cause.BlamesLast]

/-- A byte that starts no token is marked as an early end of the text if it is the last one, although
nothing that follows makes it start a token. -/
theorem tokenize_stray_byte_incomplete :
    tokenize "@" = .error (.diagnostic ⟨.unexpectedByte 64, ⟨0, 1, 1, 0⟩, true⟩) ∧
      ∀ t, ¬∃ toks, tokenize ("@" ++ t) = .ok toks := by
  have hskip (t : Bytes) : skipLength (64 :: t) = 0 := by
    rw [skipLength, if_neg (by decide), if_neg (by decide)]
  have hdrop (t : Bytes) : (64 :: t).drop (skipLength (64 :: t)) = 64 :: t := by
    rw [hskip, List.drop_zero]
  refine ⟨tokenize_eq_error.2 ?_, fun t h => ?_⟩
  · change (scanFrom .start [64]).fault = _
    rw [scanFrom_of_drop_cons _ (hdrop []), hskip]
    rfl
  · have hnone : (scanFrom .start (64 :: t)).fault = none := tokenize_eq_ok.1 h
    rw [scanFrom_of_drop_cons _ (hdrop t)] at hnone
    cases hnone

end PackScript
