import PackScript.Proofs.Syntax.Displacement

/-! # Programs that follow each other

No token reaches past the end of its line except at the end of the text, and no statement goes
on with what may start another one. So a text in front of a line break is cut and read as it
would be alone, and the text behind it as if it started there: two programs joined by a line
break make up one program, with the statements of the first and then those of the second.
-/
namespace PackScript

variable {t u rest : Bytes} {b : UInt8} {l : Lexeme} {length more n : Nat}

/-- What the first `n` bytes of `t` are taken for does not depend on the text `u` behind `t`: there
is more of `t` behind them, or their line ends with `t`. -/
def Clears (n : Nat) (t u : Bytes) : Prop := n < t.length ∨ EndsLine u

theorem endsLine_newline (u : Bytes) : EndsLine (Bytes.newline :: u) := by
  intro b hb
  cases hb
  rfl

theorem clears_newline (n : Nat) (t u : Bytes) : Clears n t (Bytes.newline :: u) := .inr (endsLine_newline u)

theorem Clears.mono {m : Nat} (h : Clears n t u) (hm : m ≤ n) : Clears m t u := h.imp_left (Nat.lt_of_le_of_lt hm)

theorem Clears.cons (h : Clears (n + 1) (b :: t) u) : Clears n t u := h.imp_left Nat.lt_of_succ_lt_succ

/-! ## Runs of bytes -/

/-- A run of bytes that does not go on behind the end of its line. -/
theorem takeWhile_append_of_clears {p : UInt8 → Bool} (hp : p Bytes.newline = false)
    (hu : Clears (t.takeWhile p).length t u) : (t ++ u).takeWhile p = t.takeWhile p := by
  induction t with
  | nil =>
    refine takeWhile_eq_nil fun b hb => ?_
    have hend := hu.resolve_left (Nat.lt_irrefl 0) b hb
    rw [of_decide_eq_true hend]
    exact hp
  | cons b t ih =>
    rw [List.cons_append]
    by_cases hb : p b = true
    · rw [List.takeWhile_cons_of_pos hb] at hu ⊢
      rw [List.takeWhile_cons_of_pos hb, ih hu.cons]
    · rw [List.takeWhile_cons_of_neg hb, List.takeWhile_cons_of_neg hb]

theorem length_takeWhile_le (p : UInt8 → Bool) (t : Bytes) : (t.takeWhile p).length ≤ t.length :=
  (List.takeWhile_prefix p).length_le

theorem lineLength_append (hu : Clears (lineLength t) t u) : lineLength (t ++ u) = lineLength t := by
  rw [lineLength, takeWhile_append_of_clears (by decide) hu, lineLength]

theorem lineLength_le (t : Bytes) : lineLength t ≤ t.length := length_takeWhile_le _ t

theorem wordLength_le (t : Bytes) : Scan.wordLength t ≤ t.length := by
  have hstem := length_takeWhile_le isNameByte t
  have hprimes := length_takeWhile_le isPrime (t.drop (t.takeWhile isNameByte).length)
  rw [List.length_drop] at hprimes
  rw [Scan.wordLength]
  omega

theorem wordLength_append_of_clears (hu : Clears (Scan.wordLength t) t u) :
    Scan.wordLength (t ++ u) = Scan.wordLength t := by
  have hstem := length_takeWhile_le isNameByte t
  have hprimes : Clears ((t.drop (t.takeWhile isNameByte).length).takeWhile isPrime).length
      (t.drop (t.takeWhile isNameByte).length) u := by
    refine hu.imp_left fun hlt => ?_
    rw [Scan.wordLength] at hlt
    rw [List.length_drop]
    omega
  rw [Scan.wordLength, takeWhile_append_of_clears (by decide) (hu.mono (Nat.le_add_right _ _)),
    List.drop_append_of_le_length hstem, takeWhile_append_of_clears (by decide) hprimes, Scan.wordLength]

theorem head?_append_ne {c : UInt8} (hc : isLineEnd c = false) (h : t.head? ≠ some c) (hu : Clears 0 t u) :
    (t ++ u).head? ≠ some c := by
  cases t with
  | nil =>
    intro hhead
    have hend := hu.resolve_left (Nat.lt_irrefl 0) c hhead
    rw [hc] at hend
    cases hend
  | cons b t => exact h

/-! ## Blanks and comments -/

theorem drop_remark (t : Bytes) (k : Nat) :
    (35 :: t).drop (k + lineLength t + 1) = (t.drop (lineLength t)).drop k := by
  rw [List.drop_succ_cons, List.drop_drop, Nat.add_comm]

theorem skipLength_remark (hu : Clears (lineLength t) t u) :
    skipLength (35 :: t ++ u) = skipLength (t.drop (lineLength t) ++ u) + lineLength t + 1 := by
  rw [List.cons_append, skipLength, if_neg (by decide), if_pos rfl, lineLength_append hu,
    List.drop_append_of_le_length (lineLength_le t)]

theorem skipLength_le (t : Bytes) : skipLength t ≤ t.length := by
  fun_induction skipLength t with
  | case1 => exact Nat.le_refl _
  | case2 c t hc ih => exact Nat.succ_le_succ ih
  | case3 t hc ih =>
    have hle := lineLength_le t
    rw [List.length_drop] at ih
    rw [List.length_cons]
    omega
  | case4 => exact Nat.zero_le _

/-- Up to the first token, as much is skipped as without the text behind. -/
theorem skipLength_append (h : t.drop (skipLength t) = b :: rest) (u : Bytes) :
    skipLength (t ++ u) = skipLength t := by
  fun_induction skipLength t with
  | case1 => cases h
  | case2 c t hc ih => rw [List.cons_append, skipLength, if_pos hc, ih h]
  | case3 t hc ih =>
    rw [drop_remark] at h
    -- there is a token behind the comment, so the comment ends before the text does
    have hlt : lineLength t < t.length := by
      have hlength := congrArg List.length h
      simp only [List.length_drop, List.length_cons] at hlength
      omega
    rw [skipLength_remark (.inl hlt), ih h]
  | case4 c t hc hremark => rw [List.cons_append, skipLength, if_neg hc, if_neg hremark]

/-- Behind the last token, all the text is skipped, and then on behind the line break. -/
theorem skipLength_append_newline_of_end (h : t.drop (skipLength t) = []) (u : Bytes) :
    skipLength (t ++ Bytes.newline :: u) = t.length + 1 + skipLength u := by
  fun_induction skipLength t with
  | case1 =>
    rw [List.nil_append, skipLength, if_pos (by decide), List.length_nil]
    omega
  | case2 c t hc ih =>
    have hrest := ih h
    rw [List.cons_append, skipLength, if_pos hc, hrest, List.length_cons]
    omega
  | case3 t hc ih =>
    have hle := lineLength_le t
    rw [drop_remark] at h
    have hrest := ih h
    rw [List.length_drop] at hrest
    rw [skipLength_remark (clears_newline _ _ _), hrest, List.length_cons]
    omega
  | case4 => cases h

/-! ## Single tokens -/

namespace Scan

theorem string_quote (read : Nat) (content t : Bytes) :
    string read content (34 :: t) = exact (.string content.reverse) (read + 1) := by
  rw [string.eq_def]
  dsimp only
  rw [if_pos rfl]

theorem string_escape {e c : UInt8} (he : unescape? e = some c) (read : Nat) (content t : Bytes) :
    string read content (92 :: e :: t) = string (read + 2) (c :: content) t := by
  rw [string.eq_def]
  dsimp only
  rw [if_neg (by decide), if_neg (by decide), if_pos rfl, he]

theorem string_byte (hquote : b ≠ 34) (hend : ¬isLineEnd b = true) (hslash : b ≠ 92) (read : Nat)
    (content t : Bytes) : string read content (b :: t) = string (read + 1) (b :: content) t := by
  rw [string.eq_def]
  dsimp only
  rw [if_neg hquote, if_neg hend, if_neg hslash]

/-- A string ends at its closing quote, whatever follows. -/
theorem string_append {read : Nat} {content : Bytes} (h : string read content t = .token l length more) :
    more ≤ read + t.length ∧ ∀ u, string read content (t ++ u) = .token l length more := by
  fun_induction string read content t with
  | case1 => cases h
  | case2 read content rest =>
    refine ⟨?_, fun u => (string_quote read content _).trans h⟩
    cases h
    rw [List.length_cons]
    omega
  | case3 => cases h
  | case4 => cases h
  | case5 read content e rest c he hquote hend ih =>
    obtain ⟨hle, hrest⟩ := ih h
    refine ⟨?_, fun u => (string_escape he read content _).trans (hrest u)⟩
    rw [List.length_cons, List.length_cons]
    omega
  | case6 => cases h
  | case7 read content b rest hquote hend hslash ih =>
    obtain ⟨hle, hrest⟩ := ih h
    refine ⟨?_, fun u => (string_byte hquote hend hslash read content _).trans (hrest u)⟩
    rw [List.length_cons]
    omega

end Scan

/-- A command ends at the end of its line or before a brace. -/
theorem commandExtent_append {d : Nat} (h : commandExtent d t = .closed n) :
    n ≤ t.length ∧ ∀ u, Clears n t u → commandExtent d (t ++ u) = .closed n := by
  fun_induction commandExtent d t generalizing n with
  | case1 d =>
    cases h
    refine ⟨Nat.zero_le _, fun u hu => ?_⟩
    rw [List.nil_append]
    exact (hu.resolve_left (Nat.lt_irrefl 0)).commandExtent d
  | case2 d b t hend =>
    cases h
    refine ⟨Nat.zero_le _, fun u _ => ?_⟩
    rw [List.cons_append, commandExtent.eq_def]
    dsimp only
    rw [if_pos hend]
  | case3 => cases h
  | case4 d b t hend hb m hm ih =>
    obtain ⟨k, hk, rfl⟩ := CommandExtent.shift_eq_closed h
    obtain ⟨rfl, hb⟩ := hb
    obtain ⟨v, rfl⟩ : ∃ v, t = 123 :: v := by
      cases t with
      | nil => cases hb
      | cons c v => cases hb; exact ⟨v, rfl⟩
    obtain ⟨inside, after, rfl, rfl, hin⟩ := holeEnd?_split hm
    rw [drop_behind_hole] at ih hk
    obtain ⟨hle, hafter⟩ := ih hk
    refine ⟨?_, fun u hu => ?_⟩
    · simp only [List.length_cons, List.length_append]
      omega
    · have hin : IsInside inside := hin []
      have htext : 35 :: 123 :: (inside ++ 125 :: after) ++ u = holeText inside (after ++ u) := by
        simp [holeText]
      have hclears : Clears k after u := by
        refine hu.imp_left fun hlt => ?_
        simp only [List.length_cons, List.length_append] at hlt
        omega
      rw [htext, hin.commandExtent_holeText, hafter u hclears, CommandExtent.shift]
  | case5 d t hend hb ih =>
    obtain ⟨k, hk, rfl⟩ := CommandExtent.shift_eq_closed h
    obtain ⟨hle, hrest⟩ := ih hk
    refine ⟨Nat.succ_le_succ hle, fun u hu => ?_⟩
    rw [List.cons_append, commandExtent_openBrace, hrest u hu.cons, CommandExtent.shift]
  | case6 t hend hb ho =>
    cases h
    refine ⟨Nat.zero_le _, fun u _ => ?_⟩
    rw [List.cons_append, commandExtent, if_neg (by decide), if_neg (by simp), if_neg (by decide),
      if_pos rfl]
  | case7 t d hend hb ho ih =>
    obtain ⟨k, hk, rfl⟩ := CommandExtent.shift_eq_closed h
    obtain ⟨hle, hrest⟩ := ih hk
    refine ⟨Nat.succ_le_succ hle, fun u hu => ?_⟩
    rw [List.cons_append, commandExtent_closeBrace, hrest u hu.cons, CommandExtent.shift]
  | case8 d b t hend hb ho hc ih =>
    obtain ⟨k, hk, rfl⟩ := CommandExtent.shift_eq_closed h
    obtain ⟨hle, hrest⟩ := ih hk
    refine ⟨Nat.succ_le_succ hle, fun u hu => ?_⟩
    have hhole : ¬(b = 35 ∧ (t ++ u).head? = some 123) := fun hh =>
      head?_append_ne (by decide) (fun hhead => hb ⟨hh.1, hhead⟩) (hu.cons.mono (Nat.zero_le k)) hh.2
    rw [List.cons_append, commandExtent_byte (Bool.not_eq_true _ ▸ hend) hhole ho hc, hrest u hu.cons,
      CommandExtent.shift]

namespace Scan

theorem command_append (h : command t = .token l length more) :
    more ≤ t.length ∧ ∀ u, Clears more t u → command (t ++ u) = .token l length more := by
  rw [command] at h
  cases hc : commandExtent 0 t with
  | openHole start k =>
    rw [hc] at h
    cases h
  | closed k =>
    rw [hc] at h
    cases h
    obtain ⟨hle, hextent⟩ := commandExtent_append hc
    refine ⟨hle, fun u hu => ?_⟩
    rw [command, hextent u hu]
    dsimp only
    rw [List.take_append_of_le_length hle]

theorem sigiled_append (h : sigiled t = .token l length more) :
    more ≤ t.length ∧ ∀ u, Clears more t u → sigiled (t ++ u) = .token l length more := by
  cases t with
  | nil => cases h
  | cons b t =>
    rw [sigiled] at h
    split at h
    · rename_i hb
      cases h
      have hle := wordLength_le (b :: t)
      refine ⟨hle, fun u hu => ?_⟩
      rw [List.cons_append, sigiled, if_pos hb, ← List.cons_append, wordLength_append_of_clears hu,
        List.take_append_of_le_length hle, exact]
    · cases h

theorem number_append (hb : Decimal.isDigit b = true) (h : number (b :: t) = .token l length more) :
    more ≤ t.length ∧ ∀ u, Clears more t u → number (b :: (t ++ u)) = .token l length more := by
  have hle := length_takeWhile_le Decimal.isDigit (b :: t)
  have hdigits : ((b :: t).takeWhile Decimal.isDigit).length = more + 1 := by
    rw [List.takeWhile_cons_of_pos hb]
    cases h
    rw [List.takeWhile_cons_of_pos hb]
    rfl
  refine ⟨?_, fun u hu => ?_⟩
  · rw [hdigits, List.length_cons] at hle
    omega
  · have hclears : Clears ((b :: t).takeWhile Decimal.isDigit).length (b :: t) u := by
      rw [hdigits]
      exact hu.imp_left Nat.succ_lt_succ
    rw [number, ← List.cons_append, takeWhile_append_of_clears (by decide) hclears]
    exact h

theorem word_append (hb : isNameStart b = true) (h : word (b :: t) = .token l length more) :
    more ≤ t.length ∧ ∀ u, Clears more t u → word (b :: (t ++ u)) = .token l length more := by
  have hle := wordLength_le (b :: t)
  rw [word_eq] at h
  have hlength : wordLength (b :: t) = more + 1 := by
    have hbyte : isNameByte b = true := by rw [isNameByte, hb]; rfl
    have hpos : 0 < wordLength (b :: t) := by
      rw [wordLength, List.takeWhile_cons_of_pos hbyte, List.length_cons]
      omega
    cases h
    omega
  refine ⟨?_, fun u hu => ?_⟩
  · rw [hlength, List.length_cons] at hle
    omega
  · have hclears : Clears (wordLength (b :: t)) (b :: t) u := by
      rw [hlength]
      exact hu.imp_left Nat.succ_lt_succ
    rw [word_eq, ← List.cons_append, wordLength_append_of_clears hclears, List.take_append_of_le_length hle]
    exact h

end Scan

/-- The byte behind a colon decides what the colon means, and a line break decides it like the
end of the text. -/
theorem scan_colon_append (h : scan 58 rest = .token l length more) :
    more ≤ rest.length ∧ ∀ u, Clears more rest u → scan 58 (rest ++ u) = .token l length more := by
  have hcolon (r : Bytes) : scan 58 r =
      if r.head? = some 61 then .exact (.mark .assign) 1 else .exact (.mark .colon) 0 := rfl
  rw [hcolon] at h
  by_cases hhead : rest.head? = some 61
  · rw [if_pos hhead] at h
    have hlong : 1 ≤ rest.length := by
      cases rest with
      | nil => cases hhead
      | cons c rest => exact Nat.succ_le_succ (Nat.zero_le _)
    refine ⟨?_, fun u _ => ?_⟩
    · cases h
      exact hlong
    · rw [hcolon, if_pos (head?_of_append hhead)]
      exact h
  · rw [if_neg hhead] at h
    refine ⟨?_, fun u hu => ?_⟩
    · cases h
      exact Nat.zero_le _
    · rw [hcolon, if_neg (head?_append_ne (by decide) hhead (hu.mono (Nat.zero_le _)))]
      exact h

/-- A token that does not run into what follows is the one that the text has by itself. -/
theorem scan_append (h : scan b rest = .token l length more) :
    more ≤ rest.length ∧ ∀ u, Clears more rest u → scan b (rest ++ u) = .token l length more := by
  have hmark {m : Mark} (hm : Scan.exact (.mark m) 0 = .token l length more) : more ≤ rest.length := by
    cases hm
    exact Nat.zero_le _
  by_cases hcolon : b = 58
  · subst hcolon
    exact scan_colon_append h
  revert h
  fun_cases scan b rest with
  | case10 => contradiction
  | case11 => contradiction
  | case12 =>
    intro h
    subst_vars
    obtain ⟨hle, hstring⟩ := Scan.string_append h
    rw [Nat.zero_add] at hle
    exact ⟨hle, fun u _ => hstring u⟩
  | case13 =>
    intro h
    subst_vars
    exact Scan.command_append h
  | case14 =>
    intro h
    subst_vars
    exact Scan.sigiled_append h
  | case15 =>
    rename_i hdigit
    intro h
    obtain ⟨hle, hnumber⟩ := Scan.number_append hdigit h
    exact ⟨hle, fun u hu => (scan_digit hdigit _).trans (hnumber u hu)⟩
  | case16 =>
    rename_i hstart
    intro h
    obtain ⟨hle, hword⟩ := Scan.word_append hstart h
    exact ⟨hle, fun u hu => (scan_nameStart hstart _).trans (hword u hu)⟩
  | case17 =>
    intro h
    cases h
  | _ =>
    intro h
    subst_vars
    exact ⟨hmark h, fun _ _ => h⟩

/-! ## Whole texts -/

/-- What is skipped only counts for the place it leads to. -/
theorem scanFrom_eq_of_drop {c c' : Cursor} {u : Bytes}
    (hplace : c.past (t.take (skipLength t)) = c'.past (u.take (skipLength u)))
    (hdrop : t.drop (skipLength t) = u.drop (skipLength u)) : scanFrom c t = scanFrom c' u := by
  cases hu : u.drop (skipLength u) with
  | nil => rw [scanFrom_of_drop_nil c (hdrop.trans hu), scanFrom_of_drop_nil c' hu, hplace]
  | cons b rest => rw [scanFrom_of_drop_cons c (hdrop.trans hu), scanFrom_of_drop_cons c' hu, hplace]

theorem TokenStream.tokens_cons {tok : Token} (h : tok.lexeme ≠ .endMarker) (toks : List Token) :
    (ofTokens (tok :: toks)).tokens = tok :: (ofTokens toks).tokens := by
  rw [ofTokens, ofTokens]
  dsimp only
  rw [List.takeWhile_cons_of_pos (by simpa using h)]

/-- Where no token is left in front of a line break, the text starts anew behind it. -/
theorem scanFrom_append_newline_of_end (c : Cursor) (h : t.drop (skipLength t) = []) (u : Bytes) :
    scanFrom c (t ++ Bytes.newline :: u) = scanFrom (c.past (t ++ [Bytes.newline])) u := by
  have htext : t ++ Bytes.newline :: u = t ++ [Bytes.newline] ++ u := by
    rw [List.append_assoc, List.singleton_append]
  have hlength : skipLength (t ++ Bytes.newline :: u) = (t ++ [Bytes.newline]).length + skipLength u := by
    rw [skipLength_append_newline_of_end h, List.length_append, List.length_singleton]
  apply scanFrom_eq_of_drop
  · rw [hlength, htext, List.take_length_add_append, Cursor.past_append]
  · rw [hlength, htext, List.drop_length_add_append]

/-- The place behind a text, by way of its first token. -/
theorem Cursor.past_of_drop (c : Cursor) (h : t.drop (skipLength t) = b :: rest) (more : Nat) (u : Bytes) :
    c.past (t ++ u) =
      ((c.past (t.take (skipLength t))).past (b :: rest.take more)).past (rest.drop more ++ u) := by
  have htext : t ++ u = t.take (skipLength t) ++ (b :: rest.take more ++ (rest.drop more ++ u)) := by
    rw [List.cons_append, ← List.append_assoc (rest.take more), List.take_append_drop,
      ← List.cons_append, ← h, ← List.append_assoc, List.take_append_drop]
  rw [htext, past_append, past_append]

/-- Up to its first token, a text is cut as it would be alone, if that token does not run into what
follows. -/
theorem scanFrom_append_of_token (c : Cursor) (h : t.drop (skipLength t) = b :: rest)
    (hscan : scan b rest = .token l length more) (hu : Clears more rest u) :
    scanFrom c (t ++ u) =
      (scanFrom ((c.past (t.take (skipLength t))).past (b :: rest.take more)) (rest.drop more ++ u)).cons
        ⟨l, (c.past (t.take (skipLength t))).span length⟩ := by
  have hskip := skipLength_le t
  have hlength := skipLength_append h u
  obtain ⟨hmore, hscan'⟩ := scan_append hscan
  have hdrop : (t ++ u).drop (skipLength (t ++ u)) = b :: (rest ++ u) := by
    rw [hlength, List.drop_append_of_le_length hskip, h, List.cons_append]
  rw [scanFrom_of_drop_cons c hdrop, hscan' u hu]
  dsimp only
  rw [hlength, List.take_append_of_le_length hskip, List.take_append_of_le_length hmore,
    List.drop_append_of_le_length hmore]

/-- In front of a line break a text is cut as it would be alone, and then the text behind it. -/
theorem scanFrom_append_newline {c : Cursor} {toks : List Token}
    (h : (scanFrom c t).result = .ok toks) (u : Bytes) :
    (scanFrom c (t ++ Bytes.newline :: u)).result =
      (scanFrom (c.past (t ++ [Bytes.newline])) u).result.map
        ((TokenStream.ofTokens toks).tokens ++ ·) := by
  -- The end marker of the first text is the only token that is lost.
  fun_induction scanFrom c t generalizing toks with
  | case1 c t here =>
    rename_i hdrop
    cases h
    rw [scanFrom_append_newline_of_end c hdrop]
    cases (scanFrom (c.past (t ++ [Bytes.newline])) u).result <;> rfl
  | case2 c t here b rest hdrop lexeme length more hscan =>
    rename_i ih
    rw [Scanned.result_cons] at h
    cases hrest : (scanFrom (here.past (b :: rest.take more)) (rest.drop more)).result with
    | error f =>
      rw [hrest] at h
      cases h
    | ok us =>
      rw [hrest] at h
      cases h
      have hne : lexeme ≠ .endMarker := by
        rintro rfl
        exact scan_proper hscan
      rw [scanFrom_append_of_token c hdrop hscan (clears_newline _ _ _), Scanned.result_cons, ih hrest,
        Cursor.past_of_drop c hdrop more, TokenStream.tokens_cons hne]
      generalize (scanFrom _ u).result = x
      cases x <;> rfl
  | case3 => cases h

/-! ## Places behind a line break -/

namespace Cursor

theorem past_offset (c : Cursor) (t : Bytes) : (c.past t).offset = c.offset + .ofNat t.length := by
  induction t generalizing c with
  | nil => exact (Int64.add_zero _).symm
  | cons b t ih =>
    have hstep : (c.step b).offset = c.offset + 1 := by
      rw [step]
      split <;> rfl
    rw [past_cons, ih, hstep, List.length_cons, Int64.ofNat_add, Int64.add_assoc, Int64.add_comm 1]
    rfl

theorem past_line (c : Cursor) (t : Bytes) :
    (c.past t).line = c.line + .ofNat (t.count Bytes.newline) := by
  induction t generalizing c with
  | nil => exact (Int64.add_zero _).symm
  | cons b t ih =>
    rw [past_cons, ih, step]
    by_cases hb : b = Bytes.newline
    · rw [if_pos hb, hb, List.count_cons_self, Int64.ofNat_add, Int64.add_assoc, Int64.add_comm 1]
      rfl
    · rw [if_neg hb, List.count_cons_of_ne hb]

/-- Behind a text and a line break, a text starts as at the beginning, but further down. -/
theorem past_newline (t : Bytes) :
    start.past (t ++ [Bytes.newline]) =
      start.moved ⟨.ofNat (t.length + 1), .ofNat (t.count Bytes.newline + 1)⟩ := by
  rw [past_append, past_cons, past_nil, step, if_pos rfl, past_offset, past_line, moved, Int64.ofNat_add,
    Int64.ofNat_add, Int64.add_assoc, Int64.add_assoc]
  rfl

end Cursor

/-! ## Programs -/

/-- Tokens in front of others hide none of them, if no end marker is among them. -/
theorem TokenStream.ofTokens_append (toks us : List Token) :
    ofTokens ((ofTokens toks).tokens ++ us) =
      ⟨(ofTokens toks).tokens ++ (ofTokens us).tokens, (ofTokens us).stop⟩ := by
  have hinner : ∀ tok ∈ (ofTokens toks).tokens, decide (tok.lexeme ≠ .endMarker) = true :=
    List.all_eq_true.1 List.all_takeWhile
  have hfind : (ofTokens toks).tokens.find? (fun t => t.lexeme = .endMarker) = none := by
    rw [List.find?_eq_none]
    intro tok htok hend
    exact of_decide_eq_true (hinner tok htok) (of_decide_eq_true hend)
  generalize (ofTokens toks).tokens = front at hinner hfind ⊢
  rw [ofTokens, List.takeWhile_append_of_pos hinner, List.find?_append, hfind, Option.none_or, ofTokens]

theorem Grammar.IsStmts.append {toks us : List Token} {p q : Block} :
    IsStmts toks p → IsStmts us q → IsStmts (toks ++ us) (p ++ q)
  | .nil, hq => hq
  | .cons hs h, hq => by
    rw [List.append_assoc, List.cons_append]
    exact .cons hs (h.append hq)

namespace Program

/-- Two programs joined by a line break are one program: the statements of the first, and then
those of the second, which have moved by the first text with its line break. -/
theorem parse_joined {a b : Bytes} {p q : Program} (ha : parse a = .ok p) (hb : parse b = .ok q) :
    parse (a ++ [Bytes.newline] ++ b) = .ok
      { body := p.body ++
          Block.moved ⟨.ofNat (a.length + 1), .ofNat (a.count Bytes.newline + 1)⟩ q.body
        stop := q.stop.moved ⟨.ofNat (a.length + 1), .ofNat (a.count Bytes.newline + 1)⟩ } := by
  obtain ⟨toks, hscan, hp, -⟩ := parse_eq_ok.1 ha
  obtain ⟨us, hscan', hq, hstop⟩ := parse_eq_ok.1 hb
  rw [Grammar.wholeBlock_eq_ok _ (proper_of_scanFrom hscan)] at hp
  rw [Grammar.wholeBlock_eq_ok _ (proper_of_scanFrom hscan')] at hq
  generalize hd : Displacement.mk (.ofNat (a.length + 1)) (.ofNat (a.count Bytes.newline + 1)) = d
  have hmoved : (scanFrom (Cursor.start.past (a ++ [Bytes.newline])) b).result =
      .ok (us.map (Token.moved d)) := by
    rw [Cursor.past_newline, hd]
    exact scanFrom_moved d hscan'
  have hjoined : (scanFrom .start (a ++ [Bytes.newline] ++ b)).result =
      .ok ((TokenStream.ofTokens toks).tokens ++ us.map (Token.moved d)) := by
    rw [List.append_assoc, List.singleton_append, scanFrom_append_newline hscan, hmoved]
    rfl
  obtain ⟨stop, hend⟩ := exists_end_of_scanFrom hscan'
  have hlast : ⟨.endMarker, stop⟩ ∈ us := by
    rw [hend]
    exact List.mem_append_right _ (List.mem_singleton_self _)
  refine parse_eq_ok.2 ⟨_, hjoined, ?_, ?_⟩
  · rw [TokenStream.ofTokens_append]
    apply Grammar.IsStmts.wholeBlock_eq
    rw [TokenStream.tokens_moved]
    exact hp.append (hq.moved d)
  · rw [TokenStream.ofTokens_append]
    exact (congrArg (Span.moved d) hstop).trans (TokenStream.stop_moved d hlast rfl).symm

/-- The first text ends in a comment and has a command with an open brace; the second one starts
with a command that has a hole. -/
theorem parse_joined_commands : ∃ p q,
    parse "if x\x7b/say \x7b\n\x7d# else" = .ok p ∧ parse "/say #\x7bn+1\x7d\nn:=2;" = .ok q ∧
      parse "if x\x7b/say \x7b\n\x7d# else\n/say #\x7bn+1\x7d\nn:=2;" =
        .ok ⟨p.body ++ Block.moved ⟨20, 2⟩ q.body, q.stop.moved ⟨20, 2⟩⟩ ∧
      (p.body ++ Block.moved ⟨20, 2⟩ q.body).map Stmt.span =
        [⟨0, 13, 1, 0⟩, ⟨20, 11, 3, 0⟩, ⟨32, 5, 4, 0⟩] := by
  have hspans : ((parse "if x\x7b/say \x7b\n\x7d# else").toOption.bind fun p =>
      (parse "/say #\x7bn+1\x7d\nn:=2;").toOption.map fun q =>
        (p.body ++ Block.moved ⟨20, 2⟩ q.body).map Stmt.span) =
      some [⟨0, 13, 1, 0⟩, ⟨20, 11, 3, 0⟩, ⟨32, 5, 4, 0⟩] := by
    decide +kernel
  cases ha : parse "if x\x7b/say \x7b\n\x7d# else" with
  | error f =>
    rw [ha] at hspans
    cases hspans
  | ok p =>
    rw [ha] at hspans
    cases hb : parse "/say #\x7bn+1\x7d\nn:=2;" with
    | error f =>
      rw [hb] at hspans
      cases hspans
    | ok q =>
      rw [hb] at hspans
      exact ⟨p, q, rfl, rfl, parse_joined ha hb, Option.some.inj hspans⟩

end Program
end PackScript
