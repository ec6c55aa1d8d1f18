import Mathlib.Data.List.Induction
import PackScript.Proofs.Syntax.Joining

/-! # How tokens lie in their text

The tokens of a text follow each other without overlapping, each spelled out by the bytes it
covers. Between them, in front of the first one and behind the last one, there are only blanks and
comments. The place of a token is what one gets by counting the bytes and line breaks in front
of it.
-/
namespace PackScript

/-! ## Counted places -/

/-- The place behind `before`, if that starts at `c`: every line break starts a line, and the
column is the number of bytes since the last line break. -/
def Cursor.counted (c : Cursor) (before : Bytes) : Cursor where
  offset := c.offset + .ofNat before.length
  line := c.line + .ofNat (before.count Bytes.newline)
  column :=
    if Bytes.newline ∈ before then .ofNat (before.reverse.takeWhile (· ≠ Bytes.newline)).length
    else c.column + .ofNat before.length

namespace Cursor

theorem counted_concat (c : Cursor) (t : Bytes) (b : UInt8) : c.counted (t ++ [b]) = (c.counted t).step b := by
  have hone : (Int64.ofNat 1) = 1 := rfl
  by_cases hb : b = Bytes.newline
  · subst hb
    simp [counted, step, Int64.ofNat_add, Int64.add_assoc, hone]
  · have hmem : Bytes.newline ∈ t ++ [b] ↔ Bytes.newline ∈ t := by
      simp [Ne.symm hb]
    have hcount : (t ++ [b]).count Bytes.newline = t.count Bytes.newline := by
      simp [List.count_append, hb]
    have hbytes : (t ++ [b]).reverse.takeWhile (· ≠ Bytes.newline) =
        b :: t.reverse.takeWhile (· ≠ Bytes.newline) := by
      rw [List.reverse_append, List.reverse_singleton, List.singleton_append,
        List.takeWhile_cons_of_pos (by simpa using hb)]
    unfold counted
    rw [step, if_neg hb]
    simp only [hmem, hcount, hbytes, List.length_append, List.length_cons, List.length_nil, Nat.zero_add,
      Int64.ofNat_add, hone, ← Int64.add_assoc]
    split <;> rfl

theorem past_eq_counted (c : Cursor) (t : Bytes) : c.past t = c.counted t := by
  induction t using List.reverseRecOn with
  | nil => simp [counted]
  | append_singleton t b ih => rw [past_append, ih, counted_concat, past_cons, past_nil]

end Cursor

/-! ## Blanks and comments -/

/-- The bytes of a text from `i` up to `j`. -/
def Bytes.slice (t : Bytes) (i j : Nat) : Bytes := (t.take j).drop i

/-- Blanks, tabs, carriage returns, line breaks and comments, in front of the text `behind`. A
comment runs up to the end of its line. -/
inductive IsGap (behind : Bytes) : Bytes → Prop
  | nil : IsGap behind []
  | blank {b : UInt8} {gap : Bytes} (hb : b = 32 ∨ b = 9 ∨ b = 13 ∨ b = 10) (h : IsGap behind gap) :
      IsGap behind (b :: gap)
  | comment {remark gap : Bytes} (hremark : Bytes.newline ∉ remark) (hend : EndsLine (gap ++ behind))
      (h : IsGap behind gap) : IsGap behind (35 :: (remark ++ gap))

theorem newline_notMem_take_lineLength (t : Bytes) : Bytes.newline ∉ t.take (lineLength t) := by
  have htake : t.take (lineLength t) = t.takeWhile fun b => !isLineEnd b :=
    (List.prefix_iff_eq_take.1 (List.takeWhile_prefix _)).symm
  rw [htake]
  intro hmem
  have hbyte := List.all_eq_true.1 List.all_takeWhile _ hmem
  exact absurd hbyte (by decide)

theorem endsLine_drop_lineLength (t : Bytes) : EndsLine (t.drop (lineLength t)) := by
  rw [lineLength, drop_takeWhile_length]
  intro b hb
  have hhead := List.head?_dropWhile_not (fun b => !isLineEnd b) t
  rw [Option.mem_def.1 hb] at hhead
  simpa using hhead

/-- What is skipped in front of a token. -/
theorem isGap_take_skipLength (t : Bytes) : IsGap (t.drop (skipLength t)) (t.take (skipLength t)) := by
  fun_induction skipLength t with
  | case1 => exact .nil
  | case2 b t hb ih =>
    have hb : b = 32 ∨ b = 9 ∨ b = 13 ∨ b = 10 := by simpa [Blank.isByte, or_assoc] using hb
    exact .blank hb ih
  | case3 t hb ih =>
    have hline := endsLine_drop_lineLength t
    have htake : (35 :: t).take (skipLength (t.drop (lineLength t)) + lineLength t + 1) =
        35 :: (t.take (lineLength t) ++ (t.drop (lineLength t)).take (skipLength (t.drop (lineLength t)))) := by
      rw [List.take_succ_cons, Nat.add_comm, List.take_add]
    rw [drop_remark, htake]
    refine .comment (newline_notMem_take_lineLength t) ?_ ih
    rwa [List.take_append_drop]
  | case4 => exact .nil

theorem IsGap.trailing {behind blanks gap : Bytes} (hblanks : ∀ b ∈ blanks, isTrailing b = true)
    (h : IsGap behind gap) : IsGap behind (blanks ++ gap) := by
  induction blanks with
  | nil => exact h
  | cons b blanks ih =>
    rw [List.forall_mem_cons] at hblanks
    have hb : b = 32 ∨ b = 9 ∨ b = 13 ∨ b = 10 := by
      have hb := hblanks.1
      simp only [isTrailing, Bool.or_eq_true, decide_eq_true_eq] at hb
      tauto
    exact .blank hb (ih hblanks.2)

/-! ## Spelled lexemes -/

/-- What stands between the quotes of a string literal, and what it means. -/
inductive IsQuoted : Bytes → Bytes → Prop
  | nil : IsQuoted [] []
  | byte {b : UInt8} {body content : Bytes} (hquote : b ≠ 34) (hslash : b ≠ 92) (hend : b ≠ Bytes.newline)
      (h : IsQuoted body content) : IsQuoted (b :: body) (b :: content)
  | escape {e b : UInt8} {body content : Bytes} (he : Scan.unescape? e = some b) (h : IsQuoted body content) :
      IsQuoted (92 :: e :: body) (b :: content)

/-- The bytes that a lexeme is written with. Nothing spells an end marker. -/
def Lexeme.IsSpelled : Lexeme → Bytes → Prop
  | .name n, t => t = n.render
  | .number digits, t => t = digits
  | .string content, t => ∃ body, t = 34 :: (body ++ [34]) ∧ IsQuoted body content
  | .command line, t => t = 47 :: line
  | .keyword k, t => t = k.render
  | .mark m, t => t = m.render
  | .unknown, _ => False
  | .endMarker, _ => False

namespace Scan

variable {l : Lexeme} {rest t : Bytes} {b : UInt8} {length more : Nat}

/-- The token at the head of `b :: rest` is spelled by its bytes, and what else is used up are blanks
at the end of a line. -/
structure Takes (b : UInt8) (rest : Bytes) (l : Lexeme) (length more : Nat) : Prop where
  pos : 0 < length
  used : length ≤ more + 1
  inside : more ≤ rest.length
  spelled : l.IsSpelled ((b :: rest).take length)
  blank : ∀ x ∈ (b :: rest.take more).drop length, isTrailing x = true

/-- A token that uses up exactly its own bytes. -/
theorem Takes.of_exact {k : Nat} (hk : k ≤ rest.length) (hl : l.IsSpelled ((b :: rest).take (k + 1))) :
    Takes b rest l (k + 1) k where
  pos := Nat.succ_pos _
  used := Nat.le_refl _
  inside := hk
  spelled := hl
  blank := by
    rw [List.drop_succ_cons, List.drop_eq_nil_of_le (List.length_take_le _ _)]
    exact List.forall_mem_nil _

theorem string_spelled {read : Nat} {content : Bytes} (h : string read content t = .token l length more) :
    ∃ body rest s, t = body ++ 34 :: rest ∧ IsQuoted body s ∧ l = .string (content.reverse ++ s) ∧
      length = more + 1 ∧ more = read + body.length + 1 := by
  fun_induction string read content t with
  | case1 => cases h
  | case2 read content rest =>
    cases h
    exact ⟨[], rest, [], rfl, .nil, by rw [List.append_nil], rfl, rfl⟩
  | case3 => cases h
  | case4 => cases h
  | case5 read content e rest c he hquote hend ih =>
    obtain ⟨body, rest, s, rfl, hs, rfl, hlength, hmore⟩ := ih h
    refine ⟨92 :: e :: body, rest, c :: s, rfl, .escape he hs, ?_, hlength, ?_⟩
    · rw [List.reverse_cons, List.append_assoc, List.singleton_append]
    · rw [hmore, List.length_cons, List.length_cons]
      omega
  | case6 => cases h
  | case7 read content b rest hquote hend hslash ih =>
    obtain ⟨body, rest, s, rfl, hs, rfl, hlength, hmore⟩ := ih h
    have hend : b ≠ Bytes.newline := fun hb => hend (decide_eq_true hb)
    refine ⟨b :: body, rest, b :: s, rfl, .byte hquote hslash hend hs, ?_, hlength, ?_⟩
    · rw [List.reverse_cons, List.append_assoc, List.singleton_append]
    · rw [hmore, List.length_cons]
      omega

theorem string_takes (h : string 0 [] rest = .token l length more) : Takes 34 rest l length more := by
  have hinside := (string_append h).1
  obtain ⟨body, behind, s, rfl, hs, rfl, rfl, rfl⟩ := string_spelled h
  refine .of_exact (by omega) ⟨body, ?_, hs⟩
  rw [Nat.zero_add, List.take_succ_cons, List.append_cons body 34 behind, List.take_left' (by simp)]

/-- What is cut off the end of a text. -/
theorem drop_trimRight (p : UInt8 → Bool) (t : Bytes) : ∀ b ∈ t.drop (Bytes.trimRight p t).length, p b = true := by
  have hsplit : Bytes.trimRight p t ++ (t.reverse.takeWhile p).reverse = t := by
    rw [Bytes.trimRight, ← List.reverse_append, List.takeWhile_append_dropWhile, List.reverse_reverse]
  have hdrop : t.drop (Bytes.trimRight p t).length = (t.reverse.takeWhile p).reverse := by
    generalize Bytes.trimRight p t = kept at hsplit
    generalize (t.reverse.takeWhile p).reverse = blanks at hsplit
    rw [← hsplit, List.drop_left' rfl]
  rw [hdrop]
  intro b hb
  exact List.all_eq_true.1 List.all_takeWhile b (List.mem_reverse.1 hb)

theorem command_takes (h : command rest = .token l length more) : Takes 47 rest l length more := by
  have hinside := (command_append h).1
  rw [command] at h
  cases hc : commandExtent 0 rest with
  | openHole start n =>
    rw [hc] at h
    cases h
  | closed n =>
    rw [hc] at h
    cases h
    have htrim := trimRight_isPrefix isTrailing (rest.take more)
    have hle := htrim.length_le
    rw [List.length_take] at hle
    refine ⟨Nat.succ_pos _, by omega, hinside, ?_, ?_⟩
    · have hline := List.prefix_iff_eq_take.1 (htrim.trans (List.take_prefix more rest))
      rw [List.take_succ_cons, ← hline]
      rfl
    · rw [List.drop_succ_cons]
      exact drop_trimRight isTrailing (rest.take more)

theorem sigiled_takes (h : sigiled rest = .token l length more) : Takes 36 rest l length more := by
  have hinside := (sigiled_append h).1
  cases rest with
  | nil => cases h
  | cons c rest =>
    rw [sigiled] at h
    split at h
    · cases h
      refine .of_exact hinside ?_
      rw [List.take_succ_cons]
      rfl
    · cases h

theorem number_takes (hb : Decimal.isDigit b = true) (h : number (b :: rest) = .token l length more) :
    Takes b rest l length more := by
  have hinside := (number_append hb h).1
  have hlength : ((b :: rest).takeWhile Decimal.isDigit).length - 1 + 1 =
      ((b :: rest).takeWhile Decimal.isDigit).length := by
    rw [List.takeWhile_cons_of_pos hb]
    rfl
  cases h
  refine .of_exact hinside ?_
  rw [hlength]
  exact (List.prefix_iff_eq_take.1 (List.takeWhile_prefix _)).symm

theorem word_takes (hb : isNameStart b = true) (h : word (b :: rest) = .token l length more) :
    Takes b rest l length more := by
  have hinside := (word_append hb h).1
  have hlength : wordLength (b :: rest) - 1 + 1 = wordLength (b :: rest) := by
    have hbyte : isNameByte b = true := by rw [isNameByte, hb]; rfl
    rw [wordLength, List.takeWhile_cons_of_pos hbyte, List.length_cons]
    omega
  rw [word] at h
  split at h
  · rename_i k hk
    have hrender := List.find?_some hk
    cases h
    refine .of_exact hinside ?_
    rw [hlength]
    exact (of_decide_eq_true hrender).symm
  · cases h
    refine .of_exact hinside ?_
    rw [hlength]
    rfl

end Scan

theorem scan_takes {b : UInt8} {rest : Bytes} {l : Lexeme} {length more : Nat}
    (h : scan b rest = .token l length more) : Scan.Takes b rest l length more := by
  have hinside := (scan_append h).1
  have hmark {m : Mark} (hm : Scan.exact (.mark m) 0 = .token l length more) (hb : [b] = m.render) :
      Scan.Takes b rest l length more := by
    cases hm
    exact .of_exact hinside hb
  revert h
  fun_cases scan b rest with
  | case10 =>
    rename_i hhead
    subst_vars
    intro h
    cases h
    refine .of_exact hinside ?_
    cases rest with
    | nil => cases hhead
    | cons c rest =>
      cases hhead
      rfl
  | case12 =>
    subst_vars
    exact Scan.string_takes
  | case13 =>
    subst_vars
    exact Scan.command_takes
  | case14 =>
    subst_vars
    exact Scan.sigiled_takes
  | case15 =>
    rename_i hdigit
    exact Scan.number_takes hdigit
  | case16 =>
    rename_i hstart
    exact Scan.word_takes hstart
  | case17 =>
    intro h
    cases h
  | _ =>
    subst_vars
    exact fun h => hmark h rfl

/-- Only behind a slash there is a command. -/
theorem command_of_scan {b : UInt8} {rest line : Bytes} {length more : Nat}
    (h : scan b rest = .token (.command line) length more) :
    b = 47 ∧ commandExtent 0 rest = .closed more ∧ line = Bytes.trimRight isTrailing (rest.take more) ∧
      length = line.length + 1 := by
  revert h
  fun_cases scan b rest with
  | case12 =>
    intro h
    obtain ⟨_, _, _, _, _, hl, _⟩ := Scan.string_spelled h
    cases hl
  | case13 =>
    rename_i hb
    intro h
    rw [Scan.command] at h
    cases hc : commandExtent 0 rest with
    | openHole start n =>
      rw [hc] at h
      cases h
    | closed n =>
      rw [hc] at h
      cases h
      exact ⟨hb, rfl, rfl, rfl⟩
  | case14 =>
    intro h
    cases rest with
    | nil => cases h
    | cons c rest =>
      rw [Scan.sigiled] at h
      split at h <;> cases h
  | case16 =>
    intro h
    rw [Scan.word] at h
    split at h <;> cases h
  | _ =>
    intro h
    cases h

/-! ## Whole texts -/

/-- A token that was found, whether or not the whole text could be cut. -/
theorem scan_of_mem_tokens {c : Cursor} {t : Bytes} {tok : Token} (h : tok ∈ (scanFrom c t).tokens)
    (hne : tok.lexeme ≠ .endMarker) :
    ∃ before b rest length more, t = before ++ b :: rest ∧ scan b rest = .token tok.lexeme length more ∧
      tok.span = (c.past before).span length := by
  fun_induction scanFrom c t with
  | case1 =>
    cases List.mem_singleton.1 h
    exact absurd rfl hne
  | case2 c t here b rest hdrop lexeme length more hscan =>
    rename_i ih
    have htext : t = t.take (skipLength t) ++ b :: rest := by
      rw [← hdrop, List.take_append_drop]
    rcases List.mem_cons.1 h with rfl | h
    · exact ⟨_, b, rest, length, more, htext, hscan, rfl⟩
    · obtain ⟨before, b', rest', length', more', hrest, hscan', hspan⟩ := ih h
      refine ⟨t.take (skipLength t) ++ b :: rest.take more ++ before, b', rest', length', more', ?_, hscan', ?_⟩
      · rw [List.append_assoc, ← hrest, List.append_assoc, List.cons_append, List.take_append_drop, ← htext]
      · rw [hspan, Cursor.past_append, Cursor.past_append]
  | case3 => cases h

/-- From position `pos` on, the text `t`, which starts at `c`, is made up of these tokens with gaps
between them. The end marker stands behind everything else. -/
inductive Tiled (c : Cursor) (t : Bytes) : (pos : Nat) → List Token → Prop
  | stop {pos : Nat} (hpos : pos ≤ t.length) (hgap : IsGap [] (t.slice pos t.length)) :
      Tiled c t pos [⟨.endMarker, (c.counted t).span 0⟩]
  | token {pos i j : Nat} {l : Lexeme} {toks : List Token} (hi : pos ≤ i)
      (hgap : IsGap (t.drop i) (t.slice pos i)) (hij : i < j) (hj : j ≤ t.length)
      (hl : l.IsSpelled (t.slice i j)) (h : Tiled c t j toks) :
      Tiled c t pos (⟨l, (c.counted (t.take i)).span (j - i)⟩ :: toks)

namespace Bytes

theorem slice_append_left (t u : Bytes) (i : Nat) : slice (t ++ u) i t.length = t.drop i := by
  rw [slice, List.take_left' rfl]

theorem slice_append_right (t u : Bytes) (n : Nat) : slice (t ++ u) t.length (t.length + n) = u.take n := by
  rw [slice, List.take_length_add_append, List.drop_left' rfl]

theorem slice_length (t : Bytes) (i : Nat) : slice t i t.length = t.drop i := by
  rw [slice, List.take_length]

end Bytes

/-- The tokens behind `before`, at whose end there are only blanks from `pos` on. -/
theorem tiled_of_scanFrom {c here : Cursor} {before u : Bytes} {pos : Nat} {toks : List Token}
    (hpos : pos ≤ before.length) (hblank : ∀ b ∈ before.drop pos, isTrailing b = true)
    (hhere : here = c.past before) (h : (scanFrom here u).result = .ok toks) :
    Tiled c (before ++ u) pos toks := by
  fun_induction scanFrom here u generalizing before pos toks with
  | case1 here u here' =>
    rename_i hdrop
    have hgap := isGap_take_skipLength u
    have htake : u.take (skipLength u) = u := List.take_of_length_le (List.drop_eq_nil_iff.1 hdrop)
    rw [hdrop, htake] at hgap
    have hend : here' = c.counted (before ++ u) := by
      rw [← Cursor.past_eq_counted, Cursor.past_append, ← hhere]
      exact congrArg here.past htake
    cases h
    rw [hend]
    refine .stop (by rw [List.length_append]; omega) ?_
    rw [Bytes.slice_length, List.drop_append_of_le_length hpos]
    exact hgap.trailing hblank
  | case2 here u here' b rest hdrop lexeme length more hscan =>
    rename_i ih
    rw [Scanned.result_cons] at h
    cases hrest : (scanFrom (here'.past (b :: rest.take more)) (rest.drop more)).result with
    | error f =>
      rw [hrest] at h
      cases h
    | ok us =>
      rw [hrest] at h
      cases h
      obtain ⟨hlength, hused, hinside, hspelled, htrailing⟩ := scan_takes hscan
      have hgap := isGap_take_skipLength u
      have hplace : here' = c.past (before ++ u.take (skipLength u)) := by
        rw [Cursor.past_append, ← hhere]
      have htext : before ++ u = before ++ u.take (skipLength u) ++ b :: rest := by
        rw [List.append_assoc, ← hdrop, List.take_append_drop]
      have hgap' : (before ++ u.take (skipLength u)).drop pos = before.drop pos ++ u.take (skipLength u) :=
        List.drop_append_of_le_length hpos
      rw [hdrop] at hgap
      replace hgap := hgap.trailing hblank
      rw [← hgap'] at hgap
      have hpos' : pos ≤ (before ++ u.take (skipLength u)).length := by
        rw [List.length_append]
        omega
      rw [htext]
      -- from here on only the text in front of the token counts
      generalize before ++ u.take (skipLength u) = front at hplace hgap hpos' ⊢
      have hsplit : front ++ b :: rest = front ++ b :: rest.take more ++ rest.drop more := by
        rw [List.append_assoc, List.cons_append, List.take_append_drop]
      have hbehind : Tiled c (front ++ b :: rest) (front.length + length) us := by
        rw [hsplit]
        refine ih ?_ ?_ ?_ hrest
        · simp only [List.length_append, List.length_cons, List.length_take]
          omega
        · rwa [List.drop_length_add_append]
        · rw [hplace, Cursor.past_append]
      have htoken : here'.span length =
          (c.counted ((front ++ b :: rest).take front.length)).span (front.length + length - front.length) := by
        rw [List.take_left' rfl, Nat.add_sub_cancel_left, hplace, Cursor.past_eq_counted]
      rw [htoken]
      refine .token hpos' ?_ (by omega) ?_ ?_ hbehind
      · rwa [List.drop_left' rfl, Bytes.slice_append_left]
      · simp only [List.length_append, List.length_cons]
        omega
      · rwa [Bytes.slice_append_right]
  | case3 => cases h

/-- A text that can be cut is tiled by its tokens, from whichever place it starts. -/
theorem tokens_tile {c : Cursor} {t : Bytes} {toks : List Token} (h : (scanFrom c t).result = .ok toks) :
    Tiled c t 0 toks := by
  have hnone : ∀ b ∈ ([] : Bytes).drop 0, isTrailing b = true := List.forall_mem_nil _
  have htiled := tiled_of_scanFrom (Nat.zero_le _) hnone rfl h
  exact htiled

/-- A text that starts in the middle of a line, with comments and with blanks behind a command. -/
theorem tokens_tile_remarks : ∃ toks,
    (scanFrom ⟨40, 3, 7⟩ "$x' #a\n:=\"b\\n\";/say #\x7b1\x7d \t\r\n#").result = .ok toks ∧
      toks.map Token.span = [⟨40, 3, 3, 7⟩, ⟨47, 2, 4, 0⟩, ⟨49, 5, 4, 2⟩, ⟨54, 1, 4, 7⟩, ⟨55, 9, 4, 8⟩, ⟨69, 0, 5, 1⟩] ∧
      Tiled ⟨40, 3, 7⟩ "$x' #a\n:=\"b\\n\";/say #\x7b1\x7d \t\r\n#" 0 toks := by
  have hspans : (scanFrom ⟨40, 3, 7⟩ "$x' #a\n:=\"b\\n\";/say #\x7b1\x7d \t\r\n#").result.toOption.map
      (List.map Token.span) =
      some [⟨40, 3, 3, 7⟩, ⟨47, 2, 4, 0⟩, ⟨49, 5, 4, 2⟩, ⟨54, 1, 4, 7⟩, ⟨55, 9, 4, 8⟩, ⟨69, 0, 5, 1⟩] := by
    decide +kernel
  cases h : (scanFrom ⟨40, 3, 7⟩ "$x' #a\n:=\"b\\n\";/say #\x7b1\x7d \t\r\n#").result with
  | error f =>
    rw [h] at hspans
    cases hspans
  | ok toks =>
    rw [h] at hspans
    exact ⟨toks, rfl, Option.some.inj hspans, tokens_tile h⟩

end PackScript
