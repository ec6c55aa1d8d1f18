import PackScript.Proofs.Syntax.CommandLine

/-! # The lexemes of a text

What a text is cut into does not depend on where it stands: `lexemes?` cuts it without
keeping places, and agrees with the lexer from every cursor. A lexeme that comes out of a
text is proper, that is, it can be written down again.
-/
namespace PackScript

/-- The lexemes of a text, if it can be cut to its end. -/
def lexemes? (t : Bytes) : Option (List Lexeme) :=
  match _h : t.drop (skipLength t) with
  | [] => some []
  | b :: rest =>
    match scan b rest with
    | .token lexeme _ more => (lexemes? (rest.drop more)).map (lexeme :: ·)
    | .fault _ _ _ _ => none
termination_by t.length
decreasing_by
  have := congrArg List.length _h
  simp only [List.length_drop, List.length_cons] at this ⊢
  omega

theorem lexemes?_of_drop_nil {t : Bytes} (h : t.drop (skipLength t) = []) : lexemes? t = some [] := by
  rw [lexemes?]
  split
  · rfl
  · rename_i b rest hdrop
    rw [h] at hdrop
    cases hdrop

theorem lexemes?_of_drop_cons {t rest : Bytes} {b : UInt8} (h : t.drop (skipLength t) = b :: rest) :
    lexemes? t = match scan b rest with
      | .token lexeme _ more => (lexemes? (rest.drop more)).map (lexeme :: ·)
      | .fault _ _ _ _ => none := by
  rw [lexemes?]
  split
  · rename_i hdrop
    rw [h] at hdrop
    cases hdrop
  · rename_i c u hdrop
    rw [h] at hdrop
    cases hdrop
    rfl

/-! ## Places do not matter -/

theorem Scanned.result_cons (t : Token) (s : Scanned) : (s.cons t).result = s.result.map (t :: ·) := by
  rw [result, result, cons]
  cases s.fault <;> rfl

/-- The lexer finds the lexemes of a text, wherever the text starts. -/
theorem scanFrom_lexemes (c : Cursor) (t : Bytes) :
    (scanFrom c t).result.toOption.map (List.map Token.lexeme) =
      (lexemes? t).map (· ++ [.endMarker]) := by
  fun_induction scanFrom c t with
  | case1 =>
    rename_i hdrop
    rw [lexemes?_of_drop_nil hdrop]
    rfl
  | case2 c t here b rest hdrop lexeme length more hscan =>
    rename_i ih
    rw [lexemes?_of_drop_cons hdrop, hscan, Scanned.result_cons]
    generalize (scanFrom (here.past (b :: rest.take more)) (rest.drop more)).result = x at ih ⊢
    cases x with
    | error f =>
      have hnone : lexemes? (rest.drop more) = none := Option.map_eq_none_iff.1 ih.symm
      simp only [hnone]
      rfl
    | ok toks =>
      obtain ⟨ls, hls, happend⟩ := Option.map_eq_some_iff.1 ih.symm
      simp only [hls]
      simp only [Except.map, Except.toOption, Option.map_some, List.map_cons, List.cons_append, happend]
  | case3 c t here b rest hdrop cause start length more hscan =>
    rw [lexemes?_of_drop_cons hdrop, hscan]
    rfl

/-! ## Proper lexemes -/

/-- A letter or underscore, then letters, digits and underscores, then primes. -/
def IsWord (t : Bytes) : Prop :=
  ∃ b stem primes, t = b :: stem ++ primes ∧ isNameStart b = true ∧
    (∀ c ∈ stem, isNameByte c = true) ∧ ∀ c ∈ primes, isPrime c = true

def Name.Proper (n : Name) : Prop :=
  IsWord n.text ∧ (n.isStatic = true → Keyword.ofWord? n.text = none)

def IsNumeral (t : Bytes) : Prop := t ≠ [] ∧ ∀ b ∈ t, Decimal.isDigit b = true

/-- A lexeme that some text is cut into. -/
def Lexeme.Proper : Lexeme → Prop
  | .name n => n.Proper
  | .number digits => IsNumeral digits
  | .command line => IsLine 0 line ∧ Bytes.trimRight isTrailing line = line
  | .string _ => True
  | .keyword _ => True
  | .mark _ => True
  | .unknown => False
  | .endMarker => False

theorem drop_takeWhile_length (p : UInt8 → Bool) (t : Bytes) :
    t.drop (t.takeWhile p).length = t.dropWhile p := by
  have hsplit : t = t.takeWhile p ++ t.dropWhile p := List.takeWhile_append_dropWhile.symm
  generalize t.takeWhile p = stem at hsplit ⊢
  generalize t.dropWhile p = u at hsplit ⊢
  rw [hsplit, List.drop_left' rfl]

theorem take_wordLength (t : Bytes) :
    t.take (Scan.wordLength t) =
      t.takeWhile isNameByte ++ (t.dropWhile isNameByte).takeWhile isPrime := by
  have hsplit : t = t.takeWhile isNameByte ++ t.dropWhile isNameByte :=
    List.takeWhile_append_dropWhile.symm
  have hprimes := List.prefix_iff_eq_take.1 (List.takeWhile_prefix isPrime (l := t.dropWhile isNameByte))
  rw [Scan.wordLength, drop_takeWhile_length]
  generalize t.takeWhile isNameByte = stem at hsplit ⊢
  generalize t.dropWhile isNameByte = u at hsplit hprimes ⊢
  rw [hsplit, List.take_length_add_append, ← hprimes]

theorem isWord_take_wordLength {b : UInt8} {rest : Bytes} (hb : isNameStart b = true) :
    IsWord ((b :: rest).take (Scan.wordLength (b :: rest))) := by
  have hbyte : isNameByte b = true := by rw [isNameByte, hb]; rfl
  rw [take_wordLength, List.takeWhile_cons_of_pos hbyte]
  exact ⟨b, rest.takeWhile isNameByte, _, rfl, hb, List.all_eq_true.1 List.all_takeWhile,
    List.all_eq_true.1 List.all_takeWhile⟩

theorem dropWhile_dropWhile (p : UInt8 → Bool) (t : Bytes) :
    (t.dropWhile p).dropWhile p = t.dropWhile p := by
  induction t with
  | nil => rfl
  | cons b t ih =>
    by_cases hb : p b = true
    · rw [List.dropWhile_cons_of_pos hb, ih]
    · rw [List.dropWhile_cons_of_neg hb, List.dropWhile_cons_of_neg hb]

theorem trimRight_trimRight (p : UInt8 → Bool) (t : Bytes) :
    Bytes.trimRight p (Bytes.trimRight p t) = Bytes.trimRight p t := by
  simp only [Bytes.trimRight, List.reverse_reverse, dropWhile_dropWhile]

namespace Scan

variable {l : Lexeme} {rest t : Bytes} {length more : Nat}

theorem string_proper {read : Nat} {content : Bytes}
    (h : string read content t = .token l length more) : l.Proper := by
  fun_induction string read content t with
  | case1 => cases h
  | case2 => cases h; trivial
  | case3 => cases h
  | case4 => cases h
  | case5 =>
    rename_i ih
    exact ih h
  | case6 => cases h
  | case7 read content b rest hq hend hb ih => exact ih h

theorem command_proper (h : command rest = .token l length more) : l.Proper := by
  rw [command] at h
  cases hc : commandExtent 0 rest with
  | openHole start n =>
    rw [hc] at h
    cases h
  | closed n =>
    rw [hc] at h
    cases h
    exact ⟨(isLine_of_commandExtent hc).trimRight, trimRight_trimRight _ _⟩

theorem sigiled_proper (h : sigiled rest = .token l length more) : l.Proper := by
  cases rest with
  | nil => cases h
  | cons b rest =>
    rw [sigiled] at h
    split at h
    · rename_i hb
      cases h
      exact ⟨isWord_take_wordLength hb, fun hs => by cases hs⟩
    · cases h

theorem number_proper {b : UInt8} (hb : Decimal.isDigit b = true)
    (h : number (b :: rest) = .token l length more) : l.Proper := by
  cases h
  refine ⟨?_, List.all_eq_true.1 List.all_takeWhile⟩
  rw [List.takeWhile_cons_of_pos hb]
  exact List.cons_ne_nil _ _

theorem word_proper {b : UInt8} (hb : isNameStart b = true)
    (h : word (b :: rest) = .token l length more) : l.Proper := by
  rw [word] at h
  split at h
  · cases h
    trivial
  · rename_i hword
    cases h
    exact ⟨isWord_take_wordLength hb, fun _ => hword⟩

end Scan

theorem scan_proper {b : UInt8} {rest : Bytes} {l : Lexeme} {length more : Nat}
    (h : scan b rest = .token l length more) : l.Proper := by
  have hmark {m : Mark} {k : Nat} (hm : Scan.exact (.mark m) k = .token l length more) : l.Proper := by
    cases hm
    trivial
  revert h
  fun_cases scan b rest with
  | case12 => exact Scan.string_proper
  | case13 => exact Scan.command_proper
  | case14 => exact Scan.sigiled_proper
  | case15 =>
    rename_i hdigit
    exact Scan.number_proper hdigit
  | case16 =>
    rename_i hstart
    exact Scan.word_proper hstart
  | case17 =>
    intro h
    cases h
  | _ => exact hmark

theorem proper_of_lexemes? {t : Bytes} {ls : List Lexeme} (h : lexemes? t = some ls) :
    ∀ l ∈ ls, l.Proper := by
  fun_induction lexemes? t generalizing ls with
  | case1 =>
    cases h
    intro l hl
    cases hl
  | case2 t b rest hdrop lexeme length more hscan ih =>
    obtain ⟨ms, hms, rfl⟩ := Option.map_eq_some_iff.1 h
    intro l hl
    cases hl with
    | head => exact scan_proper hscan
    | tail _ hl => exact ih hms l hl
  | case3 => cases h

/-! ## What the grammar gets to see -/

theorem TokenStream.lexemes_ofTokens {toks : List Token} {ls : List Lexeme}
    (h : toks.map Token.lexeme = ls ++ [.endMarker]) (hls : ∀ l ∈ ls, l.Proper) :
    (ofTokens toks).tokens.map Token.lexeme = ls := by
  have hne : ∀ l ∈ ls, decide (l ≠ .endMarker) = true := by
    intro l hl
    refine decide_eq_true ?_
    rintro rfl
    exact hls _ hl
  have hwhile := List.takeWhile_map (f := Token.lexeme) (p := fun l => decide (l ≠ .endMarker)) (l := toks)
  rw [h, List.takeWhile_append_of_pos hne] at hwhile
  simpa [ofTokens, Function.comp_def] using hwhile.symm

/-- The tokens of a text that can be cut, as the grammar sees them. -/
theorem exists_tokens_of_lexemes? (c : Cursor) {t : Bytes} {ls : List Lexeme} (h : lexemes? t = some ls) :
    ∃ toks, (scanFrom c t).result = .ok toks ∧
      (TokenStream.ofTokens toks).tokens.map Token.lexeme = ls := by
  have hscan := scanFrom_lexemes c t
  rw [h] at hscan
  cases hresult : (scanFrom c t).result with
  | error f =>
    rw [hresult] at hscan
    cases hscan
  | ok toks =>
    rw [hresult] at hscan
    exact ⟨toks, rfl, TokenStream.lexemes_ofTokens (Option.some.inj hscan) (proper_of_lexemes? h)⟩

/-- Every token that the grammar sees is proper. -/
theorem proper_of_scanFrom {c : Cursor} {t : Bytes} {toks : List Token}
    (h : (scanFrom c t).result = .ok toks) :
    ∀ tok ∈ (TokenStream.ofTokens toks).tokens, tok.lexeme.Proper := by
  have hscan := scanFrom_lexemes c t
  rw [h] at hscan
  obtain ⟨ls, hls, hmap⟩ := Option.map_eq_some_iff.1 hscan.symm
  have hproper := proper_of_lexemes? hls
  intro tok htok
  have hmem := List.mem_map_of_mem (f := Token.lexeme) htok
  rw [TokenStream.lexemes_ofTokens hmap.symm hproper] at hmem
  exact hproper _ hmem

end PackScript
