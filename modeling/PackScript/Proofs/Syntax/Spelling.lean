import PackScript.Proofs.Syntax.Proper

/-! # Printed programs and their lexemes

What the printer writes for a proper tree is cut into the lexemes of that tree. A text
spells its lexemes only in front of a text that does not run into it: a name must not be
followed by a letter, and a command line only by the end of its line.
-/
namespace PackScript

/-- In front of every text that satisfies `P`, the lexemes of `t` are `ls`. -/
def Spells (P : Bytes → Prop) (t : Bytes) (ls : List Lexeme) : Prop :=
  ∀ rest, P rest → lexemes? (t ++ rest) = (lexemes? rest).map (ls ++ ·)

/-- Any text at all. -/
def Anything (_ : Bytes) : Prop := True

/-- A text that a name in front of it does not run into. -/
def EndsWord (rest : Bytes) : Prop := ∀ b ∈ rest.head?, isNameByte b = false ∧ isPrime b = false

variable {P Q : Bytes → Prop} {t u : Bytes} {ls ms : List Lexeme}

theorem endsWord_cons {b : UInt8} (hbyte : isNameByte b = false) (hprime : isPrime b = false)
    (rest : Bytes) : EndsWord (b :: rest) := by
  intro c hc
  cases hc
  exact ⟨hbyte, hprime⟩

namespace Spells

theorem append (ht : Spells P t ls) (hu : Spells Q u ms) (hP : ∀ rest, P (u ++ rest)) :
    Spells Q (t ++ u) (ls ++ ms) := by
  intro rest hrest
  rw [List.append_assoc, ht _ (hP rest), hu rest hrest, Option.map_map]
  congr 1
  funext l
  exact (List.append_assoc ls ms l).symm

/-- A text that spells its lexemes in front of anything. -/
theorem followed (ht : Spells Anything t ls) (hu : Spells Q u ms) : Spells Q (t ++ u) (ls ++ ms) :=
  ht.append hu fun _ => trivial

theorem weaken (h : Spells Anything t ls) : Spells Q t ls := fun rest _ => h rest trivial

end Spells

/-! ## Single lexemes -/

theorem lexemes?_blank {b : UInt8} (hb : Blank.isByte b = true) (t : Bytes) :
    lexemes? (b :: t) = lexemes? t := by
  have hskip : (b :: t).drop (skipLength (b :: t)) = t.drop (skipLength t) := by
    rw [skipLength, if_pos hb, List.drop_succ_cons]
  cases hd : t.drop (skipLength t) with
  | nil => rw [lexemes?_of_drop_nil hd, lexemes?_of_drop_nil (hskip.trans hd)]
  | cons c u => rw [lexemes?_of_drop_cons hd, lexemes?_of_drop_cons (hskip.trans hd)]

theorem lexemes?_token {b : UInt8} {rest : Bytes} {l : Lexeme} {length more : Nat}
    (hblank : Blank.isByte b = false) (hremark : b ≠ 35) (h : scan b rest = .token l length more) :
    lexemes? (b :: rest) = (lexemes? (rest.drop more)).map (l :: ·) := by
  have hskip : (b :: rest).drop (skipLength (b :: rest)) = b :: rest := by
    rw [skipLength, if_neg (by rw [hblank]; decide), if_neg hremark, List.drop_zero]
  rw [lexemes?_of_drop_cons hskip, h]

theorem spells_blanks {t : Bytes} (ht : t.all Blank.isByte = true) : Spells Anything t [] := by
  intro rest hrest
  induction t with
  | nil => simp
  | cons b t ih =>
    rw [List.all_cons, Bool.and_eq_true] at ht
    rw [List.cons_append, lexemes?_blank ht.1]
    exact ih ht.2

theorem spells_blank : Spells Anything [32] [] := spells_blanks (by decide)

/-- A lexeme of a single byte. -/
theorem lexemes?_byte {b : UInt8} {rest : Bytes} {l : Lexeme} (h : scan b rest = .exact l 0)
    (hblank : Blank.isByte b = false) (hremark : b ≠ 35) :
    lexemes? (b :: rest) = (lexemes? rest).map ([l] ++ ·) := lexemes?_token hblank hremark h

theorem spells_mark {m : Mark} (hm : m ≠ .colon) : Spells Anything m.render [.mark m] := by
  intro rest _
  cases m with
  | colon => exact absurd rfl hm
  | assign =>
    have hscan : scan 58 (61 :: rest) = .exact (.mark .assign) 1 := rfl
    exact lexemes?_token (by decide) (by decide) hscan
  | _ => exact lexemes?_byte rfl (by decide) (by decide)

theorem spells_colon : Spells Anything (": " : Bytes) [.mark .colon] := by
  intro rest _
  have htoken : lexemes? (58 :: 32 :: rest) = (lexemes? (32 :: rest)).map ([.mark .colon] ++ ·) :=
    lexemes?_byte rfl (by decide) (by decide)
  rw [lexemes?_blank (b := 32) (by decide)] at htoken
  exact htoken

/-! ## Words -/

theorem takeWhile_eq_nil {p : UInt8 → Bool} {t : Bytes} (h : ∀ b ∈ t.head?, p b = false) :
    t.takeWhile p = [] := by
  cases t with
  | nil => rfl
  | cons b t => rw [List.takeWhile_cons_of_neg (by rw [h b rfl]; decide)]

theorem isNameByte_of_isPrime {b : UInt8} (h : isPrime b = true) : isNameByte b = false := by
  rw [of_decide_eq_true h]
  decide

theorem wordLength_append {w rest : Bytes} (hw : IsWord w) (hrest : EndsWord rest) :
    Scan.wordLength (w ++ rest) = w.length := by
  obtain ⟨b, stem, primes, rfl, hb, hstem, hprimes⟩ := hw
  have hbytes : ∀ c ∈ b :: stem, isNameByte c = true := by
    intro c hc
    cases hc with
    | head => rw [isNameByte, hb, Bool.true_or]
    | tail _ hc => exact hstem c hc
  have hhead : ∀ c ∈ (primes ++ rest).head?, isNameByte c = false := by
    intro c hc
    cases primes with
    | nil => exact (hrest c hc).1
    | cons d primes =>
      cases hc
      exact isNameByte_of_isPrime (hprimes c List.mem_cons_self)
  have hword : (b :: stem ++ primes ++ rest).takeWhile isNameByte = b :: stem := by
    rw [List.append_assoc, List.takeWhile_append_of_pos hbytes, takeWhile_eq_nil hhead, List.append_nil]
  have hrun : (primes ++ rest).takeWhile isPrime = primes := by
    rw [List.takeWhile_append_of_pos hprimes, takeWhile_eq_nil fun c hc => (hrest c hc).2,
      List.append_nil]
  rw [Scan.wordLength, hword, List.append_assoc, List.drop_left' rfl, hrun, List.length_append]

theorem isDigit_of_isNameStart {b : UInt8} (h : isNameStart b = true) : Decimal.isDigit b = false := by
  have hhigh : 57 < b := by
    simp only [isNameStart, Bool.or_eq_true, Bool.and_eq_true, decide_eq_true_eq] at h
    rcases h with ((⟨hlow, -⟩ | ⟨hlow, -⟩) | rfl)
    · exact UInt8.lt_of_lt_of_le (by decide) hlow
    · exact UInt8.lt_of_lt_of_le (by decide) hlow
    · decide
  rw [Decimal.isDigit, decide_eq_false (UInt8.not_le.2 hhigh), Bool.and_false]

theorem scan_nameStart {b : UInt8} (hb : isNameStart b = true) (rest : Bytes) :
    scan b rest = .word (b :: rest) := by
  fun_cases scan b rest with
  | case15 =>
    rename_i hdigit
    rw [isDigit_of_isNameStart hb] at hdigit
    cases hdigit
  | case16 => rfl
  | case17 => contradiction
  | _ => subst_vars; cases hb

theorem scan_digit {b : UInt8} (hb : Decimal.isDigit b = true) (rest : Bytes) :
    scan b rest = .number (b :: rest) := by
  fun_cases scan b rest with
  | case15 => rfl
  | case16 => contradiction
  | case17 => contradiction
  | _ => subst_vars; cases hb

/-- What a word means by itself. -/
def wordLexeme (w : Bytes) : Lexeme :=
  match Keyword.ofWord? w with
  | some k => .keyword k
  | none => .name (.ofStatic w)

theorem Scan.word_eq (t : Bytes) :
    word t = exact (wordLexeme (t.take (wordLength t))) (wordLength t - 1) := by
  rw [word, wordLexeme]
  cases Keyword.ofWord? (t.take (wordLength t)) <;> rfl

theorem isBlank_of_isNameStart {b : UInt8} (h : isNameStart b = true) : Blank.isByte b = false := by
  refine Bool.eq_false_iff.2 fun hb => ?_
  simp only [Blank.isByte, Bool.or_eq_true, decide_eq_true_eq] at hb
  rcases hb with ((rfl | rfl) | rfl) | rfl <;> cases h

theorem spells_word {w : Bytes} (hw : IsWord w) : Spells EndsWord w [wordLexeme w] := by
  intro rest hrest
  have hlength := wordLength_append hw hrest
  have htake : (w ++ rest).take (Scan.wordLength (w ++ rest)) = w := List.take_left' hlength.symm
  obtain ⟨b, stem, primes, rfl, hb, -⟩ := hw
  have hscan : scan b (stem ++ primes ++ rest) =
      .exact (wordLexeme (b :: stem ++ primes)) (stem ++ primes).length := by
    rw [scan_nameStart hb, Scan.word_eq]
    simp only [List.cons_append] at hlength htake ⊢
    rw [htake, hlength, List.length_cons, Nat.add_sub_cancel]
  have hremark : b ≠ 35 := by
    rintro rfl
    cases hb
  have htoken := lexemes?_token (isBlank_of_isNameStart hb) hremark hscan
  rw [List.drop_left' rfl] at htoken
  exact htoken

theorem isWord_of_all {t : Bytes} (hhead : t.head?.any isNameStart = true)
    (htail : t.tail.all isNameByte = true) : IsWord t := by
  cases t with
  | nil => cases hhead
  | cons b t =>
    refine ⟨b, t, [], (List.append_nil _).symm, hhead, List.all_eq_true.1 htail, ?_⟩
    intro c hc
    cases hc

theorem spells_keyword (k : Keyword) : Spells EndsWord k.render [.keyword k] := by
  have hword : IsWord k.render := by
    cases k <;> exact isWord_of_all (by decide) (by decide)
  have hlexeme : wordLexeme k.render = .keyword k := by
    cases k <;> decide
  exact hlexeme ▸ spells_word hword

theorem spells_name {n : Name} (hn : n.Proper) : Spells EndsWord n.render [.name n] := by
  obtain ⟨w, dynamic⟩ := n
  obtain ⟨hw, hstatic⟩ := hn
  cases dynamic with
  | false =>
    have hlexeme : wordLexeme w = .name ⟨w, false⟩ := by
      rw [wordLexeme, hstatic rfl]
      rfl
    exact hlexeme ▸ spells_word hw
  | true =>
    intro rest hrest
    have hlength := wordLength_append hw hrest
    have hscan : scan 36 (w ++ rest) = .exact (.name ⟨w, true⟩) w.length := by
      have htake : (w ++ rest).take (Scan.wordLength (w ++ rest)) = w := List.take_left' hlength.symm
      obtain ⟨b, stem, primes, rfl, hb, -⟩ := hw
      change Scan.sigiled (b :: (stem ++ primes ++ rest)) = _
      rw [Scan.sigiled, if_pos hb]
      simp only [List.cons_append] at hlength htake ⊢
      rw [htake, hlength]
      rfl
    have htoken := lexemes?_token (by decide) (by decide) hscan
    rw [List.drop_left' rfl] at htoken
    exact htoken

theorem spells_number {digits : Bytes} (h : IsNumeral digits) :
    Spells EndsWord digits [.number digits] := by
  intro rest hrest
  obtain ⟨hne, hdigits⟩ := h
  have hhead : ∀ c ∈ rest.head?, Decimal.isDigit c = false := by
    intro c hc
    have hbyte := (hrest c hc).1
    rw [isNameByte, Bool.or_eq_false_iff] at hbyte
    exact hbyte.2
  cases digits with
  | nil => exact absurd rfl hne
  | cons b digits =>
    have hb := hdigits b List.mem_cons_self
    have hscan : scan b (digits ++ rest) = .exact (.number (b :: digits)) digits.length := by
      rw [scan_digit hb, Scan.number, ← List.cons_append, List.takeWhile_append_of_pos hdigits,
        takeWhile_eq_nil hhead, List.append_nil, List.length_cons, Nat.add_sub_cancel]
    have hblank : Blank.isByte b = false := by
      refine Bool.eq_false_iff.2 fun hbl => ?_
      simp only [Blank.isByte, Bool.or_eq_true, decide_eq_true_eq] at hbl
      rcases hbl with ((rfl | rfl) | rfl) | rfl <;> cases hb
    have hremark : b ≠ 35 := by
      rintro rfl
      cases hb
    have htoken := lexemes?_token hblank hremark hscan
    rw [List.drop_left' rfl] at htoken
    exact htoken

/-! ## Strings and commands -/

theorem Scan.string_cons_escape (read : Nat) (content : Bytes) (b : UInt8) (t : Bytes) :
    string read content (Print.escapeByte b ++ t) =
      string (read + (Print.escapeByte b).length) (b :: content) t := by
  rw [Print.escapeByte]
  split
  · rename_i hb
    subst hb
    rfl
  split
  · rename_i hb
    subst hb
    rfl
  split
  · rename_i hb
    subst hb
    rfl
  split
  · rename_i hb
    subst hb
    rfl
  · rename_i hslash hquote hline htab
    have hend : ¬isLineEnd b = true := fun h => hline (of_decide_eq_true h)
    rw [List.singleton_append, string.eq_def]
    dsimp only
    rw [if_neg hquote, if_neg hend, if_neg hslash]
    rfl

theorem Scan.string_escaped (read : Nat) (content s t : Bytes) :
    string read content (s.flatMap Print.escapeByte ++ 34 :: t) =
      exact (.string (content.reverse ++ s)) (read + (s.flatMap Print.escapeByte).length + 1) := by
  induction s generalizing read content with
  | nil =>
    rw [List.flatMap_nil, List.nil_append, string.eq_def]
    simp
  | cons b s ih =>
    rw [List.flatMap_cons, List.append_assoc, string_cons_escape, ih]
    simp [Nat.add_assoc]

theorem spells_string (s : Bytes) : Spells Anything (Print.string s) [.string s] := by
  intro rest _
  have hscan : scan 34 (s.flatMap Print.escapeByte ++ 34 :: rest) =
      .exact (.string s) ((s.flatMap Print.escapeByte).length + 1) := by
    have hstring := Scan.string_escaped 0 [] s rest
    rw [Nat.zero_add] at hstring
    exact hstring
  have htoken := lexemes?_token (by decide) (by decide) hscan
  have hdrop : (s.flatMap Print.escapeByte ++ 34 :: rest).drop
      ((s.flatMap Print.escapeByte).length + 1) = rest := by
    rw [List.drop_append]
    simp
  have htext : Print.string s ++ rest = 34 :: (s.flatMap Print.escapeByte ++ 34 :: rest) := by
    rw [Print.string, List.append_assoc, List.append_assoc]
    rfl
  rw [htext, htoken, hdrop]
  rfl

theorem spells_command {line : Bytes} (hline : IsLine 0 line)
    (htrim : Bytes.trimRight isTrailing line = line) : Spells EndsLine (47 :: line) [.command line] := by
  intro rest hrest
  have hscan : scan 47 (line ++ rest) = .token (.command line) (line.length + 1) line.length := by
    change Scan.command (line ++ rest) = _
    rw [Scan.command, hline.commandExtent_append hrest]
    dsimp only
    rw [List.take_left' rfl, htrim]
  have htoken := lexemes?_token (by decide) (by decide) hscan
  rw [List.drop_left' rfl] at htoken
  exact htoken

end PackScript
