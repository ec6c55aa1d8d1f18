import PackScript.Program.Parser

/-! # The text of command lines

A command line alternates between stretches of plain text, in which no closing brace comes
before the opening one it matches, and holes. The lexer takes such a text as a whole and it
is cut at its holes; each hole may be filled anew without disturbing the text around it.
-/
namespace PackScript

/-- What stands between the braces of a hole: it does not close the hole itself. -/
def IsInside (inside : Bytes) : Prop := holeEnd? false (inside ++ [125]) = some inside.length

/-- A text without holes that starts at brace depth `d` and ends at depth `d'`. -/
inductive Stretch : (d : Nat) → Bytes → (d' : Nat) → Prop
  | nil (d : Nat) : Stretch d [] d
  | byte {d d' : Nat} {b : UInt8} {t : Bytes} (hend : isLineEnd b = false)
      (hhole : ¬(b = 35 ∧ t.head? = some 123)) (hopen : b ≠ 123) (hclose : b ≠ 125)
      (h : Stretch d t d') : Stretch d (b :: t) d'
  | openBrace {d d' : Nat} {t : Bytes} (h : Stretch (d + 1) t d') : Stretch d (123 :: t) d'
  | closeBrace {d d' : Nat} {t : Bytes} (h : Stretch d t d') : Stretch (d + 1) (125 :: t) d'

/-- A hole with what stands inside, and the text behind it. -/
def holeText (inside rest : Bytes) : Bytes := 35 :: 123 :: (inside ++ 125 :: rest)

/-- A whole command line, from brace depth `d` on. -/
inductive IsLine : (d : Nat) → Bytes → Prop
  | plain {d d' : Nat} {t : Bytes} (h : Stretch d t d') : IsLine d t
  | hole {d d' : Nat} {literal inside rest : Bytes} (hl : Stretch d literal d')
      (hin : IsInside inside) (h : IsLine d' rest) : IsLine d (literal ++ holeText inside rest)

/-! ## The end of a hole -/

theorem holeEnd?_escape (e : UInt8) (t : Bytes) :
    holeEnd? true (92 :: e :: t) = (holeEnd? true t).map (· + 2) := rfl

theorem holeEnd?_quote (s : Bool) (t : Bytes) :
    holeEnd? s (34 :: t) = (holeEnd? (!s) t).map (· + 1) := by
  rw [holeEnd?.eq_def]
  dsimp only
  rw [if_neg (by decide), if_neg (by simp), if_pos rfl]

theorem holeEnd?_brace (t : Bytes) : holeEnd? false (125 :: t) = some 0 := by
  rw [holeEnd?.eq_def]
  dsimp only
  rw [if_neg (by decide), if_neg (by simp), if_neg (by decide), if_pos (by simp)]

theorem holeEnd?_byte {s : Bool} {b : UInt8} (hend : ¬isLineEnd b = true) (hs : ¬(s = true ∧ b = 92))
    (hq : b ≠ 34) (hc : ¬(¬s = true ∧ b = 125)) (t : Bytes) :
    holeEnd? s (b :: t) = (holeEnd? s t).map (· + 1) := by
  rw [holeEnd?.eq_def]
  dsimp only
  rw [if_neg hend, if_neg hs, if_neg hq, if_neg hc]

/-- Only the bytes up to the closing brace decide where a hole ends. -/
theorem holeEnd?_split {s : Bool} {t : Bytes} {n : Nat} (h : holeEnd? s t = some n) :
    ∃ inside after, t = inside ++ 125 :: after ∧ inside.length = n ∧
      ∀ rest, holeEnd? s (inside ++ 125 :: rest) = some n := by
  fun_induction holeEnd? s t generalizing n with
  | case1 => cases h
  | case2 => cases h
  | case3 => cases h
  | case4 s b hb hs e t ih =>
    obtain ⟨m, hm, rfl⟩ := Option.map_eq_some_iff.1 h
    obtain ⟨inside, after, rfl, rfl, hrest⟩ := ih hm
    obtain ⟨rfl, rfl⟩ := hs
    refine ⟨92 :: e :: inside, after, rfl, rfl, fun rest => ?_⟩
    rw [List.cons_append, List.cons_append, holeEnd?_escape, hrest, Option.map_some]
  | case5 s t hb hs ih =>
    obtain ⟨m, hm, rfl⟩ := Option.map_eq_some_iff.1 h
    obtain ⟨inside, after, rfl, rfl, hrest⟩ := ih hm
    refine ⟨34 :: inside, after, rfl, rfl, fun rest => ?_⟩
    rw [List.cons_append, holeEnd?_quote, hrest, Option.map_some]
  | case6 s b t hb hs hq hc =>
    cases h
    obtain ⟨hfalse, rfl⟩ := hc
    rw [Bool.not_eq_true] at hfalse
    subst hfalse
    exact ⟨[], t, rfl, rfl, holeEnd?_brace⟩
  | case7 s b t hb hs hq hc ih =>
    obtain ⟨m, hm, rfl⟩ := Option.map_eq_some_iff.1 h
    obtain ⟨inside, after, rfl, rfl, hrest⟩ := ih hm
    refine ⟨b :: inside, after, rfl, rfl, fun rest => ?_⟩
    rw [List.cons_append, holeEnd?_byte hb hs hq hc, hrest, Option.map_some]

/-- Behind the end of a hole, anything may follow. -/
theorem IsInside.holeEnd?_append {inside : Bytes} (h : IsInside inside) (rest : Bytes) :
    holeEnd? false (inside ++ 125 :: rest) = some inside.length := by
  obtain ⟨inside', after, heq, hlength, hrest⟩ := holeEnd?_split h
  obtain ⟨rfl, -⟩ := List.append_inj heq hlength.symm
  exact hrest rest

theorem drop_behind_hole (inside rest : Bytes) :
    (123 :: (inside ++ 125 :: rest)).drop (inside.length + 2) = rest := by
  rw [List.drop_succ_cons, List.drop_append]
  simp

/-! ## Stretches -/

theorem head?_of_append {t u : Bytes} {b : UInt8} (h : t.head? = some b) : (t ++ u).head? = some b := by
  rw [List.head?_append, h, Option.some_or]

theorem Stretch.of_append {t u : Bytes} {d d' : Nat} (h : Stretch d (t ++ u) d') : ∃ k, Stretch d t k := by
  induction t generalizing d with
  | nil => exact ⟨d, .nil d⟩
  | cons b t ih =>
    cases h with
    | byte hend hhole hopen hclose h =>
      obtain ⟨k, hk⟩ := ih h
      exact ⟨k, .byte hend (fun hb => hhole ⟨hb.1, head?_of_append hb.2⟩) hopen hclose hk⟩
    | openBrace h =>
      obtain ⟨k, hk⟩ := ih h
      exact ⟨k, .openBrace hk⟩
    | closeBrace h =>
      obtain ⟨k, hk⟩ := ih h
      exact ⟨k, .closeBrace hk⟩

theorem commandExtent_byte {d : Nat} {b : UInt8} {t : Bytes} (hend : isLineEnd b = false)
    (hhole : ¬(b = 35 ∧ t.head? = some 123)) (hopen : b ≠ 123) (hclose : b ≠ 125) :
    commandExtent d (b :: t) = (commandExtent d t).shift 1 := by
  rw [commandExtent.eq_def]
  dsimp only
  rw [if_neg (by rw [hend]; decide), if_neg hhole, if_neg hopen, if_neg hclose]

theorem commandExtent_openBrace (d : Nat) (t : Bytes) :
    commandExtent d (123 :: t) = (commandExtent (d + 1) t).shift 1 := by
  rw [commandExtent.eq_def]
  dsimp only
  rw [if_neg (by decide), if_neg (by simp), if_pos rfl]

theorem commandExtent_closeBrace (d : Nat) (t : Bytes) :
    commandExtent (d + 1) (125 :: t) = (commandExtent d t).shift 1 := by
  rw [commandExtent, if_neg (by decide), if_neg (by simp), if_neg (by decide), if_pos rfl]

theorem IsInside.commandExtent_holeText {inside : Bytes} (h : IsInside inside) (d : Nat) (rest : Bytes) :
    commandExtent d (holeText inside rest) = (commandExtent d rest).shift (inside.length + 3) := by
  rw [holeText, commandExtent.eq_def]
  dsimp only
  rw [if_neg (by decide), if_pos ⟨rfl, rfl⟩, List.drop_one, List.tail_cons, h.holeEnd?_append]
  dsimp only
  rw [drop_behind_hole]

theorem CommandExtent.shift_shift (m n : Nat) (x : CommandExtent) :
    (x.shift m).shift n = x.shift (m + n) := by
  cases x <;> simp only [shift, Nat.add_assoc]

theorem CommandExtent.shift_zero (x : CommandExtent) : x.shift 0 = x := by
  cases x <;> rfl

/-- A stretch is passed over whatever comes next, so long as it does not make a hole of the
stretch's last byte. -/
theorem Stretch.commandExtent_append {t rest : Bytes} {d d' : Nat} (h : Stretch d t d')
    (hrest : rest.head? ≠ some 123) :
    commandExtent d (t ++ rest) = (commandExtent d' rest).shift t.length := by
  induction h with
  | nil d => rw [List.nil_append, List.length_nil, CommandExtent.shift_zero]
  | @byte d d' b t hend hhole hopen hclose h ih =>
    have hhole' : ¬(b = 35 ∧ (t ++ rest).head? = some 123) := by
      rintro ⟨hb, hh⟩
      cases t with
      | nil => exact hrest hh
      | cons c t => exact hhole ⟨hb, hh⟩
    rw [List.cons_append, commandExtent_byte hend hhole' hopen hclose, ih, CommandExtent.shift_shift,
      List.length_cons]
  | openBrace h ih =>
    rw [List.cons_append, commandExtent_openBrace, ih, CommandExtent.shift_shift, List.length_cons]
  | closeBrace h ih =>
    rw [List.cons_append, commandExtent_closeBrace, ih, CommandExtent.shift_shift, List.length_cons]

/-! ## Lines -/

/-- A command line ends where the text ends or the next line starts. -/
def EndsLine (rest : Bytes) : Prop := ∀ b ∈ rest.head?, isLineEnd b = true

theorem EndsLine.commandExtent {rest : Bytes} (h : EndsLine rest) (d : Nat) :
    commandExtent d rest = .closed 0 := by
  cases rest with
  | nil => rw [PackScript.commandExtent]
  | cons b rest => rw [PackScript.commandExtent.eq_def]; dsimp only; rw [if_pos (h b rfl)]

theorem EndsLine.head_ne {rest : Bytes} (h : EndsLine rest) : rest.head? ≠ some 123 := by
  intro hb
  exact absurd (h 123 hb) (by decide)

/-- The lexer takes a command line as a whole. -/
theorem IsLine.commandExtent_append {t rest : Bytes} {d : Nat} (h : IsLine d t) (hrest : EndsLine rest) :
    commandExtent d (t ++ rest) = .closed t.length := by
  induction h with
  | plain h =>
    rw [h.commandExtent_append hrest.head_ne, hrest.commandExtent, CommandExtent.shift, Nat.zero_add]
  | @hole d d' literal inside t hl hin h ih =>
    have happend : literal ++ holeText inside t ++ rest = literal ++ holeText inside (t ++ rest) := by
      simp [holeText]
    rw [happend, hl.commandExtent_append (by simp [holeText]), hin.commandExtent_holeText, ih]
    simp only [CommandExtent.shift, holeText, List.length_append, List.length_cons]
    congr 1
    omega

theorem IsLine.cons {d : Nat} {b : UInt8} {t : Bytes} (hend : isLineEnd b = false)
    (hhole : ¬(b = 35 ∧ t.head? = some 123)) (hopen : b ≠ 123) (hclose : b ≠ 125) (h : IsLine d t) :
    IsLine d (b :: t) := by
  cases h with
  | plain h => exact .plain (.byte hend hhole hopen hclose h)
  | @hole _ d' literal inside rest hl hin h =>
    have hhole' : ¬(b = 35 ∧ literal.head? = some 123) := fun hb =>
      hhole ⟨hb.1, head?_of_append hb.2⟩
    exact .hole (.byte hend hhole' hopen hclose hl) hin h

theorem IsLine.openBrace {d : Nat} {t : Bytes} (h : IsLine (d + 1) t) : IsLine d (123 :: t) := by
  cases h with
  | plain h => exact .plain (.openBrace h)
  | hole hl hin h => exact .hole (.openBrace hl) hin h

theorem IsLine.closeBrace {d : Nat} {t : Bytes} (h : IsLine d t) : IsLine (d + 1) (125 :: t) := by
  cases h with
  | plain h => exact .plain (.closeBrace h)
  | hole hl hin h => exact .hole (.closeBrace hl) hin h

theorem CommandExtent.shift_eq_closed {x : CommandExtent} {m n : Nat} (h : x.shift m = .closed n) :
    ∃ k, x = .closed k ∧ n = k + m := by
  cases x with
  | closed k => exact ⟨k, rfl, by cases h; rfl⟩
  | openHole => cases h

/-- What the lexer takes is a command line. -/
theorem isLine_of_commandExtent {d n : Nat} {t : Bytes} (h : commandExtent d t = .closed n) :
    IsLine d (t.take n) := by
  fun_induction commandExtent d t generalizing n with
  | case1 => cases h; exact .plain (.nil _)
  | case2 => cases h; exact .plain (.nil _)
  | case3 => cases h
  | case4 d b t hend hb m hm ih =>
    obtain ⟨k, hk, rfl⟩ := CommandExtent.shift_eq_closed h
    obtain ⟨rfl, hb⟩ := hb
    obtain ⟨u, rfl⟩ : ∃ u, t = 123 :: u := by
      cases t with
      | nil => cases hb
      | cons c u => cases hb; exact ⟨u, rfl⟩
    obtain ⟨inside, after, rfl, rfl, hin⟩ := holeEnd?_split hm
    have htake : (35 :: 123 :: (inside ++ 125 :: after)).take (k + (inside.length + 3)) =
        holeText inside (after.take k) := by
      rw [show k + (inside.length + 3) = inside.length + (k + 1) + 1 + 1 by omega,
        List.take_succ_cons, List.take_succ_cons, List.take_append, List.take_of_length_le (by omega),
        holeText]
      simp
    rw [htake]
    exact .hole (.nil d) (hin []) (drop_behind_hole inside after ▸ ih hk)
  | case5 d t hend hb ih =>
    obtain ⟨k, hk, rfl⟩ := CommandExtent.shift_eq_closed h
    exact (ih hk).openBrace
  | case6 => cases h; exact .plain (.nil _)
  | case7 t d hend hb ho ih =>
    obtain ⟨k, hk, rfl⟩ := CommandExtent.shift_eq_closed h
    exact (ih hk).closeBrace
  | case8 d b t hend hb ho hc ih =>
    obtain ⟨k, hk, rfl⟩ := CommandExtent.shift_eq_closed h
    refine IsLine.cons (Bool.not_eq_true _ ▸ hend) (fun hh => hb ⟨hh.1, ?_⟩) ho hc (ih hk)
    have := head?_of_append (u := t.drop k) hh.2
    rwa [List.take_append_drop] at this

/-! ## Blanks at the end -/

theorem dropWhile_append_cons {p : UInt8 → Bool} {b : UInt8} (hb : p b = false) (t u : Bytes) :
    (t ++ b :: u).dropWhile p = t.dropWhile p ++ b :: u := by
  induction t with
  | nil => rw [List.nil_append, List.dropWhile_cons, hb]; rfl
  | cons c t ih =>
    rw [List.cons_append, List.dropWhile_cons, List.dropWhile_cons, ih]
    split <;> rfl

theorem trimRight_append_cons {p : UInt8 → Bool} {b : UInt8} (hb : p b = false) (t u : Bytes) :
    Bytes.trimRight p (t ++ b :: u) = t ++ b :: Bytes.trimRight p u := by
  have hreverse : (t ++ b :: u).reverse = u.reverse ++ b :: t.reverse := by simp
  rw [Bytes.trimRight, hreverse, dropWhile_append_cons hb, Bytes.trimRight]
  simp

theorem trimRight_isPrefix (p : UInt8 → Bool) (t : Bytes) : Bytes.trimRight p t <+: t := by
  have hs : t.reverse.dropWhile p <:+ t.reverse := List.dropWhile_suffix p
  simpa [Bytes.trimRight] using List.reverse_prefix.2 hs

theorem trimRight_append_holeText (literal inside rest : Bytes) :
    Bytes.trimRight isTrailing (literal ++ holeText inside rest) =
      literal ++ holeText inside (Bytes.trimRight isTrailing rest) := by
  have hbrace := trimRight_append_cons (p := isTrailing) (b := 125) (by decide)
    (literal ++ 35 :: 123 :: inside) rest
  simpa [holeText] using hbrace

theorem IsLine.trimRight {d : Nat} {t : Bytes} (h : IsLine d t) :
    IsLine d (Bytes.trimRight isTrailing t) := by
  induction h with
  | @plain d d' t h =>
    obtain ⟨u, hu⟩ := trimRight_isPrefix isTrailing t
    obtain ⟨k, hk⟩ := (hu ▸ h : Stretch d (_ ++ u) d').of_append
    exact .plain hk
  | @hole d d' literal inside rest hl hin h ih =>
    rw [trimRight_append_holeText]
    exact .hole hl hin ih

/-! ## Cutting at holes -/

theorem Stretch.cut {d d' : Nat} {t : Bytes} (h : Stretch d t d') : Grammar.cut t = .plain t := by
  induction h with
  | nil => rfl
  | byte hend hhole hopen hclose h ih => rw [Grammar.cut, if_neg hhole, ih, Grammar.Cut.cons]
  | openBrace h ih => rw [Grammar.cut, if_neg (by simp), ih, Grammar.Cut.cons]
  | closeBrace h ih => rw [Grammar.cut, if_neg (by simp), ih, Grammar.Cut.cons]

theorem Stretch.cut_append_holeText {d d' : Nat} {t inside : Bytes} (h : Stretch d t d')
    (hin : IsInside inside) (rest : Bytes) :
    Grammar.cut (t ++ holeText inside rest) = .hole t inside rest := by
  induction h with
  | nil =>
    rw [List.nil_append, holeText, Grammar.cut, if_pos ⟨rfl, rfl⟩, List.drop_one, List.tail_cons,
      hin.holeEnd?_append]
    dsimp only
    rw [drop_behind_hole, List.take_left' rfl]
  | @byte d d' b t hend hhole hopen hclose h ih =>
    have hhole' : ¬(b = 35 ∧ (t ++ holeText inside rest).head? = some 123) := by
      rintro ⟨hb, hh⟩
      cases t with
      | nil => simp [holeText] at hh
      | cons c t => exact hhole ⟨hb, hh⟩
    rw [List.cons_append, Grammar.cut, if_neg hhole', ih, Grammar.Cut.cons]
  | openBrace h ih => rw [List.cons_append, Grammar.cut, if_neg (by simp), ih, Grammar.Cut.cons]
  | closeBrace h ih => rw [List.cons_append, Grammar.cut, if_neg (by simp), ih, Grammar.Cut.cons]

end PackScript
