import PackScript.Proofs.Generation.SingleLines
import PackScript.Proofs.Syntax.FinalErrors
import PackScript.Proofs.Syntax.Tiling

/-! # Line breaks in commands

A line break ends a command, and it keeps a hole from being closed. But within a string literal in a
hole, the byte behind a backslash is passed over without being looked at. If it is a line break, the
hole and the command go on behind it. There is no other way for a line break to get into a command.
-/
namespace PackScript

/-- Behind `read`, the inside of a hole is within a string literal. -/
def InString (read : Bytes) : Prop :=
  ∀ u, holeEnd? false (read ++ u) = (holeEnd? true u).map (· + read.length)

/-- A byte in a text of two parts is in the second one or in the first one. -/
theorem split_of_append {a b pre post : Bytes} {c : UInt8} (h : a ++ b = pre ++ c :: post) :
    (∃ pre', pre = a ++ pre' ∧ b = pre' ++ c :: post) ∨ ∃ post', a = pre ++ c :: post' := by
  rcases List.append_eq_append_iff.1 h with ⟨pre', hpre, hb⟩ | ⟨a', ha, hpost⟩
  · exact .inl ⟨pre', hpre, hb⟩
  · cases a' with
    | nil => exact .inl ⟨[], by rw [ha]; simp, hpost.symm⟩
    | cons x a' =>
      obtain ⟨rfl, -⟩ := List.cons.inj hpost
      exact .inr ⟨a', ha⟩

theorem split_of_notMem {a b pre post : Bytes} {c : UInt8} (hc : c ∉ a) (h : a ++ b = pre ++ c :: post) :
    ∃ pre', pre = a ++ pre' ∧ b = pre' ++ c :: post := by
  apply (split_of_append h).resolve_right
  rintro ⟨post', rfl⟩
  exact hc (List.mem_append_right _ List.mem_cons_self)

/-- A line break in front of the end of a hole stands behind a backslash in a string literal. -/
theorem escaped_of_holeEnd? {s : Bool} {t pre post : Bytes} {n : Nat} (h : holeEnd? s t = some n)
    (ht : t.take (n + 1) = pre ++ Bytes.newline :: post) :
    ∃ read, pre = read ++ [92] ∧ ∀ u, holeEnd? s (read ++ u) = (holeEnd? true u).map (· + read.length) := by
  have hshift (k : Nat) (x : Option Nat) (read : Bytes) :
      (x.map (· + read.length)).map (· + k) = x.map (· + (read.length + k)) := by
    cases x <;> simp [Nat.add_assoc]
  fun_induction holeEnd? s t generalizing n pre with
  | case1 => cases h
  | case2 => cases h
  | case3 => cases h
  | case4 s b hend hs e t ih =>
    obtain ⟨m, hm, rfl⟩ := Option.map_eq_some_iff.1 h
    obtain ⟨rfl, rfl⟩ := hs
    rw [List.take_succ_cons] at ht
    obtain ⟨pre, rfl, hrest⟩ := split_of_notMem (a := [92]) (by decide) ht
    rcases split_of_append (a := [e]) hrest with ⟨pre, rfl, hlater⟩ | ⟨post', he⟩
    · obtain ⟨read, rfl, hread⟩ := ih hm hlater
      refine ⟨92 :: e :: read, rfl, fun u => ?_⟩
      rw [List.cons_append, List.cons_append, holeEnd?_escape, hread u, hshift]
      rfl
    · -- the byte that was passed over is the line break itself
      cases pre with
      | nil => exact ⟨[], rfl, fun u => by simp⟩
      | cons x pre => simp at he
  | case5 s t hend hs ih =>
    obtain ⟨m, hm, rfl⟩ := Option.map_eq_some_iff.1 h
    rw [List.take_succ_cons] at ht
    obtain ⟨pre, rfl, hrest⟩ := split_of_notMem (a := [34]) (by decide) ht
    obtain ⟨read, rfl, hread⟩ := ih hm hrest
    refine ⟨34 :: read, rfl, fun u => ?_⟩
    rw [List.cons_append, holeEnd?_quote, hread u, hshift]
    rfl
  | case6 s b t hend hs hq hc =>
    obtain ⟨-, rfl⟩ := hc
    cases h
    obtain ⟨pre, -, hrest⟩ := split_of_notMem (a := [125]) (by decide) ht
    simp at hrest
  | case7 s b t hend hs hq hc ih =>
    obtain ⟨m, hm, rfl⟩ := Option.map_eq_some_iff.1 h
    have hb : Bytes.newline ∉ [b] := fun hmem => hend (decide_eq_true (List.mem_singleton.1 hmem).symm)
    rw [List.take_succ_cons] at ht
    obtain ⟨pre, rfl, hrest⟩ := split_of_notMem (a := [b]) hb ht
    obtain ⟨read, rfl, hread⟩ := ih hm hrest
    refine ⟨b :: read, rfl, fun u => ?_⟩
    rw [List.cons_append, holeEnd?_byte hend hs hq hc, hread u, hshift]
    rfl

/-- A line break in a command is in one of its holes, behind a backslash in a string literal. -/
theorem IsLine.escaped {d : Nat} {line pre post : Bytes} (h : IsLine d line)
    (hline : line = pre ++ Bytes.newline :: post) :
    ∃ front read behind rest, line = front ++ holeText (read ++ 92 :: Bytes.newline :: behind) rest ∧
      IsInside (read ++ 92 :: Bytes.newline :: behind) ∧ InString read ∧
      pre = front ++ 35 :: 123 :: (read ++ [92]) := by
  induction h generalizing pre with
  | plain h =>
    have hmem : Bytes.newline ∈ pre ++ Bytes.newline :: post := List.mem_append_right _ List.mem_cons_self
    exact absurd (hline ▸ hmem) h.newline_notMem
  | @hole d d' literal inside rest hl hin h ih =>
    have hliteral : Bytes.newline ∉ literal ++ [35, 123] := fun hmem =>
      (List.mem_append.1 hmem).elim hl.newline_notMem (by decide)
    have htext : literal ++ holeText inside rest = literal ++ [35, 123] ++ (inside ++ [125] ++ rest) := by
      simp [holeText]
    rw [htext] at hline
    obtain ⟨pre, rfl, hholes⟩ := split_of_notMem hliteral hline
    rcases split_of_append hholes with ⟨pre, rfl, hrest⟩ | ⟨post', hinside⟩
    · obtain ⟨front, read, behind, rest', hrest', hin', hread, rfl⟩ := ih hrest
      refine ⟨literal ++ [35, 123] ++ (inside ++ [125]) ++ front, read, behind, rest', ?_, hin', hread, ?_⟩
      · rw [hrest']
        simp [holeText]
      · simp
    · obtain ⟨read, rfl, hread⟩ := escaped_of_holeEnd? hin (by rw [List.take_of_length_le (by simp), hinside])
      -- the hole goes on behind the line break, at least to its closing brace
      have hnil : post' ≠ [] := by
        rintro rfl
        have hlast := congrArg List.getLast? hinside
        simp [Bytes.newline] at hlast
      obtain ⟨behind, last, rfl⟩ := post'.eq_nil_or_concat.resolve_left hnil
      have hsplit : inside ++ [125] = read ++ 92 :: Bytes.newline :: behind ++ [last] := by
        rw [hinside]
        simp
      obtain ⟨rfl, -⟩ := List.append_inj' hsplit rfl
      exact ⟨literal, read, behind, rest, rfl, hin, hread, by simp⟩

/-- A command, from whichever text it was cut, with or without success. -/
theorem isLine_of_mem_tokens {c : Cursor} {t line : Bytes} {span : Span}
    (h : ⟨.command line, span⟩ ∈ (scanFrom c t).tokens) : IsLine 0 line ∧ line <:+: t := by
  obtain ⟨before, b, rest, length, more, rfl, hscan, -⟩ := scan_of_mem_tokens h (by simp)
  obtain ⟨-, -, rfl, -⟩ := command_of_scan hscan
  refine ⟨(scan_proper hscan).1, ?_⟩
  have hprefix := (trimRight_isPrefix isTrailing (rest.take more)).trans (List.take_prefix more rest)
  exact hprefix.isInfix.trans ⟨before ++ [b], [], by simp⟩

/-- In front of the end of a hole there is no line break, except behind a backslash in a string literal.
So no command has one except there, whether or not the text it is cut from can be cut to its end. If no
line of the text ends in a backslash, neither has one at all. -/
theorem line_breaks_escaped (t : Bytes) :
    (∀ n, holeEnd? false t = some n →
      (∀ pre post, t.take (n + 1) = pre ++ Bytes.newline :: post → ∃ read, pre = read ++ [92] ∧ InString read) ∧
      (¬EscapesLineEnd t → Bytes.newline ∉ t.take (n + 1))) ∧
    ∀ (c : Cursor) (line : Bytes) (span : Span), ⟨.command line, span⟩ ∈ (scanFrom c t).tokens →
      (∀ pre post, line = pre ++ Bytes.newline :: post →
        ∃ front read behind rest, line = front ++ holeText (read ++ 92 :: Bytes.newline :: behind) rest ∧
          IsInside (read ++ 92 :: Bytes.newline :: behind) ∧ InString read ∧
          pre = front ++ 35 :: 123 :: (read ++ [92])) ∧
      (¬EscapesLineEnd t → Bytes.newline ∉ line) := by
  refine ⟨fun n h => ⟨fun pre post ht => escaped_of_holeEnd? h ht, fun hescape hmem => hescape ?_⟩,
    fun c line span h => ?_⟩
  · obtain ⟨pre, post, hsplit⟩ := List.append_of_mem hmem
    obtain ⟨read, rfl, -⟩ := escaped_of_holeEnd? h hsplit
    have hescaped : EscapesLineEnd (t.take (n + 1)) := ⟨read, post, by rw [hsplit]; simp⟩
    exact hescaped.trans (List.take_prefix _ _).isInfix
  obtain ⟨hline, hinfix⟩ := isLine_of_mem_tokens h
  refine ⟨fun pre post hsplit => hline.escaped hsplit, fun hescape hmem => hescape ?_⟩
  obtain ⟨pre, post, hsplit⟩ := List.append_of_mem hmem
  obtain ⟨front, read, behind, rest, hholes, -, -, -⟩ := hline.escaped hsplit
  have hescaped : EscapesLineEnd line :=
    ⟨front ++ 35 :: 123 :: read, behind ++ 125 :: rest, by rw [hholes]; simp [holeText]⟩
  exact hescaped.trans hinfix

/-- Two commands, the first of which goes on behind the end of its line; behind the second one the text
cannot be cut. -/
theorem line_breaks_escaped_twice :
    holeEnd? false "\"\\\n\"\x7d" = some 4 ∧
      (∃ read, ("\"\\" : Bytes) = read ++ [92] ∧ InString read) ∧
      (scanFrom .start "/a #\x7b\"\\\n\"\x7d\n/b\n?").result.toOption = none ∧
      ⟨.command "a #\x7b\"\\\n\"\x7d", ⟨0, 10, 1, 0⟩⟩ ∈ (scanFrom .start "/a #\x7b\"\\\n\"\x7d\n/b\n?").tokens ∧
      ∃ front read behind rest, ("a #\x7b\"\\\n\"\x7d" : Bytes) =
        front ++ holeText (read ++ 92 :: Bytes.newline :: behind) rest ∧
          IsInside (read ++ 92 :: Bytes.newline :: behind) ∧ InString read ∧
          ("a #\x7b\"\\" : Bytes) = front ++ 35 :: 123 :: (read ++ [92]) := by
  have hend : holeEnd? false "\"\\\n\"\x7d" = some 4 := by decide +kernel
  have hmem : ⟨.command "a #\x7b\"\\\n\"\x7d", ⟨0, 10, 1, 0⟩⟩ ∈
      (scanFrom .start "/a #\x7b\"\\\n\"\x7d\n/b\n?").tokens := by decide +kernel
  refine ⟨hend, ?_, by decide +kernel, hmem, ?_⟩
  · exact ((line_breaks_escaped _).1 _ hend).1 "\"\\" "\"\x7d" (by decide +kernel)
  · exact ((line_breaks_escaped _).2 _ _ _ hmem).1 "a #\x7b\"\\" "\"\x7d" (by decide +kernel)

/-- A hole that is closed on the line behind the one it is opened on, and the command with that hole. -/
theorem holeEnd?_passes_line_break :
    holeEnd? false "\"\\\n\"\x7d" = some 4 ∧ Bytes.newline ∈ ("\"\\\n\"\x7d" : Bytes).take 5 ∧
      (tokenize "/say #\x7b\"\\\n\"\x7d").toOption.map (List.map Token.lexeme) =
        some [.command "say #\x7b\"\\\n\"\x7d", .endMarker] := by
  decide +kernel

end PackScript
