import PackScript.Proofs.Syntax.FinalErrors
import PackScript.Proofs.Syntax.Places
import PackScript.Proofs.Syntax.Refusal

/-! # Where the errors of a text stand

Whatever is wrong with a text that cannot be read, the error covers bytes of that text or its end.
What is wrong in a hole of a command has its place in the whole text as well.
-/
namespace PackScript

/-- A span inside a text; it may be empty and stand at the end. -/
def Span.Inside (s : Span) (src : Bytes) : Prop := ∃ i j, i ≤ j ∧ j ≤ src.length ∧ s.Covers i j

/-! ## Faults of the lexer -/

namespace Scan

variable {cause : Cause} {start length more : Nat}

theorem string_fault {read : Nat} {content t : Bytes} (h : string read content t = .fault cause start length more) :
    start = 0 ∧ length ≤ read + t.length + 1 := by
  fun_induction string read content t with
  | case1 =>
    cases h
    exact ⟨rfl, Nat.le_refl _⟩
  | case2 => cases h
  | case3 =>
    cases h
    refine ⟨rfl, ?_⟩
    simp only [List.length_cons]
    omega
  | case4 =>
    cases h
    refine ⟨rfl, ?_⟩
    simp only [List.length_cons]
    omega
  | case5 read content e rest c he hquote hend ih =>
    have hfault := ih h
    simp only [List.length_cons]
    omega
  | case6 =>
    cases h
    refine ⟨rfl, ?_⟩
    simp only [List.length_cons]
    omega
  | case7 read content b rest hquote hend hslash ih =>
    have hfault := ih h
    rw [List.length_cons]
    omega

theorem openHole_inside {d : Nat} {t : Bytes} (h : commandExtent d t = .openHole start length) :
    start + length ≤ t.length := by
  fun_induction commandExtent d t generalizing start with
  | case1 => cases h
  | case2 => cases h
  | case3 d b rest hend hb hnone =>
    cases h
    rw [Nat.zero_add]
    exact lineLength_le _
  | case4 d b rest hend hb n hn ih =>
    obtain ⟨k, hk, rfl⟩ := CommandExtent.shift_eq_openHole h
    obtain ⟨inside, after, hrest, rfl, -⟩ := holeEnd?_split hn
    have hle := ih hk
    have hlength := congrArg List.length hrest
    simp only [List.length_drop, List.length_append, List.length_cons] at hle hlength ⊢
    omega
  | case6 => cases h
  | _ =>
    rename_i ih
    obtain ⟨k, hk, rfl⟩ := CommandExtent.shift_eq_openHole h
    have hle := ih hk
    rw [List.length_cons]
    omega

end Scan

theorem scan_fault_inside {b : UInt8} {rest : Bytes} {cause : Cause} {start length more : Nat}
    (h : scan b rest = .fault cause start length more) : start + length ≤ rest.length + 1 := by
  revert h
  fun_cases scan b rest with
  | case12 =>
    intro h
    have hfault := Scan.string_fault h
    omega
  | case13 =>
    intro h
    rw [Scan.command] at h
    cases hc : commandExtent 0 rest with
    | closed n =>
      rw [hc] at h
      cases h
    | openHole k n =>
      rw [hc] at h
      cases h
      have hle := Scan.openHole_inside hc
      omega
  | case14 =>
    intro h
    cases rest with
    | nil =>
      cases h
      exact Nat.le_refl _
    | cons c rest =>
      rw [Scan.sigiled] at h
      split at h
      · cases h
      · cases h
        omega
  | case16 =>
    intro h
    rw [Scan.word] at h
    split at h <;> cases h
  | case17 =>
    intro h
    cases h
    omega
  | _ =>
    intro h
    cases h

/-- The lexer finds fault with bytes of the text it was given. -/
theorem fault_inside {c : Cursor} {t : Bytes} {d : Diagnostic} {q : Nat} (h : (scanFrom c t).fault = some d)
    (hc : c.offset = .ofNat q) : ∃ i j, i ≤ j ∧ j ≤ q + t.length ∧ d.span.Covers i j := by
  fun_induction scanFrom c t generalizing q with
  | case1 => cases h
  | case2 c t here b rest hdrop lexeme length more hscan =>
    rename_i ih
    have htext : t = t.take (skipLength t) ++ b :: rest := by
      rw [← hdrop, List.take_append_drop]
    have hlen := congrArg List.length htext
    have hnext : (here.past (b :: rest.take more)).offset =
        .ofNat (q + (t.take (skipLength t)).length + (b :: rest.take more).length) := by
      rw [Cursor.past_offset, Cursor.past_offset, hc, ← Int64.ofNat_add, ← Int64.ofNat_add]
    obtain ⟨i, j, hij, hj, hcovers⟩ := ih h hnext
    refine ⟨i, j, hij, ?_, hcovers⟩
    simp only [List.length_append, List.length_cons, List.length_take, List.length_drop] at hlen hj
    omega
  | case3 c t here b rest hdrop cause start length more =>
    rename_i hscan
    cases h
    have htext : t = t.take (skipLength t) ++ b :: rest := by
      rw [← hdrop, List.take_append_drop]
    have hlen := congrArg List.length htext
    have hinside := scan_fault_inside hscan
    have hstart : (here.past ((b :: rest).take start)).offset = .ofNat (q + (t.take (skipLength t)).length + start) := by
      have htake : ((b :: rest).take start).length = start :=
        List.length_take_of_le (by rw [List.length_cons]; omega)
      rw [Cursor.past_offset, Cursor.past_offset, hc, ← Int64.ofNat_add, ← Int64.ofNat_add, htake]
    refine ⟨_, q + (t.take (skipLength t)).length + start + length, Nat.le_add_right _ _, ?_, hstart, ?_⟩
    · simp only [List.length_append, List.length_cons] at hlen
      omega
    · rw [Nat.add_sub_cancel_left]
      rfl

/-! ## Refused tokens -/

namespace Grammar

variable {src line text : Bytes} {all : List Token} {span place : Span} {d : Diagnostic} {a before i j : Nat}

theorem Refused.inside {stop : Span} {lines : Bool} (h : Refused stop all lines (.diagnostic d))
    (hlaid : Laid src i all j) (hj : j ≤ src.length) (hstop : stop.Inside src)
    (hcommand : lines = true → ∀ line span, ⟨.command line, span⟩ ∈ all →
      Grammar.command span line = .error (.diagnostic d) → d.span.Inside src) : d.span.Inside src := by
  cases h with
  | atEnd cause => exact hstop
  | tokens hne hused cause =>
    obtain ⟨a, b, -, hb, hfills⟩ := hlaid.of_infix hused hne
    exact ⟨a, b, Nat.le_of_lt hfills.lt, Nat.le_trans hb hj, hfills.covers⟩
  | command hlines hmem h => exact hcommand hlines _ _ hmem h

theorem holeSpan_covers (ha : span.offset = .ofNat a) (before length : Nat) :
    (holeSpan span before length).Covers (a + before) (a + before + length) := by
  refine ⟨?_, ?_⟩
  · rw [holeSpan, ha, ← Int64.ofNat_add]
  · rw [Nat.add_sub_cancel_left]
    rfl

/-- A hole whose inside stands in the text two bytes behind the start of the hole. -/
theorem hole_inside {inside : Bytes} (hplace : place.Covers a (a + (inside.length + 3))) (hle : a + (inside.length + 3) ≤ src.length)
    (htext : src.HasAt (a + 2) inside) (h : hole place inside = .error (.diagnostic d)) : d.span.Inside src := by
  have hstart : (⟨place.offset + 2, place.line, place.column + 2⟩ : Cursor).offset = .ofNat (a + 2) := by
    rw [hplace.1, Int64.ofNat_add]
    rfl
  rw [hole] at h
  dsimp only at h
  cases hscan : (scanFrom ⟨place.offset + 2, place.line, place.column + 2⟩ inside).result with
  | error f =>
    rw [hscan] at h
    rw [Scanned.result] at hscan
    split at hscan
    · cases hscan
    · rename_i x hfault
      cases hscan
      cases h
      obtain ⟨i, j, hij, hj, hcovers⟩ := fault_inside hfault hstart
      exact ⟨i, j, hij, Nat.le_trans hj htext.le, hcovers⟩
  | ok toks =>
    rw [hscan] at h
    dsimp only at h
    split at h
    · cases h
      exact ⟨_, _, Nat.le_add_right _ _, hle, hplace⟩
    cases hwhole : wholeExpr (TokenStream.ofTokens toks) with
    | ok e =>
      rw [hwhole] at h
      cases h
    | error f =>
      have hrefused := wholeExpr_refused hwhole
      rw [hwhole] at h
      cases f with
      | defect x => cases h
      | diagnostic x =>
        cases h
        have htiled := tiled_of_result hscan
        have hlaid := htiled.laid hstart htext
        have hstop := htiled.stop_covers hstart
        exact hrefused.inside hlaid htext.le ⟨_, _, Nat.le_refl _, htext.le, hstop⟩ (fun hlines => by cases hlines)

/-- The rest of a command line that stands in the text `before` bytes behind the start of the command. -/
theorem holes_inside (ha : span.offset = .ofNat a) (htext : src.HasAt (a + before) text)
    (h : holes span before text = .error (.diagnostic d)) : d.span.Inside src := by
  fun_induction holes span before text with
  | case1 => cases h
  | case2 => cases h
  | case3 before text literal inside after hcut =>
    rename_i place ih
    obtain ⟨rfl, -, -⟩ := of_cut_hole hcut
    obtain ⟨hinside, hrest⟩ := htext.hole
    have hlength := hrest.le
    have hplace : place.Covers (a + (before + literal.length)) (a + (before + literal.length) + (inside.length + 3)) :=
      holeSpan_covers ha _ _
    rw [← Nat.add_assoc] at hplace
    have hbehind : a + before + literal.length + inside.length + 3 =
        a + (before + literal.length + inside.length + 3) := by
      omega
    rw [hbehind] at hrest
    cases hhole : hole place inside with
    | error f =>
      rw [hhole] at h
      cases h
      exact hole_inside hplace (by omega) hinside hhole
    | ok e =>
      simp only [hhole, Bind.bind, Except.bind] at h
      cases hs : !e.isStatic with
      | true =>
        rw [hs] at h
        cases h
        exact ⟨_, _, Nat.le_add_right _ _, by omega, hplace⟩
      | false =>
        rw [hs] at h
        cases hholes : holes span (before + literal.length + inside.length + 3) after with
        | error f =>
          simp only [hholes] at h
          cases h
          exact ih hrest hholes
        | ok parts =>
          simp only [hholes] at h
          cases h

theorem command_inside (hlaid : Laid src i all j) (hj : j ≤ src.length) (hmem : ⟨.command line, span⟩ ∈ all)
    (h : command span line = .error (.diagnostic d)) : d.span.Inside src := by
  obtain ⟨front, back, rfl⟩ := List.append_of_mem hmem
  obtain ⟨k, -, hlaid⟩ := hlaid.split
  cases hlaid with
  | cons hi hab hspan hl hback =>
    obtain ⟨-, hline⟩ := hasAt_of_command hl (Nat.le_trans hback.le hj)
    rw [command] at h
    cases hholes : holes span 1 line with
    | ok r =>
      rw [hholes] at h
      cases h
    | error f =>
      rw [hholes] at h
      cases h
      exact holes_inside hspan.1 hline hholes

end Grammar

/-- What is wrong with a text that is no program stands in that text, or at its end. -/
theorem Program.parse_inside {src : Bytes} {d : Diagnostic} (h : parse src = .error (.diagnostic d)) :
    d.span.Inside src := by
  have hstart : Cursor.start.offset = .ofNat 0 := rfl
  rw [parse, tokenize] at h
  cases hscan : (scanFrom .start src).result with
  | error f =>
    rw [hscan] at h
    rw [Scanned.result] at hscan
    split at hscan
    · cases hscan
    · rename_i x hfault
      cases hscan
      cases h
      have hinside := fault_inside hfault hstart
      rwa [Nat.zero_add] at hinside
  | ok toks =>
    rw [hscan] at h
    have hwhole := Bytes.hasAt_self src
    have htiled := tiled_of_result hscan
    have hlaid := htiled.laid hstart hwhole
    have hstop := htiled.stop_covers hstart
    have hrefused := Grammar.wholeBlock_refused _ List.suffix_rfl (ofTokens_eq_error.1 h)
    exact hrefused.inside hlaid hwhole.le ⟨_, _, Nat.le_refl _, hwhole.le, hstop⟩
      fun _ _ _ hmem hcommand => Grammar.command_inside hlaid hwhole.le hmem hcommand

end PackScript
