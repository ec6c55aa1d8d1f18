import PackScript.Proofs.Syntax.ExprDerivation
import PackScript.Proofs.Syntax.HoleReading

/-! # Derivations of command lines

A command line is split at its holes into exactly the parts that the grammar derives.
-/
namespace PackScript.Grammar

variable {text tail literal inside after : Bytes} {span : Span} {before : Nat}
  {parts : List (Bytes × Expr)} {e : Expr}

/-! ## The first hole -/

theorem unbroken_nil : Unbroken [] := by
  rw [Unbroken, List.infix_nil]
  simp

theorem unbroken_cons {b : UInt8} {t : Bytes} :
    Unbroken (b :: t) ↔ ¬(b = 35 ∧ t.head? = some 123) ∧ Unbroken t := by
  have hhead : [123] <+: t ↔ t.head? = some 123 := by
    cases t with
    | nil => simp
    | cons c t => simp [eq_comm]
  rw [Unbroken, List.infix_cons_iff, not_or, List.cons_prefix_cons, hhead, eq_comm, Unbroken]

theorem cut_of_unbroken (h : Unbroken text) : cut text = .plain text := by
  induction text with
  | nil => rfl
  | cons b t ih =>
    obtain ⟨hb, ht⟩ := unbroken_cons.1 h
    rw [cut, if_neg hb, ih ht, Cut.cons]

theorem cut_append_holeText (h : Unbroken literal) (hin : IsInside inside) (after : Bytes) :
    cut (literal ++ holeText inside after) = .hole literal inside after := by
  induction literal with
  | nil => exact (Stretch.nil 0).cut_append_holeText hin after
  | cons b t ih =>
    obtain ⟨hb, ht⟩ := unbroken_cons.1 h
    have hb' : ¬(b = 35 ∧ (t ++ holeText inside after).head? = some 123) := by
      rintro ⟨hhash, hbrace⟩
      cases t with
      | nil => simp [holeText] at hbrace
      | cons c t => exact hb ⟨hhash, hbrace⟩
    rw [List.cons_append, cut, if_neg hb', ih ht, Cut.cons]

theorem of_cut_plain (h : cut text = .plain tail) : tail = text ∧ Unbroken text := by
  induction text generalizing tail with
  | nil =>
    cases h
    exact ⟨rfl, unbroken_nil⟩
  | cons b t ih =>
    rw [cut] at h
    split at h
    · split at h <;> cases h
    · rename_i hb
      cases hc : cut t with
      | plain tail' =>
        rw [hc] at h
        cases h
        obtain ⟨rfl, ht⟩ := ih hc
        exact ⟨rfl, unbroken_cons.2 ⟨hb, ht⟩⟩
      | hole l i a =>
        rw [hc] at h
        cases h
      | unclosed =>
        rw [hc] at h
        cases h

theorem of_cut_hole (h : cut text = .hole literal inside after) :
    text = literal ++ holeText inside after ∧ Unbroken literal ∧ IsInside inside := by
  induction text generalizing literal with
  | nil => cases h
  | cons b t ih =>
    rw [cut] at h
    split at h
    · rename_i hb
      obtain ⟨rfl, hhead⟩ := hb
      cases t with
      | nil => cases hhead
      | cons c t =>
        cases hhead
        rw [List.drop_one, List.tail_cons] at h
        split at h
        · cases h
        · rename_i n hend
          obtain ⟨inside', after', rfl, rfl, hrest⟩ := holeEnd?_split hend
          rw [drop_behind_hole, List.take_left] at h
          cases h
          exact ⟨rfl, unbroken_nil, hrest []⟩
    · rename_i hb
      cases hc : cut t with
      | plain tail' =>
        rw [hc] at h
        cases h
      | hole l i a =>
        rw [hc] at h
        cases h
        obtain ⟨rfl, hl, hin⟩ := ih hc
        refine ⟨rfl, unbroken_cons.2 ⟨?_, hl⟩, hin⟩
        rintro ⟨hhash, hbrace⟩
        exact hb ⟨hhash, head?_of_append hbrace⟩
      | unclosed =>
        rw [hc] at h
        cases h

/-! ## All the holes -/

theorem hole_eq_ok {before length : Nat} : hole (holeSpan span before length) inside = .ok e ↔
    ∃ toks, (scanFrom (holeStart span before) inside).result = .ok toks ∧
      IsExpr (TokenStream.ofTokens toks).tokens e := by
  have hstart : (⟨(holeSpan span before length).offset + 2, (holeSpan span before length).line,
      (holeSpan span before length).column + 2⟩ : Cursor) = holeStart span before := rfl
  rw [hole]
  dsimp only
  rw [hstart]
  cases hscan : (scanFrom (holeStart span before) inside).result with
  | error f => simp
  | ok toks =>
    have hproper : AllProper (TokenStream.ofTokens toks).tokens := proper_of_scanFrom hscan
    simp only [Except.ok.injEq, exists_eq_left']
    constructor
    · intro h
      split at h
      · cases h
      split at h
      · cases h
      · rename_i e' hwhole
        cases h
        obtain ⟨used, hused, he⟩ := expr_derived hproper (wholeExpr_eq_ok.1 hwhole)
        rw [List.append_nil] at hused
        rwa [hused]
    · intro he
      have hread := he.reads (TokenStream.ofTokens toks).stop [] ⟨by simp, by simp, by simp⟩
      rw [List.append_nil] at hread
      rw [if_neg (by simpa using he.covers.ne_nil), wholeExpr_eq_ok.2 hread]

theorem holes_derived {before : Nat} {text : Bytes} {parts : List (Bytes × Expr)}
    (h : holes span before text = .ok (parts, tail)) :
    IsInterpolated span before text parts tail := by
  cases hc : cut text with
  | plain tail' =>
    rw [holes_of_plain hc] at h
    cases h
    obtain ⟨rfl, htext⟩ := of_cut_plain hc
    exact .plain htext
  | unclosed =>
    rw [holes] at h
    split at h
    · rename_i hcut
      cases hc.symm.trans hcut
    · cases h
    · rename_i hcut
      cases hc.symm.trans hcut
  | hole literal inside after =>
    obtain ⟨e, rest, he, hs, hrest, rfl⟩ := (holes_of_hole hc).1 h
    obtain ⟨toks, hscan, hexpr⟩ := hole_eq_ok.1 he
    have hshorter := cut_hole_length hc
    have hparts := holes_derived hrest
    obtain ⟨rfl, hl, hin⟩ := of_cut_hole hc
    exact .hole hl hin hscan hexpr hs hparts
termination_by text.length

theorem IsInterpolated.holes_eq (h : IsInterpolated span before text parts tail) :
    holes span before text = .ok (parts, tail) := by
  induction h with
  | plain h => exact holes_of_plain (cut_of_unbroken h)
  | hole hl hin hscan he hs h ih =>
    refine (holes_of_hole (cut_append_holeText hl hin _)).2 ⟨_, _, ?_, hs, ih, rfl⟩
    exact hole_eq_ok.2 ⟨_, hscan, he⟩

end PackScript.Grammar
