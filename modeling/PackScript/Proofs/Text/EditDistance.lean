import PackScript.Text.Suggestion

/-! # The distance between two texts

The distance is computed row by row from the beginnings of both texts. It is the least number of
single edits that lead from one text to the other, one after the other and in any places. Between
the two stands an alignment, which goes through both texts at once and edits each place once: edits
one after the other can be merged into one alignment that costs no more.
-/
namespace PackScript.Suggestion

/-- One character is inserted, deleted or replaced. -/
inductive Edit : List Char → List Char → Prop
  | insert (front back : List Char) (c : Char) : Edit (front ++ back) (front ++ c :: back)
  | delete (front back : List Char) (c : Char) : Edit (front ++ c :: back) (front ++ back)
  | replace (front back : List Char) (c d : Char) : Edit (front ++ c :: back) (front ++ d :: back)

/-- So many edits, one after the other. -/
inductive Edits : Nat → List Char → List Char → Prop
  | none (s : List Char) : Edits 0 s s
  | more {n : Nat} {s t u : List Char} (h : Edit s t) (later : Edits n t u) : Edits (n + 1) s u

/-- The least number of edits that turn one text into the other. -/
structure IsEditDistance (s t : List Char) (d : Nat) : Prop where
  enough : Edits d s t
  least : ∀ n, Edits n s t → d ≤ n

/-! ## Alignments -/

/-- The texts are gone through side by side; `n` characters are inserted, deleted or replaced. -/
inductive Aligned : Nat → List Char → List Char → Prop
  | nil : Aligned 0 [] []
  | keep {n : Nat} {s t : List Char} (c : Char) (h : Aligned n s t) : Aligned n (c :: s) (c :: t)
  | insert {n : Nat} {s t : List Char} (c : Char) (h : Aligned n s t) : Aligned (n + 1) s (c :: t)
  | delete {n : Nat} {s t : List Char} (c : Char) (h : Aligned n s t) : Aligned (n + 1) (c :: s) t
  | replace {n : Nat} {s t : List Char} (c d : Char) (h : Aligned n s t) : Aligned (n + 1) (c :: s) (d :: t)

/-- The least number of characters that an alignment changes. -/
structure IsCost (s t : List Char) (d : Nat) : Prop where
  enough : Aligned d s t
  least : ∀ n, Aligned n s t → d ≤ n

namespace Aligned

variable {m n : Nat} {s t u s' t' : List Char}

theorem refl (s : List Char) : Aligned 0 s s := by
  induction s with
  | nil => exact .nil
  | cons c s ih => exact .keep c ih

theorem append (h : Aligned m s t) (h' : Aligned n s' t') : Aligned (m + n) (s ++ s') (t ++ t') := by
  induction h with
  | nil => rwa [Nat.zero_add]
  | keep c _ ih => exact .keep c ih
  | insert c _ ih =>
    rw [Nat.add_right_comm]
    exact .insert c ih
  | delete c _ ih =>
    rw [Nat.add_right_comm]
    exact .delete c ih
  | replace c d _ ih =>
    rw [Nat.add_right_comm]
    exact .replace c d ih

theorem reverse (h : Aligned n s t) : Aligned n s.reverse t.reverse := by
  induction h with
  | nil => exact .nil
  | keep c _ ih =>
    rw [List.reverse_cons, List.reverse_cons]
    exact ih.append (.refl [c])
  | insert c _ ih =>
    rw [List.reverse_cons]
    simpa using ih.append (.insert c .nil)
  | delete c _ ih =>
    rw [List.reverse_cons]
    simpa using ih.append (.delete c .nil)
  | replace c d _ ih =>
    rw [List.reverse_cons, List.reverse_cons]
    exact ih.append (.replace c d .nil)

theorem insert_all (t : List Char) : Aligned t.length [] t := by
  induction t with
  | nil => exact .nil
  | cons c t ih => exact .insert c ih

theorem length_right_le (h : Aligned n s t) : t.length ≤ n + s.length := by
  induction h <;> grind

theorem length_left_le (h : Aligned n s t) : s.length ≤ n + t.length := by
  induction h <;> grind

/-- What the first character is aligned with comes first. -/
theorem split_cons {c : Char} (h : Aligned n (c :: s) u) :
    ∃ k l v w, n = k + l ∧ u = v ++ w ∧ Aligned k [c] v ∧ Aligned l s w := by
  generalize hw : c :: s = w at h
  induction h with
  | nil => cases hw
  | @keep n s u c h _ =>
    cases hw
    exact ⟨0, n, [c], u, (Nat.zero_add n).symm, rfl, .refl [c], h⟩
  | insert d _ ih =>
    obtain ⟨k, l, v, w, rfl, rfl, hv, hw⟩ := ih hw
    exact ⟨k + 1, l, d :: v, w, Nat.add_right_comm k l 1, rfl, .insert d hv, hw⟩
  | @delete n s u c h _ =>
    cases hw
    exact ⟨1, n, [], u, Nat.add_comm n 1, rfl, .delete c .nil, h⟩
  | @replace n s u c d h _ =>
    cases hw
    exact ⟨1, n, [d], u, Nat.add_comm n 1, rfl, .replace c d .nil, h⟩

/-- An alignment of two texts put together is two alignments put together. -/
theorem split (h : Aligned n (s ++ s') u) :
    ∃ k l v w, n = k + l ∧ u = v ++ w ∧ Aligned k s v ∧ Aligned l s' w := by
  induction s generalizing n u with
  | nil => exact ⟨0, n, [], u, (Nat.zero_add n).symm, rfl, .nil, h⟩
  | cons c s ih =>
    obtain ⟨k, _, v, _, rfl, rfl, hv, h⟩ := split_cons h
    obtain ⟨l, m, w, x, rfl, rfl, hw, hx⟩ := ih h
    exact ⟨k + l, m, v ++ w, x, (Nat.add_assoc k l m).symm, (List.append_assoc v w x).symm,
      hv.append hw, hx⟩

/-- One character can be aligned with what another is aligned with, for one more change. -/
theorem exchange (c : Char) {d : Char} (h : Aligned n [d] t) : ∃ k ≤ n + 1, Aligned k [c] t := by
  have hlength := h.length_right_le
  have hleft := h.length_left_le
  -- The first character of `t`, if there is one, replaces `c`, and the others are inserted.
  cases t with
  | nil => exact ⟨1, by omega, .delete c .nil⟩
  | cons e t => exact ⟨t.length + 1, by simpa using hlength, .replace c e (insert_all t)⟩

/-- An edit before an alignment is one more change at most. -/
theorem after_edit (hedit : Edit s t) (h : Aligned n t u) : ∃ k ≤ n + 1, Aligned k s u := by
  cases hedit with
  | insert front back c =>
    -- What the inserted character was aligned with, one character more than was changed there at
    -- most, is inserted instead.
    obtain ⟨k, _, v, _, rfl, rfl, hv, h⟩ := h.split
    obtain ⟨l, m, w, x, rfl, rfl, hw, hx⟩ := h.split_cons
    have hlength := hw.length_right_le
    exact ⟨k + (w.length + m), by grind, hv.append ((insert_all w).append hx)⟩
  | delete front back c =>
    obtain ⟨k, l, v, w, rfl, rfl, hv, hw⟩ := h.split
    exact ⟨k + (l + 1), by omega, hv.append (.delete c hw)⟩
  | replace front back c d =>
    obtain ⟨k, _, v, _, rfl, rfl, hv, h⟩ := h.split
    obtain ⟨l, m, w, x, rfl, rfl, hw, hx⟩ := h.split_cons
    obtain ⟨l', hl, hw⟩ := hw.exchange c
    exact ⟨k + (l' + m), by omega, hv.append (hw.append hx)⟩

end Aligned

/-! ## Edits and alignments -/

variable {n d : Nat} {s t : List Char}

theorem Edit.cons (c : Char) (h : Edit s t) : Edit (c :: s) (c :: t) := by
  cases h with
  | insert front back d => exact .insert (c :: front) back d
  | delete front back d => exact .delete (c :: front) back d
  | replace front back d e => exact .replace (c :: front) back d e

theorem Edits.cons (c : Char) (h : Edits n s t) : Edits n (c :: s) (c :: t) := by
  induction h with
  | none s => exact .none (c :: s)
  | more h _ ih => exact .more (h.cons c) ih

theorem Aligned.edits (h : Aligned n s t) : Edits n s t := by
  induction h with
  | nil => exact .none []
  | keep c _ ih => exact ih.cons c
  | insert c _ ih => exact .more (.insert [] _ c) (ih.cons c)
  | delete c _ ih => exact .more (.delete [] _ c) ih
  | replace c d _ ih => exact .more (.replace [] _ c d) (ih.cons d)

theorem Edits.aligned (h : Edits n s t) : ∃ k ≤ n, Aligned k s t := by
  induction h with
  | none s => exact ⟨0, Nat.le_refl 0, .refl s⟩
  | more hedit _ ih =>
    obtain ⟨k, hk, ha⟩ := ih
    obtain ⟨l, hl, hb⟩ := ha.after_edit hedit
    exact ⟨l, by omega, hb⟩

theorem IsCost.isEditDistance (h : IsCost s t d) : IsEditDistance s t d := by
  refine ⟨h.enough.edits, fun n hn => ?_⟩
  obtain ⟨k, hk, ha⟩ := hn.aligned
  exact Nat.le_trans (h.least k ha) hk

theorem IsCost.of_reverse (h : IsCost s.reverse t.reverse d) : IsCost s t d := by
  refine ⟨by simpa using h.enough.reverse, fun n hn => h.least n hn.reverse⟩

/-! ## The rows of the table

The table is filled from the beginnings of the texts on, so that a row stands for the text so far
read backwards. -/

theorem isCost_insert_all (t : List Char) : IsCost [] t t.length :=
  ⟨.insert_all t, fun _ h => h.length_right_le⟩

theorem IsCost.delete_all (a : Char) (h : IsCost s [] d) : IsCost (a :: s) [] (d + 1) := by
  refine ⟨.delete a h.enough, fun n hn => ?_⟩
  cases hn with
  | delete _ hn => exact Nat.succ_le_succ (h.least _ hn)

/-- One entry of the table, from the three before it. -/
theorem isCost_entry {a b : Char} {left up diagonal : Nat} (hleft : IsCost (a :: s) t left)
    (hup : IsCost s (b :: t) up) (hdiagonal : IsCost s t diagonal) :
    IsCost (a :: s) (b :: t)
      (min (min (left + 1) (up + 1)) (if a = b then diagonal else diagonal + 1)) := by
  have hinsert := Aligned.insert b hleft.enough
  have hdelete := Aligned.delete a hup.enough
  constructor
  · split
    case isTrue hab =>
      subst hab
      have hkeep := Aligned.keep a hdiagonal.enough
      grind
    case isFalse =>
      have hreplace := Aligned.replace a b hdiagonal.enough
      grind
  · intro n hn
    cases hn with
    | keep _ hn =>
      have := hdiagonal.least _ hn
      grind
    | insert _ hn =>
      have := hleft.least _ hn
      omega
    | delete _ hn =>
      have := hup.least _ hn
      omega
    | replace _ _ hn =>
      have := hdiagonal.least _ hn
      grind

/-- The costs from `s` to each of the texts that `bs` extends `t` to. -/
inductive IsRow (s : List Char) : (t bs : List Char) → List Nat → Prop
  | nil (t : List Char) : IsRow s t [] []
  | cons {t bs : List Char} {b : Char} {d : Nat} {row : List Nat} (h : IsCost s (b :: t) d)
      (rest : IsRow s (b :: t) bs row) : IsRow s t (b :: bs) (d :: row)

variable {bs : List Char} {row : List Nat}

theorem isRow_start (t bs : List Char) : IsRow [] t bs (List.range' (t.length + 1) bs.length) := by
  induction bs generalizing t with
  | nil => exact .nil t
  | cons b bs ih => exact .cons (isCost_insert_all (b :: t)) (ih (b :: t))

theorem isRow_next (a : Char) {left diagonal : Nat} (hleft : IsCost (a :: s) t left)
    (hdiagonal : IsCost s t diagonal) (h : IsRow s t bs row) :
    IsRow (a :: s) t bs (distanceRow a left diagonal bs row) := by
  induction h generalizing left diagonal with
  | nil t => exact .nil t
  | cons hup _ ih =>
    have hentry := isCost_entry hleft hup hdiagonal
    exact .cons hentry (ih hentry hup)

theorem IsRow.getLast (hcorner : IsCost s t d) (h : IsRow s t bs row) :
    IsCost s (bs.reverse ++ t) ((d :: row).getLastD 0) := by
  induction h generalizing d with
  | nil t => exact hcorner
  | @cons t bs b _ _ h _ ih =>
    rw [List.reverse_cons, List.append_assoc]
    exact ih h

theorem isCost_distanceRows (as : List Char) (hcorner : IsCost s [] d) (h : IsRow s [] bs row) :
    IsCost (as.reverse ++ s) bs.reverse ((distanceRows (d :: row) as bs).getLastD 0) := by
  induction as generalizing s d row with
  | nil => simpa [distanceRows] using h.getLast hcorner
  | cons a as ih =>
    rw [List.reverse_cons, List.append_assoc]
    have hcorner' := hcorner.delete_all a
    exact ih hcorner' (isRow_next a hcorner' hcorner h)

/-- The distance is the least number of edits that lead from the one text to the other. -/
theorem isEditDistance_distance (s t : Bytes) :
    IsEditDistance (Utf8.chars s) (Utf8.chars t) (distance s t) := by
  apply IsCost.isEditDistance
  apply IsCost.of_reverse
  have h := isCost_distanceRows (Utf8.chars s) (isCost_insert_all []) (isRow_start [] (Utf8.chars t))
  rw [List.append_nil] at h
  rwa [distance, List.range_eq_range', List.range'_succ]

end PackScript.Suggestion
