import PackScript.Proofs.Syntax.Lexemes

/-! # Numerals

A numeral without a sign denotes a number that is not negative, and every such number of 32
bits is what its own numeral denotes.
-/
namespace PackScript.Decimal

theorem isDigit_toUInt8 {c : Char} (h : c.isDigit = true) :
    isDigit c.toUInt8 = true ∧ c.toUInt8.toNat = c.toNat := by
  have hrange : 48 ≤ c.toNat ∧ c.toNat ≤ 57 := by
    simp only [Char.isDigit, ge_iff_le, Bool.and_eq_true, decide_eq_true_eq,
      UInt32.le_iff_toNat_le] at h
    exact h
  have hnat : c.toUInt8.toNat = c.toNat := by
    rw [Char.toUInt8, UInt32.toNat_toUInt8]
    exact Nat.mod_eq_of_lt (Nat.lt_of_le_of_lt hrange.2 (by decide))
  refine ⟨?_, hnat⟩
  simp only [isDigit, Bool.and_eq_true, decide_eq_true_eq, UInt8.le_iff_toNat_le, hnat]
  exact hrange

theorem isNumeral_ofNat (n : Nat) : IsNumeral (ofNat n) := by
  constructor
  · exact fun h => Nat.toDigits_ne_nil (List.map_eq_nil_iff.1 h)
  · intro b hb
    obtain ⟨c, hc, rfl⟩ := List.mem_map.1 hb
    exact (isDigit_toUInt8 (Nat.isDigit_of_mem_toDigits (by decide) (by decide) hc)).1

theorem value_ofNat (n : Nat) : value (ofNat n) = n := by
  have hdigits : ∀ c ∈ Nat.toDigits 10 n, c.toUInt8.toNat = c.toNat := fun c hc =>
    (isDigit_toUInt8 (Nat.isDigit_of_mem_toDigits (by decide) (by decide) hc)).2
  have hfold : ∀ (cs : List Char) (acc : Nat), (∀ c ∈ cs, c.toUInt8.toNat = c.toNat) →
      cs.foldl (fun m c => 10 * m + (c.toUInt8.toNat - 48)) acc = Nat.ofDigitChars 10 cs acc := by
    intro cs
    induction cs with
    | nil => intros; rfl
    | cons c cs ih =>
      intro acc hcs
      rw [List.foldl_cons, hcs c List.mem_cons_self, ih _ fun d hd => hcs d (List.mem_cons_of_mem c hd),
        Nat.ofDigitChars_cons]
      rfl
  rw [value, ofNat, List.foldl_map, hfold _ _ hdigits]
  exact Nat.ofDigitChars_toDigits (by decide) (by decide)

theorem signed?_of_isNumeral {t : Bytes} (h : IsNumeral t) : signed? t = some (value t : Int) := by
  have hunsigned : unsigned? t = some (value t) := by
    rw [unsigned?, if_pos ⟨h.1, List.all_eq_true.2 h.2⟩]
  fun_cases signed? t with
  | case1 => exact absurd (h.2 43 List.mem_cons_self) (by decide)
  | case2 => exact absurd (h.2 45 List.mem_cons_self) (by decide)
  | case3 => rw [hunsigned, Option.map_some, Int.ofNat_eq_natCast]

theorem int32?_ofInt {i : Int32} (h : 0 ≤ i.toInt) : int32? (ofInt i.toInt) = some i := by
  obtain ⟨n, hn⟩ := Int.eq_ofNat_of_zero_le h
  have hlow := i.le_toInt
  have hhigh := i.toInt_lt
  have htext : ofInt i.toInt = ofNat n := by
    rw [hn]
    rfl
  rw [htext, int32?, signed?_of_isNumeral (isNumeral_ofNat n), value_ofNat]
  dsimp only
  rw [if_pos (by omega), ← hn, Int32.ofInt_toInt]

theorem nonneg_of_int32? {t : Bytes} {i : Int32} (ht : IsNumeral t) (h : int32? t = some i) :
    0 ≤ i.toInt := by
  rw [int32?, signed?_of_isNumeral ht] at h
  dsimp only at h
  split at h
  · rename_i hrange
    cases h
    rw [Int32.toInt_ofInt_of_le (by omega) (by omega)]
    exact Int.natCast_nonneg _
  · cases h

end PackScript.Decimal
