import PackScript.Proofs.Syntax.PrintedText

/-! # Texts that show where they end

Several things written one behind the other can be told apart again if each text, read from the
front, shows what was written and where it ends. That may depend on what follows: a name ends
where no letter follows, a storage literal in quotes ends by itself.
-/
namespace PackScript

/-- In front of texts with the property `ends`, the text of a thing with the property `P` shows the
thing and where the text ends. -/
def Legible {α : Type} (P : α → Prop) (ends : Bytes → Prop) (write : α → Bytes) : Prop :=
  ∀ ⦃a b : α⦄, P a → P b → ∀ ⦃u v : Bytes⦄, ends u → ends v → write a ++ u = write b ++ v → a = b ∧ u = v

namespace Legible

variable {α : Type} {P : α → Prop} {ends : Bytes → Prop} {write : α → Bytes}

theorem weaken {Q : α → Prop} {ends' : Bytes → Prop} (h : Legible P ends write) (hP : ∀ a, Q a → P a)
    (hends : ∀ u, ends' u → ends u) : Legible Q ends' write :=
  fun a b ha hb u v hu hv => h (hP a ha) (hP b hb) (hends u hu) (hends v hv)

/-- A text made of bytes of one class ends in front of a byte that is not in the class. -/
theorem of_class (p : UInt8 → Bool) (hinj : ∀ a b, P a → P b → write a = write b → a = b)
    (hclass : ∀ a, P a → ∀ c ∈ write a, p c = true) :
    Legible P (fun u => ∀ c ∈ u.head?, p c = false) write := by
  have htake {t u : Bytes} (ht : ∀ c ∈ t, p c = true) (hu : ∀ c ∈ u.head?, p c = false) :
      (t ++ u).takeWhile p = t := by
    have hstop : u.takeWhile p = [] := by
      cases u with
      | nil => rfl
      | cons c u => exact List.takeWhile_cons_of_neg (by simp [hu c rfl])
    rw [List.takeWhile_append_of_pos ht, hstop, List.append_nil]
  intro a b ha hb u v hu hv h
  have htext : write a = write b := by
    rw [← htake (hclass a ha) hu, h, htake (hclass b hb) hv]
  rw [htext] at h
  exact ⟨hinj a b ha hb htext, List.append_cancel_left h⟩

/-- The things one after the other, up to a text that does not start like one of them. -/
theorem flatMap {next : Bytes → Prop} (h : Legible P next write) (hends : ∀ u, ends u → next u)
    (hnext : ∀ a, P a → ∀ u, next (write a ++ u)) (hstop : ∀ a, P a → ∀ u, ¬ends (write a ++ u)) :
    Legible (fun as : List α => ∀ a ∈ as, P a) ends fun as => as.flatMap write := by
  have hlater {as : List α} (ha : ∀ a ∈ as, P a) {u : Bytes} (hu : ends u) : next (as.flatMap write ++ u) := by
    cases as with
    | nil => exact hends u hu
    | cons a as =>
      rw [List.flatMap_cons, List.append_assoc]
      exact hnext a (ha a List.mem_cons_self) _
  intro as
  induction as with
  | nil =>
    intro bs _ hb u v hu hv heq
    cases bs with
    | nil => exact ⟨rfl, heq⟩
    | cons b bs =>
      obtain rfl : u = write b ++ (bs.flatMap write ++ v) := by simpa using heq
      exact absurd hu (hstop b (hb b List.mem_cons_self) _)
  | cons a as ih =>
    intro bs ha hb u v hu hv heq
    cases bs with
    | nil =>
      obtain rfl : write a ++ (as.flatMap write ++ u) = v := by simpa using heq
      exact absurd hv (hstop a (ha a List.mem_cons_self) _)
    | cons b bs =>
      rw [List.forall_mem_cons] at ha hb
      have hrest : write a ++ (as.flatMap write ++ u) = write b ++ (bs.flatMap write ++ v) := by
        simpa using heq
      obtain ⟨rfl, hafter⟩ := h ha.1 hb.1 (hlater ha.2 hu) (hlater hb.2 hv) hrest
      obtain ⟨rfl, huv⟩ := ih ha.2 hb.2 hu hv hafter
      exact ⟨rfl, huv⟩

/-- The things one after the other, each behind a separator. -/
def behind (sep : UInt8) (write : α → Bytes) (as : List α) : Bytes := as.flatMap fun a => sep :: write a

theorem ends_behind {u : Bytes} (hu : ends u) (sep : UInt8) (write : α → Bytes) (as : List α) :
    (behind sep write as ++ u).head? = some sep ∨ ends (behind sep write as ++ u) := by
  cases as with
  | nil => exact .inr hu
  | cons a as => exact .inl rfl

theorem behind_legible {sep : UInt8} (h : Legible P (fun u => u.head? = some sep ∨ ends u) write)
    (hsep : ∀ u, ends u → u.head? ≠ some sep) :
    Legible (fun as : List α => ∀ a ∈ as, P a) ends (behind sep write) := by
  have hitem : Legible P (fun u => u.head? = some sep ∨ ends u) fun a => sep :: write a := by
    intro a b ha hb u v hu hv heq
    exact h ha hb hu hv (List.cons.inj heq).2
  exact hitem.flatMap (fun _ => .inr) (fun _ _ _ => .inl rfl) fun _ _ _ hu => hsep _ hu rfl

theorem join_cons_eq (sep : UInt8) (write : α → Bytes) (a : α) (as : List α) (u : Bytes) :
    Bytes.join [sep] ((a :: as).map write) ++ u = write a ++ (behind sep write as ++ u) := by
  rw [List.map_cons, join_cons, List.flatMap_map, List.append_assoc]
  rfl

/-- A list with separators between neighbours, up to a text that starts neither with a separator nor
like one of the things. -/
theorem join {sep : UInt8} (h : Legible P (fun u => u.head? = some sep ∨ ends u) write)
    (hsep : ∀ u, ends u → u.head? ≠ some sep) (hne : ∀ a, P a → ∀ u, ¬ends (write a ++ u)) :
    Legible (fun as : List α => ∀ a ∈ as, P a) ends fun as => Bytes.join [sep] (as.map write) := by
  intro as bs ha hb u v hu hv heq
  dsimp only at heq
  cases as with
  | nil =>
    cases bs with
    | nil => exact ⟨rfl, heq⟩
    | cons b bs =>
      rw [join_cons_eq] at heq
      obtain rfl : u = _ := heq
      exact absurd hu (hne b (hb b List.mem_cons_self) _)
  | cons a as =>
    cases bs with
    | nil =>
      rw [join_cons_eq] at heq
      obtain rfl : _ = v := heq
      exact absurd hv (hne a (ha a List.mem_cons_self) _)
    | cons b bs =>
      rw [List.forall_mem_cons] at ha hb
      rw [join_cons_eq, join_cons_eq] at heq
      obtain ⟨rfl, hlater⟩ := h ha.1 hb.1 (ends_behind hu sep write as) (ends_behind hv sep write bs) heq
      obtain ⟨rfl, huv⟩ := h.behind_legible hsep ha.2 hb.2 hu hv hlater
      exact ⟨rfl, huv⟩

end Legible

/-! ## Names and numbers -/

theorem legible_word : Legible IsWord EndsWord id := by
  intro w w' hw hw' u v hu hv h
  have hlength : w.length = w'.length := by
    rw [← wordLength_append hw hu, ← wordLength_append hw' hv]
    exact congrArg Scan.wordLength h
  exact List.append_inj h hlength

/-- A name shows its sigil and ends where a word ends. -/
theorem legible_name : Legible (fun n : Name => IsWord n.text) EndsWord Name.render := by
  have hsigil {w u v : Bytes} (hw : IsWord w) : 36 :: u ≠ w ++ v := by
    obtain ⟨b, stem, primes, rfl, hb, -, -⟩ := hw
    intro h
    obtain ⟨rfl, -⟩ := List.cons.inj h
    exact absurd hb (by decide)
  rintro ⟨w, d⟩ ⟨w', d'⟩ hw hw' u v hu hv h
  cases d <;> cases d'
  · obtain ⟨rfl, huv⟩ := legible_word hw hw' hu hv h
    exact ⟨rfl, huv⟩
  · exact absurd h.symm (hsigil hw)
  · exact absurd h (hsigil hw')
  · obtain ⟨rfl, huv⟩ := legible_word hw hw' hu hv (List.cons.inj h).2
    exact ⟨rfl, huv⟩

theorem Typing.isWord_render (ty : Typing) : IsWord ty.render := ty.proper_render.1

theorem legible_typing : Legible (fun _ : Typing => True) EndsWord Typing.render := by
  intro ty ty' _ _ u v hu hv h
  obtain ⟨hrender, huv⟩ := legible_word ty.isWord_render ty'.isWord_render hu hv h
  have hinj : ty.render = ty'.render → ty = ty' := by
    cases ty <;> cases ty' <;> decide
  exact ⟨hinj hrender, huv⟩

theorem Decimal.ofNat_injective {m n : Nat} (h : ofNat m = ofNat n) : m = n := by
  rw [← value_ofNat m, h, value_ofNat]

theorem legible_decimal :
    Legible (fun _ : Nat => True) (fun u => ∀ c ∈ u.head?, Decimal.isDigit c = false) Decimal.ofNat :=
  .of_class Decimal.isDigit (fun _ _ _ _ => Decimal.ofNat_injective) fun n _ => (Decimal.isNumeral_ofNat n).2

end PackScript
