import PackScript.Generate.Visible
import PackScript.Proofs.Syntax.Legible

/-! # What the text of a key shows

A key for the calls that share a generated body is a list of values and observations, written one
behind the other with commas between them. A string among the values may hold any bytes, commas and
quotes included, and the three kinds of items have no tags of their own. Still the key can be read
back from the front: an item starts with a name, the byte after it tells the kind, and a string
ends at the first quote that is not escaped.
-/
namespace PackScript

/-- The end of a key, or the comma before its next item. -/
def EndsItem (u : Bytes) : Prop := u.head? = some 44 ∨ u = []

theorem EndsItem.head {u : Bytes} (h : EndsItem u) : ∀ c ∈ u.head?, c = 44 := by
  intro c hc
  rcases h with h | rfl
  · rw [h] at hc
    exact (Option.some.inj hc).symm
  · cases hc

theorem not_endsItem_cons {b : UInt8} (hb : b ≠ 44) (u : Bytes) : ¬EndsItem (b :: u) :=
  fun h => hb (h.head b rfl)

/-! ## Values -/

theorem Decimal.ofInt_injective {i j : Int} (h : ofInt i = ofInt j) : i = j := by
  have hsign {m n : Nat} : ofNat m ≠ "-" ++ ofNat n := by
    intro heq
    have hdigit := (isNumeral_ofNat m).2 45 (by rw [heq]; exact List.mem_cons_self)
    exact absurd hdigit (by decide)
  cases i with
  | ofNat m =>
    cases j with
    | ofNat n => rw [ofNat_injective h]
    | negSucc n => exact absurd h hsign
  | negSucc m =>
    cases j with
    | ofNat n => exact absurd h.symm hsign
    | negSucc n => rw [Nat.succ.inj (ofNat_injective (List.cons.inj h).2)]

theorem Decimal.isDigit_of_mem_ofInt {i : Int} {c : UInt8} (hc : c ∈ ofInt i) : (isDigit c || c = 45) = true := by
  cases i with
  | ofNat n => simp [(isNumeral_ofNat n).2 c hc]
  | negSucc n =>
    rcases List.mem_cons.1 hc with rfl | hc
    · rfl
    · simp [(isNumeral_ofNat (n + 1)).2 c hc]

theorem legible_int : Legible (fun _ : Int32 => True) EndsItem fun i => Decimal.ofInt i.toInt := by
  have hinj (i j : Int32) (h : Decimal.ofInt i.toInt = Decimal.ofInt j.toInt) : i = j :=
    Int32.toInt_inj.1 (Decimal.ofInt_injective h)
  have hclass := Legible.of_class (fun c => Decimal.isDigit c || c = 45) (fun i j _ _ => hinj i j)
    fun (i : Int32) (_ : True) c => Decimal.isDigit_of_mem_ofInt
  refine hclass.weaken (fun _ => id) fun u hu c hc => ?_
  rw [hu.head c hc]
  rfl

namespace Value

/-- The value has a typing, or it is the one that stands for no value. -/
def Settled (v : Value) : Prop := ∀ s, v = .untyped s → s = []

/-- The byte that is meant by `x` behind a backslash. -/
def unescape (x : UInt8) : UInt8 := if x = 110 then 10 else if x = 116 then 9 else if x = 114 then 13 else x

theorem escapeByte_cases (b : UInt8) :
    (escapeByte b = [b] ∧ b ≠ 92 ∧ b ≠ 34) ∨ ∃ x, escapeByte b = [92, x] ∧ b = unescape x := by
  by_cases hspecial : b = 92 ∨ b = 34 ∨ b = 10 ∨ b = 9 ∨ b = 13
  · rcases hspecial with rfl | rfl | rfl | rfl | rfl
    · exact .inr ⟨92, rfl, rfl⟩
    · exact .inr ⟨34, rfl, rfl⟩
    · exact .inr ⟨110, rfl, rfl⟩
    · exact .inr ⟨116, rfl, rfl⟩
    · exact .inr ⟨114, rfl, rfl⟩
  · simp only [not_or] at hspecial
    refine .inl ⟨?_, hspecial.1, hspecial.2.1⟩
    simp [escapeByte, hspecial]

theorem legible_escapeByte : Legible (fun _ : UInt8 => True) (fun _ => True) escapeByte := by
  intro a b _ _ u v _ _ h
  rcases escapeByte_cases a with ⟨ha, hne, -⟩ | ⟨x, ha, rfl⟩ <;>
    rcases escapeByte_cases b with ⟨hb, hne', -⟩ | ⟨y, hb, rfl⟩ <;> rw [ha, hb] at h
  · exact List.cons.inj h
  · exact absurd (List.cons.inj h).1 hne
  · exact absurd (List.cons.inj h).1.symm hne'
  · obtain ⟨rfl, huv⟩ := List.cons.inj (List.cons.inj h).2
    exact ⟨rfl, huv⟩

theorem legible_escaped :
    Legible (fun _ : Bytes => True) (fun u => u.head? = some 34) fun s => s.flatMap escapeByte := by
  have hstop (b : UInt8) (u : Bytes) : (escapeByte b ++ u).head? ≠ some 34 := by
    rcases escapeByte_cases b with ⟨hb, -, hne⟩ | ⟨x, hb, -⟩
    · rw [hb]
      exact fun h => hne (Option.some.inj h)
    · rw [hb]
      exact fun h => absurd (Option.some.inj h) (by decide)
  have hall : Legible (fun s : Bytes => ∀ b ∈ s, True) (fun u => u.head? = some 34) fun s => s.flatMap escapeByte :=
    Legible.flatMap legible_escapeByte (fun _ _ => trivial) (fun _ _ _ => trivial) fun b _ => hstop b
  exact hall.weaken (fun _ _ _ _ => trivial) fun _ => id

/-- Of values of one typing, the storage literal shows which it is. -/
theorem literal_legible {a b : Value} (ha : a.Settled) (hb : b.Settled) (hty : a.typing = b.typing) {u v : Bytes}
    (hu : EndsItem u) (hv : EndsItem v) (h : a.literal ++ u = b.literal ++ v) : a = b ∧ u = v := by
  cases a with
  | int i =>
    cases b with
    | int j =>
      obtain ⟨rfl, huv⟩ := legible_int trivial trivial hu hv h
      exact ⟨rfl, huv⟩
    | _ => cases hty
  | string s =>
    cases b with
    | string t =>
      have hquoted (w u : Bytes) :
          (Value.string w).literal ++ u = 34 :: (w.flatMap escapeByte ++ (34 :: u)) := by
        rw [literal, List.append_assoc]
        rfl
      rw [hquoted, hquoted] at h
      obtain ⟨rfl, hrest⟩ := legible_escaped trivial trivial rfl rfl (List.cons.inj h).2
      exact ⟨rfl, (List.cons.inj hrest).2⟩
    | _ => cases hty
  | bool x =>
    cases b with
    | bool y => 
      cases x <;> cases y
      · exact ⟨rfl, List.append_cancel_left h⟩
      · cases h
      · cases h
      · exact ⟨rfl, List.append_cancel_left h⟩
    | _ => cases hty
  | untyped s =>
    cases b with
    | untyped t =>
      obtain rfl := ha s rfl
      obtain rfl := hb t rfl
      exact ⟨rfl, h⟩
    | _ => cases hty

theorem legible_tagged : Legible Settled EndsItem tagged := by
  intro a b ha hb u v hu hv h
  rw [tagged, tagged, List.append_assoc, List.append_assoc, List.append_assoc, List.append_assoc] at h
  obtain ⟨hty, hrest⟩ := legible_typing trivial trivial (endsWord_cons rfl rfl _) (endsWord_cons rfl rfl _) h
  exact literal_legible ha hb hty hu hv (List.cons.inj hrest).2

theorem not_endsItem_tagged (v : Value) (u : Bytes) : ¬EndsItem (v.tagged ++ u) := by
  cases v <;> exact not_endsItem_cons (by decide) _

end Value

/-! ## Observations -/

/-- The names are words and the value, if there is one, is settled. -/
def Observation.Worded : Observation → Prop
  | .binding name value => IsWord name ∧ ∀ v, value = some v → v.Settled
  | .overloads name _ => IsWord name.text

theorem legible_entries :
    Legible (fun _ : List Nat => True) EndsItem fun ids => Bytes.join "|" (ids.map Decimal.ofNat) := by
  have hnumber : Legible (fun _ : Nat => True) (fun u => u.head? = some 124 ∨ EndsItem u) Decimal.ofNat := by
    refine legible_decimal.weaken (fun _ => id) fun u hu c hc => ?_
    rcases hu with hu | hu
    · rw [hu] at hc
      obtain rfl := Option.some.inj hc
      rfl
    · rw [hu.head c hc]
      rfl
  have hsep (u : Bytes) (hu : EndsItem u) : u.head? ≠ some 124 :=
    fun h => absurd (hu.head 124 h) (by decide)
  have hdigits (n : Nat) (u : Bytes) : ¬EndsItem (Decimal.ofNat n ++ u) := by
    obtain ⟨hne, hdigit⟩ := Decimal.isNumeral_ofNat n
    obtain ⟨c, t, ht⟩ := List.exists_cons_of_ne_nil hne
    rw [ht] at hdigit ⊢
    refine not_endsItem_cons ?_ _
    rintro rfl
    exact absurd (hdigit 44 List.mem_cons_self) (by decide)
  exact (Legible.join hnumber hsep fun n _ => hdigits n).weaken (fun _ _ _ _ => trivial) fun _ => id

/-! ## Items -/

/-- An item of a key: an argument of the call, or something that the body sees. -/
abbrev KeyItem := Value ⊕ Observation

namespace KeyItem

def write : KeyItem → Bytes := Sum.elim Value.tagged Observation.render

def Worded : KeyItem → Prop := Sum.elim Value.Settled Observation.Worded

/-- The name that the item starts with, and the byte behind it. -/
def start : KeyItem → Name × UInt8
  | .inl v => (.ofStatic v.typing.render, 58)
  | .inr (.binding name _) => (.ofStatic name, 61)
  | .inr (.overloads name _) => (name, 45)

def rest : KeyItem → Bytes
  | .inl v => v.literal
  | .inr (.binding _ none) => []
  | .inr (.binding _ (some v)) => v.tagged
  | .inr (.overloads _ ids) => 62 :: Bytes.join "|" (ids.map Decimal.ofNat)

theorem write_append (i : KeyItem) (u : Bytes) :
    i.write ++ u = i.start.1.render ++ (i.start.2 :: (i.rest ++ u)) := by
  rcases i with v | ⟨name, _ | v⟩ | ⟨name, ids⟩
  all_goals
    simp only [write, start, rest, Sum.elim_inl, Sum.elim_inr, Value.tagged, Observation.render, List.append_assoc]
    rfl

theorem Worded.start {i : KeyItem} (h : i.Worded) : IsWord i.start.1.text := by
  rcases i with v | ⟨name, value⟩ | ⟨name, ids⟩
  · exact v.typing.isWord_render
  · exact h.1
  · exact h

theorem endsWord_mark (i : KeyItem) (u : Bytes) : EndsWord (i.start.2 :: u) := by
  rcases i with v | ⟨name, value⟩ | ⟨name, ids⟩ <;> exact endsWord_cons rfl rfl u

/-- Items with the same start are of one kind, and what follows the start tells them apart. -/
theorem rest_legible {i j : KeyItem} (hi : i.Worded) (hj : j.Worded) (hstart : i.start = j.start) {u v : Bytes}
    (hu : EndsItem u) (hv : EndsItem v) (h : i.rest ++ u = j.rest ++ v) : i = j ∧ u = v := by
  have hmark : i.start.2 = j.start.2 := congrArg Prod.snd hstart
  rcases i with x | ⟨name, x⟩ | ⟨name, ids⟩ <;> rcases j with y | ⟨name', y⟩ | ⟨name', ids'⟩
  case inl.inl =>
    have hname : x.typing.render = y.typing.render := congrArg (·.1.text) hstart
    obtain ⟨hty, -⟩ := legible_typing trivial trivial (endsWord_mark (.inl x) []) (endsWord_mark (.inl y) [])
      (congrArg (· ++ [58]) hname)
    obtain ⟨rfl, huv⟩ := Value.literal_legible hi hj hty hu hv h
    exact ⟨rfl, huv⟩
  case inr.binding.inr.binding =>
    obtain rfl : name = name' := congrArg (·.1.text) hstart
    -- A value can be told from no value, since a text that ends an item does not start like one.
    cases x with
    | none =>
      cases y with
      | none => exact ⟨rfl, h⟩
      | some y =>
        obtain rfl : u = y.tagged ++ v := h
        exact absurd hu (y.not_endsItem_tagged v)
    | some x =>
      cases y with
      | none =>
        obtain rfl : x.tagged ++ u = v := h
        exact absurd hv (x.not_endsItem_tagged u)
      | some y =>
        obtain ⟨rfl, huv⟩ := Value.legible_tagged (hi.2 x rfl) (hj.2 y rfl) hu hv h
        exact ⟨rfl, huv⟩
  case inr.overloads.inr.overloads =>
    obtain rfl : name = name' := congrArg Prod.fst hstart
    obtain ⟨rfl, huv⟩ := legible_entries trivial trivial hu hv (List.cons.inj h).2
    exact ⟨rfl, huv⟩
  all_goals simp [start] at hmark

theorem legible : Legible Worded EndsItem write := by
  intro i j hi hj u v hu hv h
  rw [write_append, write_append] at h
  obtain ⟨hname, hrest⟩ := legible_name hi.start hj.start (i.endsWord_mark _) (j.endsWord_mark _) h
  obtain ⟨hmark, hrest⟩ := List.cons.inj hrest
  exact rest_legible hi hj (Prod.ext hname hmark) hu hv hrest

theorem write_ne_nil (i : KeyItem) (u : Bytes) : i.write ++ u ≠ [] := by
  rw [write_append]
  exact List.append_ne_nil_of_right_ne_nil _ (List.cons_ne_nil _ _)

/-- The items of a key can be read off it. -/
theorem eq_of_join_eq {is js : List KeyItem} (hi : ∀ i ∈ is, i.Worded) (hj : ∀ j ∈ js, j.Worded)
    (h : Bytes.join "," (is.map write) = Bytes.join "," (js.map write)) : is = js := by
  have hlist : Legible (fun is : List KeyItem => ∀ i ∈ is, i.Worded) (· = [])
      fun is => Bytes.join "," (is.map write) :=
    Legible.join legible (by rintro _ rfl ⟨⟩) fun i _ => i.write_ne_nil
  exact (hlist hi hj rfl rfl (by rw [List.append_nil, List.append_nil]; exact h)).1

end KeyItem

/-- Keys are the same exactly for the same arguments and the same observations. -/
theorem keys_eq_iff {args args' : List Value} {seen seen' : List Observation} (hargs : ∀ v ∈ args, v.Settled)
    (hargs' : ∀ v ∈ args', v.Settled) (hseen : ∀ o ∈ seen, o.Worded) (hseen' : ∀ o ∈ seen', o.Worded) :
    Bytes.join "," (args.map Value.tagged ++ seen.map Observation.render) =
        Bytes.join "," (args'.map Value.tagged ++ seen'.map Observation.render) ↔
      args = args' ∧ seen = seen' := by
  have hitems (vs : List Value) (os : List Observation) : vs.map Value.tagged ++ os.map Observation.render =
      (vs.map Sum.inl ++ os.map Sum.inr : List KeyItem).map KeyItem.write := by
    rw [List.map_append, List.map_map, List.map_map]
    rfl
  have hworded {vs : List Value} {os : List Observation} (hv : ∀ v ∈ vs, v.Settled) (ho : ∀ o ∈ os, o.Worded) :
      ∀ i ∈ (vs.map Sum.inl ++ os.map Sum.inr : List KeyItem), i.Worded := by
    simp only [List.forall_mem_append, List.forall_mem_map]
    exact ⟨hv, ho⟩
  constructor
  · intro h
    rw [hitems, hitems] at h
    have heq := KeyItem.eq_of_join_eq (hworded hargs hseen) (hworded hargs' hseen') h
    have hvalues := congrArg (List.filterMap Sum.getLeft?) heq
    have hobservations := congrArg (List.filterMap Sum.getRight?) heq
    simp [List.filterMap_append, List.filterMap_map, Function.comp_def] at hvalues hobservations
    exact ⟨hvalues, hobservations⟩
  · rintro ⟨rfl, rfl⟩
    rfl

end PackScript
