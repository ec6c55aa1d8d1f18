import PackScript.Source.Diagnostic
import PackScript.Proofs.Text.EditDistance

/-! # Which name a hint gives

The names known in a place are gathered from tables that have no order of their own, and a name
that is declared in several scopes is gathered several times. The hint depends on neither: it
names the one candidate that comes before all others that match the target, first by the distance
to the target and then byte by byte, and that candidate is determined by the set of candidates.
-/
namespace PackScript

theorem Bytes.le_iff (s t : Bytes) : Bytes.le s t = true ↔ s ≤ t := by
  fun_induction Bytes.le s t with
  | case1 t => simp
  | case2 a s => simp
  | case3 s b t ih => simp [List.cons_le_cons_iff, ih]
  | case4 a s b t hne => simp [List.cons_le_cons_iff, hne]

namespace Suggestion

/-- The target, in lower case, can be got from the candidate, in lower case, by leaving characters
out, and takes no more bytes. -/
structure Matches (target candidate : Bytes) : Prop where
  length_le : (Folding.fold target).length ≤ (Folding.fold candidate).length
  sublist : (Utf8.chars (Folding.fold target)).Sublist (Utf8.chars (Folding.fold candidate))

/-- The candidate that comes before all others that match. -/
structure Closest (target : Bytes) (candidates : List Bytes) (c : Bytes) : Prop where
  mem : c ∈ candidates
  fits : Matches target c
  nearest : ∀ d ∈ candidates, Matches target d → distance target c ≤ distance target d
  first : ∀ d ∈ candidates, Matches target d → distance target d = distance target c → c ≤ d

variable {target c d : Bytes} {candidates others : List Bytes}

theorem isClose_iff (target c : Bytes) : isClose target c = true ↔ Matches target c := by
  rw [isClose, Bool.and_eq_true, decide_eq_true_eq, List.isSublist_iff_sublist]
  exact ⟨fun h => ⟨h.1, h.2⟩, fun h => ⟨h.1, h.2⟩⟩

instance (target c : Bytes) : Decidable (Matches target c) :=
  decidable_of_iff _ (isClose_iff target c)

instance (target : Bytes) (candidates : List Bytes) (c : Bytes) : Decidable (Closest target candidates c) :=
  decidable_of_iff (c ∈ candidates ∧ Matches target c ∧
      (∀ d ∈ candidates, Matches target d → distance target c ≤ distance target d) ∧
      ∀ d ∈ candidates, Matches target d → distance target d = distance target c → c ≤ d)
    ⟨fun h => ⟨h.1, h.2.1, h.2.2.1, h.2.2.2⟩, fun h => ⟨h.1, h.2, h.3, h.4⟩⟩

theorem Closest.unique (hc : Closest target candidates c) (hd : Closest target candidates d) : c = d := by
  have hle := hc.nearest d hd.mem hd.fits
  have hge := hd.nearest c hc.mem hc.fits
  have heq := Nat.le_antisymm hge hle
  exact List.le_antisymm (hc.first d hd.mem hd.fits heq) (hd.first c hc.mem hc.fits heq.symm)

theorem Closest.of_mem_iff (hsame : ∀ a, a ∈ others ↔ a ∈ candidates) (h : Closest target others c) :
    Closest target candidates c where
  mem := (hsame c).1 h.mem
  fits := h.fits
  nearest d hd := h.nearest d ((hsame d).2 hd)
  first d hd := h.first d ((hsame d).2 hd)

theorem closest_congr (hsame : ∀ a, a ∈ others ↔ a ∈ candidates) :
    Closest target others c ↔ Closest target candidates c :=
  ⟨.of_mem_iff hsame, .of_mem_iff fun a => (hsame a).symm⟩

/-! ## The search -/

theorem argMin_eq_none_iff {α : Type} (weight : α → Nat) (l : List α) : argMin weight l = none ↔ l = [] := by
  fun_cases argMin weight l <;> simp_all

/-- Of the elements of a sorted list with the least weight, the first is found. -/
theorem argMin_of_pairwise {α : Type} {weight : α → Nat} {before : α → α → Prop} {l : List α} {a : α}
    (hrefl : ∀ b, before b b) (hsorted : l.Pairwise before) (h : argMin weight l = some a) :
    a ∈ l ∧ ∀ b ∈ l, weight a ≤ weight b ∧ (weight b = weight a → before a b) := by
  fun_induction argMin weight l generalizing a with
  | case1 => cases h
  | case2 e rest b hb hlt ih =>
    obtain rfl := Option.some.inj h
    obtain ⟨hmem, hleast⟩ := ih hsorted.of_cons hb
    refine ⟨List.mem_cons_of_mem e hmem, List.forall_mem_cons.2 ⟨?_, hleast⟩⟩
    exact ⟨Nat.le_of_lt hlt, fun heq => absurd heq (Nat.ne_of_gt hlt)⟩
  | case3 e rest b hb hge ih =>
    obtain rfl := Option.some.inj h
    obtain ⟨hmem, hleast⟩ := ih hsorted.of_cons hb
    refine ⟨List.mem_cons_self, List.forall_mem_cons.2 ⟨⟨Nat.le_refl _, fun _ => hrefl e⟩, fun x hx => ?_⟩⟩
    exact ⟨Nat.le_trans (Nat.le_of_not_lt hge) (hleast x hx).1, fun _ => List.rel_of_pairwise_cons hsorted hx⟩
  | case4 e rest hnone ih =>
    obtain rfl := Option.some.inj h
    obtain rfl := (argMin_eq_none_iff weight rest).1 hnone
    simpa using hrefl e

theorem mem_sortBy {l : List Bytes} : c ∈ Bytes.sortBy id l ↔ c ∈ l := List.mem_mergeSort

theorem sortBy_pairwise (l : List Bytes) : (Bytes.sortBy id l).Pairwise (· ≤ ·) := by
  have htrans : ∀ a b c : Bytes, Bytes.le a b → Bytes.le b c → Bytes.le a c := by
    simp only [Bytes.le_iff]
    exact fun a b c => List.le_trans
  have htotal : ∀ a b : Bytes, Bytes.le a b || Bytes.le b a := by
    simp only [Bool.or_eq_true, Bytes.le_iff]
    exact List.le_total
  exact (List.pairwise_mergeSort htrans htotal l).imp (Bytes.le_iff _ _).1

/-- The candidates among which the closest is looked for, in byte order. -/
def matching (target : Bytes) (candidates : List Bytes) : List Bytes :=
  (Bytes.sortBy id candidates).filter (isClose target)

theorem mem_matching : c ∈ matching target candidates ↔ c ∈ candidates ∧ Matches target c := by
  rw [matching, List.mem_filter, mem_sortBy, isClose_iff]

theorem argMin_matching_iff :
    argMin (distance target) (matching target candidates) = some c ↔ Closest target candidates c := by
  have hfound : ∀ d, argMin (distance target) (matching target candidates) = some d →
      Closest target candidates d := by
    intro d hd
    have hsorted : (matching target candidates).Pairwise (· ≤ ·) := (sortBy_pairwise candidates).filter _
    obtain ⟨hmem, hleast⟩ := argMin_of_pairwise List.le_refl hsorted hd
    obtain ⟨hmem, hfits⟩ := mem_matching.1 hmem
    exact ⟨hmem, hfits, fun x hx hm => (hleast x (mem_matching.2 ⟨hx, hm⟩)).1,
      fun x hx hm => (hleast x (mem_matching.2 ⟨hx, hm⟩)).2⟩
  -- A candidate that is the closest matches, so that the search finds one, and there is no other.
  refine ⟨hfound c, fun h => ?_⟩
  cases hd : argMin (distance target) (matching target candidates) with
  | none =>
    have hmem := mem_matching.2 ⟨h.mem, h.fits⟩
    rw [(argMin_eq_none_iff _ _).1 hd] at hmem
    cases hmem
  | some d => rw [(hfound d hd).unique h]

theorem exists_closest (hc : c ∈ candidates) (hfits : Matches target c) : ∃ d, Closest target candidates d := by
  have hmem := mem_matching.2 ⟨hc, hfits⟩
  obtain ⟨d, hd⟩ := Option.ne_none_iff_exists'.1 fun hnone =>
    List.ne_nil_of_mem hmem ((argMin_eq_none_iff (distance target) _).1 hnone)
  exact ⟨d, argMin_matching_iff.1 hd⟩

theorem suggest?_eq_some_iff : suggest? target candidates = some c ↔ Closest target candidates c ∧ c ≠ target := by
  rw [← argMin_matching_iff, matching, suggest?]
  cases argMin (distance target) ((Bytes.sortBy id candidates).filter (isClose target)) with
  | none => simp
  | some d =>
    simp only [Option.some.injEq]
    split <;> grind

theorem suggest?_eq_none_iff : suggest? target candidates = none ↔
    (∀ c ∈ candidates, ¬ Matches target c) ∨ Closest target candidates target := by
  constructor
  · intro hnone
    by_cases hfits : ∃ c ∈ candidates, Matches target c
    · obtain ⟨c, hc, hfits⟩ := hfits
      obtain ⟨d, hd⟩ := exists_closest hc hfits
      by_cases hself : d = target
      · exact .inr (hself ▸ hd)
      · rw [suggest?_eq_some_iff.2 ⟨hd, hself⟩] at hnone
        cases hnone
    · exact .inl fun c hc h => hfits ⟨c, hc, h⟩
  · intro h
    refine Option.eq_none_iff_forall_ne_some.2 fun d hd => ?_
    obtain ⟨hd, hne⟩ := suggest?_eq_some_iff.1 hd
    obtain hnothing | hself := h
    · exact hnothing d hd.mem hd.fits
    · exact hne (hd.unique hself)

theorem suggest?_congr (hsame : ∀ a, a ∈ others ↔ a ∈ candidates) :
    suggest? target others = suggest? target candidates := by
  apply Option.ext
  intro c
  rw [suggest?_eq_some_iff, suggest?_eq_some_iff, closest_congr hsame]

/-! ## The text of the hint -/

theorem hint_some_ne_nil (c : Bytes) : Cause.hint (some c) ≠ [] :=
  List.append_ne_nil_of_right_ne_nil _ (by decide)

theorem hint_eq_nil_iff (o : Option Bytes) : Cause.hint o = [] ↔ o = none := by
  cases o with
  | none => exact iff_of_true rfl rfl
  | some c => exact iff_of_false (hint_some_ne_nil c) (Option.some_ne_none c)

theorem hint_eq_some_iff (o : Option Bytes) (c : Bytes) : Cause.hint o = Cause.hint (some c) ↔ o = some c := by
  cases o with
  | none => exact iff_of_false (hint_some_ne_nil c).symm (Option.some_ne_none c).symm
  | some d =>
    rw [Option.some.injEq, Cause.hint, Cause.hint, List.append_cancel_right_eq, List.append_cancel_left_eq]

/-- The hint is the same for all ways to list the same candidates. It names the closest candidate,
where the distance is the least number of edits, and there is none exactly if no candidate matches
or the target itself is the closest. -/
theorem hint_names_closest (target : Bytes) (candidates : List Bytes) :
    (∀ others : List Bytes, (∀ a, a ∈ others ↔ a ∈ candidates) →
      Cause.hint (suggest? target others) = Cause.hint (suggest? target candidates)) ∧
    (∀ c, Cause.hint (suggest? target candidates) = " (did you mean " ++ c ++ "?)" ↔
      Closest target candidates c ∧ c ≠ target) ∧
    (Cause.hint (suggest? target candidates) = [] ↔
      (∀ c ∈ candidates, ¬ Matches target c) ∨ Closest target candidates target) ∧
    ∀ c, IsEditDistance (Utf8.chars target) (Utf8.chars c) (distance target c) := by
  refine ⟨fun others hsame => ?_, fun c => ?_, ?_, isEditDistance_distance target⟩
  · rw [suggest?_congr hsame]
  · exact (hint_eq_some_iff _ c).trans suggest?_eq_some_iff
  · exact (hint_eq_nil_iff _).trans suggest?_eq_none_iff

/-- All but one match; two are at distance one, and the one in capitals further away. -/
theorem hint_names_closest_of_tie :
    (∀ a : Bytes, a ∈ (["cent", "CNT", "other", "cant", "cent"] : List Bytes) ↔
      a ∈ (["CNT", "cant", "other", "cent"] : List Bytes)) ∧
    Cause.hint (suggest? "cnt" ["cent", "CNT", "other", "cant", "cent"]) =
      Cause.hint (suggest? "cnt" ["CNT", "cant", "other", "cent"]) ∧
    Cause.hint (suggest? "cnt" ["CNT", "cant", "other", "cent"]) = " (did you mean cant?)" := by
  have hsame : ∀ a : Bytes, a ∈ (["cent", "CNT", "other", "cant", "cent"] : List Bytes) ↔
      a ∈ (["CNT", "cant", "other", "cent"] : List Bytes) := by
    grind
  obtain ⟨horder, hnames, -⟩ := hint_names_closest "cnt" ["CNT", "cant", "other", "cent"]
  exact ⟨hsame, horder _ hsame, (hnames "cant").2 (by decide +kernel)⟩

end Suggestion
end PackScript
