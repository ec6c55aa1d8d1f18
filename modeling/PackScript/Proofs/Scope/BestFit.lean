import PackScript.Proofs.Scope.Operations
import Mathlib.Data.List.Induction
import Mathlib.Data.Prod.Lex

/-! # The best overload

A call can go to any function in sight that has its name, takes as many arguments, and
gets no dynamic argument for a static parameter. Of these the highest in rank is taken:
most static parameters first, then most annotations that say what the argument is. The
first in sight wins a tie. So the single pass that resolves a call, which keeps the best
function met so far, finds the first of those that no other one outranks.
-/
namespace PackScript

namespace Signature

/-- A call of `name` with these arguments can go to a function of this signature. -/
def Admits (sig : Signature) (name : Name) (args : List Arg) : Prop :=
  sig.name = name ∧ sig.params.length = args.length ∧
    ∀ pa ∈ sig.params.zip args, pa.1.name.isStatic = true → pa.2.static = true

instance (sig : Signature) (name : Name) (args : List Arg) : Decidable (sig.Admits name args) :=
  inferInstanceAs (Decidable (_ ∧ _ ∧ _))

/-- Parameter and argument are both static. -/
def bothStatic (pa : Param × Arg) : Bool := pa.1.name.isStatic && pa.2.static

/-- The parameter is annotated, and with the typing of the argument. -/
def sameTyping (pa : Param × Arg) : Bool := pa.1.typing ≠ .unknown ∧ pa.1.typing = pa.2.typing

/-- How many positions are static on both sides, then at how many the annotation is right. -/
def rank (sig : Signature) (args : List Arg) : ℕ ×ₗ ℕ :=
  toLex ((sig.params.zip args).countP bothStatic, (sig.params.zip args).countP sameTyping)

end Signature

namespace Fit

open Signature (bothStatic sameTyping)

def rank (f : Fit) : ℕ ×ₗ ℕ := toLex (f.statics, f.typings)

theorem better_iff (a b : Fit) : a.better b = true ↔ b.rank < a.rank := by
  rw [rank, rank, Prod.Lex.toLex_lt_toLex']
  simp only [better, Bool.or_eq_true, Bool.and_eq_true, decide_eq_true_eq]
  omega

/-- Arguments fit if they are admitted, and the fit counts what the rank counts. -/
theorem ofArgs?_eq_some {params : List Param} {args : List Arg} {f : Fit} :
    ofArgs? params args = some f ↔
      (params.length = args.length ∧
        ∀ pa ∈ params.zip args, pa.1.name.isStatic = true → pa.2.static = true) ∧
      (params.zip args).countP bothStatic = f.statics ∧ (params.zip args).countP sameTyping = f.typings := by
  obtain ⟨statics, typings⟩ := f
  induction params generalizing args statics typings with
  | nil =>
    cases args with
    | nil => simp [ofArgs?]
    | cons a args => simp [ofArgs?]
  | cons p params ih =>
    cases args with
    | nil => simp [ofArgs?]
    | cons a args =>
      by_cases hrefused : p.name.isStatic = true ∧ a.static = false
      · simp [ofArgs?, hrefused]
      · have hadmitted : p.name.isStatic = true → a.static = true := by
          simpa using hrefused
        have hkept : (p.name.isStatic && !a.static) = false := by
          simpa using hrefused
        have hboth : bothStatic (p, a) = p.name.isStatic := by
          cases hp : p.name.isStatic with
          | false => simp [bothStatic, hp]
          | true => simp [bothStatic, hp, hadmitted hp]
        simp only [ofArgs?, hkept, Bool.false_eq_true, if_false, Option.map_eq_some_iff,
          List.zip_cons_cons, List.countP_cons, hboth, sameTyping, decide_eq_true_eq]
        constructor
        · rintro ⟨⟨statics', typings'⟩, hrest, heq⟩
          obtain ⟨⟨hlen, hall⟩, hstatics, htypings⟩ := (ih _ _).mp hrest
          cases heq
          exact ⟨⟨by simp [hlen], List.forall_mem_cons.mpr ⟨hadmitted, hall⟩⟩, by rw [hstatics], by rw [htypings]⟩
        · rintro ⟨⟨hlen, hall⟩, rfl, rfl⟩
          have hlen' : params.length = args.length := by simpa using hlen
          exact ⟨⟨_, _⟩, (ih _ _).mpr ⟨⟨hlen', (List.forall_mem_cons.mp hall).2⟩, rfl, rfl⟩, rfl⟩

end Fit

variable {φ : Type} {args : List Arg}

/-- The arguments fit, whatever the function is called. -/
def Entry.Fits (args : List Arg) (e : Entry φ) : Prop := (Fit.ofArgs? e.signature.params args).isSome = true

theorem Entry.fits_iff_admits {name : Name} {e : Entry φ} (hname : e.signature.name = name) :
    e.Fits args ↔ e.signature.Admits name args := by
  simp only [Fits, Signature.Admits, hname, true_and, Option.isSome_iff_exists, Fit.ofArgs?_eq_some]
  constructor
  · rintro ⟨f, hadmits, -⟩
    exact hadmits
  · intro hadmits
    exact ⟨⟨_, _⟩, hadmits, rfl, rfl⟩

theorem Fit.rank_of_ofArgs? {sig : Signature} {f : Fit} (h : ofArgs? sig.params args = some f) :
    f.rank = sig.rank args := by
  obtain ⟨-, hstatics, htypings⟩ := ofArgs?_eq_some.mp h
  rw [rank, Signature.rank, hstatics, htypings]

/-- Of the entries that fit, the first with the highest rank. -/
def FirstBest (args : List Arg) (es : List (Entry φ)) (e : Entry φ) : Prop :=
  ∃ before after, es = before ++ e :: after ∧ e.Fits args ∧
    (∀ x ∈ before, x.Fits args → x.signature.rank args < e.signature.rank args) ∧
    ∀ x ∈ after, x.Fits args → x.signature.rank args ≤ e.signature.rank args

namespace FirstBest

variable {es : List (Entry φ)} {e x : Entry φ}

theorem le (h : FirstBest args es e) (hx : x ∈ es) (hfits : x.Fits args) :
    x.signature.rank args ≤ e.signature.rank args := by
  obtain ⟨before, after, rfl, -, hbefore, hafter⟩ := h
  rcases List.mem_append.mp hx with hx | hx
  · exact (hbefore x hx hfits).le
  · rcases List.mem_cons.mp hx with rfl | hx
    · exact le_refl _
    · exact hafter x hx hfits

/-- One more entry that is not better. -/
theorem keep (h : FirstBest args es e) (hx : x.Fits args → x.signature.rank args ≤ e.signature.rank args) :
    FirstBest args (es ++ [x]) e := by
  obtain ⟨before, after, rfl, hfits, hbefore, hafter⟩ := h
  refine ⟨before, after ++ [x], by simp, hfits, hbefore, ?_⟩
  intro y hy
  rcases List.mem_append.mp hy with hy | hy
  · exact hafter y hy
  · obtain rfl := List.mem_singleton.mp hy
    exact hx

/-- One more entry that is better than all before. -/
theorem replace (hx : x.Fits args)
    (h : ∀ y ∈ es, y.Fits args → y.signature.rank args < x.signature.rank args) :
    FirstBest args (es ++ [x]) x := ⟨es, [], rfl, hx, h, by simp⟩

end FirstBest

namespace ScopeStack

variable {es : List (Entry φ)} {x : Entry φ}

/-! ## One more entry in the pass -/

theorem bestFit?_concat_of_none (hx : Fit.ofArgs? x.signature.params args = none) :
    bestFit? args (es ++ [x]) = bestFit? args es := by
  simp [bestFit?, hx]

theorem bestFit?_concat_first {f : Fit} (hx : Fit.ofArgs? x.signature.params args = some f)
    (hbest : bestFit? args es = none) : bestFit? args (es ++ [x]) = some (x, f) := by
  unfold bestFit? at hbest ⊢
  simp [hx, hbest]

theorem bestFit?_concat_of_some {e : Entry φ} {f least : Fit}
    (hx : Fit.ofArgs? x.signature.params args = some f) (hbest : bestFit? args es = some (e, least)) :
    bestFit? args (es ++ [x]) = if f.better least then some (x, f) else some (e, least) := by
  unfold bestFit? at hbest ⊢
  simp [hx, hbest]

/-- The pass keeps the first best of the entries it has met, with its rank, if any of them fits. -/
theorem bestFit?_spec (args : List Arg) (es : List (Entry φ)) :
    (∀ p, bestFit? args es = some p → FirstBest args es p.1 ∧ p.2.rank = p.1.signature.rank args) ∧
      (bestFit? args es = none → ∀ e ∈ es, ¬e.Fits args) := by
  induction es using List.reverseRecOn with
  | nil => simp [bestFit?]
  | append_singleton es x ih =>
    obtain ⟨hsome, hnone⟩ := ih
    cases hx : Fit.ofArgs? x.signature.params args with
    | none =>
      have hunfit : ¬x.Fits args := by simp [Entry.Fits, hx]
      rw [bestFit?_concat_of_none hx]
      constructor
      · intro p hp
        exact ⟨(hsome p hp).1.keep fun h => absurd h hunfit, (hsome p hp).2⟩
      · intro hp
        simpa [or_imp, forall_and, hunfit] using hnone hp
    | some f =>
      have hfits : x.Fits args := by simp [Entry.Fits, hx]
      have hrank : f.rank = x.signature.rank args := Fit.rank_of_ofArgs? hx
      cases hbest : bestFit? args es with
      | none =>
        rw [bestFit?_concat_first hx hbest]
        refine ⟨?_, by simp⟩
        rintro p ⟨⟩
        exact ⟨.replace hfits fun y hy hyfits => absurd hyfits (hnone hbest y hy), hrank⟩
      | some old =>
        obtain ⟨hold, holdrank⟩ := hsome old hbest
        rw [bestFit?_concat_of_some hx hbest]
        split
        · rename_i hbetter
          rw [Fit.better_iff, hrank, holdrank] at hbetter
          refine ⟨?_, by simp⟩
          rintro p ⟨⟩
          exact ⟨.replace hfits fun y hy hyfits => (hold.le hy hyfits).trans_lt hbetter, hrank⟩
        · rename_i hbetter
          rw [Fit.better_iff, hrank, holdrank, not_lt] at hbetter
          refine ⟨?_, by simp⟩
          rintro p ⟨⟩
          exact ⟨hold.keep fun _ => hbetter, holdrank⟩

/-! ## The first best in sight -/

theorem candidates_eq_filter (s : ScopeStack φ) (name : Name) :
    s.candidates name = s.entries.filter fun e => e.signature.name = name := by
  simp [candidates, entries, List.filter_flatMap]

/-- No function in sight that the call can go to ranks above this one. -/
def IsBest (s : ScopeStack φ) (name : Name) (args : List Arg) (e : Entry φ) : Prop :=
  e.signature.Admits name args ∧
    ∀ e' ∈ s.entries, e'.signature.Admits name args → e'.signature.rank args ≤ e.signature.rank args

instance (s : ScopeStack φ) (name : Name) (args : List Arg) (e : Entry φ) :
    Decidable (s.IsBest name args e) :=
  inferInstanceAs (Decidable (_ ∧ _))

variable {s : ScopeStack φ} {name : Name}

theorem mem_candidates {e : Entry φ} : e ∈ s.candidates name ↔ e ∈ s.entries ∧ e.signature.name = name := by
  simp [candidates_eq_filter]

/-- Only the functions of that name matter. -/
theorem isBest_iff {e : Entry φ} (he : e ∈ s.candidates name) : s.IsBest name args e ↔
    e.Fits args ∧ ∀ x ∈ s.candidates name, x.Fits args → x.signature.rank args ≤ e.signature.rank args := by
  have hname {x : Entry φ} (hx : x ∈ s.candidates name) : x.signature.name = name := (mem_candidates.mp hx).2
  rw [IsBest, Entry.fits_iff_admits (hname he)]
  refine and_congr_right fun _ => ⟨fun h x hx hfits => ?_, fun h x hx hadmits => ?_⟩
  · exact h x (mem_candidates.mp hx).1 ((Entry.fits_iff_admits (hname hx)).mp hfits)
  · exact h x (mem_candidates.mpr ⟨hx, hadmits.1⟩) ((Entry.fits_iff_admits hadmits.1).mpr hadmits)

theorem find?_isBest_eq (s : ScopeStack φ) (name : Name) (args : List Arg) :
    s.entries.find? (s.IsBest name args ·) = (s.candidates name).find? (s.IsBest name args ·) := by
  rw [candidates_eq_filter, List.find?_filter]
  congr 1
  funext e
  by_cases hbest : s.IsBest name args e
  · simp [hbest, hbest.1.1]
  · simp [hbest]

/-- The first best of the functions of a name is what the pass over them finds. -/
theorem find?_isBest (s : ScopeStack φ) (name : Name) (args : List Arg) :
    s.entries.find? (s.IsBest name args ·) = (bestFit? args (s.candidates name)).map Prod.fst := by
  obtain ⟨hsome, hnone⟩ := bestFit?_spec args (s.candidates name)
  rw [find?_isBest_eq]
  cases hbest : bestFit? args (s.candidates name) with
  | none =>
    rw [Option.map_none, List.find?_eq_none]
    intro e he
    simp [isBest_iff he, hnone hbest e he]
  | some p =>
    obtain ⟨before, after, heq, hfits, hbefore, hafter⟩ := (hsome p hbest).1
    have hmem : p.1 ∈ s.candidates name := by simp [heq]
    rw [Option.map_some, List.find?_eq_some_iff_append]
    refine ⟨?_, before, after, heq, ?_⟩
    · simpa [isBest_iff hmem, hfits] using fun x hx => (hsome p hbest).1.le hx
    · intro x hx
      have hxmem : x ∈ s.candidates name := by simp [heq, hx]
      -- the best one ranks above everything before it
      have hworse : ¬s.IsBest name args x := by
        rw [isBest_iff hxmem]
        rintro ⟨hxfits, hle⟩
        exact (hbefore x hx hxfits).not_ge (hle p.1 hmem hfits)
      simpa using hworse

theorem resolve_of_some {p : Entry φ × Fit} (h : bestFit? args (s.candidates name) = some p) (span : Span) :
    s.resolve name args span = .ok p.1 := by
  simp [resolve, h]

theorem resolve_of_none (h : bestFit? args (s.candidates name) = none) (span : Span) :
    s.resolve name args span = .error (.ofCause span
      (if s.candidates name = [] then
        .unresolvedCall name (Suggestion.suggest? name.render (s.functionNames name.dynamic))
      else .noOverload name args.length)) := by
  rw [resolve, h]
  by_cases hnil : s.candidates name = []
  · simp [hnil]
  · simp [hnil]

/-- Some function can take the arguments exactly if the pass finds one. -/
theorem bestFit?_eq_none_iff :
    bestFit? args (s.candidates name) = none ↔ ∀ e ∈ s.candidates name, ¬e.signature.Admits name args := by
  constructor
  · intro h e he
    rw [← Entry.fits_iff_admits (mem_candidates.mp he).2]
    exact (bestFit?_spec args (s.candidates name)).2 h e he
  · intro h
    cases hbest : bestFit? args (s.candidates name) with
    | none => rfl
    | some p =>
      obtain ⟨hmem, hfit⟩ := bestFit?_some hbest
      have hfits : p.1.Fits args := by simp [Entry.Fits, hfit]
      exact absurd ((Entry.fits_iff_admits (mem_candidates.mp hmem).2).mp hfits) (h p.1 hmem)

/-- A call goes to the first function in sight that is best for it. There is none if no function
of its name is in sight, or if none of them can take the arguments. What functions of other
names are in sight makes no difference. -/
theorem resolve_first_best (s : ScopeStack φ) (name : Name) (args : List Arg) (span : Span) :
    (∀ e, s.resolve name args span = .ok e ↔ s.entries.find? (s.IsBest name args ·) = some e) ∧
    (s.resolve name args span = .error (.ofCause span (.noOverload name args.length)) ↔
      s.candidates name ≠ [] ∧ ∀ e ∈ s.candidates name, ¬e.signature.Admits name args) ∧
    ((∃ hint, s.resolve name args span = .error (.ofCause span (.unresolvedCall name hint))) ↔
      s.candidates name = []) ∧
    ∀ s' : ScopeStack φ, s'.candidates name = s.candidates name →
      (s'.resolve name args span).toOption = (s.resolve name args span).toOption := by
  refine ⟨?_, ?_, ?_, ?_⟩
  · intro e
    rw [find?_isBest]
    cases hbest : bestFit? args (s.candidates name) with
    | none => simp [resolve_of_none hbest]
    | some p => simp [resolve_of_some hbest]
  · rw [← bestFit?_eq_none_iff]
    cases hbest : bestFit? args (s.candidates name) with
    | none => by_cases hnil : s.candidates name = [] <;> simp [resolve_of_none hbest, hnil, Failure.ofCause]
    | some p => simp [resolve_of_some hbest]
  · cases hbest : bestFit? args (s.candidates name) with
    | none => by_cases hnil : s.candidates name = [] <;> simp [resolve_of_none hbest, hnil, Failure.ofCause]
    | some p =>
      have hne : s.candidates name ≠ [] := List.ne_nil_of_mem (bestFit?_some hbest).1
      simp [resolve_of_some hbest, hne]
  · intro s' hsame
    cases hbest : bestFit? args (s.candidates name) with
    | none => simp [resolve_of_none hbest, resolve_of_none (hsame ▸ hbest), Except.toOption]
    | some p => simp [resolve_of_some hbest, resolve_of_some (hsame ▸ hbest)]

/-- Three overloads in two scopes. The call goes to one of the outer ones, since it takes the
argument as a static one and says its type, with or without another function in sight. -/
theorem resolve_first_best_outer :
    let z : Span := ⟨0, 0, 1, 0⟩
    let f : Name := .ofDynamic "f"
    let entry (i : Nat) (name : Name) (param : Param) : Entry Nat := { id := i, function := ⟨z, ⟨name, [param]⟩, []⟩ }
    let inner (entries : List (Entry Nat)) : Scope Nat := { kind := .block, frame := true, file := 1, entries }
    let outer : Scope Nat := { kind := .root, frame := true, file := 0, entries :=
      [entry 0 f ⟨.ofStatic "n", .unknown⟩, entry 1 f ⟨.ofStatic "n", .int⟩] }
    let own := entry 2 f ⟨.ofDynamic "n", .int⟩
    let other := entry 3 (.ofStatic "f") ⟨.ofStatic "n", .int⟩
    let s : ScopeStack Nat := { scopes := [inner [other, own], outer], nextId := 4 }
    let s' : ScopeStack Nat := { scopes := [inner [own], outer], nextId := 4 }
    s.resolve f [⟨true, .int⟩] z = .ok (entry 1 f ⟨.ofStatic "n", .int⟩) ∧
    s'.candidates f = s.candidates f ∧
    (s'.resolve f [⟨true, .int⟩] z).toOption = some (entry 1 f ⟨.ofStatic "n", .int⟩) ∧
    s.resolve f [] z = .error (.ofCause z (.noOverload f 0)) := by
  intro z f entry inner outer own other s s'
  obtain ⟨hok, -, -, hsame⟩ := resolve_first_best s f [⟨true, .int⟩] z
  obtain ⟨-, hno, -, -⟩ := resolve_first_best s f [] z
  have hcandidates : s'.candidates f = s.candidates f := rfl
  have hresolve : s.resolve f [⟨true, .int⟩] z = .ok (entry 1 f ⟨.ofStatic "n", .int⟩) := (hok _).mpr rfl
  refine ⟨hresolve, hcandidates, ?_, hno.mpr ?_⟩
  · rw [hsame s' hcandidates, hresolve]
    rfl
  · have hall : (s.candidates f).all (fun e => !decide (e.signature.Admits f [])) = true := rfl
    exact ⟨List.cons_ne_nil _ _, by simpa using hall⟩

end ScopeStack
end PackScript
