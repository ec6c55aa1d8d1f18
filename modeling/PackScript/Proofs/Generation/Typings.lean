import PackScript.Proofs.Generation.ExprCourse
import PackScript.Proofs.Syntax.Parts

/-! # Typings and values

What is known of the type of an argument when an overload is chosen comes from two sources: a
variable has the typing of its present value, and other expressions have the typing that their
literals have in common. Folding goes by other rules: it finds the values of names wherever they
stand, expands calls, and adds texts as well as numbers. Where the first way gives a typing at all,
the second can only give a value of that typing.
-/
namespace PackScript

variable {a b c : Value}

theorem Value.typing_of_add (h : a.add b = .ok c) : a.typing = c.typing ∧ b.typing = c.typing := by
  cases a <;> cases b <;> cases h <;> exact ⟨rfl, rfl⟩

theorem Value.typing_of_multiply (h : a.multiply b = .ok c) : a.typing = c.typing ∧ b.typing = c.typing := by
  cases a <;> cases b <;> cases h
  exact ⟨rfl, rfl⟩

theorem Typing.meet_self (ty : Typing) : ty.meet ty = ty := if_pos rfl

theorem Typing.unknown_meet (ty : Typing) : Typing.unknown.meet ty = .unknown := by
  cases ty <;> rfl

theorem Typing.meet_unknown (ty : Typing) : ty.meet .unknown = .unknown := by
  cases ty <;> rfl

/-- A variable, in any number of parentheses. -/
def Expr.isVariable : Expr → Bool
  | .var _ _ => true
  | .paren _ e => e.isVariable
  | _ => false

/-- The typing is the one given, unless it is unknown because a name stands in the expression. -/
def Expr.Shows (e : Expr) (ty : Typing) : Prop :=
  e.typing = ty ∨ e.typing = .unknown ∧ ∃ n, (Node.expr e).Mentions n

/-- An operation has a name in it if one of its operands has. -/
theorem Expr.shows_of_operands {e l r : Expr} {ty : Typing} (ht : e.typing = l.typing.meet r.typing)
    (hl : l.Shows ty) (hr : r.Shows ty)
    (hmentions : ∀ c ∈ [l, r], ∀ n, (Node.expr c).Mentions n → (Node.expr e).Mentions n) : e.Shows ty := by
  rcases hl with hl | ⟨hl, n, hn⟩
  · rcases hr with hr | ⟨hr, n, hn⟩
    · exact .inl (by rw [ht, hl, hr, Typing.meet_self])
    · exact .inr ⟨by rw [ht, hr, Typing.meet_unknown], n, hmentions r (by simp) n hn⟩
  · exact .inr ⟨by rw [ht, hl, Typing.unknown_meet], n, hmentions l (by simp) n hn⟩

theorem Node.Mentions.of_child {whole c : Node} {n : Name} (hc : c ∈ whole.children) (h : c.Mentions n) :
    whole.Mentions n := by
  obtain ⟨part, hpart, hn⟩ := h
  exact ⟨part, .of_child hc hpart, hn⟩

namespace Gen

variable {deeper : Deeper} {e l r : Expr} {span : Span} {v : Value} {s s' : GenState}

theorem settle_ok {r : Except Cause Value} (h : settle span r s = .ok v s') : r = .ok v := by
  cases r with
  | ok w => rw [(pure_ok.1 h).1]
  | error cause => exact (throw_ok.1 h).elim

theorem fold_paren_ok (h : fold deeper (.paren span e) s = .ok v s') : fold deeper e s = .ok v s' := by
  have hst := fold_static h
  rw [fold.eq_def] at h
  simpa only [hst, Bool.not_true, Bool.false_eq_true, if_false] using h

theorem fold_var_ok {n : Name} (h : fold deeper (.var span n) s = .ok v s') : s.scopes.static? n = some v := by
  have hst := fold_static h
  rw [fold.eq_def] at h
  simp only [hst, Bool.not_true, Bool.false_eq_true, if_false] at h
  obtain ⟨_, _, hget, hlookup⟩ := bind_ok.1 h
  obtain ⟨rfl, rfl⟩ := get_ok.1 hget
  obtain ⟨hlookup, rfl⟩ := ofExcept_ok.1 hlookup
  rw [ScopeStack.lookupStatic] at hlookup
  split at hlookup
  · rename_i b hb
    cases hlookup
    rw [ScopeStack.static?, hb, Option.map_some]
  · cases hlookup

/-- The operands of a sum or a product are folded one after the other, and their values and the
result have one typing. -/
theorem fold_operands_ok (he : e = .sum span l r ∨ e = .product span l r) (h : fold deeper e s = .ok v s') :
    ∃ a b s₁ s₂, fold deeper l s = .ok a s₁ ∧ fold deeper r s₁ = .ok b s₂ ∧ a.typing = v.typing ∧
      b.typing = v.typing := by
  have hst := fold_static h
  rw [fold.eq_def] at h
  rcases he with rfl | rfl
  · simp only [hst, Bool.not_true, Bool.false_eq_true, if_false] at h
    obtain ⟨a, s₁, hl, hrest⟩ := bind_ok.1 h
    obtain ⟨b, s₂, hr, hsettle⟩ := bind_ok.1 hrest
    exact ⟨a, b, s₁, s₂, hl, hr, Value.typing_of_add (settle_ok hsettle)⟩
  · simp only [hst, Bool.not_true, Bool.false_eq_true, if_false] at h
    obtain ⟨a, s₁, hl, hrest⟩ := bind_ok.1 h
    obtain ⟨b, s₂, hr, hsettle⟩ := bind_ok.1 hrest
    exact ⟨a, b, s₁, s₂, hl, hr, Value.typing_of_multiply (settle_ok hsettle)⟩

/-- What the shape of an expression says of its typing is true of its value. -/
theorem shows_of_fold (h : fold deeper e s = .ok v s') : e.Shows v.typing := by
  fun_induction Expr.typing e generalizing s s' v with
  | case1 span l r ihl ihr =>
    obtain ⟨a, b, s₁, s₂, hl, hr, ha, hb⟩ := fold_operands_ok (.inl rfl) h
    refine Expr.shows_of_operands rfl (ha ▸ ihl hl) (hb ▸ ihr hr) fun c hc n hn => ?_
    exact hn.of_child (List.mem_map_of_mem (f := Node.expr) hc)
  | case2 span l r ihl ihr =>
    obtain ⟨a, b, s₁, s₂, hl, hr, ha, hb⟩ := fold_operands_ok (.inr rfl) h
    refine Expr.shows_of_operands rfl (ha ▸ ihl hl) (hb ▸ ihr hr) fun c hc n hn => ?_
    exact hn.of_child (List.mem_map_of_mem (f := Node.expr) hc)
  | case3 | case4 | case5 =>
    rw [fold.eq_def] at h
    obtain ⟨rfl, -⟩ := pure_ok.1 h
    exact .inl rfl
  | case6 span n => exact .inr ⟨rfl, n, _, .refl, List.mem_cons_self⟩
  | case7 span e ih =>
    rcases ih (fold_paren_ok h) with hty | ⟨hty, n, hn⟩
    · exact .inl hty
    · exact .inr ⟨hty, n, hn.of_child List.mem_cons_self⟩
  | case8 span n args => exact .inr ⟨rfl, n, _, .refl, List.mem_cons_self⟩

/-- The same for what the scopes know: a variable on its own shows the typing of its value. -/
theorem typingOf_of_fold (h : fold deeper e s = .ok v s') : s.scopes.typingOf e = v.typing ∨
    s.scopes.typingOf e = .unknown ∧ e.isVariable = false ∧ ∃ n, (Node.expr e).Mentions n := by
  fun_induction Expr.isVariable e generalizing s s' v with
  | case1 span n =>
    have hst : n.isStatic = true := fold_static h
    rw [ScopeStack.typingOf, if_pos hst, fold_var_ok h]
    exact .inl rfl
  | case2 span e ih =>
    rcases ih (fold_paren_ok h) with hty | ⟨hty, hvar, n, hn⟩
    · exact .inl hty
    · exact .inr ⟨hty, hvar, n, hn.of_child List.mem_cons_self⟩
  | case3 e hvar hparen =>
    have hshape : s.scopes.typingOf e = e.typing := by
      cases e with
      | var span n => exact absurd rfl (hvar span n)
      | paren span e => exact absurd rfl (hparen span e)
      | _ => rfl
    rw [hshape]
    exact (shows_of_fold h).imp_right fun hname => ⟨hname.1, rfl, hname.2⟩

/-- The typing of a static expression depends on the values of static variables only. -/
theorem typingOf_congr {scopes scopes' : ScopeStack FileId} (h : ∀ n, scopes'.static? n = scopes.static? n)
    (he : e.isStatic = true) : scopes'.typingOf e = scopes.typingOf e := by
  fun_induction Expr.isVariable e with
  | case1 span n =>
    have hst : n.isStatic = true := he
    rw [ScopeStack.typingOf, ScopeStack.typingOf, if_pos hst, if_pos hst, h]
  | case2 span e ih => exact ih he
  | case3 e hvar hparen =>
    cases e with
    | var span n => exact absurd rfl (hvar span n)
    | paren span e => exact absurd rfl (hparen span e)
    | _ => rfl

/-- Choosing an overload counts a call and changes no static variable. -/
theorem typingOf_resolve {name : Name} {args : List Expr} {f : Entry FileId}
    (h : resolve span name args s = .ok f s') (he : e.isStatic = true) :
    s'.scopes.typingOf e = s.scopes.typingOf e := by
  obtain ⟨-, rfl⟩ := resolve_ok h
  refine typingOf_congr (fun n => ?_) he
  simp only [ScopeStack.static?, ScopeStack.findStatic?, ScopeStack.updateEntry, List.findSome?_map]
  rfl

/-- Wherever generation stands: if the typing of a static expression is known there and folding the
expression from there succeeds, its value has that typing. So an argument that is folded as soon as
an overload has been chosen has the typing by which it was chosen. The typing is known if the
expression is a variable with a typed value, or if no name stands in it. -/
theorem fold_has_typing (deeper : Deeper) (s : GenState) :
    (∀ e v s', fold deeper e s = .ok v s' → s.scopes.typingOf e ≠ .unknown → v.typing = s.scopes.typingOf e) ∧
    (∀ span name args f s₁, resolve span name args s = .ok f s₁ →
      s.scopes.resolve name (args.map s.scopes.argOf) span = .ok f ∧
      ∀ a ∈ args, ∀ v s₂, fold deeper a s₁ = .ok v s₂ → (s.scopes.argOf a).typing ≠ .unknown →
        v.typing = (s.scopes.argOf a).typing) ∧
    ∀ e v s', fold deeper e s = .ok v s' →
      (e.isVariable = true ∨ ∀ n, ¬(Node.expr e).Mentions n) → s.scopes.typingOf e = v.typing := by
  have hsound {s : GenState} {e : Expr} {v : Value} {s' : GenState} (h : fold deeper e s = .ok v s')
      (ht : s.scopes.typingOf e ≠ .unknown) : v.typing = s.scopes.typingOf e := by
    rcases typingOf_of_fold h with hty | ⟨hunknown, -⟩
    · exact hty.symm
    · exact absurd hunknown ht
  refine ⟨fun e v s' => hsound, fun span name args f s₁ hr => ⟨(resolve_ok hr).1, ?_⟩, ?_⟩
  · intro a _ v s₂ h ht
    have hsame : s₁.scopes.typingOf a = (s.scopes.argOf a).typing := typingOf_resolve hr (fold_static h)
    rw [← hsame] at ht ⊢
    exact hsound h ht
  · intro e v s' h hknown
    rcases typingOf_of_fold h with hty | ⟨-, hvar, n, hn⟩
    · exact hty
    · rcases hknown with hknown | hnone
      · rw [hvar] at hknown
        cases hknown
      · exact absurd hn (hnone n)

/-- Two overloads that differ in an annotation, called with a variable in parentheses; and a sum of
texts. -/
theorem fold_has_typing_overload :
    let f (i : Nat) (ty : Typing) : Entry FileId :=
      { id := i, function := ⟨{}, ⟨.ofStatic "m", [⟨.ofStatic "v", ty⟩]⟩, []⟩ }
    let e : Expr := .paren {} (.var {} (.ofStatic "x"))
    let t : Expr := .sum {} (.string {} "a") (.paren {} (.string {} "b"))
    let s : GenState := { scopes := { scopes := [{
      kind := .root, frame := true, file := 0
      statics := [(.ofStatic "x", ⟨.bool true, 0⟩)], entries := [f 0 .int, f 1 .bool] }], nextId := 2 } }
    ∃ s₁ v s₂ w s₃, resolve {} (.ofStatic "m") [e] s = .ok (f 1 .bool) s₁ ∧ (s.scopes.argOf e).typing = .bool ∧
      fold (levels 1) e s₁ = .ok v s₂ ∧ v.typing = .bool ∧
      s.scopes.typingOf t = .string ∧ fold (levels 1) t s = .ok w s₃ ∧ w.typing = .string := by
  intro f e t s
  obtain ⟨hsound, hchosen, -⟩ := fold_has_typing (levels 1) s
  refine ⟨_, _, _, _, _, rfl, rfl, rfl, ?_, rfl, rfl, ?_⟩
  · exact (hchosen {} (.ofStatic "m") [e] _ _ rfl).2 e List.mem_cons_self _ _ rfl (by decide)
  · exact hsound t _ _ rfl (by decide)

end Gen
end PackScript
