import Mathlib.Algebra.Group.Nat.Defs
import PackScript.Proofs.Syntax.Places

/-! # Where functions are declared

A declaration starts with a keyword, and all that is declared inside stands behind that. So no two
functions of a program start at the same place, provided the source is no longer than an offset can
tell.
-/
namespace PackScript

open Node

theorem Node.HasPart.cases {whole part : Node} (h : HasPart whole part) :
    part = whole ∨ ∃ c ∈ whole.children, HasPart c part := by
  induction h with
  | refl => exact .inl rfl
  | @child part c' _ hc ih =>
    rcases ih with rfl | ⟨c, hmem, hp⟩
    · exact .inr ⟨c', hc, .refl⟩
    · exact .inr ⟨c, hmem, .child hp hc⟩

/-- A function is declared in one of the pieces, at any depth. -/
def Declares (xs : List Node) (f : Function) : Prop := ∃ x ∈ xs, HasPart x (.stmt (.define f.span f.signature f.body))

namespace Declares

variable {xs ys : List Node} {f : Function}

theorem append : Declares (xs ++ ys) f ↔ Declares xs f ∨ Declares ys f := by
  simp only [Declares, List.mem_append, or_and_right, exists_or]

/-- A function declared in a piece is that piece, or it is declared in a child. -/
theorem inside {node : Node} (h : Declares [node] f) :
    node = .stmt (.define f.span f.signature f.body) ∨ Declares node.children f := by
  obtain ⟨x, hx, hp⟩ := h
  obtain rfl := List.mem_singleton.1 hx
  rcases hp.cases with heq | ⟨c, hc, hp⟩
  · exact .inl heq.symm
  · exact .inr ⟨c, hc, hp⟩

theorem not_expr {es : List Expr} : ¬Declares (es.map .expr) f := by
  rintro ⟨x, hx, hp⟩
  obtain ⟨e, -, rfl⟩ := List.mem_map.1 hx
  have hpart : ∀ part, HasPart (.expr e) part → ∃ e', part = .expr e' := by
    intro part hp
    induction hp with
    | refl => exact ⟨e, rfl⟩
    | child _ hc ih =>
      obtain ⟨e', rfl⟩ := ih
      cases e' with
      | sum _ l r =>
        rcases List.mem_cons.1 hc with rfl | hc
        · exact ⟨l, rfl⟩
        · exact ⟨r, List.mem_singleton.1 hc⟩
      | product _ l r =>
        rcases List.mem_cons.1 hc with rfl | hc
        · exact ⟨l, rfl⟩
        · exact ⟨r, List.mem_singleton.1 hc⟩
      | paren _ e => exact ⟨e, List.mem_singleton.1 hc⟩
      | call _ _ args =>
        obtain ⟨a, -, rfl⟩ := List.mem_map.1 hc
        exact ⟨a, rfl⟩
      | _ => cases hc
  obtain ⟨e', he'⟩ := hpart _ hp
  cases he'

end Declares

/-- The functions declared in the pieces start between `i` and `j`, each at a place of its own. -/
structure Told (xs : List Node) (i j : Nat) : Prop where
  starts : ∀ f, Declares xs f → ∃ a, i ≤ a ∧ a < j ∧ f.span.offset = .ofNat a
  eq : ∀ f g, Declares xs f → Declares xs g → f.span = g.span → f = g

theorem offset_inj {a b : Nat} (ha : a < 2 ^ 63) (hb : b < 2 ^ 63) (h : Int64.ofNat a = .ofNat b) : a = b := by
  have hvalue := congrArg Int64.toInt h
  rw [Int64.toInt_ofNat_of_lt ha, Int64.toInt_ofNat_of_lt hb] at hvalue
  exact Int.ofNat.inj hvalue

namespace Told

variable {xs ys : List Node} {i j k : Nat}

theorem none (h : ∀ f, ¬Declares xs f) : Told xs i j :=
  ⟨fun f hf => absurd hf (h f), fun f _ hf => absurd hf (h f)⟩

theorem imp (h : Told xs i j) (hys : ∀ f, Declares ys f → Declares xs f) : Told ys i j :=
  ⟨fun f hf => h.starts f (hys f hf), fun f g hf hg => h.eq f g (hys f hf) (hys g hg)⟩

theorem widen {i' j' : Nat} (h : Told xs i j) (hi : i' ≤ i) (hj : j ≤ j') : Told xs i' j' := by
  refine ⟨fun f hf => ?_, h.eq⟩
  obtain ⟨a, hia, haj, ha⟩ := h.starts f hf
  exact ⟨a, Nat.le_trans hi hia, Nat.lt_of_lt_of_le haj hj, ha⟩

theorem append (hx : Told xs i j) (hy : Told ys j k) (hij : i ≤ j) (hjk : j ≤ k) (hk : k < 2 ^ 63) : Told (xs ++ ys) i k := by
  have hne : ∀ f g, Declares xs f → Declares ys g → f.span ≠ g.span := by
    intro f g hf hg hspan
    obtain ⟨a, -, haj, ha⟩ := hx.starts f hf
    obtain ⟨b, hjb, hbk, hb⟩ := hy.starts g hg
    have heq : a = b := offset_inj (by omega) (by omega) (by rw [← ha, ← hb, hspan])
    omega
  refine ⟨fun f hf => ?_, fun f g hf hg hspan => ?_⟩
  · rcases Declares.append.1 hf with hf | hf
    · exact (hx.widen (Nat.le_refl i) hjk).starts f hf
    · exact (hy.widen hij (Nat.le_refl k)).starts f hf
  · rcases Declares.append.1 hf with hf | hf
    · rcases Declares.append.1 hg with hg | hg
      · exact hx.eq f g hf hg hspan
      · exact absurd hspan (hne f g hf hg)
    · rcases Declares.append.1 hg with hg | hg
      · exact absurd hspan.symm (hne g f hg hf)
      · exact hy.eq f g hf hg hspan

/-- A declared function starts before all that is declared inside. -/
theorem define {span : Span} {sig : Signature} {body : Block} {a : Nat} (h : Told (body.map .stmt) i j)
    (hspan : span.offset = .ofNat a) (hai : a < i) (haj : a < j) (hj : j < 2 ^ 63) : Told [.stmt (.define span sig body)] a j := by
  have hinside {f : Function} (hf : Declares [.stmt (.define span sig body)] f) :
      f = ⟨span, sig, body⟩ ∨ Declares (body.map .stmt) f := by
    rcases hf.inside with heq | ⟨c, hc, hp⟩
    · cases heq
      exact .inl rfl
    · obtain rfl := List.mem_singleton.1 hc
      rcases hp.cases with heq | hp
      · cases heq
      · exact .inr hp
  have hne {f : Function} (hf : Declares (body.map .stmt) f) : f.span ≠ span := by
    rintro rfl
    obtain ⟨b, hib, hbj, hb⟩ := h.starts f hf
    have heq : a = b := offset_inj (by omega) (by omega) (by rw [← hspan, ← hb])
    omega
  refine ⟨fun f hf => ?_, fun f g hf hg heq => ?_⟩
  · rcases hinside hf with rfl | hf
    · exact ⟨a, Nat.le_refl a, haj, hspan⟩
    · exact (h.widen (Nat.le_of_lt hai) (Nat.le_refl j)).starts f hf
  · rcases hinside hf with rfl | hf
    · rcases hinside hg with rfl | hg
      · rfl
      · exact absurd heq.symm (hne hg)
    · rcases hinside hg with rfl | hg
      · exact absurd heq (hne hf)
      · exact h.eq f g hf hg heq

end Told

namespace Grammar

variable {src : Bytes} {toks us : List Token} {xs ys : List Node}

/-- Wherever these tokens are laid, the functions declared in the pieces start there. -/
def Tells (src : Bytes) (toks : List Token) (xs : List Node) : Prop :=
  ∀ i j, j ≤ src.length → Laid src i toks j → Told xs i j

namespace Tells

theorem none (h : ∀ f, ¬Declares xs f) : Tells src toks xs := fun _ _ _ _ => .none h

theorem append (hsrc : src.length < 2 ^ 63) (hx : Tells src toks xs) (hy : Tells src us ys) : Tells src (toks ++ us) (xs ++ ys) := by
  intro i k hk h
  obtain ⟨j, hfront, hback⟩ := h.split
  refine (hx i j (Nat.le_trans hback.le hk) hfront).append (hy j k hk hback) hfront.le hback.le ?_
  exact Nat.lt_of_le_of_lt hk hsrc

theorem imp (h : Tells src toks xs) (hys : ∀ f, Declares ys f → Declares xs f) : Tells src toks ys :=
  fun i j hj hl => (h i j hj hl).imp hys

theorem cons (h : Tells src toks xs) (tok : Token) : Tells src (tok :: toks) xs := by
  intro i j hj hl
  cases hl with
  | cons hi hab _ _ hl => exact (h _ j hj hl).widen (by omega) (Nat.le_refl j)

/-- Tokens in front in which no function is declared. -/
theorem after (h : Tells src us xs) (toks : List Token) : Tells src (toks ++ us) xs := by
  intro i k hk hl
  obtain ⟨j, hfront, hback⟩ := hl.split
  exact (h j k hk hback).widen hfront.le (Nat.le_refl k)

theorem concat (h : Tells src toks xs) (tok : Token) : Tells src (toks ++ [tok]) xs := by
  intro i k hk hl
  obtain ⟨j, hfront, hback⟩ := hl.split
  exact (h i j (Nat.le_trans hback.le hk) hfront).widen (Nat.le_refl i) hback.le

end Tells

theorem not_declares_leaf (es : List Expr) {s : Stmt} {f : Function} (hs : ∀ span sig body, s ≠ .define span sig body)
    (hc : (Node.stmt s).children = es.map .expr) : ¬Declares [.stmt s] f := by
  intro hf
  rcases hf.inside with heq | hf
  · exact hs _ _ _ (Node.stmt.inj heq)
  · rw [hc] at hf
    exact Declares.not_expr hf

theorem declares_block {b : Block} {f : Function} (h : Declares [.block b] f) : Declares (b.map .stmt) f := by
  rcases h.inside with heq | hf
  · cases heq
  · exact hf

theorem declares_conditional {test : Expr} {body : Block} {other : Otherwise} {f : Function}
    (h : Declares [.expr test, .block body, .otherwise other] f) : Declares (body.map .stmt ++ [.otherwise other]) f := by
  have hsplit : Declares ([test].map .expr ++ ([.block body] ++ [.otherwise other])) f := h
  rcases Declares.append.1 hsplit with h | h
  · exact absurd h Declares.not_expr
  · rcases Declares.append.1 h with h | h
    · exact Declares.append.2 (.inl (declares_block h))
    · exact Declares.append.2 (.inr h)

theorem declares_otherwise {o : Otherwise} {f : Function} (h : Declares [.otherwise o] f) :
    Declares (Node.otherwise o).children f := by
  rcases h.inside with heq | hf
  · cases heq
  · exact hf

mutual
theorem IsStmt.tells (hsrc : src.length < 2 ^ 63) {toks : List Token} {s : Stmt} : IsStmt toks s → Tells src toks [.stmt s]
  | .command h => .none fun f => not_declares_leaf (List.map Prod.snd _) (by simp) (by rw [children, List.map_map]; rfl)
  | .cond h => by
    refine (h.tells hsrc).imp fun f hf => ?_
    rcases hf.inside with heq | hf
    · cases heq
    · exact declares_conditional hf
  | .define hsig hbody _ => by
    intro i j hj hl
    obtain ⟨a, b, ha, hb, hfills⟩ := hl.tight (List.cons_ne_nil _ _)
    cases hfills.laid with
    | cons hi hab _ _ hrest =>
      obtain ⟨c, hhead, hbraced⟩ := hrest.split
      have hinside := hbody.tells hsrc c b (Nat.le_trans hb hj) hbraced
      have hac := hhead.le
      exact (hinside.define hfills.covers.1 (by omega) hfills.lt (by omega)).widen ha hb
  | .ret h => .none fun f => not_declares_leaf [_] (by simp) rfl
  | .declare ht h _ => .none fun f => not_declares_leaf [_] (by simp) rfl
  | .assign h _ => .none fun f => not_declares_leaf [_] (by simp) rfl
  | .call h => .none fun f => not_declares_leaf _ (by simp) rfl
theorem IsConditional.tells (hsrc : src.length < 2 ^ 63) {toks : List Token} {test : Expr} {body : Block} {other : Otherwise} :
    IsConditional toks test body other → Tells src toks (body.map .stmt ++ [.otherwise other])
  | .plain ht hb => by
    refine (((hb.tells hsrc).after _).cons _).imp fun f hf => ?_
    rcases Declares.append.1 hf with hf | hf
    · exact hf
    · obtain ⟨c, hc, -⟩ := declares_otherwise hf
      cases hc
  | .final ht hb hf => by
    refine ((((hb.tells hsrc).append hsrc ((hf.tells hsrc).cons _)).after _).cons _).imp fun f hf => ?_
    rcases Declares.append.1 hf with hf | hf
    · exact Declares.append.2 (.inl hf)
    · exact Declares.append.2 (.inr (declares_block (declares_otherwise hf)))
  | .chain ht hb hn => by
    refine ((((hb.tells hsrc).append hsrc ((hn.tells hsrc).cons _)).after _).cons _).imp fun f hf => ?_
    rcases Declares.append.1 hf with hf | hf
    · exact Declares.append.2 (.inl hf)
    · exact Declares.append.2 (.inr (declares_conditional (declares_otherwise hf)))
theorem IsBlock.tells (hsrc : src.length < 2 ^ 63) {toks : List Token} {b : Block} : IsBlock toks b → Tells src toks (b.map .stmt)
  | .block h => ((h.tells hsrc).concat _).cons _
theorem IsStmts.tells (hsrc : src.length < 2 ^ 63) {toks : List Token} {b : Block} : IsStmts toks b → Tells src toks (b.map .stmt)
  | .nil => .none (by simp [Declares])
  | .cons hs h => (hs.tells hsrc).append hsrc (h.tells hsrc)
end

end Grammar

/-- Two functions of a parsed program that start at the same place are the same. -/
theorem Program.function_eq {src : Bytes} {p : Program} (h : parse src = .ok p) (hsrc : src.length < 2 ^ 63) {f g : Function}
    (hf : HasPart (.block p.body) (.stmt (.define f.span f.signature f.body)))
    (hg : HasPart (.block p.body) (.stmt (.define g.span g.signature g.body))) (hspan : f.span = g.span) : f = g := by
  obtain ⟨toks, hscan, hblock, -⟩ := parse_eq_ok.1 h
  have hproper : Grammar.AllProper (TokenStream.ofTokens toks).tokens := proper_of_scanFrom hscan
  have hbody := (Grammar.wholeBlock_eq_ok _ hproper).1 hblock
  have hlaid := (tiled_of_result hscan).laid (q := 0) rfl (Bytes.hasAt_self src)
  rw [Nat.zero_add, Nat.zero_add] at hlaid
  have htold := hbody.tells hsrc 0 src.length (Nat.le_refl _) hlaid
  have hdeclares {f : Function} (hf : HasPart (.block p.body) (.stmt (.define f.span f.signature f.body))) :
      Declares (p.body.map .stmt) f := Grammar.declares_block ⟨_, List.mem_singleton.2 rfl, hf⟩
  exact htold.eq f g (hdeclares hf) (hdeclares hg) hspan

end PackScript
