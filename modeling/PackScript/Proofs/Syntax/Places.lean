import PackScript.Proofs.Syntax.Parts
import PackScript.Proofs.Syntax.Tiling

/-! # Where the pieces of a program stand

Every statement and every expression of a program covers a stretch of the source. The stretches
of its children lie inside it, in the order of the children and without overlapping, and a leaf
covers exactly the bytes it is written with. This holds of the expressions in the holes of a
command too, whose places are those of the source and not of the hole.
-/
namespace PackScript

/-- A span that covers the bytes from `i` up to `j`. -/
def Span.Covers (s : Span) (i j : Nat) : Prop := s.offset = .ofNat i ∧ s.length = .ofNat (j - i)

theorem Span.Covers.through {s t : Span} {i j k l : Nat} (hs : s.Covers i j) (ht : t.Covers k l) (hkl : k ≤ l)
    (hil : i ≤ l) : (s.through t).Covers i l := by
  have hl : Int64.ofNat l = .ofNat k + .ofNat (l - k) := by
    rw [← Int64.ofNat_add, Nat.add_sub_cancel' hkl]
  have hl' : Int64.ofNat l = .ofNat i + .ofNat (l - i) := by
    rw [← Int64.ofNat_add, Nat.add_sub_cancel' hil]
  refine ⟨hs.1, ?_⟩
  rw [Span.through, Span.stop, ht.1, ht.2, hs.1, ← hl, hl']
  grind

namespace Node

/-! ## Placed nodes -/

/-- The place that a node bears; blocks bear none. -/
def span? : Node → Option Span
  | .expr e => some e.span
  | .stmt s => some s.span
  | .otherwise (.cond span _ _ _) => some span
  | _ => none

/-- The nodes with a place that a node consists of: itself, if it has one. -/
def placed : Node → List Node
  | .block b => b.map .stmt
  | .otherwise (.block b) => b.map .stmt
  | .otherwise .nothing => []
  | node => [node]

/-- The bytes that a leaf is written with. Of the other nodes this says nothing. -/
def IsWritten : Node → Bytes → Prop
  | .expr (.number _ i), t => IsNumeral t ∧ Decimal.value t ≤ 2147483647 ∧ i = .ofNat (Decimal.value t)
  | .expr (.string _ content), t => (Lexeme.string content).IsSpelled t
  | .expr (.bool _ b), t => t = (if b then Keyword.trueWord else .falseWord).render
  | .expr (.var _ n), t => t = n.render
  | _, _ => True

mutual
/-- A node stands at the bytes from `i` up to `j` of a text, and what it is made of stands there in
order. -/
inductive IsAt (src : Bytes) : Node → Nat → Nat → Prop
  | node {node : Node} {s : Span} {i j : Nat} (hspan : node.span? = some s) (hs : s.Covers i j) (hij : i < j)
      (hj : j ≤ src.length) (hw : node.IsWritten (src.slice i j))
      (h : InOrder src (node.children.flatMap placed) i j) : IsAt src node i j
/-- Nodes stand one behind the other between `i` and `j`. -/
inductive InOrder (src : Bytes) : List Node → Nat → Nat → Prop
  | nil {i j : Nat} (h : i ≤ j) : InOrder src [] i j
  | cons {node : Node} {nodes : List Node} {i a b j : Nat} (hi : i ≤ a) (hn : IsAt src node a b)
      (h : InOrder src nodes b j) : InOrder src (node :: nodes) i j
end

variable {src : Bytes} {node : Node} {xs ys : List Node} {i j k : Nat}

theorem InOrder.le (h : InOrder src xs i j) : i ≤ j := by
  induction xs generalizing i with
  | nil =>
    cases h with
    | nil h => exact h
  | cons x xs ih =>
    cases h with
    | cons hi hn h =>
      cases hn with
      | node _ _ hij _ _ _ =>
        have hle := ih h
        omega

theorem InOrder.widen (h : InOrder src xs i j) (hk : k ≤ i) : InOrder src xs k j := by
  cases h with
  | nil h => exact .nil (Nat.le_trans hk h)
  | cons hi hn h => exact .cons (Nat.le_trans hk hi) hn h

theorem InOrder.append (hx : InOrder src xs i j) (hy : InOrder src ys j k) : InOrder src (xs ++ ys) i k := by
  induction xs generalizing i with
  | nil => exact hy.widen hx.le
  | cons x xs ih =>
    cases hx with
    | cons hi hn h => exact .cons hi hn (ih h)

theorem InOrder.split (h : InOrder src (xs ++ ys) i k) : ∃ j, InOrder src xs i j ∧ InOrder src ys j k := by
  induction xs generalizing i with
  | nil => exact ⟨i, .nil (Nat.le_refl i), h⟩
  | cons x xs ih =>
    cases h with
    | cons hi hn h =>
      obtain ⟨j, hx, hy⟩ := ih h
      exact ⟨j, .cons hi hn hx, hy⟩

theorem InOrder.one (h : InOrder src [node] i j) : ∃ a b, IsAt src node a b := by
  cases h with
  | cons hi hn h => exact ⟨_, _, hn⟩

/-- Among the pieces of a list of nodes those of each one stand in order. -/
theorem InOrder.of_mem_flatMap (h : InOrder src (xs.flatMap placed) i j) (hn : node ∈ xs) :
    ∃ a b, InOrder src node.placed a b := by
  obtain ⟨front, back, rfl⟩ := List.append_of_mem hn
  rw [List.flatMap_append, List.flatMap_cons] at h
  obtain ⟨a, -, h⟩ := h.split
  obtain ⟨b, h, -⟩ := h.split
  exact ⟨a, b, h⟩

theorem flatMap_placed {α : Type} {f : α → Node} (hf : ∀ x, (f x).placed = [f x]) (l : List α) :
    (l.map f).flatMap placed = l.map f := by
  induction l with
  | nil => rfl
  | cons x l ih =>
    rw [List.map_cons, List.flatMap_cons, ih, hf]
    rfl

/-- A node without a place of its own is no more than its children. -/
theorem placed_eq (hnode : node.placed ≠ [node]) : node.placed = node.children.flatMap placed := by
  cases node with
  | expr e => exact absurd rfl hnode
  | stmt s => exact absurd rfl hnode
  | block b => exact (flatMap_placed (fun _ => rfl) b).symm
  | otherwise o =>
    cases o with
    | nothing => rfl
    | block b => exact (List.append_nil _).symm
    | cond span test body other => exact absurd rfl hnode

/-- In a text where a node stands in order, so do all its parts. -/
theorem InOrder.of_hasPart {whole : Node} (h : InOrder src whole.placed i j) (hp : HasPart whole node) :
    ∃ a b, InOrder src node.placed a b := by
  induction hp with
  | refl => exact ⟨i, j, h⟩
  | child hp hc ih =>
    rename_i parent c
    obtain ⟨a, b, hparent⟩ := ih
    by_cases hplaced : parent.placed = [parent]
    · rw [hplaced] at hparent
      obtain ⟨a, b, hat⟩ := hparent.one
      cases hat with
      | node _ _ _ _ _ hchildren => exact hchildren.of_mem_flatMap hc
    · rw [placed_eq hplaced] at hparent
      exact hparent.of_mem_flatMap hc

theorem placed_of_span? {s : Span} (h : node.span? = some s) : node.placed = [node] := by
  cases node with
  | expr e => rfl
  | stmt t => rfl
  | block b => cases h
  | otherwise o =>
    cases o with
    | cond span test body other => rfl
    | _ => cases h

theorem InOrder.covers {whole : Node} (h : InOrder src whole.placed i j) (hp : HasPart whole node) {s : Span}
    (hs : node.span? = some s) : ∃ a b, a < b ∧ b ≤ src.length ∧ s.Covers a b := by
  obtain ⟨a, b, hin⟩ := h.of_hasPart hp
  rw [placed_of_span? hs] at hin
  obtain ⟨a, b, hat⟩ := hin.one
  cases hat with
  | node hspan hcovers hab hb _ _ =>
    cases hs.symm.trans hspan
    exact ⟨a, b, hab, hb, hcovers⟩

end Node

/-! ## Laid tokens -/

/-- Tokens that stand one behind the other between `i` and `j`, each on the bytes that spell it. -/
inductive Laid (src : Bytes) : (i : Nat) → List Token → (j : Nat) → Prop
  | nil {i j : Nat} (h : i ≤ j) : Laid src i [] j
  | cons {i a b j : Nat} {tok : Token} {toks : List Token} (hi : i ≤ a) (hab : a < b) (hspan : tok.span.Covers a b)
      (hl : tok.lexeme.IsSpelled (src.slice a b)) (h : Laid src b toks j) : Laid src i (tok :: toks) j

namespace Laid

variable {src : Bytes} {toks us : List Token} {tok : Token} {i j k : Nat}

theorem le (h : Laid src i toks j) : i ≤ j := by
  induction h with
  | nil h => exact h
  | cons hi hab hspan hl h ih => omega

theorem split (h : Laid src i (toks ++ us) k) : ∃ j, Laid src i toks j ∧ Laid src j us k := by
  induction toks generalizing i with
  | nil => exact ⟨i, .nil (Nat.le_refl i), h⟩
  | cons tok toks ih =>
    cases h with
    | cons hi hab hspan hl h =>
      obtain ⟨j, hfront, hback⟩ := ih h
      exact ⟨j, .cons hi hab hspan hl hfront, hback⟩

/-- Tokens that stand on the bytes from `i` up to `j` and leave none over at either end. -/
structure Fills (src : Bytes) (toks : List Token) (i j : Nat) : Prop where
  lt : i < j
  covers : (Token.extent toks).Covers i j
  laid : Laid src i toks j
  spelled : ∀ tok, toks = [tok] → tok.lexeme.IsSpelled (src.slice i j)

theorem tight (h : Laid src i toks j) (hne : toks ≠ []) : ∃ a b, i ≤ a ∧ b ≤ j ∧ Fills src toks a b := by
  induction h with
  | nil h => exact absurd rfl hne
  | cons hi hab hspan hl h ih =>
    rename_i i a b j tok toks
    cases toks with
    | nil =>
      refine ⟨a, b, hi, h.le, hab, ?_, .cons (Nat.le_refl a) hab hspan hl (.nil (Nat.le_refl b)), ?_⟩
      · rwa [Token.extent_singleton]
      · intro t ht
        cases ht
        exact hl
    | cons next toks =>
      obtain ⟨a', b', ha', hb', hlt, hcovers, hlaid, -⟩ := ih (List.cons_ne_nil _ _)
      refine ⟨a, b', hi, hb', by omega, ?_, .cons (Nat.le_refl a) hab hspan hl ?_, ?_⟩
      · have hextent : Token.extent ([tok] ++ next :: toks) = tok.span.through (Token.extent (next :: toks)) := by
          rw [Token.extent_append (List.cons_ne_nil _ _) (List.cons_ne_nil _ _), Token.extent_singleton]
        rw [List.singleton_append] at hextent
        rw [hextent]
        exact hspan.through hcovers (Nat.le_of_lt hlt) (by omega)
      · cases hlaid with
        | cons hi' hab' hspan' hl' h' => exact .cons (Nat.le_trans ha' hi') hab' hspan' hl' h'
      · intro t ht
        cases ht

theorem of_infix (h : Laid src i toks j) (hus : us <:+: toks) (hne : us ≠ []) :
    ∃ a b, i ≤ a ∧ b ≤ j ∧ Fills src us a b := by
  obtain ⟨front, back, rfl⟩ := hus
  obtain ⟨c, h, hback⟩ := h.split
  obtain ⟨d, hfront, h⟩ := h.split
  obtain ⟨a, b, ha, hb, hfills⟩ := h.tight hne
  exact ⟨a, b, Nat.le_trans hfront.le ha, Nat.le_trans hb hback.le, hfills⟩

end Laid

/-! ## Texts inside others -/

/-- The text `t` stands in `src` from `q` on. -/
structure Bytes.HasAt (src : Bytes) (q : Nat) (t : Bytes) : Prop where
  le : q + t.length ≤ src.length
  slice_eq : src.slice q (q + t.length) = t

namespace Bytes

variable {src t x y : Bytes} {q i j : Nat}

theorem HasAt.slice (h : HasAt src q t) (hj : j ≤ t.length) : src.slice (q + i) (q + j) = t.slice i j := by
  have hslice : (src.slice q (q + t.length)).slice i j = src.slice (q + i) (q + j) := by
    rw [Bytes.slice, Bytes.slice, Bytes.slice, List.take_drop, List.take_take, List.drop_drop,
      Nat.min_eq_left (Nat.add_le_add_left hj q)]
  rw [← hslice, h.slice_eq]

theorem HasAt.right (h : HasAt src q (x ++ y)) : HasAt src (q + x.length) y where
  le := by
    have hle := h.le
    rw [List.length_append] at hle
    omega
  slice_eq := by
    rw [Nat.add_assoc, h.slice (Nat.le_of_eq List.length_append.symm), slice_append_right, List.take_length]

theorem HasAt.left (h : HasAt src q (x ++ y)) : HasAt src q x where
  le := by
    have hle := h.le
    rw [List.length_append] at hle
    omega
  slice_eq := by
    have hslice := h.slice (i := 0) (j := x.length) (by rw [List.length_append]; exact Nat.le_add_right _ _)
    rwa [slice_append_left, List.drop_zero, Nat.add_zero] at hslice

theorem hasAt_self (src : Bytes) : HasAt src 0 src := ⟨by omega, by rw [Nat.zero_add, slice_length, List.drop_zero]⟩

/-- A hole in a line, and what follows it. -/
theorem HasAt.hole {literal inside rest : Bytes} (h : HasAt src q (literal ++ holeText inside rest)) :
    HasAt src (q + literal.length + 2) inside ∧ HasAt src (q + literal.length + inside.length + 3) rest := by
  have hhole : HasAt src (q + literal.length) ([35, 123] ++ (inside ++ ([125] ++ rest))) := h.right
  have hbehind : HasAt src (q + literal.length + 2 + inside.length + 1) rest := hhole.right.right.right
  refine ⟨hhole.right.left, ?_⟩
  have hplace : q + literal.length + 2 + inside.length + 1 = q + literal.length + inside.length + 3 := by omega
  rwa [hplace] at hbehind

end Bytes

/-- The tokens of a text that stands from `q` on in another one. -/
theorem Tiled.laid {c : Cursor} {src t : Bytes} {q pos : Nat} {toks : List Token} (h : Tiled c t pos toks)
    (hc : c.offset = .ofNat q) (ht : src.HasAt q t) :
    Laid src (q + pos) (TokenStream.ofTokens toks).tokens (q + t.length) := by
  induction h with
  | stop hpos hgap => exact .nil (Nat.add_le_add_left hpos q)
  | token hi hgap hij hj hl h ih =>
    rename_i pos i j l toks
    have hne : l ≠ .endMarker := by
      rintro rfl
      exact hl
    rw [TokenStream.tokens_cons hne]
    refine .cons (Nat.add_le_add_left hi q) (Nat.add_lt_add_left hij q) ⟨?_, ?_⟩ ?_ ih
    · change c.offset + .ofNat (t.take i).length = _
      rw [hc, List.length_take_of_le (by omega), Int64.ofNat_add]
    · change Int64.ofNat (j - i) = _
      rw [Nat.add_sub_add_left]
    · rwa [ht.slice hj]

theorem Tiled.stop_covers {c : Cursor} {t : Bytes} {q pos : Nat} {toks : List Token} (h : Tiled c t pos toks)
    (hc : c.offset = .ofNat q) : (TokenStream.ofTokens toks).stop.Covers (q + t.length) (q + t.length) := by
  induction h with
  | stop hpos hgap =>
    refine ⟨?_, ?_⟩
    · change c.offset + .ofNat t.length = _
      rw [hc, Int64.ofNat_add]
    · rw [Nat.sub_self]
      rfl
  | token hi hgap hij hj hl h ih =>
    rename_i pos i j l toks
    have hne : l ≠ .endMarker := by
      rintro rfl
      exact hl
    have hstop : (TokenStream.ofTokens (⟨l, (c.counted (t.take i)).span (j - i)⟩ :: toks)).stop =
        (TokenStream.ofTokens toks).stop := by
      rw [TokenStream.ofTokens, TokenStream.ofTokens, List.find?_cons_of_neg (by simpa using hne)]
    rw [hstop]
    exact ih

theorem tiled_of_result {c : Cursor} {t : Bytes} {toks : List Token} (h : (scanFrom c t).result = .ok toks) :
    Tiled c t 0 toks := by
  have hnone : ∀ b ∈ ([] : Bytes).drop 0, isTrailing b = true := List.forall_mem_nil _
  exact tiled_of_scanFrom (Nat.zero_le _) hnone rfl h

/-! ## Phrases -/

namespace Grammar

open Node

variable {src : Bytes} {toks us : List Token} {tok : Token} {xs ys : List Node}

/-- Wherever these tokens are laid, the nodes stand there in order. -/
def Places (src : Bytes) (toks : List Token) (xs : List Node) : Prop :=
  ∀ i j, j ≤ src.length → Laid src i toks j → InOrder src xs i j

theorem Places.none (src : Bytes) (toks : List Token) : Places src toks [] := fun _ _ _ h => .nil h.le

theorem Places.append (hx : Places src toks xs) (hy : Places src us ys) : Places src (toks ++ us) (xs ++ ys) := by
  intro i k hk h
  obtain ⟨j, hfront, hback⟩ := h.split
  exact (hx i j (Nat.le_trans hback.le hk) hfront).append (hy j k hk hback)

/-- A token that belongs to no child. -/
theorem Places.cons (h : Places src toks xs) (tok : Token) : Places src (tok :: toks) xs :=
  (Places.none src [tok]).append h

theorem Places.concat (h : Places src toks xs) (tok : Token) : Places src (toks ++ [tok]) xs := by
  have happ := h.append (Places.none src [tok])
  rwa [List.append_nil] at happ

/-- A node that stands where its tokens do. -/
theorem Places.whole {piece : Node} (hne : toks ≠ []) (hspan : piece.span? = some (Token.extent toks))
    (hw : ∀ i j, Laid.Fills src toks i j → piece.IsWritten (src.slice i j))
    (h : Places src toks (piece.children.flatMap placed)) : Places src toks [piece] := by
  intro i j hj hlaid
  obtain ⟨a, b, ha, hb, hfills⟩ := hlaid.tight hne
  have hb' : b ≤ src.length := Nat.le_trans hb hj
  have hat : IsAt src piece a b :=
    .node hspan hfills.covers hfills.lt hb' (hw a b hfills) (h a b hb' hfills.laid)
  exact .cons ha hat (.nil hb)

/-- A leaf stands where its only token does. -/
theorem Places.leaf {e : Expr} (hspan : e.span = tok.span) (hnone : (Node.expr e).children = [])
    (hw : ∀ t, tok.lexeme.IsSpelled t → (Node.expr e).IsWritten t) : Places src [tok] [.expr e] := by
  refine .whole (List.cons_ne_nil _ _) ?_ (fun i j h => hw _ (h.spelled tok rfl)) ?_
  · rw [Token.extent_singleton, ← hspan]
    rfl
  · rw [hnone]
    exact .none src _

theorem Separated.places {items : List (List Token × Expr)} (hsep : Separated (items.map Prod.fst) toks)
    (h : ∀ item ∈ items, Places src item.1 [.expr item.2]) :
    Places src toks ((items.map Prod.snd).map .expr) := by
  generalize hparts : items.map Prod.fst = parts at hsep
  induction hsep generalizing items with
  | none =>
    cases List.map_eq_nil_iff.1 hparts
    exact .none src _
  | one part =>
    obtain ⟨item, rest, rfl, rfl, hrest⟩ := List.map_eq_cons_iff.1 hparts
    cases List.map_eq_nil_iff.1 hrest
    exact h item List.mem_cons_self
  | more part span hsep ih =>
    obtain ⟨item, rest, rfl, rfl, hrest⟩ := List.map_eq_cons_iff.1 hparts
    have hmore := ih (fun it hit => h it (List.mem_cons_of_mem _ hit)) hrest
    exact (h item List.mem_cons_self).append (hmore.cons _)

mutual
theorem IsExpr.places {src : Bytes} {toks : List Token} {e : Expr} :
    IsExpr toks e → Places src toks [.expr e]
  | .summand h => h.places
  | .sum hl hr => .whole (by simp) rfl (fun _ _ _ => trivial) (hl.places.append (hr.places.cons _))
theorem IsSummand.places {src : Bytes} {toks : List Token} {e : Expr} :
    IsSummand toks e → Places src toks [.expr e]
  | .term h => h.places
  | .product hl hr => .whole (by simp) rfl (fun _ _ _ => trivial) (hl.places.append (hr.places.cons _))
theorem IsTerm.places {src : Bytes} {toks : List Token} {e : Expr} :
    IsTerm toks e → Places src toks [.expr e]
  | .number hd hmax => .leaf rfl rfl (by rintro t rfl; exact ⟨hd, hmax, rfl⟩)
  | .string => .leaf rfl rfl fun _ h => h
  | .trueWord => .leaf rfl rfl fun _ h => h
  | .falseWord => .leaf rfl rfl fun _ h => h
  | .var => .leaf rfl rfl fun _ h => h
  | .call h => .whole h.ne_nil rfl (fun _ _ _ => trivial) (by rw [children, flatMap_placed fun _ => rfl]; exact h.places)
  | .paren h => .whole (by simp) rfl (fun _ _ _ => trivial) ((h.places.concat _).cons _)
theorem IsCall.places {src : Bytes} {toks : List Token} {n : Name} {es : List Expr} :
    IsCall toks n es → Places src toks (es.map .expr)
  | .call hsep hitems _ =>
    (((hsep.places fun item hitem => (hitems item hitem).places).concat _).cons _).cons _
end

theorem holeStart_offset {span : Span} {a : Nat} (ha : span.offset = .ofNat a) (before : Nat) :
    (holeStart span before).offset = .ofNat (a + before + 2) := by
  have htwo : (2 : Int64) = .ofNat 2 := rfl
  rw [holeStart, ha, htwo, ← Int64.ofNat_add, ← Int64.ofNat_add]

/-- The expressions in the holes of a command, the rest of whose line stands in the source `before`
bytes behind the start of the command. -/
theorem IsInterpolated.inOrder {span : Span} {before a : Nat} {text tail : Bytes} {parts : List (Bytes × Expr)}
    (h : IsInterpolated span before text parts tail) (ha : span.offset = .ofNat a)
    (htext : src.HasAt (a + before) text) :
    InOrder src (parts.map fun part => .expr part.2) (a + before) (a + before + text.length) := by
  induction h with
  | plain h => exact .nil (Nat.le_add_right _ _)
  | @hole literal inside before toks e rest parts tail hl hin hscan he hs h ih =>
    obtain ⟨hinside, hrest⟩ := htext.hole
    have hstart := holeStart_offset ha (before + literal.length)
    rw [← Nat.add_assoc] at hstart
    have hlaid := (tiled_of_result hscan).laid hstart hinside
    have hexpr := he.places _ _ hinside.le hlaid
    have hbehind : a + (before + literal.length + inside.length + 3) = a + before + literal.length + inside.length + 3 := by
      omega
    have hend : a + before + (literal ++ holeText inside rest).length =
        a + before + literal.length + inside.length + 3 + rest.length := by
      simp only [holeText, List.length_append, List.length_cons]
      omega
    rw [hbehind] at ih
    rw [hend]
    exact (hexpr.widen (by omega)).append ((ih hrest).widen (by omega))

/-- A laid command stands on its line and a slash in front of it. -/
theorem hasAt_of_command {line : Bytes} {a b : Nat}
    (hl : (Lexeme.command line).IsSpelled (src.slice a b)) (hb : b ≤ src.length) :
    b = a + 1 + line.length ∧ src.HasAt (a + 1) line := by
  have hslice : src.slice a b = 47 :: line := hl
  have hlength : b = a + 1 + line.length := by
    have hlen := congrArg List.length hslice
    rw [Bytes.slice, List.length_drop, List.length_take_of_le hb, List.length_cons] at hlen
    omega
  have hwhole : src.HasAt a ([47] ++ line) := by
    refine ⟨?_, ?_⟩
    · rw [List.length_append, List.length_singleton]
      omega
    · rw [List.length_append, List.length_singleton, ← Nat.add_assoc, ← hlength, hslice]
      rfl
  exact ⟨hlength, hwhole.right⟩

theorem IsInterpolated.places {span : Span} {line tail : Bytes} {parts : List (Bytes × Expr)}
    (h : IsInterpolated span 1 line parts tail) :
    Places src [⟨.command line, span⟩] (parts.map fun part => .expr part.2) := by
  intro i j hj hlaid
  cases hlaid with
  | cons hi hab hspan hl hnil =>
    obtain ⟨rfl, hline⟩ := hasAt_of_command hl (Nat.le_trans hnil.le hj)
    have hholes := (h.inOrder hspan.1 hline).append (.nil hnil.le)
    rw [List.append_nil] at hholes
    exact hholes.widen (by omega)

theorem conditional_placed (test : Expr) (body : Block) (other : Otherwise) :
    [Node.expr test, .block body, .otherwise other].flatMap placed =
      [.expr test] ++ (body.map .stmt ++ (Node.otherwise other).placed) := by
  rw [List.flatMap_cons, List.flatMap_cons, List.flatMap_singleton]
  rfl

mutual
theorem IsStmt.places {src : Bytes} {toks : List Token} {s : Stmt} : IsStmt toks s → Places src toks [.stmt s]
  | .command h => by
    refine .whole (List.cons_ne_nil _ _) ?_ (fun _ _ _ => trivial) ?_
    · rw [Token.extent_singleton]
      rfl
    · rw [children, flatMap_placed fun _ => rfl]
      exact h.places
  | .cond h => by
    refine .whole h.ne_nil rfl (fun _ _ _ => trivial) ?_
    rw [children, conditional_placed]
    exact h.places
  | .define hsig hbody _ => by
    refine .whole (by simp) rfl (fun _ _ _ => trivial) ?_
    rw [children, List.flatMap_singleton]
    exact ((Places.none src _).append hbody.places).cons _
  | .ret h => .whole (by simp) rfl (fun _ _ _ => trivial) ((h.places.concat _).cons _)
  | .declare ht h _ => by
    refine .whole (by simp) rfl (fun _ _ _ => trivial) ?_
    exact (Places.none src _).append ((h.places.concat _).cons _)
  | .assign h _ => .whole (by simp) rfl (fun _ _ _ => trivial) (((h.places.concat _).cons _).cons _)
  | .call h => by
    refine .whole (by simp) rfl (fun _ _ _ => trivial) ?_
    rw [children, flatMap_placed fun _ => rfl]
    exact h.places.concat _
theorem IsConditional.places {src : Bytes} {toks : List Token} {test : Expr} {body : Block} {other : Otherwise} :
    IsConditional toks test body other →
      Places src toks ([.expr test] ++ (body.map .stmt ++ (Node.otherwise other).placed))
  | .plain ht hb => by
    rw [placed, List.append_nil]
    exact (ht.places.append hb.places).cons _
  | .final ht hb hf => (ht.places.append (hb.places.append (hf.places.cons _))).cons _
  | .chain ht hb hn => by
    refine (ht.places.append (hb.places.append (Places.cons ?_ _))).cons _
    refine .whole hn.ne_nil rfl (fun _ _ _ => trivial) ?_
    rw [children, conditional_placed]
    exact hn.places
theorem IsBlock.places {src : Bytes} {toks : List Token} {b : Block} :
    IsBlock toks b → Places src toks (b.map .stmt)
  | .block h => (h.places.concat _).cons _
theorem IsStmts.places {src : Bytes} {toks : List Token} {b : Block} :
    IsStmts toks b → Places src toks (b.map .stmt)
  | .nil => .none src _
  | .cons hs h => hs.places.append h.places
end

end Grammar

/-- The statements of a program and all that they are made of. -/
theorem Program.inOrder_of_parse {src : Bytes} {p : Program} (h : parse src = .ok p) :
    Node.InOrder src (Node.block p.body).placed 0 src.length := by
  obtain ⟨toks, hscan, hblock, -⟩ := parse_eq_ok.1 h
  have hproper : Grammar.AllProper (TokenStream.ofTokens toks).tokens := proper_of_scanFrom hscan
  have hbody := (Grammar.wholeBlock_eq_ok _ hproper).1 hblock
  have hlaid := (tiled_of_result hscan).laid (q := 0) rfl (Bytes.hasAt_self src)
  rw [Nat.zero_add, Nat.zero_add] at hlaid
  exact hbody.places 0 src.length (Nat.le_refl _) hlaid

end PackScript
