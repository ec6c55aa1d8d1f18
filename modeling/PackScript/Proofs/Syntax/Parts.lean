import PackScript.Proofs.Syntax.RoundTrip

/-! # The parts of a program and the names in them

Whether a piece of program is static is read off a few names near its root: of a call only
the name counts, of an assignment the target, of a declaration the signature, and a command
is static without a look at its holes. In a parsed program this comes to the same as looking
everywhere: a piece is static exactly if no name with a sigil stands in any part of it.
-/
namespace PackScript

/-- A piece of a syntax tree. What follows the block of a conditional is a piece of its own. -/
inductive Node where
  | expr (e : Expr)
  | stmt (s : Stmt)
  | otherwise (o : Otherwise)
  | block (b : List Stmt)

namespace Node

def isStatic : Node → Bool
  | .expr e => e.isStatic
  | .stmt s => s.isStatic
  | .otherwise o => o.isStatic
  | .block b => Block.isStatic b

/-- The pieces that a piece is made of. -/
def children : Node → List Node
  | .expr (.sum _ l r) => [.expr l, .expr r]
  | .expr (.product _ l r) => [.expr l, .expr r]
  | .expr (.paren _ e) => [.expr e]
  | .expr (.call _ _ args) => args.map .expr
  | .expr _ => []
  | .stmt (.command _ parts _) => parts.map fun part => .expr part.2
  | .stmt (.cond _ test body other) => [.expr test, .block body, .otherwise other]
  | .stmt (.assign _ _ _ value _) => [.expr value]
  | .stmt (.define _ _ body) => [.block body]
  | .stmt (.call _ _ args) => args.map .expr
  | .stmt (.ret _ value) => [.expr value]
  | .otherwise .nothing => []
  | .otherwise (.block body) => [.block body]
  | .otherwise (.cond _ test body other) => [.expr test, .block body, .otherwise other]
  | .block b => b.map .stmt

/-- The names that stand in a piece itself, outside its children. -/
def ownNames : Node → List Name
  | .expr (.var _ n) => [n]
  | .expr (.call _ n _) => [n]
  | .stmt (.assign _ target _ _ _) => [target]
  | .stmt (.define _ sig _) => sig.name :: sig.params.map Param.name
  | .stmt (.call _ n _) => [n]
  | _ => []

/-- The children that have to be static: holes of commands, bodies of static functions, values of
static variables and arguments of static calls. -/
def settledChildren : Node → List Node
  | .expr (.call _ n args) => if n.isStatic then args.map .expr else []
  | .stmt (.command _ parts _) => parts.map fun part => .expr part.2
  | .stmt (.assign _ target _ value _) => if target.isStatic then [.expr value] else []
  | .stmt (.define _ sig body) => if sig.name.isStatic then [.block body] else []
  | .stmt (.call _ n args) => if n.isStatic then args.map .expr else []
  | _ => []

/-- The piece itself, its children, their children, and so on. -/
inductive HasPart (whole : Node) : Node → Prop
  | refl : HasPart whole whole
  | child {node c : Node} (h : HasPart whole node) (hc : c ∈ node.children) : HasPart whole c

/-- A name stands somewhere in a piece, at any depth. -/
def Mentions (node : Node) (n : Name) : Prop := ∃ part, HasPart node part ∧ n ∈ part.ownNames

def Proper : Node → Prop
  | .expr e => e.Proper 2
  | .stmt s => s.Proper
  | .otherwise o => o.Proper
  | .block b => Block.Proper b

end Node

/-! ## Members of proper lists -/

theorem Expr.ProperAll.mem {es : List Expr} (h : Expr.ProperAll es) {e : Expr} (he : e ∈ es) :
    e.Proper 2 := by
  induction es with
  | nil => cases he
  | cons d es ih =>
    rcases List.mem_cons.1 he with rfl | he
    · exact h.1
    · exact ih h.2 he

theorem Block.Proper.mem {b : List Stmt} (h : Block.Proper b) {s : Stmt} (hs : s ∈ b) : s.Proper := by
  induction b with
  | nil => cases hs
  | cons d b ih =>
    rcases List.mem_cons.1 hs with rfl | hs
    · exact h.1
    · exact ih h.2 hs

theorem IsSegmented.mem {d : Nat} {parts : List (Bytes × Expr)} {tail : Bytes}
    (h : IsSegmented d parts tail) {part : Bytes × Expr} (hp : part ∈ parts) :
    part.2.Proper 2 ∧ part.2.isStatic = true := by
  induction h with
  | plain hs => cases hp
  | hole hl he hs _ ih =>
    rcases List.mem_cons.1 hp with rfl | hp
    · exact ⟨he, hs⟩
    · exact ih hp

theorem Block.isStatic_eq_all (b : List Stmt) : Block.isStatic b = b.all Stmt.isStatic := by
  induction b with
  | nil => rfl
  | cons s b ih => rw [Block.isStatic, List.all_cons, ih]

namespace Node

variable {node c whole part : Node}

theorem HasPart.of_child (hc : c ∈ whole.children) (hp : HasPart c part) : HasPart whole part := by
  induction hp with
  | refl => exact .child .refl hc
  | child _ hc' ih => exact .child ih hc'

theorem Proper.child (h : node.Proper) (hc : c ∈ node.children) : c.Proper := by
  have hargs {es : List Expr} (hes : Expr.ProperAll es) (hm : c ∈ es.map Node.expr) : c.Proper := by
    obtain ⟨e, he, rfl⟩ := List.mem_map.1 hm
    exact hes.mem he
  have hbranch {test : Expr} {body : List Stmt} {other : Otherwise} (htest : test.Proper 2)
      (hbody : Block.Proper body) (hother : other.Proper)
      (hm : c ∈ [Node.expr test, .block body, .otherwise other]) : c.Proper := by
    simp only [List.mem_cons, List.not_mem_nil, or_false] at hm
    rcases hm with rfl | rfl | rfl
    · exact htest
    · exact hbody
    · exact hother
  cases node with
  | expr e =>
    cases e with
    | sum _ l r =>
      simp only [children, List.mem_cons, List.not_mem_nil, or_false] at hc
      rcases hc with rfl | rfl
      · exact h.2.1.mono (by decide)
      · exact h.2.2
    | product _ l r =>
      simp only [children, List.mem_cons, List.not_mem_nil, or_false] at hc
      rcases hc with rfl | rfl
      · exact h.2.1.mono (by decide)
      · exact h.2.2.mono (by decide)
    | paren _ e =>
      obtain rfl := List.mem_singleton.1 hc
      exact h
    | call _ n args => exact hargs h.2.1 hc
    | _ => cases hc
  | stmt s =>
    cases s with
    | command _ parts tail =>
      obtain ⟨p, hp, rfl⟩ := List.mem_map.1 hc
      exact (h.1.mem hp).1
    | cond _ test body other => exact hbranch h.1 h.2.1 h.2.2 hc
    | assign _ target typing value declare =>
      obtain rfl := List.mem_singleton.1 hc
      exact h.2.1
    | define _ sig body =>
      obtain rfl := List.mem_singleton.1 hc
      exact h.2.1
    | call _ n args => exact hargs h.2.1 hc
    | ret _ value =>
      obtain rfl := List.mem_singleton.1 hc
      exact h
  | otherwise o =>
    cases o with
    | nothing => cases hc
    | block body =>
      obtain rfl := List.mem_singleton.1 hc
      exact h
    | cond _ test body other => exact hbranch h.1 h.2.1 h.2.2 hc
  | block b =>
    obtain ⟨s, hs, rfl⟩ := List.mem_map.1 hc
    exact Block.Proper.mem h hs

theorem Proper.of_part (h : whole.Proper) (hp : HasPart whole part) : part.Proper := by
  induction hp with
  | refl => exact h
  | child _ hc ih => exact ih.child hc

theorem sizeOf_child (hc : c ∈ node.children) : sizeOf c < sizeOf node := by
  have hargs {es : List Expr} (hm : c ∈ es.map Node.expr) : sizeOf c < 1 + sizeOf es := by
    obtain ⟨e, he, rfl⟩ := List.mem_map.1 hm
    have hlt := List.sizeOf_lt_of_mem he
    simp only [expr.sizeOf_spec]
    omega
  have hbranch {test : Expr} {body : List Stmt} {other : Otherwise}
      (hm : c ∈ [Node.expr test, .block body, .otherwise other]) :
      sizeOf c ≤ 1 + sizeOf test + sizeOf body + sizeOf other := by
    simp only [List.mem_cons, List.not_mem_nil, or_false] at hm
    rcases hm with rfl | rfl | rfl
    · simp only [expr.sizeOf_spec]
      omega
    · simp only [block.sizeOf_spec]
      omega
    · simp only [otherwise.sizeOf_spec]
      omega
  cases node with
  | expr e =>
    cases e with
    | sum _ l r =>
      simp only [children, List.mem_cons, List.not_mem_nil, or_false] at hc
      rcases hc with rfl | rfl <;> simp only [expr.sizeOf_spec, Expr.sum.sizeOf_spec] <;> omega
    | product _ l r =>
      simp only [children, List.mem_cons, List.not_mem_nil, or_false] at hc
      rcases hc with rfl | rfl <;> simp only [expr.sizeOf_spec, Expr.product.sizeOf_spec] <;> omega
    | paren _ e =>
      obtain rfl := List.mem_singleton.1 hc
      simp only [expr.sizeOf_spec, Expr.paren.sizeOf_spec]
      omega
    | call _ n args =>
      have hlt := hargs hc
      simp only [expr.sizeOf_spec, Expr.call.sizeOf_spec]
      omega
    | _ => cases hc
  | stmt s =>
    cases s with
    | command _ parts tail =>
      obtain ⟨⟨literal, e⟩, hp, rfl⟩ := List.mem_map.1 hc
      have hlt := List.sizeOf_lt_of_mem hp
      simp only [Prod.mk.sizeOf_spec] at hlt
      simp only [expr.sizeOf_spec, stmt.sizeOf_spec, Stmt.command.sizeOf_spec]
      omega
    | cond _ test body other =>
      have hle := hbranch hc
      simp only [stmt.sizeOf_spec, Stmt.cond.sizeOf_spec]
      omega
    | assign _ target typing value declare =>
      obtain rfl := List.mem_singleton.1 hc
      simp only [expr.sizeOf_spec, stmt.sizeOf_spec, Stmt.assign.sizeOf_spec]
      omega
    | define _ sig body =>
      obtain rfl := List.mem_singleton.1 hc
      simp only [block.sizeOf_spec, stmt.sizeOf_spec, Stmt.define.sizeOf_spec]
      omega
    | call _ n args =>
      have hlt := hargs hc
      simp only [stmt.sizeOf_spec, Stmt.call.sizeOf_spec]
      omega
    | ret _ value =>
      obtain rfl := List.mem_singleton.1 hc
      simp only [expr.sizeOf_spec, stmt.sizeOf_spec, Stmt.ret.sizeOf_spec]
      omega
  | otherwise o =>
    cases o with
    | nothing => cases hc
    | block body =>
      obtain rfl := List.mem_singleton.1 hc
      simp only [block.sizeOf_spec, otherwise.sizeOf_spec, Otherwise.block.sizeOf_spec]
      omega
    | cond _ test body other =>
      have hle := hbranch hc
      simp only [otherwise.sizeOf_spec, Otherwise.cond.sizeOf_spec]
      omega
  | block b =>
    obtain ⟨s, hs, rfl⟩ := List.mem_map.1 hc
    have hlt := List.sizeOf_lt_of_mem hs
    simp only [stmt.sizeOf_spec, block.sizeOf_spec]
    omega

/-- The children that have to be static are so in a proper piece. -/
theorem Proper.settled (h : node.Proper) (hc : c ∈ node.settledChildren) :
    c ∈ node.children ∧ c.isStatic = true := by
  have hargs {n : Name} {es : List Expr} (hs : n.isStatic = true → es.all Expr.isStatic = true)
      (hm : c ∈ if n.isStatic then es.map Node.expr else []) :
      c ∈ es.map Node.expr ∧ c.isStatic = true := by
    split at hm
    · rename_i hn
      obtain ⟨e, he, rfl⟩ := List.mem_map.1 hm
      exact ⟨hm, List.all_eq_true.1 (hs hn) e he⟩
    · cases hm
  cases node with
  | expr e =>
    cases e with
    | call _ n args => exact hargs h.2.2 hc
    | _ => cases hc
  | stmt s =>
    cases s with
    | command _ parts tail =>
      obtain ⟨p, hp, rfl⟩ := List.mem_map.1 hc
      exact ⟨hc, (h.1.mem hp).2⟩
    | assign _ target typing value declare =>
      simp only [settledChildren] at hc
      split at hc
      · rename_i ht
        obtain rfl := List.mem_singleton.1 hc
        exact ⟨List.mem_singleton_self _, h.2.2.1 ht⟩
      · cases hc
    | define _ sig body =>
      simp only [settledChildren] at hc
      split at hc
      · rename_i hn
        obtain rfl := List.mem_singleton.1 hc
        exact ⟨List.mem_singleton_self _, (Block.isStatic_eq_all body).trans (h.2.2 hn)⟩
      · cases hc
    | call _ n args => exact hargs h.2.2 hc
    | _ => cases hc
  | otherwise o => cases hc
  | block b => cases hc

/-- In a proper piece, what its shape says agrees with what its names and children say. -/
theorem Proper.isStatic_iff (h : node.Proper) : node.isStatic = true ↔
    (∀ n ∈ node.ownNames, n.isStatic = true) ∧ ∀ c ∈ node.children, c.isStatic = true := by
  have hsettled : ∀ c ∈ node.settledChildren, c.isStatic = true := fun c hc => (h.settled hc).2
  cases node with
  | expr e =>
    cases e with
    | call _ n args =>
      simp only [settledChildren] at hsettled
      simp only [isStatic, Expr.isStatic, ownNames, children, List.mem_singleton, forall_eq]
      exact ⟨fun hn => ⟨hn, by rwa [if_pos hn] at hsettled⟩, And.left⟩
    | _ => simp [isStatic, ownNames, children, Expr.isStatic]
  | stmt s =>
    cases s with
    | command _ parts tail =>
      simp only [isStatic, Stmt.isStatic, ownNames, true_iff]
      exact ⟨by simp, hsettled⟩
    | cond _ test body other => simp [isStatic, ownNames, children, Stmt.isStatic, and_assoc]
    | assign _ target typing value declare =>
      simp only [settledChildren] at hsettled
      simp only [isStatic, Stmt.isStatic, ownNames, children, List.mem_singleton, forall_eq]
      exact ⟨fun ht => ⟨ht, by simpa [ht, isStatic] using hsettled⟩, And.left⟩
    | define _ sig body =>
      simp only [settledChildren] at hsettled
      simp only [isStatic, Stmt.isStatic, Signature.isStatic, ownNames, children, List.mem_singleton,
        forall_eq, List.forall_mem_cons, List.forall_mem_map, Bool.and_eq_true, List.all_eq_true]
      exact ⟨fun hsig => ⟨hsig, by simpa [hsig.1, isStatic] using hsettled⟩, And.left⟩
    | call _ n args =>
      simp only [settledChildren] at hsettled
      simp only [isStatic, Stmt.isStatic, ownNames, children, List.mem_singleton, forall_eq]
      exact ⟨fun hn => ⟨hn, by rwa [if_pos hn] at hsettled⟩, And.left⟩
    | ret _ value => simp [isStatic, ownNames, children, Stmt.isStatic]
  | otherwise o => cases o <;> simp [isStatic, ownNames, children, Otherwise.isStatic, and_assoc]
  | block b => simp [isStatic, ownNames, children, Block.isStatic_eq_all]

theorem Proper.static_part (h : whole.Proper) (hs : whole.isStatic = true) (hp : HasPart whole part) :
    part.isStatic = true := by
  induction hp with
  | refl => exact hs
  | child hnode hc ih => exact ((h.of_part hnode).isStatic_iff.1 ih).2 _ hc

/-- What is not static mentions a name with a sigil: the induction goes down to where it stands. -/
theorem Proper.mentions_dynamic {node : Node} (h : node.Proper) (hs : node.isStatic = false) :
    ∃ n, node.Mentions n ∧ n.isStatic = false := by
  by_cases hown : ∃ n ∈ node.ownNames, n.isStatic = false
  · obtain ⟨n, hn, hdyn⟩ := hown
    exact ⟨n, ⟨node, .refl, hn⟩, hdyn⟩
  · have hchild : ∃ c ∈ node.children, c.isStatic = false := by
      by_contra hnone
      simp only [not_exists, not_and, Bool.not_eq_false] at hown hnone
      rw [h.isStatic_iff.2 ⟨hown, hnone⟩] at hs
      cases hs
    obtain ⟨c, hc, hdyn⟩ := hchild
    have hlt := sizeOf_child hc
    obtain ⟨n, ⟨part, hpart, hn⟩, hname⟩ := mentions_dynamic (h.child hc) hdyn
    exact ⟨n, ⟨part, .of_child hc hpart, hn⟩, hname⟩
termination_by sizeOf node

theorem Proper.isStatic_iff_mentions (h : node.Proper) :
    node.isStatic = true ↔ ∀ n, node.Mentions n → n.isStatic = true := by
  constructor
  · rintro hs n ⟨part, hpart, hn⟩
    exact ((h.of_part hpart).isStatic_iff.1 (h.static_part hs hpart)).1 n hn
  · intro hall
    cases hs : node.isStatic with
    | true => rfl
    | false =>
      obtain ⟨n, hn, hdyn⟩ := h.mentions_dynamic hs
      rw [hall n hn] at hdyn
      cases hdyn

end Node

/-- A part of a parsed program, whatever kind of part it is, counts as static exactly if no name
with a sigil stands anywhere in it. None stands in a hole of a command, in the body of a static
function, in the value of a static variable or in an argument of a static call. -/
theorem Program.isStatic_iff_no_sigil {source : Bytes} {p : Program} (h : parse source = .ok p)
    {node : Node} (hn : Node.HasPart (.block p.body) node) :
    (node.isStatic = true ↔ ∀ n, node.Mentions n → n.dynamic = false) ∧
      ∀ c ∈ node.settledChildren, ∀ n, c.Mentions n → n.dynamic = false := by
  have hsigil (n : Name) : n.isStatic = true ↔ n.dynamic = false := by simp [Name.isStatic]
  have hwhole : (Node.block p.body).Proper := proper_of_parse h
  have hproper := hwhole.of_part hn
  simp only [← hsigil]
  refine ⟨hproper.isStatic_iff_mentions, ?_⟩
  intro c hc
  obtain ⟨hchild, hstatic⟩ := hproper.settled hc
  exact (hproper.child hchild).isStatic_iff_mentions.1 hstatic

/-- A static function with a hole in its body, and a dynamic call with a static one inside. -/
theorem Program.isStatic_iff_no_sigil_call : ∃ p s t,
    parse "def f(n) \x7b if n \x7b /say #\x7bn\x7d\n\x7d return n; \x7d $g(f(1));" = .ok p ∧ p.body = [s, t] ∧
      (s.isStatic = true ∧ ∀ n, (Node.stmt s).Mentions n → n.dynamic = false) ∧
      t.isStatic = false ∧ ¬∀ n, (Node.stmt t).Mentions n → n.dynamic = false := by
  have hview : (parse
      "def f(n) \x7b if n \x7b /say #\x7bn\x7d\n\x7d return n; \x7d $g(f(1));").toOption.map
        (fun p => p.body.map Stmt.isStatic) = some [true, false] := by
    decide +kernel
  cases hp : parse "def f(n) \x7b if n \x7b /say #\x7bn\x7d\n\x7d return n; \x7d $g(f(1));" with
  | error f =>
    rw [hp] at hview
    cases hview
  | ok p =>
    rw [hp] at hview
    obtain ⟨s, rest, hbody, hs, hrest⟩ := List.map_eq_cons_iff.1 (Option.some.inj hview)
    obtain ⟨t, rest', rfl, ht, hnil⟩ := List.map_eq_cons_iff.1 hrest
    obtain rfl := List.map_eq_nil_iff.1 hnil
    have hchild (d : Stmt) (hd : d ∈ p.body) : Node.HasPart (.block p.body) (.stmt d) :=
      .child .refl (List.mem_map_of_mem hd)
    have hfirst := (isStatic_iff_no_sigil hp (hchild s (by simp [hbody]))).1
    have hsecond := (isStatic_iff_no_sigil hp (hchild t (by simp [hbody]))).1
    refine ⟨p, s, t, rfl, hbody, ⟨hs, hfirst.1 hs⟩, ht, fun hnone => ?_⟩
    exact absurd (hsecond.2 hnone) (by simp [Node.isStatic, ht])

end PackScript
