import PackScript.Proofs.Generation.Descent
import PackScript.Proofs.Generation.Reached
import PackScript.Proofs.Scope.Worklist

/-! # Generation comes to an end

Nothing in the procedures of the generator says that their calls end: a call may lead to any
function in sight, and each expansion may declare more of them. But a call either goes to a piece
inside the one at hand or raises the depth, which is limited. So calls are nested no deeper than
the size of the program allows at all depths together, and what would answer calls beyond that
makes no difference.
-/
namespace PackScript

/-! ## Calls and their answers -/

/-- All functions in sight are declared in the program. -/
def GenState.Within (p : Program) (s : GenState) : Prop :=
  ∀ e ∈ s.scopes.entries, Node.HasPart (.block p.body) e.function.node

/-- The two sets of procedures do the same with a piece of program. -/
def Procedures.Agree (P P' : Procedures) (s : GenState) : Node → Prop
  | .expr e => P.fold e s = P'.fold e s ∧ P.push e s = P'.push e s
  | .stmt st => P.statement st s = P'.statement st s
  | .otherwise o => P.otherwise o s = P'.otherwise o s
  | .block b => P.block b s = P'.block b s

/-- The procedures do what the generator does with a piece of program at a depth. -/
def Procedures.RightFor (P : Procedures) (p : Program) (c : Node × Nat) : Prop :=
  ∀ s : GenState, s.Within p → s.depth = c.2 → P.Agree .actual s c.1

/-- The calls that may be made for a piece of program at a depth: for what is inside the piece, at
the same depth, and for the bodies of functions, one level deeper unless the limit is reached. -/
inductive Descends (p : Program) : Node × Nat → Node × Nat → Prop
  | inside {node part : Node} {d : Nat} (h : node.Inside part) : Descends p (node, d) (part, d)
  | body {node : Node} {d : Nat} {f : Function} (hf : Node.HasPart (.block p.body) f.node)
      (hd : d < maxNesting) : Descends p (node, d) (.block f.body, d + 1)

/-- Only the pieces of program are restricted. -/
def Law.ofParts (part : Node → Prop) (child : ∀ {node c : Node}, part node → c ∈ node.children → part c) : Law where
  part := part
  value _ := True
  place _ := True
  command _ := True
  child := child
  frame _ _ _ := trivial
  rootFrame _ _ := trivial
  result := trivial
  int _ := trivial
  bool _ := trivial
  string _ := trivial
  joined _ _ := trivial
  unset := trivial
  fixed _ := trivial
  verbatim _ _ := trivial
  pushValue _ := trivial
  pushFrom _ := trivial
  storeTop _ := trivial
  storeValue _ _ := trivial

/-- Whatever comes from the program is allowed. -/
def partLaw (p : Program) : Law := .ofParts (Node.HasPart (.block p.body)) fun h hc => .child h hc

/-- Everything is allowed. -/
def freeLaw : Law := .ofParts (fun _ => True) fun _ _ => trivial

theorem GenState.obeys_partLaw {p : Program} {s : GenState} : s.Obeys (partLaw p) ↔ s.Within p := by
  constructor
  · intro h e he
    exact ScopeStack.part_of_mem_entries h.scopes he
  · intro h
    refine ⟨fun sc hsc => ⟨fun e he => ?_, fun _ _ => trivial⟩, fun _ _ _ _ => trivial, fun _ _ _ => trivial⟩
    exact h e (List.mem_flatMap.2 ⟨sc, hsc, he⟩)

namespace Node

variable {whole node part : Node}

theorem HasPart.trans (h : HasPart whole node) (hp : HasPart node part) : HasPart whole part := by
  induction hp with
  | refl => exact h
  | child _ hc ih => exact .child ih hc

theorem HasPart.inside (h : HasPart whole node) (hp : node.Inside part) : HasPart whole part := by
  obtain ⟨c, hc, hpart⟩ := hp
  exact (HasPart.child h hc).trans hpart

theorem HasPart.sizeOf_le (h : HasPart whole part) : sizeOf part ≤ sizeOf whole := by
  induction h with
  | refl => exact Nat.le_refl _
  | child _ hc ih => exact Nat.le_trans (Nat.le_of_lt (sizeOf_child hc)) ih

theorem Inside.sizeOf_lt (h : whole.Inside part) : sizeOf part < sizeOf whole := by
  obtain ⟨c, hc, hpart⟩ := h
  exact Nat.lt_of_le_of_lt hpart.sizeOf_le (sizeOf_child hc)

end Node

namespace Procedures

open Gen

variable {p : Program} {P : Procedures}

theorem deeper_mirrors {d : Nat} (hd : d ≤ maxNesting)
    (h : d < maxNesting → ∀ f : Function, Node.HasPart (.block p.body) f.node →
      P.RightFor p (.block f.body, d + 1)) :
    Deeper.Mirrors (partLaw p) d (levels (maxNesting - d)) (P.deeper d) := by
  by_cases hlt : d < maxNesting
  · have hlevel : maxNesting - d = maxNesting - (d + 1) + 1 := by omega
    rw [hlevel, levels, deeper, if_pos hlt]
    intro f hf
    refine ⟨lawful_block (lawful_levels _ _) f.body (Law.body hf), fun s hs hdepth => ?_⟩
    have hagree : P.block f.body s = actual.block f.body s := h hlt f hf s (GenState.obeys_partLaw.1 hs) hdepth
    rw [hagree, ← hdepth]
    rfl
  · have hlevel : maxNesting - d = 0 := by omega
    rw [hlevel, levels, deeper, if_neg hlt]
    trivial

/-- Right answers to the calls that may be made are all that a step asks for. -/
theorem answers_of_rightFor {node : Node} {d : Nat} (hnode : Node.HasPart (.block p.body) node)
    (hd : d ≤ maxNesting) (h : ∀ c, Descends p (node, d) c → P.RightFor p c) :
    P.Answers (partLaw p) node d (levels (maxNesting - d)) := by
  have hlevels := lawful_levels (partLaw p) (maxNesting - d)
  have hagree {part : Node} (hin : node.Inside part) {s : GenState} (hs : s.Obeys (partLaw p))
      (hdepth : s.depth = d) : P.Agree actual s part :=
    h (part, d) (.inside hin) s (GenState.obeys_partLaw.1 hs) hdepth
  refine ⟨fun {e} hin => ?_, fun {e} hin => ?_, fun {st} hin => ?_, fun {o} hin => ?_, fun {b} hin => ?_, ?_⟩
  · refine ⟨lawful_fold hlevels e (hnode.inside hin), fun s hs hdepth => ?_⟩
    rw [(hagree hin hs hdepth).1, ← hdepth]
    rfl
  · refine ⟨lawful_push hlevels e (hnode.inside hin), fun s hs hdepth => ?_⟩
    rw [(hagree hin hs hdepth).2, ← hdepth]
    rfl
  · refine ⟨lawful_statement hlevels st (hnode.inside hin), fun s hs hdepth => (hagree hin hs hdepth).trans ?_⟩
    rw [← hdepth]
    rfl
  · refine ⟨lawful_otherwise hlevels o (hnode.inside hin), fun s hs hdepth => (hagree hin hs hdepth).trans ?_⟩
    rw [← hdepth]
    rfl
  · refine ⟨lawful_block hlevels b (hnode.inside hin), fun s hs hdepth => (hagree hin hs hdepth).trans ?_⟩
    rw [← hdepth]
    rfl
  · exact deeper_mirrors hd fun hlt f hf => h _ (.body hf hlt)

/-- A step does what the generator does if the calls that may be made are answered that way, whatever
answers all other calls. -/
theorem step_rightFor {c : Node × Nat} (hc : Node.HasPart (.block p.body) c.1) (hd : c.2 ≤ maxNesting)
    (h : ∀ c', Descends p c c' → P.RightFor p c') : P.step.RightFor p c := by
  obtain ⟨node, d⟩ := c
  have hanswers := answers_of_rightFor hc hd h
  intro s hs hdepth
  have hobeys : s.Obeys (partLaw p) := GenState.obeys_partLaw.2 hs
  have hdepth : s.depth = d := hdepth
  cases node with
  | expr e =>
    have hfold := (mirrors_foldStep hc hanswers).same hobeys hdepth
    have hpush := (mirrors_pushStep hc hanswers).same hobeys hdepth
    rw [← hdepth] at hfold hpush
    exact ⟨hfold, hpush⟩
  | stmt st =>
    have hstatement := (mirrors_statementStep hc hanswers).same hobeys hdepth
    rw [← hdepth] at hstatement
    exact hstatement
  | otherwise o =>
    have hotherwise := (mirrors_otherwiseStep hanswers).same hobeys hdepth
    rw [← hdepth] at hotherwise
    exact hotherwise
  | block b =>
    have hblock := (mirrors_blockStep hc hanswers).same hobeys hdepth
    rw [← hdepth] at hblock
    exact hblock

end Procedures

/-! ## Descent -/

/-- How far calls can still descend: through all pieces of the program at every further depth, and
through what is inside the piece at this one. -/
noncomputable def rank (p : Program) (c : Node × Nat) : Nat :=
  (maxNesting - c.2) * (sizeOf (Node.block p.body) + 1) + sizeOf c.1

namespace Descends

variable {p : Program} {c c' : Node × Nat}

theorem part (h : Descends p c c') (hc : Node.HasPart (.block p.body) c.1) :
    Node.HasPart (.block p.body) c'.1 := by
  cases h with
  | inside hin => exact hc.inside hin
  | body hf _ => exact .child hf List.mem_cons_self

theorem depth_le (h : Descends p c c') (hd : c.2 ≤ maxNesting) : c'.2 ≤ maxNesting := by
  cases h with
  | inside _ => exact hd
  | body _ hlt => exact hlt

/-- A call raises the depth or goes to a smaller piece. -/
theorem lexicographic (h : Descends p c c') : c'.2 = c.2 + 1 ∨ c'.2 = c.2 ∧ sizeOf c'.1 < sizeOf c.1 := by
  cases h with
  | inside hin => exact .inr ⟨rfl, hin.sizeOf_lt⟩
  | body _ _ => exact .inl rfl

theorem rank_lt (h : Descends p c c') (hc : Node.HasPart (.block p.body) c.1) (hd : c.2 ≤ maxNesting) :
    rank p c' < rank p c := by
  have hsize : sizeOf c'.1 ≤ sizeOf (Node.block p.body) := (h.part hc).sizeOf_le
  have hdepth := h.depth_le hd
  unfold rank
  rcases h.lexicographic with hraised | ⟨hsame, hlt⟩
  · have hlevel : maxNesting - c.2 = maxNesting - c'.2 + 1 := by omega
    rw [hlevel, Nat.succ_mul]
    omega
  · rw [hsame]
    omega

end Descends

namespace Procedures

open Gen

variable {p : Program}

/-- Nested as deep as calls can descend, the procedures are right, whatever answers the calls beyond. -/
theorem unrolled_rightFor (P : Procedures) {k : Nat} {c : Node × Nat}
    (hc : Node.HasPart (.block p.body) c.1) (hd : c.2 ≤ maxNesting) (hk : rank p c < k) :
    (P.unrolled k).RightFor p c := by
  induction k generalizing c with
  | zero => exact absurd hk (Nat.not_lt_zero _)
  | succ k ih =>
    refine step_rightFor hc hd fun c' hc' => ih (hc'.part hc) (hc'.depth_le hd) ?_
    exact Nat.lt_of_lt_of_le (hc'.rank_lt hc hd) (Nat.le_of_lt_succ hk)

theorem program_of_rightFor {P : Procedures} (h : P.RightFor p (.block p.body, 0)) (ns : Bytes) :
    P.program ns p {} = Gen.program ns p {} := by
  have hpart : (partLaw p).part (.block p.body) := Node.HasPart.refl
  have hblock : Mirrors (partLaw p) 0 (fun _ => True) (Gen.block (levels maxNesting) p.body)
      (P.block p.body) := by
    refine ⟨lawful_block (lawful_levels _ _) _ hpart, fun s hs hdepth => ?_⟩
    have hagree : P.block p.body s = Gen.block (levels (maxNesting - s.depth)) p.body s :=
      h s (GenState.obeys_partLaw.1 hs) hdepth
    rw [hagree, hdepth, Nat.sub_zero]
  have hprogram : Mirrors (partLaw p) 0 (fun _ => True) (Gen.program ns p) (P.program ns p) := by
    refine lawful_newFile.mirrors.bind fun file _ => mirrors_writingTo file (mirrors_inScope .root ?_)
    refine (lawful_declareStatic _ trivial file).mirrors.bind fun _ _ => hblock.bind fun _ _ => ?_
    refine (Lawful.get fun t _ => ?_).mirrors
    have htop : Lawful (partLaw p) (fun _ => True) (ofExcept t.scopes.top) := lawful_ofExcept fun _ _ => trivial
    exact htop.bind fun top _ => lawful_pure trivial
  exact hprogram.same (obeys_initial _) rfl

theorem generate_unrolled (P : Procedures) (ns : Bytes) (p : Program) {k : Nat}
    (hk : (maxNesting + 1) * (sizeOf (Node.block p.body) + 1) ≤ k) :
    (P.unrolled k).generate ns p = p.generate ns := by
  have hrank : rank p (.block p.body, 0) < k := by
    refine Nat.lt_of_lt_of_le ?_ hk
    rw [Nat.succ_mul]
    exact Nat.add_lt_add_left (Nat.lt_succ_self _) _
  have hright := P.unrolled_rightFor .refl (Nat.zero_le _) hrank
  have hprogram : (program (P.unrolled k) ns p).run {} = (Gen.program ns p).run {} :=
    program_of_rightFor hright ns
  rw [generate, hprogram]
  rfl

end Procedures

/-! ## The depth of a run -/

namespace Gen

variable {α : Type} {s s' : GenState}

theorem obeys_freeLaw (s : GenState) : s.Obeys freeLaw :=
  ⟨fun _ _ => ⟨fun _ _ => trivial, fun _ _ => trivial⟩, fun _ _ _ _ => trivial, fun _ _ _ => trivial⟩

theorem Lawful.depth {Q : α → Prop} {m : Gen α} {a : α} (h : Lawful freeLaw Q m) (hok : m s = .ok a s') :
    s'.depth = s.depth := (h (obeys_freeLaw s) hok).2.1

/-- The further levels that a task may use. -/
def Task.level? : Task → Option Nat
  | .locate _ _ => none
  | .block n _ | .bodies n _ _ | .body n _ _ _ _ | .statements n _ | .statement n _ | .conditional n _ _ _
  | .branch n _ | .otherwise n _ | .text n _ | .fold n _ | .foldAll n _ | .foldStatics n _ _ | .push n _
  | .pushDynamics n _ _ | .invoke n _ _ _ _ | .expand n _ _ _ | .specialize n _ _ _ => some n

/-- The depth and the further levels add up to the limit. -/
structure Levelled (t : Task) (s : GenState) : Prop where
  depth_le : s.depth ≤ maxNesting
  balance : ∀ n, t.level? = some n → n + s.depth = maxNesting

theorem Levelled.next {t t' : Task} (h : Levelled t s) (hd : s'.depth = s.depth) (ht : t'.level? = t.level?) :
    Levelled t' s' := by
  refine ⟨hd ▸ h.depth_le, fun n hn => ?_⟩
  rw [hd]
  exact h.balance n (ht ▸ hn)

theorem Levelled.locate {t : Task} (h : Levelled t s) (hd : s'.depth = s.depth) (name : Name) (span : Span) :
    Levelled (.locate name span) s' := ⟨hd ▸ h.depth_le, fun n hn => by cases hn⟩

/-- One level deeper, one level less is left. -/
theorem Levelled.deepen {t t' : Task} {n : Nat} (h : Levelled t s) (hd : s'.depth = s.depth + 1)
    (ht : t.level? = some (n + 1)) (ht' : t'.level? = some n) : Levelled t' s' := by
  have hbalance := h.balance (n + 1) ht
  refine ⟨by omega, fun m hm => ?_⟩
  obtain rfl : n = m := Option.some.inj (ht'.symm.trans hm)
  omega

theorem depth_inArm (s : GenState) (opens : Bool) : (inArm s opens).depth = s.depth := by
  cases opens <;> rfl

theorem depth_declareTarget {target : Name} {ty : Typing} {declare : Bool}
    (h : declareTarget target ty declare s = .ok () s') : s'.depth = s.depth := by
  have hlawful : Lawful freeLaw (fun _ => True) (declareTarget target ty declare) := by
    unfold declareTarget
    split
    · exact lawful_declareRuntime target ty
    · exact lawful_pure trivial
  exact hlawful.depth h

/-- Whatever a run comes to, the depth has not passed its limit. -/
theorem Reached.levelled {ns : Bytes} {p : Program} {t : Task} (h : Reached ns p t s) : Levelled t s := by
  have hlevels (n : Nat) : (levels n).Lawful freeLaw := lawful_levels freeLaw n
  have hfold {n : Nat} {e : Expr} {s s' : GenState} {v : Value} (h : fold (levels n) e s = .ok v s') :
      s'.depth = s.depth := (lawful_fold (hlevels n) e trivial).depth h
  have hpush {n : Nat} {e : Expr} {s s' : GenState} (h : push (levels n) e s = .ok () s') :
      s'.depth = s.depth := (lawful_push (hlevels n) e trivial).depth h
  have hfoldAll {n : Nat} {es : List Expr} {s s' : GenState} {vs : List Value}
      (h : foldAll (levels n) es s = .ok vs s') : s'.depth = s.depth :=
    (lawful_foldAll (hlevels n) es fun _ _ => trivial).depth h
  have hstatics {n : Nat} {args : List Expr} {params : List Param} {s s' : GenState}
      {statics : List (Name × Value)} (h : foldStatics (levels n) args params s = .ok statics s') :
      s'.depth = s.depth := (lawful_foldStatics (hlevels n) (fun _ _ => trivial) params).depth h
  have hresolve {span : Span} {name : Name} {args : List Expr} {s s' : GenState} {e : Entry FileId}
      (h : resolve span name args s = .ok e s') : s'.depth = s.depth :=
    (lawful_resolve (L := freeLaw) span name args).depth h
  have hrefuse {span : Span} {l r : Expr} {s s' : GenState} (h : refuseStrings span l r s = .ok () s') :
      s'.depth = s.depth := (lawful_refuseStrings (L := freeLaw) span l r).depth h
  have hcheck {target : Name} {declared got : Typing} {value : Expr} {s s' : GenState}
      (h : checkTyping target declared value got s = .ok () s') : s'.depth = s.depth :=
    (lawful_checkTyping (L := freeLaw) target declared value got).depth h
  induction h with
  | program h => exact ⟨Nat.zero_le _, fun n hn => Option.some.inj hn ▸ rfl⟩
  | bodies h htop hd ih =>
    exact ih.next ((lawful_declareAheads (L := freeLaw) _ fun _ _ => trivial).depth hd) rfl
  | statements h htop hd hb ih =>
    have hdeclared := (lawful_declareAheads (L := freeLaw) _ fun _ _ => trivial).depth hd
    have hbodies := (lawful_reservedBodies (hlevels _) _ (fun _ _ => trivial) _).depth hb
    exact ih.next (hbodies.trans hdeclared) rfl
  | @laterBodies n span sig b rest file files s s₁ h hb ih =>
    have hbody := lawful_block (hlevels n) b trivial
    have hfunction : Lawful freeLaw (fun _ => True) (functionBody file sig.params [] (block (levels n) b)) :=
      lawful_functionBody file sig.params (fun _ _ => trivial) hbody
    exact ih.next (hfunction.depth hb) rfl
  | @insideBody n file params statics b s s₁ h hp ih =>
    have hparams : s₁.depth = (inBody s file).depth :=
      (lawful_declareParams (L := freeLaw) file (fun _ _ => trivial) params).depth hp
    exact ih.next hparams rfl
  | laterStatements h hd ih => exact ih.next ((lawful_statement (hlevels _) _ trivial).depth hd) rfl
  | laterHoles h he hv ih => exact ih.next (hfold he) rfl
  | branch h ht ih => exact ih.next (hpush ht) rfl
  | otherwise h ht hb hl hr ih =>
    have hbranch := (lawful_branch _ (lawful_block (hlevels _) _ trivial)).depth hb
    have hload := (lawful_emit (L := freeLaw) trivial).depth hl
    have hrun := (lawful_emit (L := freeLaw) trivial).depth hr
    exact ih.next (((hrun.trans hload).trans hbranch).trans (hpush ht)) rfl
  | insideBranch h ih => exact ih.next (depth_inArm _ _) rfl
  | otherCond h ih => exact ih.next (depth_inArm _ _) rfl
  | targetOfStatic h ht hv hf hc hd ih =>
    exact ih.locate (((depth_declareTarget hd).trans (hcheck hc)).trans (hfold hf)) _ _
  | targetOfDynamic h ht hv hf hc hd ih =>
    exact ih.locate (((depth_declareTarget hd).trans (hcheck hc)).trans (hpush hf)) _ _
  | staticCall h hn hr ih => exact ih.next (hresolve hr) rfl
  | expandCall h hn hr hf ih => exact ih.next ((hfoldAll hf).trans (hresolve hr)) rfl
  | foldSumRight h hs hl ih => exact ih.next (hfold hl) rfl
  | foldProductRight h hs hl ih => exact ih.next (hfold hl) rfl
  | foldArguments h hs hr ih => exact ih.next (hresolve hr) rfl
  | foldCall h hs hr hf ih => exact ih.next ((hfoldAll hf).trans (hresolve hr)) rfl
  | foldLater h he ih => exact ih.next (hfold he) rfl
  | laterStatics h hq ha ih => exact ih.next (hfold ha) rfl
  | pushVariable h hs ih => exact ih.locate rfl _ _
  | pushSumLeft h hs hr ih => exact ih.next (hrefuse hr) rfl
  | pushSumRight h hs hr hl ih => exact ih.next ((hpush hl).trans (hrefuse hr)) rfl
  | pushProductLeft h hs hr ih => exact ih.next (hrefuse hr) rfl
  | pushProductRight h hs hr hl ih => exact ih.next ((hpush hl).trans (hrefuse hr)) rfl
  | pushFirst h hl hq ih =>
    exact ih.next ((lawful_pushDynamics (hlevels _) _ (fun _ _ => trivial) _).depth hl) rfl
  | invokeStatics h hr hv hs ih => exact ih.next (hresolve hr) rfl
  | invokeSpecialized h hr hv hs hf ih => exact ih.next ((hstatics hf).trans (hresolve hr)) rfl
  | specializedArguments h hr hv hs hf hg ih =>
    have hfile := (lawful_specialize (hlevels _) _ trivial fun _ _ => trivial).depth hg
    exact ih.next ((hfile.trans (hstatics hf)).trans (hresolve hr)) rfl
  | placedArguments h hr hv hs hg ih => exact ih.next (hresolve hr) rfl
  | insideExpansion h hf hb ih =>
    exact ih.deepen ((lawful_bindArguments (L := freeLaw) _ _ fun _ _ => trivial).depth hb) rfl rfl
  | firstSpecialized h hk ih => exact ih.deepen rfl rfl rfl
  | _ =>
    rename_i ih
    exact ih.next rfl rfl

end Gen

/-- Generation comes to an end for every program. A step of the procedures needs right answers only
to calls that descend: into the piece at hand, which makes the piece smaller, or into the body of a
function, which raises the depth, and the depth has a limit. So with calls nested up to a bound that
the size of the program gives, the procedures have the result of the generator, whatever would
answer calls beyond. The bodies that decide what a specialization sees are gone through one after
the other, each function once. -/
theorem Program.generate_terminates (p : Program) :
    (∀ (P : Procedures) (c : Node × Nat), Node.HasPart (.block p.body) c.1 → c.2 ≤ maxNesting →
      (∀ c', Descends p c c' → P.RightFor p c') → P.step.RightFor p c) ∧
    (∀ c c' : Node × Nat, Node.HasPart (.block p.body) c.1 → c.2 ≤ maxNesting → Descends p c c' →
      Node.HasPart (.block p.body) c'.1 ∧ c'.2 ≤ maxNesting ∧
        (c'.2 = c.2 + 1 ∨ c'.2 = c.2 ∧ sizeOf c'.1 < sizeOf c.1)) ∧
    (∀ (P : Procedures) (ns : Bytes) (k : Nat), (maxNesting + 1) * (sizeOf (Node.block p.body) + 1) ≤ k →
      (P.unrolled k).generate ns p = p.generate ns) ∧
    (∀ (ns : Bytes) (t : Gen.Task) (s : GenState), Gen.Reached ns p t s → s.depth ≤ maxNesting) ∧
    ∀ (s : ScopeStack FileId) (f : Function), ∃ fs : List Function,
      s.visibleTo f = s.survey (f.signature.params.map Param.name) (f.body :: fs.map Function.body) ∧
        (f.span :: fs.map Function.span).Nodup ∧ (∀ g ∈ fs, ∃ e ∈ s.entries, e.function = g) ∧
        ∀ g ∈ f :: fs, ∀ e ∈ s.callees g.body, e.function.span ∈ f.span :: fs.map Function.span := by
  refine ⟨fun P c hc hd h => Procedures.step_rightFor hc hd h, fun c c' hc hd h => ?_,
    fun P ns k hk => P.generate_unrolled ns p hk, fun ns t s h => h.levelled.depth_le,
    fun s f => s.visibleTo_eq_survey f⟩
  exact ⟨h.part hc, h.depth_le hd, h.lexicographic⟩

/-- Two static functions that expand each other: some number of nested calls is enough to come to the
limit, whatever would answer the calls beyond. -/
theorem Program.generate_terminates_circle : ∃ p k,
    parse "def f()\x7bg();\x7d def g()\x7bf();\x7d f();" = .ok p ∧
      ∀ P : Procedures, ∃ f, (P.unrolled k).generate "demo" p = .error f ∧
        f.message = "1:23: expansion of macro f/0 nested too deeply" := by
  have hmessage : (((parse "def f()\x7bg();\x7d def g()\x7bf();\x7d f();").bind (generate "demo")).mapError
      Failure.message).map (fun _ => ()) = .error "1:23: expansion of macro f/0 nested too deeply" := by
    decide +kernel
  cases hp : parse "def f()\x7bg();\x7d def g()\x7bf();\x7d f();" with
  | error e =>
    have hparsed : (parse "def f()\x7bg();\x7d def g()\x7bf();\x7d f();").isOk = true := by decide +kernel
    rw [hp] at hparsed
    cases hparsed
  | ok p =>
    refine ⟨p, (maxNesting + 1) * (sizeOf (Node.block p.body) + 1), rfl, fun P => ?_⟩
    have hgenerate := (generate_terminates p).2.2.1 P "demo" _ (Nat.le_refl _)
    rw [hp, Except.bind] at hmessage
    cases hg : p.generate "demo" with
    | ok g =>
      rw [hg] at hmessage
      cases hmessage
    | error f =>
      rw [hg] at hmessage hgenerate
      exact ⟨f, hgenerate, Except.error.inj hmessage⟩

end PackScript
