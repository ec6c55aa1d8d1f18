import PackScript.Proofs.Generation.ExprCourse
import PackScript.Proofs.Generation.Heights
import PackScript.Proofs.Generation.Orderly
import PackScript.Proofs.Runtime.Memory

/-! # Arithmetic

There are two ways to the value of a sum or a product: it is folded while the pack is built,
or commands compute it in the registers when the pack runs. Both give the value over the
integers, wrapped to 32 bits, although each of them wraps at every step.
-/
namespace PackScript

namespace Expr

def operation : Operation → Span → Expr → Expr → Expr
  | .add => .sum
  | .multiply => .product

/-- Built from numbers and variables. -/
inductive IsArithmetic : Expr → Prop
  | number (span : Span) (i : Int32) : IsArithmetic (.number span i)
  | var (span : Span) (n : Name) : IsArithmetic (.var span n)
  | paren {e : Expr} (span : Span) (h : IsArithmetic e) : IsArithmetic (.paren span e)
  | operation {l r : Expr} (op : Operation) (span : Span) (hl : IsArithmetic l) (hr : IsArithmetic r) :
      IsArithmetic (Expr.operation op span l r)

/-- The variables of an arithmetic expression. -/
def names : Expr → List Name
  | .var _ n => [n]
  | .paren _ e => e.names
  | .sum _ l r => l.names ++ r.names
  | .product _ l r => l.names ++ r.names
  | _ => []

/-- The value of an arithmetic expression over the integers, without limits. -/
def value (ρ : Name → Int32) : Expr → Int
  | .number _ i => i.toInt
  | .var _ n => (ρ n).toInt
  | .paren _ e => e.value ρ
  | .sum _ l r => l.value ρ + r.value ρ
  | .product _ l r => l.value ρ * r.value ρ
  | _ => 0

/-- With other variables. -/
def rename (f : Name → Name) : Expr → Expr
  | .var span n => .var span (f n)
  | .paren span e => .paren span (e.rename f)
  | .sum span l r => .sum span (l.rename f) (r.rename f)
  | .product span l r => .product span (l.rename f) (r.rename f)
  | e => e

variable {e l r : Expr} {op : Operation} {span : Span} {ρ : Name → Int32} {f : Name → Name}

@[simp] theorem names_operation :
    (operation op span l r).names = l.names ++ r.names := by
  cases op <;> rfl

@[simp] theorem rename_operation :
    (operation op span l r).rename f = operation op span (l.rename f) (r.rename f) := by
  cases op <;> rfl

@[simp] theorem isStatic_operation :
    (operation op span l r).isStatic = (l.isStatic && r.isStatic) := by
  cases op <;> rfl

/-- Wrapping commutes with both operations. -/
theorem ofInt_value_operation : Int32.ofInt ((operation op span l r).value ρ) =
    op.apply (Int32.ofInt (l.value ρ)) (Int32.ofInt (r.value ρ)) := by
  cases op with
  | add => exact Int32.ofInt_add _ _
  | multiply => exact Int32.ofInt_mul _ _

theorem IsArithmetic.rename_id (h : e.IsArithmetic) : e.rename id = e := by
  induction h with
  | number => rfl
  | var => rfl
  | paren span _ ih => rw [rename, ih]
  | operation op span _ _ ihl ihr => rw [rename_operation, ihl, ihr]

theorem IsArithmetic.isStatic_rename (h : e.IsArithmetic) :
    (e.rename f).isStatic = e.names.all fun n => (f n).isStatic := by
  induction h with
  | number => rfl
  | var span n => exact (Bool.and_true _).symm
  | paren _ _ ih => exact ih
  | operation op span _ _ ihl ihr =>
    rw [rename_operation, isStatic_operation, names_operation, List.all_append, ihl, ihr]

/-- The shape of an arithmetic expression never says that its value is a text. -/
theorem IsArithmetic.typing_ne_string (h : e.IsArithmetic) : e.typing ≠ .string := by
  induction h with
  | number => exact Typing.noConfusion
  | var => exact Typing.noConfusion
  | paren _ _ ih => exact ih
  | @operation l r op span _ _ ihl _ =>
    have hmeet : (Expr.operation op span l r).typing = l.typing.meet r.typing := by cases op <;> rfl
    rw [hmeet, Typing.meet]
    split
    · exact ihl
    · exact Typing.noConfusion

end Expr

/-- The static variables of an expression have their values. -/
def ScopeStack.Assigns (scopes : ScopeStack FileId) (ρ : Name → Int32) (e : Expr) : Prop :=
  ∀ n ∈ e.names, n.isStatic = true → scopes.static? n = some (.int (ρ n))

/-- The places of the dynamic variables of an expression, as seen from the innermost scope, hold
their values. -/
def Memory.Assigns (m : Memory) (scopes : ScopeStack FileId) (ρ : Name → Int32) (e : Expr) : Prop :=
  ∀ n ∈ e.names, n.dynamic = true →
    ∃ place ty, ScopeStack.reach n 0 false scopes.scopes = .found place ty ∧ m.read place = some (.int (ρ n))

theorem ScopeStack.assigns_operation {scopes : ScopeStack FileId} {ρ : Name → Int32} {op : Operation}
    {span : Span} {l r : Expr} :
    scopes.Assigns ρ (.operation op span l r) ↔ scopes.Assigns ρ l ∧ scopes.Assigns ρ r := by
  unfold Assigns
  rw [Expr.names_operation, List.forall_mem_append]

/-- The dynamic variables of an expression are within reach, and none is declared a text. -/
def ScopeStack.Reaches (scopes : ScopeStack FileId) (e : Expr) : Prop :=
  ∀ n ∈ e.names, n.dynamic = true →
    ∃ place ty, reach n 0 false scopes.scopes = .found place ty ∧ ty ≠ .string

theorem ScopeStack.reaches_operation {scopes : ScopeStack FileId} {op : Operation} {span : Span}
    {l r : Expr} : scopes.Reaches (.operation op span l r) ↔ scopes.Reaches l ∧ scopes.Reaches r := by
  unfold Reaches
  rw [Expr.names_operation, List.forall_mem_append]

theorem ScopeStack.typingOf_ne_string {scopes : ScopeStack FileId} {ρ : Name → Int32} {e : Expr}
    (he : e.IsArithmetic) (hstatic : scopes.Assigns ρ e) (hreach : scopes.Reaches e) :
    scopes.typingOf e ≠ .string := by
  induction he with
  | number span i => exact Typing.noConfusion
  | var span n =>
    rw [typingOf]
    cases hst : n.isStatic with
    | true =>
      rw [if_pos rfl, hstatic n List.mem_cons_self hst]
      exact Typing.noConfusion
    | false =>
      have hdynamic : n.dynamic = true := by simpa [Name.isStatic] using hst
      obtain ⟨place, ty, hfound, hty⟩ := hreach n List.mem_cons_self hdynamic
      rw [if_neg Bool.false_ne_true, hfound]
      exact hty
  | paren span _ ih => exact ih hstatic hreach
  | @operation l r op span hl hr _ _ =>
    have hshape : scopes.typingOf (.operation op span l r) = (Expr.operation op span l r).typing := by
      cases op <;> rfl
    rw [hshape]
    exact (Expr.IsArithmetic.operation op span hl hr).typing_ne_string

theorem Memory.assigns_operation {m : Memory} {scopes : ScopeStack FileId} {ρ : Name → Int32}
    {op : Operation} {span : Span} {l r : Expr} :
    m.Assigns scopes ρ (.operation op span l r) ↔ m.Assigns scopes ρ l ∧ m.Assigns scopes ρ r := by
  unfold Assigns
  rw [Expr.names_operation, List.forall_mem_append]

namespace Gen

variable {deeper : Deeper} {e l r : Expr} {op : Operation} {span : Span} {ρ : Name → Int32}
  {s s' : GenState} {file : FileId} {outer : List FileId}

/-! ## Folding -/

theorem fold_operation {a b : Int32} (hl : fold deeper l s = .ok (.int a) s)
    (hr : fold deeper r s = .ok (.int b) s) :
    fold deeper (.operation op span l r) s = .ok (.int (op.apply a b)) s := by
  have hst : (Expr.operation op span l r).isStatic = true := by
    rw [Expr.isStatic_operation, fold_static hl, fold_static hr]
    rfl
  cases op with
  | add =>
    rw [Expr.operation] at hst ⊢
    rw [fold.eq_def]
    simp only [hst, Bool.not_true, Bool.false_eq_true, if_false]
    rw [bind_of_ok hl, bind_of_ok hr]
    rfl
  | multiply =>
    rw [Expr.operation] at hst ⊢
    rw [fold.eq_def]
    simp only [hst, Bool.not_true, Bool.false_eq_true, if_false]
    rw [bind_of_ok hl, bind_of_ok hr]
    rfl

/-- Folding gives the value of an expression if static variables with the right values stand
in for all its variables. -/
theorem fold_rename (he : e.IsArithmetic) {f : Name → Name}
    (hf : ∀ n ∈ e.names, (f n).isStatic = true ∧ s.scopes.static? (f n) = some (.int (ρ n))) :
    fold deeper (e.rename f) s = .ok (.int (Int32.ofInt (e.value ρ))) s := by
  have hst : (e.rename f).isStatic = true := by
    rw [he.isStatic_rename]
    exact List.all_eq_true.2 fun n hn => (hf n hn).1
  induction he with
  | number span i =>
    change fold deeper (.number span i) s = _
    rw [fold.eq_def, Expr.value, Int32.ofInt_toInt]
    rfl
  | var span n =>
    obtain ⟨b, hb, hv⟩ := Option.map_eq_some_iff.1 (hf n List.mem_cons_self).2
    have hlookup : s.scopes.lookupStatic (f n) span = .ok (.int (ρ n)) := by
      rw [ScopeStack.lookupStatic, hb, ← hv]
    rw [Expr.rename] at hst ⊢
    rw [fold.eq_def, Expr.value, Int32.ofInt_toInt]
    simp only [hst, Bool.not_true, Bool.false_eq_true, if_false]
    rw [bind_of_ok (get_ok.2 ⟨rfl, rfl⟩)]
    exact ofExcept_ok.2 ⟨hlookup, rfl⟩
  | paren span _ ih =>
    rw [Expr.rename] at hst ⊢
    rw [fold.eq_def]
    simp only [hst, Bool.not_true, Bool.false_eq_true, if_false]
    exact ih hf hst
  | operation op span _ _ ihl ihr =>
    rw [Expr.rename_operation, Expr.isStatic_operation, Bool.and_eq_true] at hst
    rw [Expr.names_operation, List.forall_mem_append] at hf
    rw [Expr.rename_operation, Expr.ofInt_value_operation]
    exact fold_operation (ihl hf.1 hst.1) (ihr hf.2 hst.2)

/-! ## Commands -/

/-- Moves both operands to the registers, and their combination back. -/
def combineSequence (op : Operation) : List Command :=
  [.load .left 2, .load .right 1, .pop, .pop, .operate op, .pushValue (.int 0), .writeBack]

theorem forM_emit (hw : s.writing = file :: outer) (cs : List Command) :
    cs.forM emit s = .ok () (s.writeAll file cs) := by
  induction cs generalizing s with
  | nil => rfl
  | cons c cs ih =>
    have hfirst : emit c s = .ok () (s.write file c) := emit_ok.2 ⟨file, outer, hw, rfl⟩
    change (emit c >>= fun _ => cs.forM emit) s = _
    rw [bind_of_ok hfirst]
    exact ih (s := s.write file c) hw

theorem combine_eq (hw : s.writing = file :: outer) (op : Operation) :
    combine op s = .ok () (s.writeAll file (combineSequence op)) := by
  have hsequence : combine op = (combineSequence op).forM emit := by
    simp [combine, combineSequence]
  rw [hsequence, forM_emit hw]

/-- Two numbers on top of the stack become one. -/
theorem performAll_combineSequence (m : Memory) (op : Operation) (a b : Int32) (stack : List Value)
    (scores : Register → Int32) : ∃ scores',
      (m.withStack (.int b :: .int a :: stack) scores).performAll (combineSequence op) =
        some (m.withStack (.int (op.apply a b) :: stack) scores') :=
  ⟨_, rfl⟩

theorem pushes_operation {m : Memory} {cs ds : List Command} {a b : Int32} (hl : m.Pushes cs (.int a))
    (hr : m.Pushes ds (.int b)) :
    m.Pushes (cs ++ (ds ++ combineSequence op)) (.int (op.apply a b)) := by
  intro stack scores
  obtain ⟨scores₁, hl⟩ := hl stack scores
  obtain ⟨scores₂, hr⟩ := hr (.int a :: stack) scores₁
  obtain ⟨scores₃, hop⟩ := performAll_combineSequence m op a b stack scores₂
  refine ⟨scores₃, ?_⟩
  rw [Memory.performAll_append, hl, Option.bind_some, Memory.performAll_append, hr, Option.bind_some, hop]

/-! ## Lowering -/

theorem push_of_fold {v : Value} (hf : fold deeper e s = .ok v s) :
    push deeper e s = emit (.pushValue v) s := by
  rw [push.eq_def]
  simp only [fold_static hf, if_true]
  exact bind_of_ok hf

theorem push_paren (hst : (Expr.paren span e).isStatic = false) :
    push deeper (.paren span e) = push deeper e := by
  rw [push.eq_def]
  simp only [hst, Bool.false_eq_true, if_false]

theorem push_var {n : Name} (hst : n.isStatic = false) :
    push deeper (.var span n) = (do
      let (place, _) ← ofExcept ((← get).scopes.place n span)
      emit (.pushFrom place)) := by
  have hvar : (Expr.var span n).isStatic = false := hst
  rw [push.eq_def]
  simp only [hvar, Bool.false_eq_true, if_false]

theorem push_operation (hst : (Expr.operation op span l r).isStatic = false) :
    push deeper (.operation op span l r) = (do
      refuseStrings span l r
      push deeper l
      push deeper r
      combine op) := by
  cases op with
  | add =>
    rw [Expr.operation] at hst ⊢
    rw [push.eq_def]
    simp only [hst, Bool.false_eq_true, if_false]
  | multiply =>
    rw [Expr.operation] at hst ⊢
    rw [push.eq_def]
    simp only [hst, Bool.false_eq_true, if_false]

/-- An arithmetic expression without dynamic variables is folded. -/
theorem fold_arithmetic (he : e.IsArithmetic) (hst : e.isStatic = true)
    (hstatic : ∀ n ∈ e.names, n.isStatic = true → s.scopes.static? n = some (.int (ρ n))) :
    fold deeper e s = .ok (.int (Int32.ofInt (e.value ρ))) s := by
  rw [← he.rename_id, he.isStatic_rename] at hst
  have hall := List.all_eq_true.1 hst
  have hf : fold deeper (e.rename id) s = .ok (.int (Int32.ofInt (e.value ρ))) s :=
    fold_rename he fun n hn => ⟨hall n hn, hstatic n hn (hall n hn)⟩
  rwa [he.rename_id] at hf

/-- The commands written from `s` to `s'` push the value of an expression. -/
def Lowers (ρ : Name → Int32) (e : Expr) (s s' : GenState) : Prop :=
  ∃ file outer cs, s.writing = file :: outer ∧ s.writeAll file cs = s' ∧
    ∀ m : Memory, m.Assigns s.scopes ρ e → m.Pushes cs (.int (Int32.ofInt (e.value ρ)))

theorem lowers_of_static (he : e.IsArithmetic) (hst : e.isStatic = true)
    (hstatic : s.scopes.Assigns ρ e) (h : push deeper e s = .ok () s') : Lowers ρ e s s' := by
  rw [push_of_fold (fold_arithmetic he hst hstatic)] at h
  obtain ⟨file, outer, hw, rfl⟩ := emit_ok.1 h
  exact ⟨file, outer, [.pushValue _], hw, rfl, fun m _ => m.pushes_pushValue _⟩

theorem lowers_of_var {n : Name} (hst : n.isStatic = false)
    (h : push deeper (.var span n) s = .ok () s') : Lowers ρ (.var span n) s s' := by
  rw [push_var hst] at h
  obtain ⟨_, _, hget, hrest⟩ := bind_ok.1 h
  obtain ⟨rfl, rfl⟩ := get_ok.1 hget
  obtain ⟨⟨place, ty⟩, _, hexcept, hemit⟩ := bind_ok.1 hrest
  obtain ⟨hplace, rfl⟩ := ofExcept_ok.1 hexcept
  obtain ⟨file, outer, hw, rfl⟩ := emit_ok.1 hemit
  refine ⟨file, outer, [.pushFrom place], hw, rfl, fun m hm => ?_⟩
  have hdynamic : n.dynamic = true := by simpa [Name.isStatic] using hst
  obtain ⟨place', ty', hfound, hread⟩ := hm n List.mem_cons_self hdynamic
  obtain ⟨rfl, rfl⟩ := Reach.found.inj (hfound.symm.trans (ScopeStack.place_ok hplace))
  rw [Expr.value, Int32.ofInt_toInt]
  exact Memory.pushes_pushFrom hread

theorem Lowers.scopes (h : Lowers ρ e s s') : s'.scopes = s.scopes := by
  obtain ⟨file, outer, cs, -, rfl, -⟩ := h
  exact s.scopes_writeAll file cs

theorem Lowers.writing (h : Lowers ρ e s s') : s'.writing = s.writing := by
  obtain ⟨file, outer, cs, -, rfl, -⟩ := h
  exact s.writing_writeAll file cs

/-- One after the other, the operands and their combination. -/
theorem Lowers.operation {s₁ s₂ : GenState} (hl : Lowers ρ l s s₁) (hr : Lowers ρ r s₁ s₂)
    (hop : combine op s₂ = .ok () s') : Lowers ρ (.operation op span l r) s s' := by
  obtain ⟨file, outer, cs, hw, rfl, hcs⟩ := hl
  obtain ⟨file', outer', ds, hw', rfl, hds⟩ := hr
  rw [s.writing_writeAll, hw] at hw'
  obtain ⟨rfl, rfl⟩ := List.cons.inj hw'
  rw [s.scopes_writeAll] at hds
  have hw₂ : ((s.writeAll file cs).writeAll file ds).writing = file :: outer := by simpa using hw
  rw [combine_eq hw₂] at hop
  obtain ⟨-, rfl⟩ := EStateM.Result.ok.inj hop
  refine ⟨file, outer, cs ++ (ds ++ combineSequence op), hw, ?_, fun m hm => ?_⟩
  · rw [GenState.writeAll_append, GenState.writeAll_append]
  · rw [Memory.assigns_operation] at hm
    rw [Expr.ofInt_value_operation]
    exact pushes_operation (hcs m hm.1) (hds m hm.2)

theorem lowers_of_push (he : e.IsArithmetic) (hstatic : s.scopes.Assigns ρ e)
    (h : push deeper e s = .ok () s') : Lowers ρ e s s' := by
  induction he generalizing s s' with
  | number span i => exact lowers_of_static (.number span i) rfl hstatic h
  | var span n =>
    cases hst : n.isStatic with
    | true => exact lowers_of_static (.var span n) hst hstatic h
    | false => exact lowers_of_var hst h
  | @paren e span he ih =>
    cases hst : (Expr.paren span e).isStatic with
    | true => exact lowers_of_static (.paren span he) hst hstatic h
    | false =>
      rw [push_paren hst] at h
      exact ih hstatic h
  | @operation l r op span hl hr ihl ihr =>
    cases hst : (Expr.operation op span l r).isStatic with
    | true => exact lowers_of_static (.operation op span hl hr) hst hstatic h
    | false =>
      rw [push_operation hst] at h
      rw [ScopeStack.assigns_operation] at hstatic
      obtain ⟨_, _, hrefuse, hrest⟩ := bind_ok.1 h
      obtain rfl := refuseStrings_state hrefuse
      obtain ⟨_, s₁, hleft, hrest⟩ := bind_ok.1 hrest
      obtain ⟨_, s₂, hright, hop⟩ := bind_ok.1 hrest
      have hlow := ihl hstatic.1 hleft
      exact hlow.operation (ihr (hlow.scopes ▸ hstatic.2) hright) hop

theorem refuseStrings_eq (hl : s.scopes.typingOf l ≠ .string) (hr : s.scopes.typingOf r ≠ .string) :
    refuseStrings span l r s = .ok () s := by
  unfold refuseStrings
  rw [bind_of_ok (get_ok.2 ⟨rfl, rfl⟩)]
  simp only [hl, hr, decide_false, Bool.or_false, Bool.false_eq_true, if_false]
  rfl

theorem push_static_succeeds (he : e.IsArithmetic) (hst : e.isStatic = true)
    (hw : s.writing = file :: outer) (hstatic : s.scopes.Assigns ρ e) :
    ∃ s', push deeper e s = .ok () s' := by
  rw [push_of_fold (fold_arithmetic he hst hstatic)]
  exact ⟨_, emit_ok.2 ⟨file, outer, hw, rfl⟩⟩

/-- Lowering only needs a file to write to and variables that can be reached. -/
theorem push_succeeds (he : e.IsArithmetic) (hw : s.writing = file :: outer)
    (hstatic : s.scopes.Assigns ρ e) (hreach : s.scopes.Reaches e) :
    ∃ s', push deeper e s = .ok () s' := by
  induction he generalizing s with
  | number span i => exact push_static_succeeds (.number span i) rfl hw hstatic
  | var span n =>
    cases hst : n.isStatic with
    | true => exact push_static_succeeds (.var span n) hst hw hstatic
    | false =>
      have hdynamic : n.dynamic = true := by simpa [Name.isStatic] using hst
      obtain ⟨place, ty, hfound, -⟩ := hreach n List.mem_cons_self hdynamic
      have hplace : s.scopes.place n span = .ok (place, ty) := by rw [ScopeStack.place, hfound]
      rw [push_var hst, bind_of_ok (get_ok.2 ⟨rfl, rfl⟩), bind_of_ok (ofExcept_ok.2 ⟨hplace, rfl⟩)]
      exact ⟨_, emit_ok.2 ⟨file, outer, hw, rfl⟩⟩
  | @paren e span he ih =>
    cases hst : (Expr.paren span e).isStatic with
    | true => exact push_static_succeeds (.paren span he) hst hw hstatic
    | false =>
      rw [push_paren hst]
      exact ih hw hstatic hreach
  | @operation l r op span hl hr ihl ihr =>
    cases hst : (Expr.operation op span l r).isStatic with
    | true => exact push_static_succeeds (.operation op span hl hr) hst hw hstatic
    | false =>
      rw [ScopeStack.assigns_operation] at hstatic
      rw [ScopeStack.reaches_operation] at hreach
      have hrefuse : refuseStrings span l r s = .ok () s :=
        refuseStrings_eq (ScopeStack.typingOf_ne_string hl hstatic.1 hreach.1)
          (ScopeStack.typingOf_ne_string hr hstatic.2 hreach.2)
      obtain ⟨s₁, hleft⟩ := ihl hw hstatic.1 hreach.1
      have hlow := lowers_of_push hl hstatic.1 hleft
      obtain ⟨s₂, hright⟩ := ihr (hlow.writing.trans hw) (hlow.scopes ▸ hstatic.2) (hlow.scopes ▸ hreach.2)
      have hlow₂ := lowers_of_push hr (hlow.scopes ▸ hstatic.2) hright
      have hw₂ : s₂.writing = file :: outer := hlow₂.writing.trans (hlow.writing.trans hw)
      rw [push_operation hst, bind_of_ok hrefuse, bind_of_ok hleft, bind_of_ok hright]
      exact ⟨_, combine_eq hw₂ op⟩

/-- The commands for an arithmetic expression push its value and leave the rest of the stack and
the frames alone; there are such commands wherever its variables can be reached; and with static
variables in place of the dynamic ones the expression is folded to the same value. -/
theorem push_arithmetic (deeper : Deeper) (he : e.IsArithmetic) (hstatic : s.scopes.Assigns ρ e) :
    (∀ s', push deeper e s = .ok () s' → ∃ file outer cs, s.writing = file :: outer ∧
      s.writeAll file cs = s' ∧ (file < s.files.size → s'.text file = s.text file ++ cs) ∧
      ∀ m : Memory, m.Assigns s.scopes ρ e → m.Pushes cs (.int (Int32.ofInt (e.value ρ)))) ∧
    (s.writing ≠ [] → s.scopes.Reaches e → ∃ s', push deeper e s = .ok () s') ∧
    ∀ (f : Name → Name) (t : GenState),
      (∀ n ∈ e.names, (f n).isStatic = true ∧ t.scopes.static? (f n) = some (.int (ρ n))) →
        fold deeper (e.rename f) t = .ok (.int (Int32.ofInt (e.value ρ))) t := by
  refine ⟨fun s' h => ?_, fun hne hreach => ?_, fun f t hf => fold_rename he hf⟩
  · obtain ⟨file, outer, cs, hw, rfl, hcs⟩ := lowers_of_push he hstatic h
    exact ⟨file, outer, cs, hw, rfl, fun hfile => s.text_writeAll_self hfile cs, hcs⟩
  · obtain ⟨file, outer, hw⟩ := List.exists_cons_of_ne_nil hne
    exact push_succeeds he hw hstatic hreach

/-- A static variable at the limit of 32 bits and a product that goes beyond it. -/
theorem push_arithmetic_limit :
    let z : Span := ⟨0, 0, 1, 0⟩
    let k : Name := .ofStatic "k"
    let j : Name := .ofStatic "j"
    let x : Name := .ofDynamic "x"
    let s : GenState := { files := #[#[]], writing := [0], scopes := { scopes := [
      { kind := .root, frame := true, file := 0, runtime := [(x, .int)],
        statics := [(k, ⟨.int 2147483647, 0⟩), (j, ⟨.int 3, 0⟩)] }] } }
    let e (y : Name) : Expr :=
      .sum z (.var z k) (.product z (.var z y) (.paren z (.sum z (.number z 1) (.var z k))))
    (∃ s' cs, push none (e x) s = .ok () s' ∧ s'.text 0 = cs ∧
      ∀ m : Memory, m.frames = [Function.update (fun _ => none) x.text (some (.int 3))] →
        m.Pushes cs (.int (-1))) ∧
    fold none (e j) s = .ok (.int (-1)) s := by
  intro z k j x s e
  let ρ : Name → Int32 := fun n => if n.dynamic then 3 else 2147483647
  have he : (e x).IsArithmetic := .operation .add z (.var z k) (.operation .multiply z (.var z x)
    (.paren z (.operation .add z (.number z 1) (.var z k))))
  -- the names are `k`, `x` and `k` again
  have hnames {P : Name → Prop} (hk : P k) (hx : P x) : ∀ n ∈ (e x).names, P n :=
    List.forall_mem_cons.2 ⟨hk, List.forall_mem_cons.2 ⟨hx, List.forall_mem_cons.2 ⟨hk, List.forall_mem_nil P⟩⟩⟩
  have hstatic : s.scopes.Assigns ρ (e x) := hnames (fun _ => rfl) nofun
  have hfound : ScopeStack.reach x 0 false s.scopes.scopes = .found (.frame 1 x.text) .int := rfl
  have hreach : s.scopes.Reaches (e x) := hnames nofun fun _ => ⟨_, _, hfound, nofun⟩
  have hvalue : Int32.ofInt ((e x).value ρ) = -1 := by
    have hexact : (e x).value ρ = 2147483647 + 3 * (1 + 2147483647) := rfl
    rw [hexact]
    decide
  have harith := push_arithmetic none he hstatic
  rw [hvalue] at harith
  obtain ⟨hpush, hsucceeds, hfold⟩ := harith
  refine ⟨?_, hfold (fun n => if n.dynamic then j else n) s (hnames ⟨rfl, rfl⟩ ⟨rfl, rfl⟩)⟩
  obtain ⟨s', hs'⟩ := hsucceeds (List.cons_ne_nil 0 []) hreach
  obtain ⟨file, outer, cs, hw, -, htext, hcs⟩ := hpush s' hs'
  obtain ⟨rfl, rfl⟩ := List.cons.inj hw
  refine ⟨s', cs, hs', htext Nat.one_pos, fun m hm => hcs m (hnames nofun fun _ => ⟨_, _, hfound, ?_⟩)⟩
  rw [Memory.read, Memory.lookup?, hm]
  exact Function.update_self x.text (some (Value.int 3)) fun _ => none

end Gen
end PackScript
