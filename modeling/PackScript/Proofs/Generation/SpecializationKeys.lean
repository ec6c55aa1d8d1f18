import PackScript.Proofs.Generation.Provenance
import PackScript.Proofs.Generation.SingleLines
import PackScript.Proofs.Scope.KeyTexts

/-! # Which calls share a body

The calls of a function with static parameters share one generated body if they have the same key.
In a run of a parsed program, every name that a key mentions is a name of the program, and so a
word, and no value in it comes without a typing unless it stands for no value at all. Then the
key determines the arguments and all that the body sees.
-/
namespace PackScript

/-! ## The names that a piece of program refers to -/

/-- Both kinds of references are to proper names. -/
structure References.Proper (r : References) : Prop where
  vars : ∀ n ∈ r.vars, n.Proper
  calls : ∀ n ∈ r.calls, n.Proper

namespace References

variable {r : References} {n : Name}

theorem Proper.withVar (hr : r.Proper) (hn : n.Proper) : (r.withVar n).Proper := by
  unfold References.withVar
  split
  · exact ⟨List.forall_mem_cons.2 ⟨hn, hr.vars⟩, hr.calls⟩
  · exact hr

theorem Proper.withCall (hr : r.Proper) (hn : n.Proper) : (r.withCall n).Proper := by
  unfold References.withCall
  split
  · exact hr
  · exact ⟨hr.vars, List.forall_mem_cons.2 ⟨hn, hr.calls⟩⟩

end References

namespace Node

def references : Node → References → References
  | .expr e => e.references
  | .stmt s => s.references
  | .otherwise o => o.references
  | .block b => Block.references b

/-- The references so far and those of a piece itself, outside its children. -/
def ownReferences : Node → References → References
  | .expr (.var _ n), r => r.withVar n
  | .expr (.call _ n _), r => r.withCall n
  | .stmt (.assign _ target _ _ _), r => r.withVar target
  | .stmt (.call _ n _), r => r.withCall n
  | _, r => r

theorem referencesAll_eq_foldl (es : List Expr) (r : References) :
    Expr.referencesAll es r = (es.map Node.expr).foldl (fun r c => c.references r) r := by
  induction es generalizing r with
  | nil => rfl
  | cons e es ih => exact ih _

theorem block_references_eq_foldl (b : List Stmt) (r : References) :
    Block.references b r = (b.map Node.stmt).foldl (fun r c => c.references r) r := by
  induction b generalizing r with
  | nil => rfl
  | cons s b ih => exact ih _

/-- A piece refers to what it refers to itself, then to what its children refer to. -/
theorem references_eq_foldl (node : Node) (r : References) :
    node.references r = node.children.foldl (fun r c => c.references r) (node.ownReferences r) := by
  cases node with
  | expr e =>
    cases e with
    | call _ n args => exact referencesAll_eq_foldl args _
    | _ => rfl
  | stmt s =>
    cases s with
    | command _ parts tail =>
      refine (referencesAll_eq_foldl (parts.map Prod.snd) r).trans ?_
      rw [List.map_map]
      rfl
    | call _ n args => exact referencesAll_eq_foldl args _
    | _ => rfl
  | otherwise o => cases o <;> rfl
  | block b => exact block_references_eq_foldl b r

theorem Proper.ownReferences {node : Node} {r : References} (h : node.Proper) (hr : r.Proper) :
    (node.ownReferences r).Proper := by
  have hown := h.own_names
  cases node with
  | expr e =>
    cases e with
    | var _ n => exact hr.withVar (hown n List.mem_cons_self)
    | call _ n args => exact hr.withCall (hown n List.mem_cons_self)
    | _ => exact hr
  | stmt s =>
    cases s with
    | assign _ target _ _ _ => exact hr.withVar (hown target List.mem_cons_self)
    | call _ n args => exact hr.withCall (hown n List.mem_cons_self)
    | _ => exact hr
  | otherwise o => exact hr
  | block b => exact hr

theorem Proper.references {node : Node} {r : References} (h : node.Proper) (hr : r.Proper) :
    (node.references r).Proper := by
  rw [references_eq_foldl]
  refine List.foldlRecOn _ _ (h.ownReferences hr) fun r hr c hc => ?_
  have hlt := sizeOf_child hc
  exact (h.child hc).references hr
termination_by sizeOf node

end Node

theorem Block.Proper.references {b : Block} (h : Block.Proper b) : (Block.references b {}).Proper := by
  have hblock : (Node.block b).Proper := h
  exact hblock.references ⟨List.forall_mem_nil _, List.forall_mem_nil _⟩

/-! ## What bodies see -/

theorem ScopeStack.mem_survey {φ : Type} {s : ScopeStack φ} {known : List Name} {bodies : List Block}
    {o : Observation} (h : o ∈ s.survey known bodies) :
    ∃ body ∈ bodies, (∃ n ∈ (Block.references body {}).vars, o = s.observeVariable n) ∨
      ∃ n ∈ (Block.references body {}).calls, o = observeCallee n (s.candidates n) := by
  induction bodies generalizing known with
  | nil => cases h
  | cons body bodies ih =>
    rw [survey, List.mem_append, List.mem_append] at h
    rcases h with (h | h) | h
    · obtain ⟨n, hn, rfl⟩ := List.mem_map.1 h
      have hvar : n ∈ (Block.references body {}).vars := List.mem_reverse.1 (List.mem_filter.1 hn).1
      exact ⟨body, List.mem_cons_self, .inl ⟨n, hvar, rfl⟩⟩
    · obtain ⟨c, hc, rfl⟩ := List.mem_map.1 h
      obtain ⟨n, hn, rfl⟩ := List.mem_map.1 hc
      exact ⟨body, List.mem_cons_self, .inr ⟨n, List.mem_reverse.1 hn, rfl⟩⟩
    · obtain ⟨body', hbody, hsees⟩ := ih h
      exact ⟨body', List.mem_cons_of_mem _ hbody, hsees⟩

/-- Proper pieces of program, and values that are settled. -/
def settledLaw : Law where
  part := Node.Proper
  value := Value.Settled
  place _ := True
  command _ := True
  child := Node.Proper.child
  frame _ _ _ := trivial
  rootFrame _ _ := trivial
  result := trivial
  int _ := by rintro _ ⟨⟩
  bool _ := by rintro _ ⟨⟩
  string _ := by rintro _ ⟨⟩
  joined _ _ := by rintro _ ⟨⟩
  unset := by rintro _ ⟨⟩; rfl
  fixed _ := trivial
  verbatim _ _ := trivial
  pushValue _ := trivial
  pushFrom _ := trivial
  storeTop _ := trivial
  storeValue _ _ := trivial

theorem ScopeStack.worded_visibleTo {s : ScopeStack FileId} (hs : ∀ sc ∈ s.scopes, sc.Obeys settledLaw)
    {f : Function} (hf : f.node.Proper) : ∀ o ∈ s.visibleTo f, o.Worded := by
  obtain ⟨fs, hsurvey, -, hknown, -⟩ := s.visibleTo_eq_survey f
  have hbody : ∀ body ∈ f.body :: fs.map Function.body, Block.Proper body := by
    rw [List.forall_mem_cons, List.forall_mem_map]
    refine ⟨hf.2.1, fun g hg => ?_⟩
    obtain ⟨e, he, rfl⟩ := hknown g hg
    have hnode : e.function.node.Proper := part_of_mem_entries hs he
    exact hnode.2.1
  intro o ho
  rw [hsurvey] at ho
  obtain ⟨body, hmem, ⟨n, hn, rfl⟩ | ⟨n, hn, rfl⟩⟩ := mem_survey ho
  · refine ⟨((hbody body hmem).references.vars n hn).1, fun v hv => ?_⟩
    obtain ⟨b, hb, rfl⟩ := Option.map_eq_some_iff.1 hv
    exact value_of_findStatic? hs hb
  · exact ((hbody body hmem).references.calls n hn).1

namespace Gen

variable {ns : Bytes} {p : Program} {n n' : Nat} {span span' : Span} {e e' : Entry FileId}
  {statics statics' : List (Name × Value)} {s s' : GenState}

/-- Whatever a run hands to a specialization can be read off the key. -/
theorem Reached.worded (hp : Block.Proper p.body) (h : Reached ns p (.specialize n span e statics) s) :
    (∀ v ∈ statics.map Prod.snd, v.Settled) ∧ ∀ o ∈ s.scopes.visibleTo e.function, o.Worded := by
  have hns : settledLaw.value (.string ns) := by rintro _ ⟨⟩
  obtain ⟨hs, he, hstatics⟩ := h.obeys hns hp
  exact ⟨List.forall_mem_map.2 hstatics, ScopeStack.worded_visibleTo hs.scopes he⟩

/-- Two specializations in runs of a program have the same key exactly if their static arguments are
the same values, one by one, and their bodies see the same: the same variables with the same
values, or without one, and the same names of functions with the same overloads behind them. -/
theorem specializationKey_eq_iff (hp : Block.Proper p.body) (h : Reached ns p (.specialize n span e statics) s)
    (h' : Reached ns p (.specialize n' span' e' statics') s') :
    s.scopes.specializationKey e.function (statics.map Prod.snd) =
        s'.scopes.specializationKey e'.function (statics'.map Prod.snd) ↔
      statics.map Prod.snd = statics'.map Prod.snd ∧
        s.scopes.visibleTo e.function = s'.scopes.visibleTo e'.function := by
  obtain ⟨hargs, hseen⟩ := h.worded hp
  obtain ⟨hargs', hseen'⟩ := h'.worded hp
  exact keys_eq_iff hargs hargs' hseen hseen'

/-- Two calls whose arguments are the same text once they stand between quotes with a comma. -/
theorem specializationKey_eq_iff_quotes : ∃ p e e' s s', Block.Proper p.body ∧
    Reached "demo" p (.specialize maxNesting {} e
      [(.ofStatic "a", .string "x\",string:\"y"), (.ofStatic "b", .string "z")]) s ∧
    Reached "demo" p (.specialize maxNesting {} e'
      [(.ofStatic "a", .string "x"), (.ofStatic "b", .string "y\",string:\"z")]) s' ∧ e'.id = e.id ∧
    s.scopes.specializationKey e.function [.string "x\",string:\"y", .string "z"] ≠
      s'.scopes.specializationKey e'.function [.string "x", .string "y\",string:\"z"] := by
  have hblock : Reached "demo"
      ⟨[.assign {} (.ofStatic "k") .unknown (.string {} "=1,->") true,
        .define {} ⟨.ofDynamic "f", [⟨.ofStatic "a", .unknown⟩, ⟨.ofStatic "b", .unknown⟩]⟩
          [.assign {} (.ofStatic "c") .unknown (.var {} (.ofStatic "k")) true],
        .call {} (.ofDynamic "f") [.string {} "x\",string:\"y", .string {} "z"],
        .call {} (.ofDynamic "f") [.string {} "x", .string {} "y\",string:\"z"]], {}⟩
      (.block maxNesting _) _ := .program rfl
  have hfirst := Reached.laterStatements (.laterStatements (.statements hblock rfl rfl rfl) rfl) rfl
  have hcall := Reached.invokeSpecialized (.dynamicCall (.firstStatement hfirst) rfl) rfl rfl (by decide) rfl
  obtain ⟨s₂, hsecond, hresolve⟩ : ∃ s₂, Reached "demo" _ (.statements maxNesting
      [.call {} (.ofDynamic "f") [.string {} "x", .string {} "y\",string:\"z"]]) s₂ ∧
      ((resolve {} (.ofDynamic "f") [.string {} "x", .string {} "y\",string:\"z"]).run' s₂).map
          (fun e => (e.id, e.signature.params)) =
        some (0, [⟨.ofStatic "a", .unknown⟩, ⟨.ofStatic "b", .unknown⟩]) :=
    ⟨_, .laterStatements hfirst (ok_after (a := ()) (by decide +kernel)), by decide +kernel⟩
  obtain ⟨e', he', hentry⟩ := Option.map_eq_some_iff.1 hresolve
  obtain ⟨hid, hparams⟩ := Prod.mk.inj hentry
  have hcall' := Reached.invokeSpecialized (.dynamicCall (.firstStatement hsecond) rfl) (ok_after he') rfl
    (by rw [Signature.staticParams, hparams]; decide) (by rw [hparams]; rfl)
  suffices hproper : Block.Proper _ from ⟨_, _, _, _, _, hproper, hcall, hcall', hid, fun hkey =>
    absurd ((specializationKey_eq_iff hproper hcall hcall').1 hkey).1 (by decide)⟩
  have hword {b : UInt8} (hb : isNameStart b = true) : IsWord [b] := ⟨b, [], [], rfl, hb, by simp, by simp⟩
  have hdynamic {P : Prop} (h : (Name.ofDynamic "f").isStatic = true) : P := by cases h
  have hf : (Name.ofDynamic "f").Proper := ⟨hword rfl, hdynamic⟩
  have hk : (Name.ofStatic "k").Proper := ⟨hword rfl, fun _ => rfl⟩
  have hparams : ∀ q ∈ [⟨.ofStatic "a", .unknown⟩, (⟨.ofStatic "b", .unknown⟩ : Param)], q.name.Proper := by
    simp only [List.forall_mem_cons]
    exact ⟨⟨hword rfl, fun _ => rfl⟩, ⟨hword rfl, fun _ => rfl⟩, List.forall_mem_nil _⟩
  have hdefine : Stmt.Proper (.define {} ⟨.ofDynamic "f", [⟨.ofStatic "a", .unknown⟩, ⟨.ofStatic "b", .unknown⟩]⟩
      [.assign {} (.ofStatic "c") .unknown (.var {} (.ofStatic "k")) true]) :=
    ⟨⟨hf, hparams, hdynamic, by decide⟩,
      ⟨⟨⟨hword rfl, fun _ => rfl⟩, hk, fun _ => rfl, fun h => absurd rfl h⟩, trivial⟩, hdynamic⟩
  have hcalls (t u : Bytes) : Stmt.Proper (.call {} (.ofDynamic "f") [.string {} t, .string {} u]) :=
    ⟨hf, ⟨trivial, trivial, trivial⟩, hdynamic⟩
  exact ⟨⟨hk, trivial, fun _ => rfl, fun h => absurd rfl h⟩, hdefine, hcalls _ _, hcalls _ _, trivial⟩

end Gen
end PackScript
