import PackScript.Proofs.Generation.Termination

/-! # Where work comes from

A run that starts from lawful things comes to lawful work only, in states where everything in sight
is lawful. In particular whatever it comes to is a piece of its program, and all functions in sight
at that moment are declared there. So what the parser makes sure of for the whole program holds for
every function that a call is resolved to.
-/
namespace PackScript.Gen

variable {ns : Bytes} {p : Program} {s s' : GenState} {n : Nat} {L : Law}

/-- What a task is about is lawful. -/
def Task.Obeys (L : Law) : Task → Prop
  | .block _ b | .branch _ b => L.part (.block b)
  | .body _ _ _ statics b => L.part (.block b) ∧ ∀ a ∈ statics, L.value a.2
  | .bodies _ b _ | .statements _ b => ∀ st ∈ b, L.part (.stmt st)
  | .statement _ st => L.part (.stmt st)
  | .conditional _ test b other => L.part (.expr test) ∧ L.part (.block b) ∧ L.part (.otherwise other)
  | .otherwise _ other => L.part (.otherwise other)
  | .text _ parts => ∀ part ∈ parts, L.part (.expr part.2)
  | .fold _ e | .push _ e => L.part (.expr e)
  | .foldAll _ args | .foldStatics _ args _ | .pushDynamics _ args _ | .invoke _ _ _ args _ =>
    ∀ a ∈ args, L.part (.expr a)
  | .expand _ _ e arguments => L.part e.function.node ∧ ∀ v ∈ arguments, L.value v
  | .specialize _ _ e statics => L.part e.function.node ∧ ∀ a ∈ statics, L.value a.2
  | .locate _ _ => True

theorem Lawful.obeys {α : Type} {Q : α → Prop} {m : Gen α} {a : α} (hm : Lawful L Q m) (hs : s.Obeys L)
    (h : m s = .ok a s') : s'.Obeys L ∧ Q a := by
  obtain ⟨hobeys, -, hq⟩ := hm hs h
  exact ⟨hobeys, hq⟩

theorem obeys_atRoot (L : Law) : atRoot.Obeys L := by
  have hfile : (({} : GenState).mint.enter 0).Obeys L :=
    ⟨(obeys_initial L).scopes, (obeys_initial L).returned, (obeys_initial L).mint.files⟩
  exact hfile.openScope .root 0

section

variable (hs : s.Obeys L)
include hs

theorem obeys_inArm (opens : Bool) : (inArm s opens).Obeys L := by
  have hfile : (s.mint.enter s.files.size).Obeys L := ⟨hs.mint.scopes, hs.mint.returned, hs.mint.files⟩
  cases opens with
  | false => exact hfile
  | true => exact (hfile.openScope .block _).write _ (L.fixed rfl)

theorem obeys_inBody (file : FileId) : (inBody s file).Obeys L := by
  have hfile : (s.enter file).Obeys L := ⟨hs.scopes, hs.returned, hs.files⟩
  exact hfile.openScope .function file

theorem obeys_inExpansion (f : FileId) (label : Bytes) : (inExpansion s f label).Obeys L := by
  have htarget : GenState.Obeys L { s.deepen with target := some (.expansion label f none) } := by
    refine ⟨hs.scopes, ?_, hs.files⟩
    rintro _ v ⟨⟩ ⟨⟩
  exact htarget.openScope .expansion f

theorem obeys_recorded (e : Entry FileId) (key : Bytes) : (recorded s e key).Obeys L :=
  ⟨ScopeStack.obeys_updateEntry e.id (fun _ => rfl) hs.scopes, hs.returned, hs.mint.files⟩

theorem obeys_fold {e : Expr} {v : Value} (he : L.part (.expr e)) (h : fold (levels n) e s = .ok v s') :
    s'.Obeys L := ((lawful_fold (lawful_levels L n) e he).obeys hs h).1

theorem obeys_foldAll {es : List Expr} {vs : List Value} (he : ∀ e ∈ es, L.part (.expr e))
    (h : foldAll (levels n) es s = .ok vs s') : s'.Obeys L ∧ ∀ v ∈ vs, L.value v :=
  (lawful_foldAll (lawful_levels L n) es he).obeys hs h

theorem obeys_push {e : Expr} (he : L.part (.expr e)) (h : push (levels n) e s = .ok () s') :
    s'.Obeys L := ((lawful_push (lawful_levels L n) e he).obeys hs h).1

theorem obeys_foldStatics {args : List Expr} {params : List Param} {statics : List (Name × Value)}
    (ha : ∀ a ∈ args, L.part (.expr a)) (h : foldStatics (levels n) args params s = .ok statics s') :
    s'.Obeys L ∧ ∀ a ∈ statics, L.value a.2 := (lawful_foldStatics (lawful_levels L n) ha params).obeys hs h

theorem obeys_resolve {span : Span} {name : Name} {args : List Expr} {e : Entry FileId}
    (h : resolve span name args s = .ok e s') : s'.Obeys L ∧ L.part e.function.node :=
  (lawful_resolve span name args).obeys hs h

theorem obeys_branch {b : Block} {g : FileId} (hb : L.part (.block b))
    (h : branch b (block (levels n) b) s = .ok g s') : s'.Obeys L :=
  ((lawful_branch b (lawful_block (lawful_levels L n) b hb)).obeys hs h).1

theorem obeys_declareAheads {root : Bool} {b : Block} {files : List (Option FileId)}
    (hb : ∀ st ∈ b, L.part (.stmt st)) (h : b.mapM (declareAhead root) s = .ok files s') : s'.Obeys L :=
  ((lawful_declareAheads root hb).obeys hs h).1

theorem obeys_declareTarget {target : Name} {ty : Typing} {declare : Bool}
    (h : declareTarget target ty declare s = .ok () s') : s'.Obeys L := by
  unfold declareTarget at h
  split at h
  · exact ((lawful_declareRuntime target ty).obeys hs h).1
  · cases h
    exact hs

end

/-- From a lawful program, a run comes to lawful work only. -/
theorem Reached.obeys {t : Task} (hns : L.value (.string ns)) (hp : L.part (.block p.body))
    (h : Reached ns p t s) : s.Obeys L ∧ t.Obeys L := by
  have hchild {node c : Node} (hn : L.part node) (hc : c ∈ node.children) : L.part c := L.child hn hc
  have hstmts {b : Block} (hb : L.part (.block b)) : ∀ st ∈ b, L.part (.stmt st) :=
    fun st hst => hchild hb (List.mem_map_of_mem hst)
  have hlevels (n : Nat) : (levels n).Lawful L := lawful_levels L n
  induction h with
  | program h =>
    have hroot : atRoot.Obeys L := obeys_atRoot L
    exact ⟨hroot.withScopes (ScopeStack.obeys_declareStatic hns h hroot.scopes), hp⟩
  | bodies h htop hd ih => exact ⟨obeys_declareAheads ih.1 (hstmts ih.2) hd, hstmts ih.2⟩
  | statements h htop hd hb ih =>
    have hs₁ := obeys_declareAheads ih.1 (hstmts ih.2) hd
    exact ⟨((lawful_reservedBodies (hlevels _) _ (hstmts ih.2) _).obeys hs₁ hb).1, hstmts ih.2⟩
  | nextBody h ih =>
    exact ⟨ih.1, hchild (ih.2 _ List.mem_cons_self) List.mem_cons_self, List.forall_mem_nil _⟩
  | @laterBodies n span sig b rest file files s s₁ h hb ih =>
    have hbody := lawful_block (hlevels n) b (hchild (ih.2 _ List.mem_cons_self) List.mem_cons_self)
    have hfunction : Lawful (L) (fun _ => True) (functionBody file sig.params [] (block (levels n) b)) :=
      lawful_functionBody file sig.params (List.forall_mem_nil _) hbody
    exact ⟨(hfunction.obeys ih.1 hb).1, fun st hst => ih.2 st (List.mem_cons_of_mem _ hst)⟩
  | skipBody h hd ih => exact ⟨ih.1, fun st hst => ih.2 st (List.mem_cons_of_mem _ hst)⟩
  | @insideBody n file params statics b s s₁ h hp ih =>
    have hs₁ := ((lawful_declareParams file ih.2.2 params).obeys (obeys_inBody ih.1 file) hp).1
    refine ⟨hs₁.withTarget ?_, ih.2.1⟩
    rintro _ v ⟨⟩ ⟨⟩
  | firstStatement h ih => exact ⟨ih.1, ih.2 _ List.mem_cons_self⟩
  | laterStatements h hd ih =>
    have hs₁ := (lawful_statement (hlevels _) _ (ih.2 _ List.mem_cons_self)).obeys ih.1 hd
    exact ⟨hs₁.1, fun st hst => ih.2 st (List.mem_cons_of_mem _ hst)⟩
  | command h ih => exact ⟨ih.1, fun part hpart => hchild ih.2 (List.mem_map_of_mem hpart)⟩
  | hole h ih => exact ⟨ih.1, ih.2 _ List.mem_cons_self⟩
  | laterHoles h he hv ih =>
    exact ⟨obeys_fold ih.1 (ih.2 _ List.mem_cons_self) he, fun part hpart => ih.2 _ (List.mem_cons_of_mem _ hpart)⟩
  | cond h ih =>
    exact ⟨ih.1, hchild ih.2 (by simp [Node.children]), hchild ih.2 (by simp [Node.children]),
      hchild ih.2 (by simp [Node.children])⟩
  | test h ih => exact ⟨ih.1, ih.2.1⟩
  | branch h ht ih => exact ⟨obeys_push ih.1 ih.2.1 ht, ih.2.2.1⟩
  | otherwise h ht hb hl hr ih =>
    have hs₂ := obeys_branch (obeys_push ih.1 ih.2.1 ht) ih.2.2.1 hb
    have hs₃ := (lawful_emit (L.fixed rfl)).obeys hs₂ hl
    exact ⟨((lawful_emit (L.fixed rfl)).obeys hs₃.1 hr).1, ih.2.2.2⟩
  | insideBranch h ih => exact ⟨obeys_inArm ih.1 _, ih.2⟩
  | otherBranch h ih => exact ⟨ih.1, hchild ih.2 List.mem_cons_self⟩
  | otherCond h ih =>
    exact ⟨obeys_inArm ih.1 false, hchild ih.2 (by simp [Node.children]), hchild ih.2 (by simp [Node.children]),
      hchild ih.2 (by simp [Node.children])⟩
  | staticTarget h ht ih => exact ⟨ih.1, hchild ih.2 List.mem_cons_self⟩
  | staticValue h ht hv ih => exact ⟨ih.1, hchild ih.2 List.mem_cons_self⟩
  | dynamicValue h ht hv ih => exact ⟨ih.1, hchild ih.2 List.mem_cons_self⟩
  | targetOfStatic h ht hv hf hc hd ih =>
    have hs₁ := obeys_fold ih.1 (hchild ih.2 List.mem_cons_self) hf
    have hs₂ := (lawful_checkTyping _ _ _ _).obeys hs₁ hc
    exact ⟨obeys_declareTarget hs₂.1 hd, trivial⟩
  | targetOfDynamic h ht hv hf hc hd ih =>
    have hs₁ := obeys_push ih.1 (hchild ih.2 List.mem_cons_self) hf
    have hs₂ := (lawful_checkTyping _ _ _ _).obeys hs₁ hc
    exact ⟨obeys_declareTarget hs₂.1 hd, trivial⟩
  | staticCall h hn hr ih =>
    exact ⟨(obeys_resolve ih.1 hr).1, fun a ha => hchild ih.2 (List.mem_map_of_mem ha)⟩
  | expandCall h hn hr hf ih =>
    obtain ⟨hs₁, he⟩ := obeys_resolve ih.1 hr
    obtain ⟨hs₂, hvs⟩ := obeys_foldAll hs₁ (fun a ha => hchild ih.2 (List.mem_map_of_mem ha)) hf
    exact ⟨hs₂, he, hvs⟩
  | dynamicCall h hn ih => exact ⟨ih.1, fun a ha => hchild ih.2 (List.mem_map_of_mem ha)⟩
  | returnExpanded h ht hf ih => exact ⟨ih.1, hchild ih.2 List.mem_cons_self⟩
  | returnStatic h ht hv ih => exact ⟨ih.1, hchild ih.2 List.mem_cons_self⟩
  | returnDynamic h ht hv ih => exact ⟨ih.1, hchild ih.2 List.mem_cons_self⟩
  | foldParen h hs ih => exact ⟨ih.1, hchild ih.2 List.mem_cons_self⟩
  | foldSumLeft h hs ih => exact ⟨ih.1, hchild ih.2 List.mem_cons_self⟩
  | foldSumRight h hs hl ih =>
    exact ⟨obeys_fold ih.1 (hchild ih.2 List.mem_cons_self) hl, hchild ih.2 (by simp [Node.children])⟩
  | foldProductLeft h hs ih => exact ⟨ih.1, hchild ih.2 List.mem_cons_self⟩
  | foldProductRight h hs hl ih =>
    exact ⟨obeys_fold ih.1 (hchild ih.2 List.mem_cons_self) hl, hchild ih.2 (by simp [Node.children])⟩
  | foldArguments h hs hr ih =>
    exact ⟨(obeys_resolve ih.1 hr).1, fun a ha => hchild ih.2 (List.mem_map_of_mem ha)⟩
  | foldCall h hs hr hf ih =>
    obtain ⟨hs₁, he⟩ := obeys_resolve ih.1 hr
    obtain ⟨hs₂, hvs⟩ := obeys_foldAll hs₁ (fun a ha => hchild ih.2 (List.mem_map_of_mem ha)) hf
    exact ⟨hs₂, he, hvs⟩
  | foldFirst h ih => exact ⟨ih.1, ih.2 _ List.mem_cons_self⟩
  | foldLater h he ih =>
    exact ⟨obeys_fold ih.1 (ih.2 _ List.mem_cons_self) he, fun a ha => ih.2 a (List.mem_cons_of_mem _ ha)⟩
  | skipDynamic h hq ih => exact ⟨ih.1, fun a ha => ih.2 a (List.mem_cons_of_mem _ ha)⟩
  | foldStatic h hq ih => exact ⟨ih.1, ih.2 _ List.mem_cons_self⟩
  | laterStatics h hq ha ih =>
    exact ⟨obeys_fold ih.1 (ih.2 _ List.mem_cons_self) ha, fun a ha => ih.2 a (List.mem_cons_of_mem _ ha)⟩
  | pushFolded h hs ih => exact ih
  | pushVariable h hs ih => exact ⟨ih.1, trivial⟩
  | pushParen h hs ih => exact ⟨ih.1, hchild ih.2 List.mem_cons_self⟩
  | pushSumLeft h hs hr ih =>
    obtain rfl := refuseStrings_state hr
    exact ⟨ih.1, hchild ih.2 List.mem_cons_self⟩
  | pushSumRight h hs hr hl ih =>
    obtain rfl := refuseStrings_state hr
    exact ⟨obeys_push ih.1 (hchild ih.2 List.mem_cons_self) hl, hchild ih.2 (by simp [Node.children])⟩
  | pushProductLeft h hs hr ih =>
    obtain rfl := refuseStrings_state hr
    exact ⟨ih.1, hchild ih.2 List.mem_cons_self⟩
  | pushProductRight h hs hr hl ih =>
    obtain rfl := refuseStrings_state hr
    exact ⟨obeys_push ih.1 (hchild ih.2 List.mem_cons_self) hl, hchild ih.2 (by simp [Node.children])⟩
  | pushCall h hs ih => exact ⟨ih.1, fun a ha => hchild ih.2 (List.mem_map_of_mem ha)⟩
  | pushLater h ih => exact ⟨ih.1, fun a ha => ih.2 a (List.mem_cons_of_mem _ ha)⟩
  | @pushFirst n a as q ps s s₁ h hl hq ih =>
    have hrest := lawful_pushDynamics (hlevels n) as (fun a ha => ih.2 a (List.mem_cons_of_mem _ ha)) ps
    exact ⟨(hrest.obeys ih.1 hl).1, ih.2 _ List.mem_cons_self⟩
  | invokeStatics h hr hv hs ih => exact ⟨(obeys_resolve ih.1 hr).1, ih.2⟩
  | invokeSpecialized h hr hv hs hf ih =>
    obtain ⟨hs₁, he⟩ := obeys_resolve ih.1 hr
    obtain ⟨hs₂, hvs⟩ := obeys_foldStatics hs₁ ih.2 hf
    exact ⟨hs₂, he, hvs⟩
  | @specializedArguments n span name args isValue s e s₁ statics s₂ g s₃ h hr hv hs hf hg ih =>
    obtain ⟨hs₁, he⟩ := obeys_resolve ih.1 hr
    obtain ⟨hs₂, hvs⟩ := obeys_foldStatics hs₁ ih.2 hf
    exact ⟨((lawful_specialize (hlevels n) span he hvs).obeys hs₂ hg).1, ih.2⟩
  | placedArguments h hr hv hs hg ih => exact ⟨(obeys_resolve ih.1 hr).1, ih.2⟩
  | @insideExpansion n span e arguments s f fs s₁ h hf hb ih =>
    have hbind := lawful_bindArguments f e.signature.params ih.2.2
    exact ⟨(hbind.obeys (obeys_inExpansion ih.1 f _) hb).1, hchild ih.2.1 List.mem_cons_self⟩
  | firstSpecialized h hk ih =>
    exact ⟨obeys_recorded ih.1 _ _, hchild ih.2.1 List.mem_cons_self, ih.2.2⟩

/-- A run comes to pieces of its program only, and declares only functions of its program. -/
theorem Reached.within {t : Task} (h : Reached ns p t s) : s.Within p ∧ t.Obeys (partLaw p) := by
  obtain ⟨hs, ht⟩ := h.obeys (L := partLaw p) trivial .refl
  exact ⟨GenState.obeys_partLaw.1 hs, ht⟩

theorem within_resolve {span : Span} {name : Name} {args : List Expr} {e : Entry FileId} (hs : s.Within p)
    (h : resolve span name args s = .ok e s') : s'.Within p ∧ Node.HasPart (.block p.body) e.function.node := by
  obtain ⟨hs', he⟩ := obeys_resolve (GenState.obeys_partLaw.2 hs) h
  exact ⟨GenState.obeys_partLaw.1 hs', he⟩

end PackScript.Gen
