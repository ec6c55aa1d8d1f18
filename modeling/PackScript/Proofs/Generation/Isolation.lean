import PackScript.Proofs.Generation.Unwinding

/-! # Code that runs conditionally or elsewhere

A branch of a conditional and the body of a function are generated in a file of their own that
no static variable has been declared in yet. So nothing in them changes a static variable from
around them, and what is declared in them is gone at their end: what is generated afterwards
sees the same variables, with the same values and typings, and the same functions.
-/
namespace PackScript

/-- The same function, whatever calls and specializations of it have been added. -/
structure Entry.Same (e e' : Entry FileId) : Prop where
  id : e'.id = e.id
  function : e'.function = e.function
  file : e'.file = e.file

/-- The same scope with the same declarations. -/
structure Scope.Unchanged (sc sc' : Scope FileId) : Prop extends Scope.Matches sc sc' where
  runtime : sc'.runtime = sc.runtime
  hoisted : sc'.hoisted = sc.hoisted
  statics : sc'.statics = sc.statics
  entries : List.Forall₂ Entry.Same sc.entries sc'.entries

namespace GenState

variable {own : FileId → Prop} {i : Nat} {d : Bool} {s s' : GenState}

/-- All open scopes have the same declarations. -/
def Undisturbed (s s' : GenState) : Prop :=
  List.Forall₂ Scope.Unchanged s.scopes.scopes s'.scopes.scopes

theorem Undisturbed.static? (h : s.Undisturbed s') (name : Name) :
    s'.scopes.static? name = s.scopes.static? name := by
  have hfind : ∀ {scopes scopes' : List (Scope FileId)}, List.Forall₂ Scope.Unchanged scopes scopes' →
      scopes'.findSome? (fun sc => sc.statics.get? name) = scopes.findSome? fun sc => sc.statics.get? name := by
    intro scopes scopes' h
    induction h with
    | nil => rfl
    | cons hsc _ ih => rw [List.findSome?_cons, List.findSome?_cons, hsc.statics, ih]
  exact congrArg (Option.map Binding.value) (hfind h)

/-! ## What holds wherever a run gets to -/

/-- Every file that is being written, or that a static variable was declared in, exists, and
every function in sight has an identity that has been given out. -/
structure Regular (s : GenState) : Prop where
  writing : s.writing ≠ []
  files : ∀ f ∈ s.writing, f < s.files.size
  scopes : s.scopes.scopes ≠ []
  tags : ∀ sc ∈ s.scopes.scopes, ∀ b ∈ sc.statics, b.2.file < s.files.size
  ids : ∀ sc ∈ s.scopes.scopes, ∀ e ∈ sc.entries, e.id < s.scopes.nextId

/-- The file exists, but no static variable has been declared in it. -/
structure Awaits (s : GenState) (file : FileId) : Prop where
  reserved : file < s.files.size
  untagged : ∀ sc ∈ s.scopes.scopes, ∀ b ∈ sc.statics, b.2.file ≠ file

namespace Regular

theorem of_scopes_eq (h : s.Regular) (hw : s'.writing = s.writing) (hsize : s.files.size ≤ s'.files.size)
    (hs : s'.scopes = s.scopes) : s'.Regular := by
  refine ⟨?_, ?_, ?_, ?_, ?_⟩
  · rw [hw]
    exact h.writing
  · rw [hw]
    exact fun f hf => Nat.lt_of_lt_of_le (h.files f hf) hsize
  · rw [hs]
    exact h.scopes
  · rw [hs]
    exact fun sc hsc b hb => Nat.lt_of_lt_of_le (h.tags sc hsc b hb) hsize
  · rw [hs]
    exact h.ids

/-- Static variables are declared in files that existed before. -/
theorem tags_of_confined (h : s.Regular) (hc : s.Confined own i d s') :
    ∀ sc' ∈ s'.scopes.scopes, ∀ b' ∈ sc'.statics, b'.2.file < s.files.size := by
  intro sc' hsc' b' hb'
  obtain ⟨sc, hsc, hg⟩ := exists_of_forall₂ hc.grown hsc'
  rcases hg.tags b' hb' with hf | ⟨b, hb, hfile⟩
  · exact h.files _ (List.mem_of_mem_head? hf)
  · rw [← hfile]
    exact h.tags sc hsc b hb

theorem confined (h : s.Regular) (hc : s.Confined own i d s') : s'.Regular := by
  refine ⟨?_, ?_, hc.scopes_ne_nil h.scopes, ?_, ?_⟩
  · rw [hc.writing]
    exact h.writing
  · rw [hc.writing]
    exact fun f hf => Nat.lt_of_lt_of_le (h.files f hf) hc.size
  · exact fun sc' hsc' b' hb' => Nat.lt_of_lt_of_le (h.tags_of_confined hc sc' hsc' b' hb') hc.size
  · intro sc' hsc' e' he'
    obtain ⟨sc, hsc, hg⟩ := exists_of_forall₂ hc.grown hsc'
    rcases hg.ids e' he' with hlt | ⟨e, he, hid⟩
    · exact hlt
    · rw [← hid]
      exact Nat.lt_of_lt_of_le (h.ids sc hsc e he) hc.nextId

theorem run {α : Type} {m : Gen α} {a : α} (h : s.Regular) (hm : Gen.Tame (fun _ => True) 0 true m)
    (hok : m s = .ok a s') : s'.Regular := by
  have hc := hm (.everything h.writing h.scopes)
  rw [Gen.after_of_ok hok] at hc
  exact h.confined hc

theorem enter (h : s.Regular) {file : FileId} (hf : file < s.files.size) : (s.enter file).Regular := by
  refine ⟨List.cons_ne_nil _ _, fun f hmem => ?_, h.scopes, h.tags, h.ids⟩
  rcases List.mem_cons.1 hmem with rfl | hmem
  · exact hf
  · exact h.files f hmem

theorem openScope (h : s.Regular) (kind : ScopeKind) (f : FileId) : (s.openScope kind f).Regular := by
  refine ⟨h.writing, h.files, List.cons_ne_nil _ _, fun sc hsc b hb => ?_, fun sc hsc e he => ?_⟩
  · rcases List.mem_cons.1 hsc with rfl | hsc
    · cases hb
    · exact h.tags sc hsc b hb
  · rcases List.mem_cons.1 hsc with rfl | hsc
    · cases he
    · exact h.ids sc hsc e he

theorem mint (h : s.Regular) : s.mint.Regular :=
  h.of_scopes_eq rfl (Nat.le_of_lt (by simp)) rfl

theorem inArm (h : s.Regular) (opens : Bool) : (Gen.inArm s opens).Regular := by
  have hlt : s.files.size < s.mint.files.size := by simp
  have hin := h.mint.enter hlt
  cases opens with
  | false => exact hin
  | true =>
    have hopen := hin.openScope .block s.files.size
    exact hopen.of_scopes_eq rfl (Nat.le_of_eq (size_write _ _ _).symm) rfl

end Regular

/-! ## Work apart -/

/-- A stretch that declares nothing around it and owns only files in which nothing has been
declared yet. -/
theorem Confined.undisturbed (h : s.Confined own s.scopes.nextId false s') (hs : s.Regular)
    (hown : ∀ sc ∈ s.scopes.scopes, ∀ b ∈ sc.statics, ¬own b.2.file) : s.Undisturbed s' := by
  have hmem : ∀ sc ∈ s.scopes.scopes, sc ∈ s.scopes.scopes := fun sc hsc => hsc
  refine ((List.forall₂_and_left _ _).2 ⟨hmem, h.inner rfl⟩).imp fun sc sc' hsc => ?_
  obtain ⟨hsc, hspared⟩ := hsc
  refine ⟨hspared.toMatches, hspared.runtime, hspared.hoisted, hspared.statics (hown sc hsc), ?_⟩
  have hids : ∀ e ∈ sc.entries, e.id < s.scopes.nextId := hs.ids sc hsc
  refine ((List.forall₂_and_left _ _).2 ⟨hids, hspared.entries⟩).imp fun e e' he => ?_
  exact ⟨he.2.id, he.2.function, he.2.file he.1⟩

/-- Work that owns nothing but what is new. -/
theorem Regular.undisturbed (h : s.Regular)
    (hc : s.Confined (fun f => s.files.size ≤ f) s.scopes.nextId false s') : s.Undisturbed s' :=
  hc.undisturbed h fun sc hsc b hb => Nat.not_le_of_lt (h.tags sc hsc b hb)

theorem clear_new (s : GenState) : s.Clear (fun f => s.files.size ≤ f) s.scopes.nextId :=
  ⟨fun _ hf => hf, Nat.le_refl _⟩

end GenState

namespace Gen

variable {ns : Bytes} {p : Program} {n : Nat} {s s₁ : GenState}

theorem Apart.undisturbed {α : Type} {m : Gen α}
    (hm : Apart (fun f => s.files.size ≤ f) s.scopes.nextId m) (h : s.Regular) : s.Undisturbed (after m s) :=
  h.undisturbed (hm s.clear_new h.scopes)

theorem functionBody_undisturbed (h : s.Regular) {file : FileId} (ha : s.Awaits file) (params : List Param)
    (statics : List (Name × Value)) (n : Nat) (b : Block) :
    s.Undisturbed (after (functionBody file params statics (block (levels n) b)) s) := by
  have hclear : s.Clear (fun f => f = file ∨ s.files.size ≤ f) s.scopes.nextId :=
    ⟨fun _ hf => .inr hf, Nat.le_refl _⟩
  have hbody : Tame (fun f => f = file ∨ s.files.size ≤ f) s.scopes.nextId true (block (levels n) b) :=
    (tame_block (tame_levels n) b).imp fun _ => rfl
  refine (confined_functionBody hclear (.inl rfl) params statics hbody).undisturbed h ?_
  rintro sc hsc b hb (hfile | hnew)
  · exact ha.untagged sc hsc b hb hfile
  · exact Nat.not_le_of_lt (h.tags sc hsc b hb) hnew

theorem awaits_of_undisturbed {file : FileId} (ha : s.Awaits file) (hs : s.Undisturbed s₁)
    (hsize : s.files.size ≤ s₁.files.size) : s₁.Awaits file := by
  refine ⟨Nat.lt_of_lt_of_le ha.reserved hsize, fun sc' hsc' b hb => ?_⟩
  obtain ⟨sc, hsc, hu⟩ := exists_of_forall₂ hs hsc'
  rw [hu.statics] at hb
  exact ha.untagged sc hsc b hb

/-! ## Every run -/

/-- The files for the bodies that a task is to fill are waiting for them. -/
def Task.Awaited : Task → GenState → Prop
  | .bodies _ _ files, s => ∀ g, some g ∈ files → s.Awaits g
  | .body _ file _ _ _, s => s.Awaits file
  | _, _ => True

theorem regular_start {scopes : ScopeStack FileId}
    (h : atRoot.scopes.declareStatic (.ofStatic "namespace") (.string ns) 0 = .ok scopes) :
    GenState.Regular { atRoot with scopes } := by
  have hroot : atRoot.Regular := by
    refine ⟨List.cons_ne_nil _ _, ?_, List.cons_ne_nil _ _, ?_, ?_⟩
    · intro f hf
      obtain rfl := List.mem_singleton.1 hf
      decide
    · intro sc hsc b hb
      obtain rfl := List.mem_singleton.1 hsc
      cases hb
    · intro sc hsc e he
      obtain rfl := List.mem_singleton.1 hsc
      cases he
  have hc : atRoot.Confined (fun _ => True) 0 true (after (onScopes fun s =>
      s.declareStatic (.ofStatic "namespace") (.string ns) 0) atRoot) :=
    confined_declareStatic rfl (.ofStatic "namespace") (.string ns)
  rw [after_of_ok (onScopes_ok (u := ()) |>.2 ⟨scopes, h, rfl⟩)] at hc
  exact hroot.confined hc

theorem tame_declareTarget {own : FileId → Prop} {i : Nat} (target : Name) (ty : Typing) (declare : Bool) :
    Tame own i declare (declareTarget target ty declare) := by
  cases declare with
  | false => exact tame_pure ()
  | true => exact fun _ _ => confined_declareRuntime target ty

theorem Reached.regular {t : Task} (h : Reached ns p t s) : s.Regular ∧ t.Awaited s := by
  induction h with
  | program h => exact ⟨regular_start h, trivial⟩
  | @bodies n b s top reserved s₁ h htop hd ih =>
    have htame : Tame (fun _ => True) 0 true (b.mapM (declareAhead (top.kind = .root))) :=
      (tame_declareAheads _ b).imp fun _ => rfl
    have hc := htame (.everything ih.1.writing ih.1.scopes)
    rw [after_of_ok hd] at hc
    refine ⟨ih.1.confined hc, fun g hg => ?_⟩
    obtain ⟨hle, hlt⟩ := (declareAheads_new hd).2 g hg
    exact ⟨hlt, fun sc hsc b hb => Nat.ne_of_lt (Nat.lt_of_lt_of_le (ih.1.tags_of_confined hc sc hsc b hb) hle)⟩
  | statements h htop hd hb ih =>
    have h₁ := ih.1.run ((tame_declareAheads _ _).imp fun _ => rfl) hd
    exact ⟨h₁.run (tame_reservedBodies (tame_levels _) _ _ fun _ _ => trivial).mono hb, trivial⟩
  | nextBody h ih => exact ⟨ih.1, ih.2 _ List.mem_cons_self⟩
  | @laterBodies n span sig b rest file files s s₁ h hb ih =>
    have hfile := ih.2 file List.mem_cons_self
    have hu := functionBody_undisturbed ih.1 hfile sig.params [] n b
    have hc := tame_run (.body n file sig.params [] b) (.everything ih.1.writing ih.1.scopes)
    rw [after_of_ok hb] at hu
    rw [after_of_ok (show (Task.body n file sig.params [] b).run s = _ from hb)] at hc
    exact ⟨ih.1.confined hc, fun g hg =>
      awaits_of_undisturbed (ih.2 g (List.mem_cons_of_mem _ hg)) hu hc.size⟩
  | skipBody h hd ih => exact ⟨ih.1, fun g hg => ih.2 g (List.mem_cons_of_mem _ hg)⟩
  | @insideBody n file params statics b s s₁ h hp ih =>
    have hin : (inBody s file).Regular := (ih.1.enter ih.2.reserved).openScope .function file
    have hc : (inBody s file).Confined (fun _ => True) 0 true (after (declareParams file statics params) _) :=
      confined_declareParams rfl statics params
    rw [after_of_ok hp] at hc
    exact ⟨(hin.confined hc).of_scopes_eq rfl (Nat.le_refl _) rfl, trivial⟩
  | laterStatements h hd ih =>
    exact ⟨ih.1.run ((tame_statement (tame_levels _) _).imp fun _ => rfl) hd, trivial⟩
  | laterHoles h he hv ih => exact ⟨ih.1.run (tame_fold (tame_levels _) _) he, trivial⟩
  | branch h ht ih => exact ⟨ih.1.run (tame_push (tame_levels _) _) ht, trivial⟩
  | otherwise h ht hb hl hr ih =>
    have h₁ := ih.1.run (tame_push (tame_levels _) _) ht
    have h₂ := h₁.run (apart_branch (tame_block (tame_levels _) _)).tame hb
    exact ⟨(h₂.run (tame_emit _) hl).run (tame_emit _) hr, trivial⟩
  | insideBranch h ih => exact ⟨ih.1.inArm _, trivial⟩
  | otherCond h ih => exact ⟨ih.1.inArm false, trivial⟩
  | targetOfStatic h ht hv hf hc hd ih =>
    have h₁ := ih.1.run (tame_fold (tame_levels _) _) hf
    have h₂ := h₁.run (tame_checkTyping _ _ _ _) hc
    exact ⟨h₂.run ((tame_declareTarget _ _ _).imp fun _ => rfl) hd, trivial⟩
  | targetOfDynamic h ht hv hf hc hd ih =>
    have h₁ := ih.1.run (tame_push (tame_levels _) _) hf
    have h₂ := h₁.run (tame_checkTyping _ _ _ _) hc
    exact ⟨h₂.run ((tame_declareTarget _ _ _).imp fun _ => rfl) hd, trivial⟩
  | staticCall h hn hr ih => exact ⟨ih.1.run (tame_resolve _ _ _) hr, trivial⟩
  | expandCall h hn hr hf ih =>
    exact ⟨(ih.1.run (tame_resolve _ _ _) hr).run (tame_foldAll (tame_levels _) _) hf, trivial⟩
  | foldSumRight h hs hl ih => exact ⟨ih.1.run (tame_fold (tame_levels _) _) hl, trivial⟩
  | foldProductRight h hs hl ih => exact ⟨ih.1.run (tame_fold (tame_levels _) _) hl, trivial⟩
  | foldArguments h hs hr ih => exact ⟨ih.1.run (tame_resolve _ _ _) hr, trivial⟩
  | foldCall h hs hr hf ih =>
    exact ⟨(ih.1.run (tame_resolve _ _ _) hr).run (tame_foldAll (tame_levels _) _) hf, trivial⟩
  | foldLater h he ih => exact ⟨ih.1.run (tame_fold (tame_levels _) _) he, trivial⟩
  | laterStatics h hq ha ih => exact ⟨ih.1.run (tame_fold (tame_levels _) _) ha, trivial⟩
  | pushSumLeft h hs hr ih => exact ⟨ih.1.run (tame_refuseStrings _ _ _) hr, trivial⟩
  | pushSumRight h hs hr hl ih =>
    exact ⟨(ih.1.run (tame_refuseStrings _ _ _) hr).run (tame_push (tame_levels _) _) hl, trivial⟩
  | pushProductLeft h hs hr ih => exact ⟨ih.1.run (tame_refuseStrings _ _ _) hr, trivial⟩
  | pushProductRight h hs hr hl ih =>
    exact ⟨(ih.1.run (tame_refuseStrings _ _ _) hr).run (tame_push (tame_levels _) _) hl, trivial⟩
  | pushFirst h hl hq ih => exact ⟨ih.1.run (tame_pushDynamics (tame_levels _) _ _) hl, trivial⟩
  | invokeStatics h hr hv hs ih => exact ⟨ih.1.run (tame_resolve _ _ _) hr, trivial⟩
  | invokeSpecialized h hr hv hs hf ih =>
    exact ⟨(ih.1.run (tame_resolve _ _ _) hr).run (tame_foldStatics (tame_levels _) _ _) hf, trivial⟩
  | specializedArguments h hr hv hs hf hg ih =>
    have h₁ := (ih.1.run (tame_resolve _ _ _) hr).run (tame_foldStatics (tame_levels _) _ _) hf
    exact ⟨h₁.run (fun _ hs => confined_specialize (tame_levels _) hs.toClear _ _ _) hg, trivial⟩
  | placedArguments h hr hv hs hg ih => exact ⟨ih.1.run (tame_resolve _ _ _) hr, trivial⟩
  | @insideExpansion n span e arguments s f fs s₁ h hf hb ih =>
    have hdeep : GenState.Regular { s.deepen with target := some (.expansion e.signature.label f none) } :=
      ih.1.of_scopes_eq rfl (Nat.le_refl _) rfl
    have hin : (inExpansion s f e.signature.label).Regular := hdeep.openScope .expansion f
    have hc : (inExpansion s f e.signature.label).Confined (fun _ => True) 0 true
        (after (bindArguments f e.signature.params arguments) _) :=
      confined_bindArguments (s := inExpansion s f e.signature.label) hf e.signature.params arguments
    rw [after_of_ok hb] at hc
    exact ⟨hin.confined hc, trivial⟩
  | @firstSpecialized n span e statics s h hk ih =>
    have hc : s.Confined (fun _ => True) 0 false { s.mint with
        scopes := s.scopes.updateEntry e.id fun e' => { e' with
          specialized := (s.scopes.specializationKey e.function (statics.map Prod.snd), s.files.size) ::
            e'.specialized } } :=
      confined_mint.trans (.updateEntry (s := s.mint) fun _ _ => ⟨rfl, rfl, fun _ => rfl⟩)
    have hlt : s.files.size < s.mint.files.size := by simp
    refine ⟨(ih.1.confined hc).of_scopes_eq rfl (Nat.le_refl _) rfl, hlt, fun sc hsc b hb => ?_⟩
    exact Nat.ne_of_lt (ih.1.tags_of_confined hc sc hsc b hb)
  | _ =>
    rename_i ih
    exact ⟨ih.1, trivial⟩

/-- Work that goes to files of its own. -/
def Task.isApart : Task → Bool
  | .body _ _ _ _ _ => true
  | .branch _ _ => true
  | .otherwise _ _ => true
  | .specialize _ _ _ _ => true
  | _ => false

theorem after_discard {α : Type} (m : Gen α) (s : GenState) : after (do let _ ← m) s = after m s := by
  cases hr : m s with
  | ok a s₁ =>
    rw [after_bind hr, after_of_ok hr]
    rfl
  | error f s₁ =>
    unfold after
    rw [hr, bind_of_error hr]

theorem undisturbed_of_apart {t : Task} (h : Reached ns p t s) (ht : t.isApart = true) :
    s.Undisturbed (after t.run s) := by
  obtain ⟨hs, ha⟩ := h.regular
  cases t with
  | body n file params statics b => exact functionBody_undisturbed hs ha params statics n b
  | branch n b =>
    rw [Task.run, after_discard]
    exact (apart_branch (tame_block (tame_levels n) b)).undisturbed hs
  | otherwise n other =>
    rw [Task.run, after_discard]
    exact (apart_otherwise (tame_levels n) other).undisturbed hs
  | specialize n span e statics =>
    rw [Task.run, after_discard]
    exact hs.undisturbed (confined_specialize (tame_levels n) s.clear_new span e statics)
  | _ => cases ht

/-- Wherever a run gets to, and whichever way it goes on there: a branch of a conditional, what a
conditional runs when its condition fails, and the body of a function, whether it is generated
ahead or for a call, leave every open scope with the declarations it had. So does a conditional
once its condition has been evaluated. No static variable is seen with another value
afterwards. -/
theorem Reached.isolated {t : Task} (h : Reached ns p t s) :
    (t.isApart = true → s.Undisturbed (after t.run s) ∧
      ∀ name, (after t.run s).scopes.static? name = s.scopes.static? name) ∧
    ∀ n test b other s₁, t = .conditional n test b other → push (levels n) test s = .ok () s₁ →
      s₁.Undisturbed (after t.run s) ∧
        ∀ name, (after t.run s).scopes.static? name = s₁.scopes.static? name := by
  refine ⟨fun ht => ?_, fun n test b other s₁ ht htest => ?_⟩
  · have hu := undisturbed_of_apart h ht
    exact ⟨hu, hu.static?⟩
  · subst ht
    have hs₁ := h.regular.1.run (tame_push (tame_levels n) test) htest
    obtain ⟨f, fs, hw⟩ := List.exists_cons_of_ne_nil hs₁.writing
    have hc := confined_arms hw s₁.clear_new hs₁.scopes (apart_branch (tame_block (tame_levels n) b))
      (apart_otherwise (tame_levels n) other)
    have hu := hs₁.undisturbed hc
    rw [Task.run, Gen.conditional, after_bind htest]
    exact ⟨hu, hu.static?⟩

/-- A branch that declares a variable of the same name as one from around it. -/
theorem Reached.isolated_shadowing : ∃ p b s, Reached "demo" p (.branch maxNesting b) s ∧
    b = [.assign {} (.ofStatic "v") .unknown (.number {} 2) true] ∧
    s.scopes.static? (.ofStatic "v") = some (.int 1) ∧
    (after (Task.branch maxNesting b).run s).scopes.static? (.ofStatic "v") = some (.int 1) := by
  have hblock : Reached "demo"
      ⟨[.assign {} (.ofStatic "v") .unknown (.number {} 1) true,
        .cond {} (.var {} (.ofStatic "v")) [.assign {} (.ofStatic "v") .unknown (.number {} 2) true] .nothing], {}⟩
      (.block maxNesting _) _ := .program rfl
  have hstatements := Reached.statements hblock rfl rfl rfl
  have hcond := Reached.cond (.firstStatement (.laterStatements hstatements rfl))
  have hbranch := Reached.branch hcond rfl
  exact ⟨_, _, _, hbranch, rfl, rfl, ((hbranch.isolated.1 rfl).2 _).trans rfl⟩

end Gen
end PackScript
