import PackScript.Proofs.Generation.Unwinding

/-! # The places of declarations

The functions of a program are declared before anything else of it is generated, and so are its
dynamic variables announced to them. Both kinds of declarations go to different parts of the
innermost scope, so it does not matter how they are mixed: the program is generated as if all its
functions stood in front of its other statements.
-/
namespace PackScript

def Stmt.isDefinition : Stmt → Bool
  | .define _ _ _ => true
  | _ => false

namespace Block

/-- The declarations of functions among the statements of a block. -/
def definitions (b : Block) : Block := b.filter Stmt.isDefinition

/-- The statements of a block that declare no function. -/
def actions (b : Block) : Block := b.filter fun d => !d.isDefinition

/-- The other block arises from this one by moving declarations of functions to other places. -/
structure Rearranged (b b' : Block) : Prop where
  definitions : Block.definitions b' = Block.definitions b
  actions : Block.actions b' = Block.actions b

theorem definitions_define (span : Span) (sig : Signature) (body b : Block) :
    definitions (.define span sig body :: b) = .define span sig body :: definitions b := rfl

theorem actions_define (span : Span) (sig : Signature) (body b : Block) :
    actions (.define span sig body :: b) = actions b := rfl

theorem definitions_of_action {d : Stmt} (hd : d.isDefinition = false) (b : Block) :
    definitions (d :: b) = definitions b :=
  List.filter_cons_of_neg (by rw [hd]; decide)

theorem actions_of_action {d : Stmt} (hd : d.isDefinition = false) (b : Block) :
    actions (d :: b) = d :: actions b :=
  List.filter_cons_of_pos (by rw [hd]; rfl)

end Block

/-! ## Announced variables -/

/-- The table with the dynamic variables that a statement declares; the first announcement of a
variable counts. -/
def Stmt.announce (t : Table Typing) : Stmt → Table Typing
  | .assign _ target ty _ true =>
    if target.dynamic ∧ t.get? target = none then t.set target ty else t
  | _ => t

/-- The innermost scope with the variables of the block announced to the functions in it. -/
def ScopeStack.announced {φ : Type} (b : Block) (s : ScopeStack φ) : ScopeStack φ :=
  { s with scopes := s.scopes.modifyHead fun t => { t with hoisted := b.foldl Stmt.announce t.hoisted } }

def GenState.announced (b : Block) (s : GenState) : GenState := { s with scopes := s.scopes.announced b }

namespace ScopeStack

variable {φ : Type} {s : ScopeStack φ} {t : Scope φ} {outer : List (Scope φ)}

theorem announced_of_scopes (h : s.scopes = t :: outer) (b : Block) :
    s.announced b = s.withTop { t with hoisted := b.foldl Stmt.announce t.hoisted } outer := by
  rw [announced, h, withTop, List.modifyHead_cons]

theorem announced_cons (d : Stmt) (b : Block) (s : ScopeStack φ) :
    s.announced (d :: b) = (s.announced [d]).announced b := by
  obtain ⟨scopes, nextId⟩ := s
  cases scopes with
  | nil => rfl
  | cons t outer => rfl

theorem announced_actions (b : Block) (s : ScopeStack φ) : s.announced (Block.actions b) = s.announced b := by
  have hfold (t : Table Typing) : (Block.actions b).foldl Stmt.announce t = b.foldl Stmt.announce t := by
    induction b generalizing t with
    | nil => rfl
    | cons d b ih =>
      cases d with
      | define span sig body => exact ih t
      | _ => exact ih _
  unfold announced
  simp only [hfold]

/-- Announcing does not get in the way of a declaration. -/
theorem register_announced (h : s.scopes = t :: outer) (b : Block) (fn : Function) :
    (s.announced b).register fn = (s.register fn).map fun r => (r.1, r.2.announced b) := by
  have htop : s.top = .ok t := top_ok.2 ⟨outer, h⟩
  have htop' : (s.announced b).top = .ok { t with hoisted := b.foldl Stmt.announce t.hoisted } :=
    top_ok.2 ⟨outer, by rw [announced_of_scopes h]; rfl⟩
  unfold register
  rw [htop, htop']
  by_cases hd : (t.entries.any fun e => e.signature.sameKey fn.signature) = true
  · simp only [bind, Except.bind, hd, if_true]
    rfl
  · simp only [bind, Except.bind, hd]
    rw [setTop_of_scopes h, announced_of_scopes h]
    rfl

theorem updateEntry_announced (i : Nat) (f : Entry φ → Entry φ) (b : Block) (s : ScopeStack φ) :
    (s.announced b).updateEntry i f = (s.updateEntry i f).announced b := by
  obtain ⟨scopes, nextId⟩ := s
  cases scopes with
  | nil => rfl
  | cons t outer => rfl

theorem hoist_eq_announced (h : s.scopes = t :: outer) (hk : t.kind = .root) {target : Name}
    (hd : target.dynamic = true) (span : Span) (ty : Typing) (value : Expr) :
    s.hoist target ty = .ok (s.announced [.assign span target ty value true]) := by
  have htop : s.top = .ok t := top_ok.2 ⟨outer, h⟩
  rw [announced_of_scopes h]
  unfold hoist
  rw [htop]
  simp only [bind, Except.bind, hk, ne_eq, not_true_eq_false, if_false, List.foldl_cons, List.foldl_nil,
    Stmt.announce, hd, true_and]
  cases hget : t.hoisted.get? target with
  | none =>
    simp only [if_true]
    rw [setTop_of_scopes h]
    rfl
  | some ty' =>
    have hsame : s.withTop { t with kind := .root } outer = s := by
      rw [← hk, withTop, ← h]
    simp only [reduceCtorEq, if_false, hsame]
    rfl

end ScopeStack

namespace Gen

variable {α β : Type} {s : GenState} {deeper : Deeper}

/-! ## What a stretch comes to -/

/-- A result with the state behind it, or an error. The state that an error leaves behind is not
looked at. -/
def outcome (m : Gen α) (s : GenState) : Except Failure (α × GenState) :=
  match m s with
  | .ok a s' => .ok (a, s')
  | .error f _ => .error f

theorem outcome_of_ok {m : Gen α} {a : α} {s' : GenState} (h : m s = .ok a s') : outcome m s = .ok (a, s') := by
  rw [outcome, h]

theorem outcome_of_error {m : Gen α} {f : Failure} {s' : GenState} (h : m s = .error f s') :
    outcome m s = .error f := by
  rw [outcome, h]

theorem outcome_bind (m : Gen α) (k : α → Gen β) (s : GenState) :
    outcome (m >>= k) s = (outcome m s).bind fun r => outcome (k r.1) r.2 := by
  cases h : m s with
  | ok a s₁ =>
    rw [outcome_of_ok h, outcome, bind_of_ok h]
    rfl
  | error f s₁ => rw [outcome_of_error h, outcome_of_error (bind_of_error h), Except.bind]

/-- A bracket that can be closed whichever way the stretch in it ends does not hide an error. -/
theorem outcome_finally_congr {m m' : Gen α} {fin : Gen Unit} (h : outcome m s = outcome m' s)
    (hfin : ∃ s₁, fin (after m s) = .ok () s₁) (hfin' : ∃ s₁, fin (after m' s) = .ok () s₁) :
    outcome (tryFinally m fin) s = outcome (tryFinally m' fin) s := by
  obtain ⟨s₁, hfin⟩ := hfin
  obtain ⟨s₁', hfin'⟩ := hfin'
  unfold after at hfin hfin'
  unfold outcome at h ⊢
  unfold tryFinally
  simp only [Functor.map, EStateM.map, tryFinally']
  cases hm : m s with
  | ok a s₂ =>
    cases hm' : m' s with
    | ok a' s₂' =>
      rw [hm, hm'] at h
      cases h
      rfl
    | error f' s₂' =>
      rw [hm, hm'] at h
      cases h
  | error f s₂ =>
    cases hm' : m' s with
    | ok a' s₂' =>
      rw [hm, hm'] at h
      cases h
    | error f' s₂' =>
      rw [hm, hm'] at h
      cases h
      rw [hm] at hfin
      rw [hm'] at hfin'
      simp only [hfin, hfin']

theorem outcome_writingTo_congr {file : FileId} {body body' : Gen α}
    (h : outcome body (s.enter file) = outcome body' (s.enter file)) :
    outcome (writingTo file body) s = outcome (writingTo file body') s := by
  unfold writingTo
  rw [outcome_bind, outcome_bind, outcome_of_ok (modify_ok (u := ()) |>.2 rfl)]
  exact outcome_finally_congr h ⟨_, rfl⟩ ⟨_, rfl⟩

theorem outcome_inRoot_congr {body body' : Gen α} {f : FileId} {fs : List FileId} (hw : s.writing = f :: fs)
    (hb : (after body (s.openScope .root f)).scopes.scopes ≠ [])
    (hb' : (after body' (s.openScope .root f)).scopes.scopes ≠ [])
    (h : outcome body (s.openScope .root f) = outcome body' (s.openScope .root f)) :
    outcome (inScope .root body) s = outcome (inScope .root body') s := by
  have hclose {m : Gen α} (hm : (after m (s.openScope .root f)).scopes.scopes ≠ []) :
      ∃ s₁, closeScope (after (m >>= pure) (s.openScope .root f)) = .ok () s₁ := by
    rw [bind_pure]
    obtain ⟨warnings, hok⟩ := closeScope_total hm
    exact ⟨_, hok⟩
  have hinner : outcome (body >>= pure) (s.openScope .root f) =
      outcome (body' >>= pure) (s.openScope .root f) := by
    rw [bind_pure, bind_pure, h]
  unfold inScope
  rw [outcome_bind, outcome_bind, outcome_of_ok (currentFile_ok.2 ⟨⟨fs, hw⟩, rfl⟩)]
  simp only [Except.bind]
  rw [outcome_bind, outcome_bind, outcome_of_ok (modify_ok (u := ()) |>.2 rfl)]
  exact outcome_finally_congr hinner (hclose hb) (hclose hb')

/-! ## The first pass over a block -/

/-- The files reserved for the definitions of a block, laid out along all its statements. -/
def laidOut : Block → List (Option FileId) → List (Option FileId)
  | .define _ _ _ :: b, o :: files => o :: laidOut b files
  | .define _ _ _ :: _, [] => []
  | _ :: b, files => none :: laidOut b files
  | [], _ => []

theorem laidOut_of_action {d : Stmt} (hd : d.isDefinition = false) (b : Block) (files : List (Option FileId)) :
    laidOut (d :: b) files = none :: laidOut b files := by
  cases d with
  | define span sig body => cases hd
  | _ => rfl

/-- A statement that declares no function announces its variable, if it declares one. -/
theorem declareAhead_action (hs : s.AtRoot) {d : Stmt} (hd : d.isDefinition = false) :
    declareAhead true d s = .ok none (s.announced [d]) := by
  obtain ⟨t, outer, ht, hk⟩ := hs
  have hsame (h : Stmt.announce t.hoisted d = t.hoisted) : s.announced [d] = s := by
    rw [GenState.announced, ScopeStack.announced_of_scopes ht, List.foldl_cons, h]
    simp only [List.foldl_nil, ScopeStack.withTop, ← ht]
  cases d with
  | define span sig body => cases hd
  | assign span target ty value declare =>
    cases declare with
    | false =>
      rw [hsame rfl]
      rfl
    | true =>
      by_cases hdyn : target.dynamic = true
      · rw [declareAhead]
        simp only [hdyn, Bool.and_self, if_true]
        refine (bind_of_ok (onScopes_ok (u := ()) |>.2 ⟨_, ?_, rfl⟩)).trans rfl
        exact ScopeStack.hoist_eq_announced ht hk hdyn span ty value
      · rw [declareAhead, hsame (by rw [Stmt.announce, if_neg (fun h => hdyn h.1)])]
        simp only [hdyn, Bool.and_false, Bool.false_eq_true, if_false]
        rfl
  | _ =>
    rw [hsame rfl]
    rfl

theorem declareAhead_define_error {span : Span} {sig : Signature} {body : Block} {f : Failure}
    (h : s.scopes.register ⟨span, sig, body⟩ = .error f) :
    declareAhead true (.define span sig body) s = .error f s := by
  rw [declareAhead, bind_of_ok (get_ok.2 ⟨rfl, rfl⟩), h]
  rfl

/-- A declared function, with a file if it needs only one. -/
theorem declareAhead_define_ok {span : Span} {sig : Signature} {body : Block} {i : Nat}
    {scopes : ScopeStack FileId} (h : s.scopes.register ⟨span, sig, body⟩ = .ok (i, scopes)) :
    declareAhead true (.define span sig body) s =
      if !sig.isStatic && sig.staticParams = 0 then
        .ok (some s.files.size) { s.mint with
          scopes := scopes.updateEntry i fun e => { e with file := some s.files.size } }
      else .ok none { s with scopes } := by
  rw [declareAhead, bind_of_ok (get_ok.2 ⟨rfl, rfl⟩), bind_of_ok (ofExcept_ok.2 ⟨h, rfl⟩)]
  by_cases hsig : (!sig.isStatic && sig.staticParams = 0) = true
  · simp only [if_pos hsig]
    rfl
  · simp only [if_neg hsig]
    rfl

/-- A declaration of a function comes to the same before and after variables are announced. -/
theorem declareAhead_announced (hs : s.AtRoot) (b : Block) (span : Span) (sig : Signature) (body : Block) :
    outcome (declareAhead true (.define span sig body)) (s.announced b) =
      (outcome (declareAhead true (.define span sig body)) s).map fun r => (r.1, r.2.announced b) := by
  obtain ⟨t, outer, ht, -⟩ := hs
  have hregister := ScopeStack.register_announced ht b ⟨span, sig, body⟩
  cases hr : s.scopes.register ⟨span, sig, body⟩ with
  | error f =>
    rw [hr] at hregister
    have herror : declareAhead true (.define span sig body) (s.announced b) = .error f (s.announced b) :=
      declareAhead_define_error hregister
    rw [outcome_of_error (declareAhead_define_error hr), outcome_of_error herror]
    rfl
  | ok r =>
    obtain ⟨i, scopes⟩ := r
    rw [hr] at hregister
    have hlate := declareAhead_define_ok (s := s.announced b) hregister
    have hearly := declareAhead_define_ok hr
    by_cases hsig : (!sig.isStatic && sig.staticParams = 0) = true
    · rw [if_pos hsig] at hlate hearly
      rw [outcome_of_ok hlate, outcome_of_ok hearly, ScopeStack.updateEntry_announced]
      rfl
    · rw [if_neg hsig] at hlate hearly
      rw [outcome_of_ok hlate, outcome_of_ok hearly]
      rfl

theorem atRoot_announced (hs : s.AtRoot) (b : Block) : (s.announced b).AtRoot := by
  obtain ⟨t, outer, ht, hk⟩ := hs
  refine ⟨{ t with hoisted := b.foldl Stmt.announce t.hoisted }, outer, ?_, hk⟩
  rw [GenState.announced, ScopeStack.announced_of_scopes ht]
  rfl

theorem atRoot_define (hs : s.AtRoot) {span : Span} {sig : Signature} {body : Block} {o : Option FileId}
    {s' : GenState} (h : declareAhead true (.define span sig body) s = .ok o s') : s'.AtRoot := by
  obtain ⟨t, outer, ht, hk⟩ := hs
  cases hr : s.scopes.register ⟨span, sig, body⟩ with
  | error f =>
    rw [declareAhead_define_error hr] at h
    cases h
  | ok r =>
    obtain ⟨i, scopes⟩ := r
    obtain ⟨t', outer', ht', -, -, rfl⟩ := ScopeStack.register_ok hr
    obtain ⟨rfl, rfl⟩ : t = t' ∧ outer = outer' := List.cons.inj (ht.symm.trans ht')
    rw [declareAhead_define_ok hr] at h
    split at h
    · cases h
      exact ⟨_, _, rfl, hk⟩
    · cases h
      exact ⟨_, _, rfl, hk⟩

/-- The first pass over the block of a program: its functions are declared as if all its variables
had been announced before. -/
theorem outcome_declareAheads (hs : s.AtRoot) (b : Block) :
    outcome (b.mapM (declareAhead true)) s =
      (outcome ((Block.definitions b).mapM (declareAhead true)) (s.announced b)).map
        fun r => (laidOut b r.1, r.2) := by
  induction b generalizing s with
  | nil =>
    have hsame : s.announced [] = s := by
      obtain ⟨t, outer, ht, -⟩ := hs
      rw [GenState.announced, ScopeStack.announced_of_scopes ht, List.foldl_nil, ScopeStack.withTop, ← ht]
    rw [hsame]
    rfl
  | cons d b ih =>
    rw [List.mapM_cons, outcome_bind]
    cases hd : d.isDefinition with
    | false =>
      have hannounced : s.announced (d :: b) = (s.announced [d]).announced b := by
        rw [GenState.announced, ScopeStack.announced_cons]
        rfl
      rw [outcome_of_ok (declareAhead_action hs hd), Except.bind, outcome_bind, ih (atRoot_announced hs [d]),
        Block.definitions_of_action hd, hannounced]
      cases outcome ((Block.definitions b).mapM (declareAhead true)) ((s.announced [d]).announced b) with
      | error f => rfl
      | ok r =>
        simp only [Except.map, Except.bind, laidOut_of_action hd]
        rfl
    | true =>
      obtain ⟨span, sig, body, rfl⟩ : ∃ span sig body, d = .define span sig body := by
        cases d with
        | define span sig body => exact ⟨span, sig, body, rfl⟩
        | _ => cases hd
      have hannounced : s.announced (.define span sig body :: b) = s.announced b := rfl
      rw [Block.definitions_define, List.mapM_cons, outcome_bind, hannounced,
        declareAhead_announced hs b span sig body]
      cases hfirst : declareAhead true (.define span sig body) s with
      | error f s₁ =>
        rw [outcome_of_error hfirst]
        rfl
      | ok o s₁ =>
        rw [outcome_of_ok hfirst, Except.bind, outcome_bind, ih (atRoot_define hs hfirst), Except.map,
          Except.bind, outcome_bind]
        cases outcome ((Block.definitions b).mapM (declareAhead true)) (s₁.announced b) with
        | error f => rfl
        | ok r => rfl

/-! ## The second pass, and whole programs -/

theorem reservedBodies_laidOut (b : Block) (files : List (Option FileId)) :
    reservedBodies deeper b (laidOut b files) = reservedBodies deeper (Block.definitions b) files := by
  induction b generalizing files with
  | nil =>
    rw [reservedBodies.eq_def, reservedBodies.eq_def]
    rfl
  | cons d b ih =>
    cases hd : d.isDefinition with
    | false =>
      rw [laidOut_of_action hd, Block.definitions_of_action hd, ← ih files, reservedBodies.eq_def]
      cases d with
      | define span sig body => cases hd
      | _ => rfl
    | true =>
      cases d with
      | define span sig body =>
        rw [Block.definitions_define]
        cases files with
        | nil => rfl
        | cons o files =>
          cases o with
          | none =>
            rw [laidOut, reservedBodies.eq_def, reservedBodies.eq_def]
            exact ih files
          | some file =>
            rw [laidOut, reservedBodies, reservedBodies, ih files]
      | _ => cases hd

theorem statements_actions (b : Block) : statements deeper b = statements deeper (Block.actions b) := by
  induction b with
  | nil => rfl
  | cons d b ih =>
    cases hd : d.isDefinition with
    | false => rw [Block.actions_of_action hd, statements, statements, ih]
    | true =>
      cases d with
      | define span sig body =>
        rw [Block.actions_define, statements, statement, ih]
        rfl
      | _ => cases hd

/-- The block of a program is generated from its functions and its other statements; how the two
are mixed does not matter. -/
theorem outcome_block (hs : s.AtRoot) (deeper : Deeper) (b : Block) :
    outcome (block deeper b) s =
      (outcome ((Block.definitions b).mapM (declareAhead true)) (s.announced (Block.actions b))).bind fun r =>
        outcome (do
          reservedBodies deeper (Block.definitions b) r.1
          statements deeper (Block.actions b)) r.2 := by
  have hannounced : s.announced (Block.actions b) = s.announced b := by
    rw [GenState.announced, ScopeStack.announced_actions]
    rfl
  obtain ⟨t, outer, ht, hk⟩ := id hs
  have htop : s.scopes.top = .ok t := ScopeStack.top_ok.2 ⟨outer, ht⟩
  have hroot : (t.kind = .root : Bool) = true := by rw [hk]; rfl
  rw [block, inOrder, outcome_bind, outcome_of_ok (get_ok.2 ⟨rfl, rfl⟩), Except.bind, outcome_bind,
    outcome_of_ok (ofExcept_ok.2 ⟨htop, rfl⟩), Except.bind, outcome_bind, hroot, outcome_declareAheads hs,
    hannounced]
  cases outcome ((Block.definitions b).mapM (declareAhead true)) (s.announced b) with
  | error f => rfl
  | ok r =>
    simp only [Except.map, Except.bind]
    rw [reservedBodies_laidOut, statements_actions]

/-- What is generated inside the scope of a program. -/
def insideRoot (ns : Bytes) (b : Block) : Gen (List (Name × Value)) := do
  onScopes fun s => s.declareStatic (.ofStatic "namespace") (.string ns) 0
  block (levels maxNesting) b
  return (← ofExcept (← get).scopes.top).staticValues

theorem outcome_program (ns : Bytes) (p : Program) :
    outcome (program ns p) {} =
      outcome (writingTo 0 (inScope .root (insideRoot ns p.body))) ({} : GenState).mint := by
  unfold program
  rw [outcome_bind, outcome_of_ok (newFile_ok.2 ⟨rfl, rfl⟩)]
  rfl

/-- Whatever comes of the statements of a program, its scope is open at their end. -/
theorem scopes_insideRoot (ns : Bytes) (b : Block) : (after (insideRoot ns b) atRoot).scopes.scopes ≠ [] := by
  have hopen : atRoot.Owning (fun _ => True) 0 := .everything (List.cons_ne_nil _ _) (List.cons_ne_nil _ _)
  have hblock : Tame (fun _ => True) 0 true (block (levels maxNesting) b) :=
    (tame_block (tame_levels maxNesting) b).imp fun _ => rfl
  have hconfined : atRoot.Confined (fun _ => True) 0 true (after (insideRoot ns b) atRoot) := by
    refine confined_bind (confined_declareStatic rfl _ _) fun _ s₁ _ hc₁ => ?_
    refine confined_bind (hblock (hopen.confined hc₁)) fun _ s₂ _ hc₂ => ?_
    exact (Tame.get fun t => (tame_ofExcept _).bind fun top => tame_pure _) ((hopen.confined hc₁).confined hc₂)
  exact hconfined.scopes_ne_nil (List.cons_ne_nil _ _)

theorem outcome_insideRoot {b b' : Block} (h : Block.Rearranged b b') (ns : Bytes) :
    outcome (insideRoot ns b') atRoot = outcome (insideRoot ns b) atRoot := by
  have hblock {s : GenState} (hs : s.AtRoot) :
      outcome (block (levels maxNesting) b') s = outcome (block (levels maxNesting) b) s := by
    rw [outcome_block hs, outcome_block hs, h.definitions, h.actions]
  obtain ⟨scopes, hscopes⟩ : ∃ scopes, atRoot.scopes.declareStatic (.ofStatic "namespace") (.string ns) 0 =
      .ok scopes := ⟨_, rfl⟩
  have hroot : GenState.AtRoot { atRoot with scopes } := by
    obtain ⟨t, outer, ht, rfl⟩ := ScopeStack.declareStatic_ok hscopes
    obtain ⟨rfl, rfl⟩ := List.cons.inj ht
    exact ⟨_, _, rfl, rfl⟩
  unfold insideRoot
  rw [outcome_bind, outcome_bind, outcome_of_ok (onScopes_ok (u := ()) |>.2 ⟨scopes, hscopes, rfl⟩)]
  simp only [Except.bind]
  rw [outcome_bind, outcome_bind, hblock hroot]

end Gen

theorem Program.generate_eq_of_outcome {ns : Bytes} {p q : Program}
    (h : Gen.outcome (Gen.program ns p) {} = Gen.outcome (Gen.program ns q) {}) :
    p.generate ns = q.generate ns := by
  unfold Gen.outcome at h
  unfold generate
  simp only [EStateM.run]
  cases hp : Gen.program ns p {} with
  | ok a s =>
    cases hq : Gen.program ns q {} with
    | ok a' s' =>
      rw [hp, hq] at h
      cases h
      rfl
    | error f s' =>
      rw [hp, hq] at h
      cases h
  | error f s =>
    cases hq : Gen.program ns q {} with
    | ok a' s' =>
      rw [hp, hq] at h
      cases h
    | error f' s' =>
      rw [hp, hq] at h
      cases h
      rfl

/-- Declarations of functions may be moved to any places among the other statements of a program, as
long as those statements and the declarations keep their orders: the pack stays the same, with its
files, their commands, its warnings and its static variables, and so does an error. -/
theorem Program.generate_rearranged {p q : Program} (h : Block.Rearranged p.body q.body) (ns : Bytes) :
    q.generate ns = p.generate ns := by
  apply generate_eq_of_outcome
  rw [Gen.outcome_program, Gen.outcome_program]
  apply Gen.outcome_writingTo_congr
  apply Gen.outcome_inRoot_congr rfl
  · exact Gen.scopes_insideRoot ns q.body
  · exact Gen.scopes_insideRoot ns p.body
  · exact Gen.outcome_insideRoot h ns

/-- A call in front of the declaration it goes to, whose body reads a variable that is declared
later and calls a function that is declared later. -/
theorem Program.generate_rearranged_call : ∃ call value f g stop,
    parse "$f();$x:=1;def $f()\x7b$g(2,$x);\x7ddef $g(n,$y)\x7b$x=$y+n;\x7d" = .ok ⟨[call, value, f, g], stop⟩ ∧
      Block.Rearranged [call, value, f, g] [f, call, g, value] ∧
      generate "demo" ⟨[f, call, g, value], stop⟩ = generate "demo" ⟨[call, value, f, g], stop⟩ ∧
      (generate "demo" ⟨[call, value, f, g], stop⟩).toOption.map (fun r => r.files.map List.length) =
        some [4, 6, 11] := by
  have hview : (parse "$f();$x:=1;def $f()\x7b$g(2,$x);\x7ddef $g(n,$y)\x7b$x=$y+n;\x7d").toOption.map
      (fun p => (p.body.map Stmt.isDefinition,
        (p.generate "demo").toOption.map fun r => r.files.map List.length)) =
      some ([false, false, true, true], some [4, 6, 11]) := by
    decide +kernel
  cases hp : parse "$f();$x:=1;def $f()\x7b$g(2,$x);\x7ddef $g(n,$y)\x7b$x=$y+n;\x7d" with
  | error f =>
    rw [hp] at hview
    cases hview
  | ok p =>
    rw [hp] at hview
    obtain ⟨body, stop⟩ := p
    obtain ⟨hbody, hfiles⟩ := Prod.mk.inj (Option.some.inj hview)
    obtain ⟨call, rest, rfl, hcall, hrest⟩ := List.map_eq_cons_iff.1 hbody
    obtain ⟨value, rest, rfl, hvalue, hrest⟩ := List.map_eq_cons_iff.1 hrest
    obtain ⟨f, rest, rfl, hf, hrest⟩ := List.map_eq_cons_iff.1 hrest
    obtain ⟨g, rest, rfl, hg, hnil⟩ := List.map_eq_cons_iff.1 hrest
    obtain rfl := List.map_eq_nil_iff.1 hnil
    have hmoved : Block.Rearranged [call, value, f, g] [f, call, g, value] := by
      constructor
      · simp [Block.definitions, hcall, hvalue, hf, hg]
      · simp [Block.actions, hcall, hvalue, hf, hg]
    refine ⟨call, value, f, g, stop, rfl, hmoved, ?_, hfiles⟩
    exact generate_rearranged (p := ⟨[call, value, f, g], stop⟩) (q := ⟨[f, call, g, value], stop⟩) hmoved "demo"

end PackScript
