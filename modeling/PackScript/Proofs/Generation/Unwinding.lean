import PackScript.Proofs.Generation.BlockConfinement
import PackScript.Proofs.Generation.Reached
import PackScript.Program.Parser

/-! # Unwinding

Generation keeps a stack of files, a stack of scopes, the target of returned values and the
depth of expansions and specializations. Every piece of work puts them back, whichever way it
ends.
-/
namespace PackScript

/-- What is open is what was open before; an expansion may have been delivered a value. -/
structure GenState.Unwound (s s' : GenState) : Prop where
  writing : s'.writing = s.writing
  scopes : List.Forall₂ Scope.Matches s.scopes.scopes s'.scopes.scopes
  target : s'.target.map ReturnTarget.blank = s.target.map ReturnTarget.blank
  depth : s'.depth = s.depth

theorem GenState.Confined.unwound {own : FileId → Prop} {i : Nat} {d : Bool} {s s' : GenState}
    (h : s.Confined own i d s') : s.Unwound s' :=
  ⟨h.writing, h.grown.imp fun _ _ hg => hg.toMatches, h.target, h.depth⟩

namespace Gen

/-- The piece of work itself, without its result. -/
def Task.run : Task → Gen Unit
  | .block n b => Gen.block (levels n) b
  | .bodies n b files => reservedBodies (levels n) b files
  | .body n file params statics b => functionBody file params statics (Gen.block (levels n) b)
  | .statements n b => Gen.statements (levels n) b
  | .statement n st => Gen.statement (levels n) st
  | .conditional n test b other =>
    Gen.conditional (Gen.push (levels n) test) (Gen.branch b (Gen.block (levels n) b))
      (Gen.otherwise (levels n) other)
  | .branch n b => do let _ ← Gen.branch b (Gen.block (levels n) b)
  | .otherwise n other => do let _ ← Gen.otherwise (levels n) other
  | .text n parts => do let _ ← commandText (levels n) parts
  | .fold n e => do let _ ← Gen.fold (levels n) e
  | .foldAll n es => do let _ ← Gen.foldAll (levels n) es
  | .foldStatics n args params => do let _ ← Gen.foldStatics (levels n) args params
  | .push n e => Gen.push (levels n) e
  | .pushDynamics n args params => Gen.pushDynamics (levels n) args params
  | .invoke n span name args isValue =>
    Gen.invoke (levels n) span name args (Gen.foldStatics (levels n) args) (Gen.pushDynamics (levels n) args)
      isValue
  | .expand n span e arguments => do let _ ← Gen.expand (levels n) span e arguments
  | .specialize n span e statics => do let _ ← Gen.specialize (levels n) span e statics
  | .locate name span => do let _ ← ofExcept ((← get).scopes.place name span)

variable {own : FileId → Prop} {i : Nat} {s : GenState}

/-- All work is confined, whatever it is given to work on. -/
theorem tame_run (t : Task) : Tame (fun _ => True) 0 true t.run := by
  have discard {α : Type} {m : Gen α} (h : Tame (fun _ => True) 0 true m) :
      Tame (fun _ => True) 0 true (do let _ ← m) := h.bind fun _ => tame_pure ()
  cases t with
  | block n b => exact (tame_block (tame_levels n) b).imp fun _ => rfl
  | bodies n b files => exact (tame_reservedBodies (tame_levels n) b files fun _ _ => trivial).mono
  | body n file params statics b =>
    intro s hs
    refine confined_functionBody hs.toClear trivial params statics ?_
    exact (tame_block (tame_levels n) b).imp fun _ => rfl
  | statements n b => exact (tame_statements (tame_levels n) b).imp fun _ => rfl
  | statement n st => exact (tame_statement (tame_levels n) st).imp fun _ => rfl
  | conditional n test b other =>
    exact tame_conditional (tame_push (tame_levels n) test) (apart_branch (tame_block (tame_levels n) b))
      (apart_otherwise (tame_levels n) other)
  | branch n b => exact discard (apart_branch (tame_block (tame_levels n) b)).tame
  | otherwise n other => exact discard (apart_otherwise (tame_levels n) other).tame
  | text n parts => exact discard (tame_commandText (tame_levels n) parts)
  | fold n e => exact discard (tame_fold (tame_levels n) e)
  | foldAll n es => exact discard (tame_foldAll (tame_levels n) es)
  | foldStatics n args params => exact discard (tame_foldStatics (tame_levels n) args params)
  | push n e => exact tame_push (tame_levels n) e
  | pushDynamics n args params => exact tame_pushDynamics (tame_levels n) args params
  | invoke n span name args isValue =>
    exact tame_invoke (tame_levels n) span name args (tame_foldStatics (tame_levels n) args)
      (tame_pushDynamics (tame_levels n) args) isValue
  | expand n span e arguments => exact discard (tame_expand (tame_levels n) span e arguments)
  | specialize n span e statics =>
    exact discard fun s hs => confined_specialize (tame_levels n) hs.toClear span e statics
  | locate name span => exact Tame.get fun t => discard (tame_ofExcept _)

/-- A whole program leaves nothing open; it needs nothing to be open either. -/
theorem confined_program (ns : Bytes) (p : Program) (s : GenState) :
    s.Confined (fun _ => True) 0 false (after (program ns p) s) := by
  have hclear (s : GenState) : s.Clear (fun _ => True) 0 := ⟨fun _ _ => trivial, Nat.zero_le _⟩
  rw [program, after_bind (newFile_ok.2 ⟨rfl, rfl⟩)]
  refine confined_mint.trans (confined_writingTo (confined_inScope (hclear _) rfl trivial fun s₁ hs₁ hw₁ => ?_))
  refine confined_bind (confined_declareStatic hw₁ _ _) fun _ s₂ _ hc₂ => ?_
  have hs₂ := hs₁.confined hc₂
  have hblock : Tame (fun _ => True) 0 true (block (levels maxNesting) p.body) :=
    (tame_block (tame_levels maxNesting) p.body).imp fun _ => rfl
  refine confined_bind (hblock hs₂) fun _ s₃ _ hc₃ => ?_
  exact (Tame.get fun t => (tame_ofExcept _).bind fun top => tame_pure _) (hs₂.confined hc₃)

/-- Whatever piece of work is started on whatever syntax tree, in whatever state with an open file
and an open scope, and whichever way it ends: the files, the scopes, the target and the depth are
those from before. After a whole program nothing is open. -/
theorem work_unwinds :
    (∀ (t : Task) (s : GenState), s.writing ≠ [] → s.scopes.scopes ≠ [] → s.Unwound (after t.run s)) ∧
    ∀ ns p, (after (program ns p) {}).writing = [] ∧ (after (program ns p) {}).scopes.scopes = [] ∧
      (after (program ns p) {}).target = none ∧ (after (program ns p) {}).depth = 0 := by
  refine ⟨fun t s hw hs => (tame_run t (.everything hw hs)).unwound, fun ns p => ?_⟩
  have hend := (confined_program ns p {}).unwound
  refine ⟨hend.writing, List.forall₂_nil_left_iff.1 hend.scopes, ?_, hend.depth⟩
  exact Option.map_eq_none_iff.1 hend.target

/-- An error in a branch that is two expansions deep. -/
theorem work_unwinds_expansion : ∃ p, Program.parse ("def inner(n)\x7bif n\x7bx:=n+missing;\x7d\x7d" ++
      "def outer(n)\x7binner(n+1);\x7douter(1);") = .ok p ∧
    (Task.block 3 p.body).run.run' atRoot = none ∧ atRoot.Unwound (after (Task.block 3 p.body).run atRoot) := by
  have hfails : ((Program.parse ("def inner(n)\x7bif n\x7bx:=n+missing;\x7d\x7d" ++
      "def outer(n)\x7binner(n+1);\x7douter(1);")).toOption.map
        fun p => (Task.block 3 p.body).run.run' atRoot) = some none := by
    decide +kernel
  cases hp : Program.parse ("def inner(n)\x7bif n\x7bx:=n+missing;\x7d\x7d" ++
      "def outer(n)\x7binner(n+1);\x7douter(1);") with
  | error f =>
    rw [hp] at hfails
    cases hfails
  | ok p =>
    rw [hp] at hfails
    exact ⟨p, rfl, Option.some.inj hfails, work_unwinds.1 _ _ (List.cons_ne_nil _ _) (List.cons_ne_nil _ _)⟩

end Gen
end PackScript
