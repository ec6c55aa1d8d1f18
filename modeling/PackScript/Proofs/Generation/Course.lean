import PackScript.Proofs.Generation.Reached
import PackScript.Proofs.Scope.Operations

/-! # The course of a generation run

Whatever part of a program is generated, only a few kinds of things happen, and they nest
properly: a command is written to the current file, something is declared in the innermost
scope, a file is filled while its scope is open, a call is expanded in place. `Course`
lists them, without the syntax that caused them, so that a property of all runs is proved
once for each kind. Along the way it counts the cells that the current file has put on
the stack of values, and names the files that bodies of functions are written to.
-/
namespace PackScript

namespace Command

/-- Moves no cell and no frame, and names no variable. -/
def isPlain : Command → Bool
  | .verbatim _ | .operate _ | .storeValue .result _ => true
  | _ => false

/-- Puts a cell that is no variable's on the stack. -/
def isPush : Command → Bool
  | .pushValue _ | .pushFrom .result => true
  | _ => false

/-- How deep into the stack a command reads that names no variable. -/
def depthRead? : Command → Option Nat
  | .storeTop .result => some 1
  | .load _ k => some k
  | .writeBack => some 1
  | _ => none

end Command

namespace GenState

/-- Several more commands in a file. -/
def writeAll (s : GenState) (f : FileId) (cs : List Command) : GenState := cs.foldl (·.write f ·) s

theorem writeAll_cons (s : GenState) (f : FileId) (c : Command) (cs : List Command) :
    s.writeAll f (c :: cs) = (s.write f c).writeAll f cs := rfl

theorem writeAll_append (s : GenState) (f : FileId) (cs ds : List Command) :
    s.writeAll f (cs ++ ds) = (s.writeAll f cs).writeAll f ds := List.foldl_append

@[simp] theorem writing_writeAll (s : GenState) (f : FileId) (cs : List Command) :
    (s.writeAll f cs).writing = s.writing := by
  induction cs generalizing s with
  | nil => rfl
  | cons c cs ih => exact ih (s.write f c)

@[simp] theorem scopes_writeAll (s : GenState) (f : FileId) (cs : List Command) :
    (s.writeAll f cs).scopes = s.scopes := by
  induction cs generalizing s with
  | nil => rfl
  | cons c cs ih => exact ih (s.write f c)

/-- Equal but for what no command depends on: the target of returned values, the depth and the
warnings. -/
structure Alike (s s' : GenState) : Prop where
  files : s'.files = s.files
  writing : s'.writing = s.writing
  opened : s'.opened = s.opened
  scopes : s'.scopes = s.scopes

end GenState

namespace Gen

/-- The commands that fill the frame of a function from the stack. -/
def fillSequence (params : List Param) : List Command :=
  params.flatMap fun q => if q.name.dynamic then [.storeTop (.frame 1 q.name.text), .pop] else []

/-- The commands of a call once its arguments are on the stack. -/
def callSequence (params : List Param) (g : FileId) : List Command :=
  .openFrame :: fillSequence params ++ [.call g, .closeFrame]

/-- The end of an arm whose file is `g`. -/
def endArm (s : GenState) (g : FileId) (opens : Bool) : GenState :=
  if opens then (s.write g .closeFrame).closeScope.leave else s.leave

/-- A moment of a run. -/
structure Point where
  state : GenState
  /-- The cells that the current file has on the stack. -/
  cells : Nat := 0
  /-- Files reserved in this stretch for functions, and not yet filled. -/
  pending : List FileId := []
  /-- The files of bodies of functions so far. -/
  bodies : List FileId

/-- What is noted of a run: where a variable is looked up, and for which arguments a body is
generated, with the states before and after. -/
structure Notes where
  located : Name → Span → GenState → Prop
  specialized : GenState → Entry FileId → Bytes → GenState → Prop

inductive Course (N : Notes) : Point → Point → Prop
  | refl (a : Point) : Course N a a
  | trans (h : Course N a b) (h' : Course N b c) : Course N a c
  | aside (h : s.Alike s') : Course N ⟨s, k, R, B⟩ ⟨s', k, R, B⟩
  -- Scopes.
  | count (i : Nat) : Course N ⟨s, k, R, B⟩
      ⟨{ s with scopes := s.scopes.updateEntry i fun e => { e with calls := e.calls + 1 } }, k, R, B⟩
  | bind (hw : s.writing = f :: fs) (h : s.scopes.declareStatic name v f = .ok scopes) :
      Course N ⟨s, k, R, B⟩ ⟨{ s with scopes }, k, R, B⟩
  | rebind (hw : s.writing = f :: fs) (h : s.scopes.reassignStatic name v f span = .ok scopes) :
      Course N ⟨s, k, R, B⟩ ⟨{ s with scopes }, k, R, B⟩
  | declare (h : s.scopes.declareRuntime name ty = .ok scopes) :
      Course N ⟨s, k, R, B⟩ ⟨{ s with scopes }, k, R, B⟩
  | announce (h : s.scopes.hoist name ty = .ok scopes) :
      Course N ⟨s, k, R, B⟩ ⟨{ s with scopes }, k, R, B⟩
  | register (h : s.scopes.register fn = .ok (i, scopes)) :
      Course N ⟨s, k, R, B⟩ ⟨{ s with scopes }, k, R, B⟩
  | reserve (h : s.scopes.register fn = .ok (i, scopes)) :
      Course N ⟨s, k, R, B⟩
        ⟨{ s.mint with scopes := scopes.updateEntry i fun e => { e with file := some s.files.size } },
          k, R ++ [s.files.size], s.files.size :: B⟩
  -- Commands.
  | plain (hw : s.writing = f :: fs) (hc : c.isPlain = true) :
      Course N ⟨s, k, R, B⟩ ⟨s.write f c, k, R, B⟩
  | push (hw : s.writing = f :: fs) (hc : c.isPush = true) :
      Course N ⟨s, k, R, B⟩ ⟨s.write f c, k + 1, R, B⟩
  | read (hw : s.writing = f :: fs) (hc : c.depthRead? = some d) (hd : d ≤ k) :
      Course N ⟨s, k, R, B⟩ ⟨s.write f c, k, R, B⟩
  | pop (hw : s.writing = f :: fs) : Course N ⟨s, k + 1, R, B⟩ ⟨s.write f .pop, k, R, B⟩
  | pushVariable {s : GenState} {f : FileId} {fs : List FileId} {name : Name} {span : Span} {place : Place}
      {ty : Typing} {k : Nat} {R B : List FileId} (hw : s.writing = f :: fs)
      (hn : N.located name span s) (hp : s.scopes.place name span = .ok (place, ty)) :
      Course N ⟨s, k, R, B⟩ ⟨s.write f (.pushFrom place), k + 1, R, B⟩
  | storeVariable {s : GenState} {f : FileId} {fs : List FileId} {name : Name} {span : Span} {place : Place}
      {ty : Typing} {k : Nat} {R B : List FileId} (hw : s.writing = f :: fs)
      (hn : N.located name span s) (hp : s.scopes.place name span = .ok (place, ty)) :
      Course N ⟨s, k + 1, R, B⟩ ⟨s.write f (.storeTop place), k + 1, R, B⟩
  | setVariable {s : GenState} {f : FileId} {fs : List FileId} {name : Name} {span : Span} {place : Place}
      {ty : Typing} {k : Nat} {R B : List FileId} {v : Value}
      (hw : s.writing = f :: fs) (hn : N.located name span s)
      (hp : s.scopes.place name span = .ok (place, ty)) :
      Course N ⟨s, k, R, B⟩ ⟨s.write f (.storeValue place v), k, R, B⟩
  | call {s : GenState} {f g : FileId} {fs : List FileId} {params : List Param} {k : Nat} {R B : List FileId}
      (hw : s.writing = f :: fs) (hg : g ∈ B) :
      Course N ⟨s, k + params.countP (·.name.dynamic), R, B⟩
        ⟨s.writeAll f (callSequence params g), k, R, B⟩
  -- Stretches in a file or a scope of their own.
  | arm {s s₁ s₂ : GenState} {f : FileId} {fs : List FileId} {opens : Bool} {c : Command} {k : Nat}
      {R B B' : List FileId} (hw : s.writing = f :: fs)
      (hb : Course N ⟨inArm s opens, 0, [], B⟩ ⟨s₁, 0, [], B'⟩)
      (he : (endArm s₁ s.files.size opens).Alike s₂)
      (hc : c = .runIf s.files.size ∨ c = .runUnless s.files.size) :
      Course N ⟨s, k + 1, R, B⟩
        ⟨s₂.writeAll f [.load .condition 1, c], k + 1, R, B'⟩
  | expansion {s s₁ : GenState} {f : FileId} {fs : List FileId} {k : Nat} {R B B' : List FileId}
      (hw : s.writing = f :: fs)
      (hb : Course N ⟨s.openScope .expansion f, 0, [], B⟩ ⟨s₁, 0, [], B'⟩) :
      Course N ⟨s, k, R, B⟩ ⟨s₁.closeScope, k, R, B'⟩
  | fill {s s₁ : GenState} {g : FileId} {k : Nat} {R R' B B' : List FileId}
      (hb : Course N ⟨inBody s g, 0, [], B⟩ ⟨s₁, 0, [], B'⟩) :
      Course N ⟨s, k, R ++ g :: R', B⟩ ⟨s₁.closeScope.leave, k, R ++ R', B'⟩
  | specialize {s s₁ s₂ : GenState} {e : Entry FileId} {key : Bytes} {k : Nat} {R B B' : List FileId}
      (hb : Course N ⟨inBody (recorded s e key) s.files.size, 0, [], s.files.size :: B⟩ ⟨s₁, 0, [], B'⟩)
      (hn : N.specialized s e key s₂) (hs : s₁.closeScope.leave.Alike s₂) :
      Course N ⟨s, k, R, B⟩ ⟨s₂, k, R, B'⟩

variable {N : Notes} {a b : Point}

theorem writing_inArm (s : GenState) (opens : Bool) :
    (inArm s opens).writing = s.files.size :: s.writing := by
  cases opens <;> rfl

theorem writing_endArm (s : GenState) (g : FileId) (opens : Bool) :
    (endArm s g opens).writing = s.writing.tail := by
  cases opens <;> rfl

namespace Course

/-- Whatever is opened for writing is closed again. -/
theorem writing_eq (h : Course N a b) : b.state.writing = a.state.writing := by
  induction h with
  | refl _ => rfl
  | trans _ _ ih ih' => exact ih'.trans ih
  | aside h => exact h.writing
  | call hw hg => exact GenState.writing_writeAll _ _ _
  | arm hw _ he _ ih =>
    rw [GenState.writing_writeAll, he.writing, writing_endArm, ih, writing_inArm, List.tail_cons]
  | expansion hw _ ih => exact ih
  | fill _ ih => exact congrArg List.tail ih
  | specialize _ _ hs ih => exact hs.writing.trans (congrArg List.tail ih)
  | _ => rfl

/-- The files of functions are never forgotten. -/
theorem bodies_subset (h : Course N a b) : a.bodies ⊆ b.bodies := by
  induction h with
  | trans _ _ ih ih' => exact List.Subset.trans ih ih'
  | reserve h => exact List.subset_cons_self _ _
  | arm _ _ _ _ ih => exact ih
  | expansion _ _ ih => exact ih
  | fill _ ih => exact ih
  | specialize _ _ _ ih => exact List.Subset.trans (List.subset_cons_self _ _) ih
  | _ => exact List.Subset.refl _

end Course

/-- The files that the functions in sight were given are among `bodies`. -/
def Named (scopes : ScopeStack FileId) (bodies : List FileId) : Prop :=
  ∀ e ∈ scopes.entries, (∀ g, e.file = some g → g ∈ bodies) ∧ ∀ kg ∈ e.specialized, kg.2 ∈ bodies

namespace Named

variable {scopes scopes' : ScopeStack FileId} {bodies bodies' : List FileId}

theorem mono (h : Named scopes bodies) (hb : bodies ⊆ bodies') : Named scopes bodies' := fun e he =>
  ⟨fun g hg => hb ((h e he).1 g hg), fun kg hk => hb ((h e he).2 kg hk)⟩

theorem of_subset (h : Named scopes bodies) (hs : scopes'.entries ⊆ scopes.entries) :
    Named scopes' bodies := fun e he => h e (hs he)

theorem of_eq (h : Named scopes bodies) (hs : scopes'.entries = scopes.entries) :
    Named scopes' bodies := h.of_subset fun _ he => hs ▸ he

theorem push (h : Named scopes bodies) (kind : ScopeKind) (frame : Bool) (f : FileId) :
    Named (scopes.push kind frame f) bodies := h.of_eq (ScopeStack.entries_push _ _ _ _)

theorem tail (h : Named scopes bodies) : Named { scopes with scopes := scopes.scopes.tail } bodies := by
  refine h.of_subset fun e he => ?_
  obtain ⟨sc, hsc, hm⟩ := List.mem_flatMap.1 he
  exact List.mem_flatMap.2 ⟨sc, List.mem_of_mem_tail hsc, hm⟩

theorem register (h : Named scopes bodies) {fn : Function} {i : Nat}
    (hr : scopes.register fn = .ok (i, scopes')) : Named scopes' bodies := by
  intro e he
  rcases ScopeStack.mem_entries_register hr he with hm | rfl
  · exact h e hm
  · exact ⟨fun g hg => (by cases hg), fun kg hk => (by cases hk)⟩

/-- An entry may be changed if its files stay among the known ones. -/
theorem update (h : Named scopes bodies) (i : Nat) {f : Entry FileId → Entry FileId}
    (hfile : ∀ e g, (f e).file = some g → e.file = some g ∨ g ∈ bodies)
    (hspec : ∀ e, ∀ kg ∈ (f e).specialized, kg ∈ e.specialized ∨ kg.2 ∈ bodies) :
    Named (scopes.updateEntry i f) bodies := by
  intro e he
  rw [ScopeStack.entries_updateEntry, List.mem_map] at he
  obtain ⟨e₀, hm, rfl⟩ := he
  by_cases hi : e₀.id = i
  · rw [if_pos hi]
    constructor
    · intro g hg
      rcases hfile e₀ g hg with hg | hg
      · exact (h e₀ hm).1 g hg
      · exact hg
    · intro kg hk
      rcases hspec e₀ kg hk with hk | hk
      · exact (h e₀ hm).2 kg hk
      · exact hk
  · rw [if_neg hi]
    exact h e₀ hm

end Named

/-- If the files of functions in sight are known at first, they stay so. -/
theorem Course.named (h : Course N a b) (ha : Named a.state.scopes a.bodies) :
    Named b.state.scopes b.bodies := by
  induction h with
  | refl _ => exact ha
  | trans _ _ ih ih' => exact ih' (ih ha)
  | aside h => exact ha.of_eq (by rw [h.scopes])
  | count i => exact ha.update i (fun _ _ => .inl) (fun _ _ => .inl)
  | bind _ h => exact ha.of_eq (ScopeStack.entries_declareStatic h)
  | rebind _ h => exact ha.of_eq (ScopeStack.entries_reassignStatic h)
  | declare h => exact ha.of_eq (ScopeStack.entries_declareRuntime h)
  | announce h => exact ha.of_eq (ScopeStack.entries_hoist h)
  | register h => exact ha.register h
  | reserve h =>
    refine Named.update ((ha.register h).mono (List.subset_cons_self _ _)) _ ?_ (fun _ _ => .inl)
    rintro e g hg
    cases hg
    exact .inr List.mem_cons_self
  | call _ _ => exact ha.of_eq (by rw [GenState.scopes_writeAll])
  | @arm s s₁ _ _ _ opens _ _ _ B _ hw hb he _ ih =>
    have hin : Named (inArm s opens).scopes B := by
      cases opens
      · exact ha
      · exact ha.push _ _ _
    have hend : (endArm s₁ s.files.size opens).scopes.entries ⊆ s₁.scopes.entries := by
      cases opens
      · exact List.Subset.refl _
      · intro e he
        obtain ⟨sc, hsc, hm⟩ := List.mem_flatMap.1 he
        exact List.mem_flatMap.2 ⟨sc, List.mem_of_mem_tail hsc, hm⟩
    refine ((ih hin).of_subset hend).of_eq ?_
    rw [GenState.scopes_writeAll, he.scopes]
  | expansion _ _ ih => exact (ih (ha.push _ _ _)).tail
  | fill _ ih => exact (ih (ha.push _ _ _)).tail
  | @specialize s _ _ e key _ _ B _ hb _ hs ih =>
    have hin : Named (recorded s e key).scopes (s.files.size :: B) := by
      refine Named.update (ha.mono (List.subset_cons_self _ _)) _ (fun _ _ => .inl) ?_
      intro e kg hk
      rcases List.mem_cons.1 hk with rfl | hk
      · exact .inr List.mem_cons_self
      · exact .inl hk
    exact (ih (hin.push _ _ _)).tail.of_eq (by rw [hs.scopes]; rfl)
  | _ => exact ha

end Gen
end PackScript
