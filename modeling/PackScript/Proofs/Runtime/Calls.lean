import PackScript.Proofs.Generation.CurrentFile
import PackScript.Proofs.Generation.Provenance
import PackScript.Proofs.Runtime.Execution
import Mathlib.Data.List.Nodup

/-! # Calling functions

The dynamic arguments of a call are pushed, the last one first. A new frame is opened and filled
from the stack, so the first parameter takes the last cell. The file of the function runs with
this frame, the frame is closed, and the returned value is pushed if the call is used as a value.
-/
namespace PackScript

/-- A dynamic argument of a call, with its parameter and the commands that push it. -/
structure Argument where
  param : Param
  value : Expr
  code : List Command

/-- The last argument comes first. -/
def Argument.pushes : List Argument → List Command
  | [] => []
  | x :: rest => pushes rest ++ x.code

namespace Gen

variable {ns : Bytes} {p : Program} {n : Nat} {f : FileId} {s s' : GenState}

/-- The dynamic arguments, each with the parameter in its own position and with the commands that
pushing it adds to the file. -/
inductive Arguments (n : Nat) (f : FileId) :
    List Param → List Expr → GenState → List Argument → GenState → Prop
  | nil (args : List Expr) (s : GenState) : Arguments n f [] args s [] s
  | static {q : Param} {params : List Param} {a : Expr} {args : List Expr} {s s' : GenState}
      {l : List Argument} (hq : q.name.dynamic = false) (h : Arguments n f params args s l s') :
      Arguments n f (q :: params) (a :: args) s l s'
  | dynamic {q : Param} {params : List Param} {a : Expr} {args : List Expr} {s s₁ s' : GenState}
      {l : List Argument} {code : List Command} (hq : q.name.dynamic = true)
      (h : Arguments n f params args s l s₁) (ha : push (levels n) a s₁ = .ok () s')
      (hcode : Adds f s₁ code s') : Arguments n f (q :: params) (a :: args) s (⟨q, a, code⟩ :: l) s'

theorem Arguments.params_eq {params : List Param} {args : List Expr} {l : List Argument}
    (h : Arguments n f params args s l s') : l.map Argument.param = params.filter (·.name.dynamic) := by
  induction h with
  | nil args s => rfl
  | static hq _ ih => simp [hq, ih]
  | dynamic hq _ _ _ ih => simp [hq, ih]

theorem pushDynamics_arguments : {args : List Expr} → {params : List Param} → {s s' : GenState} →
    Reached ns p (.pushDynamics n args params) s → s.writing.head? = some f →
    pushDynamics (levels n) args params s = .ok () s' →
    ∃ l, Arguments n f params args s l s' ∧ Adds f s (Argument.pushes l) s'
  | args, [], s, s', hr, hw, h => by
    rw [pushDynamics] at h
    obtain ⟨_, rfl⟩ := pure_ok.1 h
    obtain ⟨g, hg, hfile⟩ := hr.exists_current
    obtain rfl := Option.some.inj (hw.symm.trans hg)
    exact ⟨[], .nil args s, .writeAll hw hfile []⟩
  | [], _ :: _, s, s', hr, hw, h => by
    rw [pushDynamics] at h
    exact (throw_ok.1 h).elim
  | a :: args, q :: params, s, s', hr, hw, h => by
    rw [pushDynamics] at h
    obtain ⟨_, s₁, hlater, h⟩ := bind_ok.1 h
    obtain ⟨l, hl, hadds⟩ := pushDynamics_arguments (.pushLater hr) hw hlater
    split at h
    · rename_i hq
      obtain ⟨g, code, hcode, -⟩ := (push_raises (deep ns p n) a).adds (.pushFirst hr hlater hq) h
      have hg : s.writing.head? = some g := hadds.writing ▸ hcode.current
      obtain rfl := Option.some.inj (hw.symm.trans hg)
      exact ⟨_, .dynamic hq hl h hcode, hadds.trans hcode⟩
    · rename_i hq
      obtain ⟨_, rfl⟩ := pure_ok.1 h
      exact ⟨l, .static (Bool.eq_false_iff.2 hq) hl, hadds⟩

/-- Pushing a number takes one command. -/
theorem Adds.of_number {span : Span} {i : Int32} {code : List Command} (hcode : Adds f s code s')
    (h : push (levels n) (.number span i) s = .ok () s') : code = [.pushValue (.int i)] := by
  have hemit : emit (.pushValue (.int i)) s = .ok () s' := h
  have hadds := emit_adds hcode.current hcode.file hemit
  exact List.append_cancel_left (hcode.text.symm.trans hadds.text)

end Gen

/-- Dynamic parameters have different texts, since they all have the sigil. -/
theorem Signature.Proper.distinct_dynamic {sig : Signature} (h : sig.Proper) :
    ((sig.params.filter (·.name.dynamic)).map (·.name.text)).Nodup := by
  have hnames : ((sig.params.filter (·.name.dynamic)).map Param.name).Nodup :=
    h.distinct.sublist (List.filter_sublist.map _)
  have hdynamic : ∀ a ∈ (sig.params.filter (·.name.dynamic)).map Param.name, a.dynamic = true := by
    intro a ha
    obtain ⟨q, hq, rfl⟩ := List.mem_map.1 ha
    exact (List.mem_filter.1 hq).2
  have htexts : (((sig.params.filter (·.name.dynamic)).map Param.name).map Name.text).Nodup := by
    refine List.Nodup.map_on (fun a ha b hb hab => ?_) hnames
    have hsigil : a.dynamic = b.dynamic := (hdynamic a ha).trans (hdynamic b hb).symm
    cases a
    cases b
    exact (Name.mk.injEq ..).mpr ⟨hab, hsigil⟩
  rwa [List.map_map] at htexts

/-! ## The frame of a function -/

namespace Memory

variable {m m' : Memory}

/-- Filling a frame binds each parameter to its cell, takes the cells off the stack and binds
nothing else. -/
theorem performAll_fillSequence {params : List Param} {bs : List (Bytes × Value)}
    (hnames : bs.map Prod.fst = (params.filter (·.name.dynamic)).map (·.name.text))
    (hdistinct : (bs.map Prod.fst).Nodup) {frame : Bytes → Option Value} (hfresh : ∀ b ∈ bs, frame b.1 = none)
    {below : List (Bytes → Option Value)} (hframes : m.frames = frame :: below)
    {base : List Value} (hstack : m.stack = bs.map Prod.snd ++ base) :
    ∃ filled, m.performAll (Gen.fillSequence params) =
        some { m with stack := base, frames := filled :: below } ∧
      ∀ x v, filled x = some v ↔ frame x = some v ∨ (x, v) ∈ bs := by
  induction params generalizing m bs frame with
  | nil =>
    obtain rfl : bs = [] := List.map_eq_nil_iff.1 hnames
    refine ⟨frame, ?_, by simp⟩
    rw [← hframes, ← show m.stack = base from hstack]
    rfl
  | cons q params ih =>
    cases hq : q.name.dynamic with
    | false =>
      rw [List.filter_cons_of_neg (by simp [hq])] at hnames
      obtain ⟨filled, hrun, hfilled⟩ := ih hnames hdistinct hfresh hframes hstack
      refine ⟨filled, ?_, hfilled⟩
      simpa [Gen.fillSequence, hq] using hrun
    | true =>
      rw [List.filter_cons_of_pos (by simp [hq])] at hnames
      obtain ⟨⟨x, v⟩, bs, rfl, hx, hrest⟩ := List.map_eq_cons_iff.1 hnames
      obtain rfl : x = q.name.text := hx
      simp only [List.map_cons, List.nodup_cons] at hdistinct
      let m₁ : Memory := { m with stack := bs.map Prod.snd ++ base
                                  frames := Function.update frame q.name.text (some v) :: below }
      have hfirst : m.performAll [.storeTop (.frame 1 q.name.text), .pop] = some m₁ := by
        simp [performAll, perform, write, setVariable, position, hstack, hframes, m₁]
      have hfresh₁ : ∀ b ∈ bs, Function.update frame q.name.text (some v) b.1 = none := by
        intro b hb
        have hne : b.1 ≠ q.name.text := fun h => hdistinct.1 (h ▸ List.mem_map_of_mem hb)
        rw [Function.update_of_ne hne]
        exact hfresh b (List.mem_cons_of_mem _ hb)
      obtain ⟨filled, hrun, hfilled⟩ := ih (m := m₁) hrest hdistinct.2 hfresh₁ rfl rfl
      refine ⟨filled, ?_, fun y w => ?_⟩
      · rw [Gen.fillSequence, List.flatMap_cons, if_pos hq, performAll_append, hfirst]
        exact hrun
      · rw [hfilled]
        by_cases hy : y = q.name.text
        · subst hy
          simp [hfresh _ List.mem_cons_self, eq_comm]
        · simp [hy]

/-- A function has returned. Its frame is closed, and the value that it returned is pushed if it
is wanted. -/
def Returned (isValue : Bool) (m m' : Memory) : Prop :=
  ∃ frame below, m.frames = frame :: below ∧
    if isValue then ∃ v, m.result = some v ∧ m' = { m with stack := v :: m.stack, frames := below }
    else m' = { m with frames := below }

end Memory

namespace Engine

variable {E : Engine} {m m₁ m' : Memory} {c : Command} {cs : List Command} {log : List FileId} {g : FileId}
  {l : List Argument} {isValue : Bool}

/-- The commands push one cell, and otherwise leave the stack and the frames as they were. -/
def PushesOne (E : Engine) (cs : List Command) : Prop :=
  ∀ ⦃m log m'⦄, E.Exec m cs log m' → ∃ v, m'.stack = v :: m.stack ∧ m'.frames = m.frames

/-- A file that leaves the frames below its own as they are. -/
def KeepsBelow (E : Engine) (g : FileId) : Prop :=
  ∀ ⦃m log m'⦄, E.Exec m (E.files g) log m' → m'.frames.tail = m.frames.tail

/-- The arguments are evaluated, the last one first, and each gives a value for its parameter. -/
inductive Evaluates (E : Engine) (m : Memory) :
    List Argument → List FileId → List (Bytes × Value) → Memory → Prop
  | nil : Evaluates E m [] [] [] m
  | cons {x : Argument} {rest : List Argument} {log log' : List FileId} {bs : List (Bytes × Value)}
      {m₁ m' : Memory} {v : Value} (h : Evaluates E m rest log bs m₁) (hx : E.Exec m₁ x.code log' m')
      (hv : m'.stack = v :: m₁.stack) :
      Evaluates E m (x :: rest) (log ++ log') ((x.param.name.text, v) :: bs) m'

/-- A function is entered once its arguments are evaluated. The stack is the one from before, and
in the new frame nothing is bound but the dynamic parameters. -/
inductive Enters (E : Engine) (l : List Argument) (m : Memory) : List FileId → Memory → Prop
  | intro {log : List FileId} {bs : List (Bytes × Value)} {m₁ : Memory} {frame : Bytes → Option Value}
      (hargs : E.Evaluates m l log bs m₁) (hframe : ∀ x v, frame x = some v ↔ (x, v) ∈ bs) :
      Enters E l m log { m₁ with stack := m.stack, frames := frame :: m.frames }

/-- The file of a function is run from where the function is entered. -/
inductive Calls (E : Engine) (l : List Argument) (g : FileId) (isValue : Bool) (m : Memory) :
    List FileId → Memory → Prop
  | intro {log inside : List FileId} {m₁ m₂ m' : Memory} (henters : E.Enters l m log m₁)
      (hbody : E.Exec m₁ (E.files g) inside m₂) (hreturned : m₂.Returned isValue m') :
      Calls E l g isValue m (log ++ g :: inside) m'

namespace Evaluates

variable {bs : List (Bytes × Value)}

theorem names (h : E.Evaluates m l log bs m') : bs.map Prod.fst = l.map (·.param.name.text) := by
  induction h with
  | nil => rfl
  | cons _ _ _ ih => simp [ih]

theorem stack (h : E.Evaluates m l log bs m') : m'.stack = bs.map Prod.snd ++ m.stack := by
  induction h with
  | nil => rfl
  | cons _ _ hv ih => simp [hv, ih]

theorem frames (hone : ∀ x ∈ l, E.PushesOne x.code) (h : E.Evaluates m l log bs m') :
    m'.frames = m.frames := by
  induction h with
  | nil => rfl
  | cons _ hx _ ih =>
    obtain ⟨_, -, hframes⟩ := hone _ List.mem_cons_self hx
    exact hframes.trans (ih fun x hx => hone x (List.mem_cons_of_mem _ hx))

end Evaluates

theorem exec_pushes (hone : ∀ x ∈ l, E.PushesOne x.code) :
    E.Exec m (Argument.pushes l) log m' ↔ ∃ bs, E.Evaluates m l log bs m' := by
  induction l generalizing log m' with
  | nil =>
    rw [Argument.pushes, exec_nil]
    constructor
    · rintro ⟨rfl, rfl⟩
      exact ⟨[], .nil⟩
    · rintro ⟨bs, h⟩
      cases h
      exact ⟨rfl, rfl⟩
  | cons x rest ih =>
    have hlater : ∀ y ∈ rest, E.PushesOne y.code := fun y hy => hone y (List.mem_cons_of_mem _ hy)
    rw [Argument.pushes, exec_append]
    constructor
    · rintro ⟨m₁, log₁, log₂, hrest, hx, rfl⟩
      obtain ⟨bs, hbs⟩ := (ih hlater).1 hrest
      obtain ⟨v, hv, -⟩ := hone x List.mem_cons_self hx
      exact ⟨_, .cons hbs hx hv⟩
    · rintro ⟨bs, h⟩
      cases h with
      | cons hbs hx hv => exact ⟨_, _, _, (ih hlater).2 ⟨_, hbs⟩, hx, rfl⟩

theorem exec_return : E.Exec m (.closeFrame :: Gen.returnSequence isValue) log m' ↔
    log = [] ∧ m.Returned isValue m' := by
  rw [exec_closeFrame, Memory.Returned]
  cases isValue with
  | false =>
    simp only [Gen.returnSequence, Bool.false_eq_true, if_false, exec_nil]
    grind
  | true =>
    simp only [Gen.returnSequence, if_true, exec_pushFrom, exec_nil, Memory.read]
    grind

/-- With the arguments on the stack, a new frame takes them off it. -/
theorem exec_entrySequence {params : List Param} {bs : List (Bytes × Value)} {base : List Value}
    (hnames : bs.map Prod.fst = (params.filter (·.name.dynamic)).map (·.name.text))
    (hdistinct : (bs.map Prod.fst).Nodup) (hstack : m.stack = bs.map Prod.snd ++ base) :
    E.Exec m (.openFrame :: Gen.fillSequence params) log m' ↔
      log = [] ∧ ∃ frame, (∀ x v, frame x = some v ↔ (x, v) ∈ bs) ∧
        m' = { m with stack := base, frames := frame :: m.frames } := by
  obtain ⟨filled, hfill, hfilled⟩ := Memory.performAll_fillSequence
    (m := { m with frames := (fun _ => none) :: m.frames }) hnames hdistinct (fun _ _ => rfl) rfl hstack
  have hopen : m.performAll (.openFrame :: Gen.fillSequence params) =
      some { m with stack := base, frames := filled :: m.frames } := hfill
  rw [← List.append_nil (Command.openFrame :: _), exec_performAll hopen, exec_nil]
  simp only [reduceCtorEq, false_or] at hfilled
  refine and_congr_right fun _ => ⟨fun h => ⟨filled, hfilled, h⟩, ?_⟩
  rintro ⟨frame, hframe, rfl⟩
  obtain rfl : frame = filled := by
    funext x
    apply Option.ext
    intro v
    rw [hframe, hfilled]
  rfl

section

variable {params : List Param} (hparams : l.map Argument.param = params.filter (·.name.dynamic))
  (hdistinct : (l.map (·.param.name.text)).Nodup) (hone : ∀ x ∈ l, E.PushesOne x.code)
include hparams hdistinct hone

theorem exec_enters :
    E.Exec m (Argument.pushes l ++ .openFrame :: Gen.fillSequence params) log m' ↔ E.Enters l m log m' := by
  have hnames {log₁ : List FileId} {bs : List (Bytes × Value)} {m₁ : Memory} (h : E.Evaluates m l log₁ bs m₁) :
      bs.map Prod.fst = (params.filter (·.name.dynamic)).map (·.name.text) := by
    rw [h.names, ← hparams, List.map_map]
    rfl
  rw [exec_append]
  constructor
  · rintro ⟨m₁, log₁, log₂, hpush, hentry, rfl⟩
    obtain ⟨bs, hbs⟩ := (exec_pushes hone).1 hpush
    obtain ⟨rfl, frame, hframe, rfl⟩ :=
      (exec_entrySequence (hnames hbs) (hbs.names ▸ hdistinct) hbs.stack).1 hentry
    rw [List.append_nil, hbs.frames hone]
    exact .intro hbs hframe
  · intro h
    cases h with
    | @intro bs m₁ frame hbs hframe =>
      refine ⟨m₁, log, [], (exec_pushes hone).2 ⟨bs, hbs⟩, ?_, (List.append_nil log).symm⟩
      rw [← hbs.frames hone]
      exact (exec_entrySequence (hnames hbs) (hbs.names ▸ hdistinct) hbs.stack).2 ⟨rfl, frame, hframe, rfl⟩

theorem exec_calls :
    E.Exec m (Argument.pushes l ++ (Gen.callSequence params g ++ Gen.returnSequence isValue)) log m' ↔
      E.Calls l g isValue m log m' := by
  have hcode : Argument.pushes l ++ (Gen.callSequence params g ++ Gen.returnSequence isValue) =
      (Argument.pushes l ++ .openFrame :: Gen.fillSequence params) ++
        (.call g :: .closeFrame :: Gen.returnSequence isValue) := by
    simp [Gen.callSequence]
  have hfires (m : Memory) : m.Fires (.call g) := trivial
  rw [hcode, exec_append]
  simp only [exec_enters hparams hdistinct hone, exec_fires rfl (hfires _), exec_return]
  constructor
  · rintro ⟨m₁, log₁, _, henters, ⟨m₂, inside, _, hbody, ⟨rfl, hreturned⟩, rfl⟩, rfl⟩
    rw [List.append_nil]
    exact .intro henters hbody hreturned
  · intro h
    cases h with
    | intro henters hbody hreturned =>
      exact ⟨_, _, _, henters, ⟨_, _, [], hbody, ⟨rfl, hreturned⟩, rfl⟩, by rw [List.append_nil]⟩

end

/-- After a call of a file that keeps both stacks, the frames are those from before, and there is
one more cell if the call is used as a value. -/
theorem Calls.after (h : E.Calls l g isValue m log m') (hstack : E.KeepsStack g) (hframes : E.KeepsFrames g) :
    m'.frames.length = m.frames.length ∧ (E.KeepsBelow g → m'.frames = m.frames) ∧
      (isValue = false → m'.stack = m.stack) ∧
      (isValue = true → ∃ v, m'.result = some v ∧ m'.stack = v :: m.stack) := by
  cases h with
  | @intro _ _ m₁ m₂ _ henters hbody hreturned =>
    obtain ⟨frame, below, hm₂, hreturned⟩ := hreturned
    cases henters
    have hs := hstack hbody
    have hlength : below.length = m.frames.length := by
      have hf := hframes hbody
      simpa [hm₂] using hf
    have hbelow (hkeeps : E.KeepsBelow g) : below = m.frames := by
      have hf := hkeeps hbody
      simpa [hm₂] using hf
    cases isValue with
    | false =>
      subst hreturned
      exact ⟨hlength, hbelow, fun _ => hs, by simp⟩
    | true =>
      obtain ⟨v, hv, rfl⟩ := hreturned
      exact ⟨hlength, hbelow, by simp, fun _ => ⟨v, hv, by rw [hs]⟩⟩

end Engine

/-- The calling convention, for a call with any mix of static and dynamic parameters. First the
static arguments are settled, for which the stacks end as they began. If each dynamic argument then
pushes one cell, the file of the function is reached with the stack from before the call and with a
new frame that binds exactly the dynamic parameters, each to the value of its own argument. If the
file keeps both stacks, as it does in the pack of the program, the frames are afterwards those from
before, and the one more cell of a call used as a value is the value returned. -/
theorem Gen.invoke_calls {ns : Bytes} {p : Program} {n : Nat} {span : Span} {name : Name} {args : List Expr}
    {isValue : Bool} {s s' : GenState} (hp : Block.Proper p.body)
    (h : Reached ns p (.invoke n span name args isValue) s)
    (hok : (Task.invoke n span name args isValue).run s = .ok () s') :
    ∃ f e g settled l s₀ s₁, s.writing.head? = some f ∧
      s.scopes.resolve name (args.map s.scopes.argOf) span = .ok e ∧
      s₀.text f = s.text f ++ settled ∧ Climb {} settled {} ∧ Arguments n f e.signature.params args s₀ l s₁ ∧
      l.map Argument.param = e.signature.params.filter (·.name.dynamic) ∧
      (l.map (·.param.name.text)).Nodup ∧
      s'.text f = s.text f ++ settled ++
        (Argument.pushes l ++ (callSequence e.signature.params g ++ returnSequence isValue)) ∧
      ∀ E : Engine, (∀ x ∈ l, E.PushesOne x.code) → ∀ m log m',
        (E.Exec m (Argument.pushes l ++ .openFrame :: fillSequence e.signature.params) log m' ↔
          E.Enters l m log m') ∧
        (E.Exec m (Argument.pushes l ++ (callSequence e.signature.params g ++ returnSequence isValue)) log m' ↔
          E.Calls l g isValue m log m') ∧
        (E.Calls l g isValue m log m' →
          (E.KeepsStack g ∧ E.KeepsFrames g) ∨ (∃ pack, p.generate ns = .ok pack ∧ E.Loads pack) →
          m'.frames.length = m.frames.length ∧ (E.KeepsBelow g → m'.frames = m.frames) ∧
          (isValue = false → m'.stack = m.stack) ∧
          (isValue = true → ∃ v, m'.result = some v ∧ m'.stack = v :: m.stack)) := by
  obtain ⟨B, hs⟩ := exists_named s.scopes
  obtain ⟨e, s₁, g, s₂, B₂, s₃, f, fs, hres, hpath, -, hr₂, hdyn, hw, rfl⟩ :=
    invoke_stages (deep ns p n) h hs hok
  obtain ⟨f', settled, hsettled, hclimb⟩ := hpath.adds h
  obtain ⟨l, hl, hadds⟩ := pushDynamics_arguments hr₂ (hsettled.writing ▸ hsettled.current) hdyn
  have hcurrent : s₃.writing.head? = some f' := hadds.writing ▸ hadds.current
  obtain rfl : f = f' := by simpa [hw] using hcurrent
  have hdistinct : (l.map (·.param.name.text)).Nodup := by
    have hwhole : (Node.block p.body).Proper := hp
    have hsig : e.signature.Proper := (hwhole.of_part (within_resolve h.within.1 hres).2).1
    have hmap : l.map (·.param.name.text) = (l.map Argument.param).map (·.name.text) := by simp
    rw [hmap, hl.params_eq]
    exact hsig.distinct_dynamic
  refine ⟨f, e, g, settled, l, s₂, s₃, hsettled.current, (resolve_ok hres).1, hsettled.text, hclimb, hl,
    hl.params_eq, hdistinct, ?_, fun E hone m log m' => ⟨Engine.exec_enters hl.params_eq hdistinct hone,
      Engine.exec_calls hl.params_eq hdistinct hone, fun hcalls hkeeps => ?_⟩⟩
  · have hall := ((hsettled.trans hadds).then_writeAll (callSequence e.signature.params g)).then_writeAll
      (returnSequence isValue)
    simpa only [List.append_assoc] using hall.text
  · rcases hkeeps with ⟨hstack, hframes⟩ | ⟨pack, hpack, hloads⟩
    · exact hcalls.after hstack hframes
    · exact hcalls.after (hloads.keeps hpack g).1 (hloads.keeps hpack g).2

/-- A call with a static argument between two dynamic ones, of a function that returns its last
parameter. -/
theorem Gen.invoke_calls_mixed : ∃ p s s' pack l code, ∃ E : Engine, Block.Proper p.body ∧
    Reached "demo" p
      (.invoke maxNesting {} (.ofDynamic "f") [.number {} 10, .number {} 20, .number {} 30] true) s ∧
    (Task.invoke maxNesting {} (.ofDynamic "f") [.number {} 10, .number {} 20, .number {} 30] true).run s =
      .ok () s' ∧
    s'.text 0 = s.text 0 ++ code ∧ p.generate "demo" = .ok pack ∧ E.Loads pack ∧
    l.map (fun x => (x.param.name.text, x.code)) =
      [(Bytes.ofString "a", [.pushValue (.int 10)]), (Bytes.ofString "b", [.pushValue (.int 30)])] ∧
    (∀ x ∈ l, E.PushesOne x.code) ∧
    ∀ m, ∃ m', E.Exec m code [1] m' ∧ E.Calls l 1 true m [1] m' ∧
      m'.stack = .int 30 :: m.stack ∧ m'.frames.length = m.frames.length := by
  obtain ⟨p, s, s', hproper, hr, hok, hw, hempty, htext, hparams, hfiles⟩ : ∃ p s s', Block.Proper p.body ∧
      Reached "demo" p
        (.invoke maxNesting {} (.ofDynamic "f") [.number {} 10, .number {} 20, .number {} 30] true) s ∧
      (Task.invoke maxNesting {} (.ofDynamic "f") [.number {} 10, .number {} 20, .number {} 30] true).run s =
        .ok () s' ∧ s.writing.head? = some 0 ∧ s.text 0 = [] ∧
      s'.text 0 = [.pushValue (.int 30), .pushValue (.int 10), .openFrame, .storeTop (.frame 1 "a"), .pop,
        .storeTop (.frame 1 "b"), .pop, .call 1, .closeFrame, .pushFrom .result] ∧
      ((s.scopes.resolve (.ofDynamic "f") ([.number {} 10, .number {} 20, .number {} 30].map s.scopes.argOf)
        {}).toOption.map fun e => e.signature.params) = some
          [⟨.ofDynamic "a", .unknown⟩, ⟨.ofStatic "k", .unknown⟩, ⟨.ofDynamic "b", .unknown⟩] ∧
      (p.generate "demo").toOption.map Generated.files = some [s'.text 0 ++ [.storeTop (.frame 1 "r"), .pop],
        [.pushFrom (.frame 1 "b"), .storeTop .result, .pop]] := by
    have hblock : Reached "demo" ⟨[.assign {} (.ofDynamic "r") .unknown
        (.call {} (.ofDynamic "f") [.number {} 10, .number {} 20, .number {} 30]) true,
        .define {} ⟨.ofDynamic "f",
            [⟨.ofDynamic "a", .unknown⟩, ⟨.ofStatic "k", .unknown⟩, ⟨.ofDynamic "b", .unknown⟩]⟩
          [.ret {} (.var {} (.ofDynamic "b"))]], {}⟩ (.block maxNesting _) _ := .program rfl
    have hstatements := Reached.statements hblock rfl (ok_after (a := [none, none]) (by decide +kernel))
      (ok_after (a := ()) (by decide +kernel))
    have hcall := Reached.pushCall (.dynamicValue (.firstStatement hstatements) rfl rfl) rfl
    have hword {b : UInt8} (hb : isNameStart b = true) : IsWord [b] := ⟨b, [], [], rfl, hb, by simp, by simp⟩
    have hdynamic {t : Bytes} {P : Prop} (h : (Name.ofDynamic t).isStatic = true) : P := by cases h
    have hname {b : UInt8} (hb : isNameStart b = true) : (Name.ofDynamic [b]).Proper := ⟨hword hb, hdynamic⟩
    have hargs : Expr.ProperAll [.number {} 10, .number {} 20, .number {} 30] := by
      simp [Expr.ProperAll, Expr.Proper]
    refine ⟨_, _, _, ?_, hcall, ok_after (by decide +kernel), by decide +kernel, by decide +kernel,
      by decide +kernel, by decide +kernel, by decide +kernel⟩
    refine ⟨⟨hname rfl, ⟨hname rfl, hargs, hdynamic⟩, hdynamic, fun h => absurd rfl h⟩,
      ⟨⟨hname rfl, ?_, hdynamic, by decide⟩, ⟨hname rfl, trivial⟩, hdynamic⟩, trivial⟩
    simp only [List.forall_mem_cons]
    exact ⟨hname rfl, ⟨hword rfl, fun _ => rfl⟩, hname rfl, List.forall_mem_nil _⟩
  obtain ⟨f, e, g, settled, l, s₀, s₁, hf, he, -, -, hl, -, -, hcode, hruns⟩ := invoke_calls hproper hr hok
  obtain rfl : 0 = f := Option.some.inj (hw.symm.trans hf)
  rw [he] at hparams
  have hparams : e.signature.params = _ := Option.some.inj hparams
  rw [hparams] at hl hcode hruns
  -- the arguments are the first and the last one
  obtain ⟨x, y, ⟨hxname, hx⟩, ⟨hyname, hy⟩, rfl⟩ : ∃ x y : Argument,
      (x.param.name.text = "a" ∧ x.code = [.pushValue (.int 10)]) ∧
      (y.param.name.text = "b" ∧ y.code = [.pushValue (.int 30)]) ∧ l = [x, y] := by
    cases hl with
    | static hq _ => cases hq
    | dynamic _ hl ha hfirst =>
      cases hl with
      | dynamic hq _ _ _ => cases hq
      | static _ hl =>
        cases hl with
        | static hq _ => cases hq
        | dynamic _ hl hb hlast =>
          cases hl
          exact ⟨_, _, ⟨rfl, hfirst.of_number ha⟩, ⟨rfl, hlast.of_number hb⟩, rfl⟩
  obtain ⟨rfl, rfl⟩ : settled = [] ∧ g = 1 := by
    rw [hempty, htext] at hcode
    have hlength := congrArg List.length hcode
    simp only [Argument.pushes, hx, hy, callSequence, fillSequence, returnSequence, Name.ofDynamic,
      Name.ofStatic] at hcode hlength
    obtain rfl : settled = [] := by simpa using hlength
    simpa using hcode.symm
  obtain ⟨pack, hpack, hfiles⟩ : ∃ pack, p.generate "demo" = .ok pack ∧ pack.files = _ := by
    cases hp : p.generate "demo" with
    | error e =>
      rw [hp] at hfiles
      cases hfiles
    | ok pack =>
      rw [hp] at hfiles
      exact ⟨pack, rfl, Option.some.inj hfiles⟩
  let E : Engine := { files := fun i => pack.files.getD i []
                      reading := fun v => v.score?.getD 0
                      line := fun _ m m' => m' = m
                      reading_of_score := fun h => by rw [h]; rfl
                      stack_of_line := fun h => by rw [h]
                      frames_of_line := fun h => by rw [h] }
  have hpushes {i : Int32} : E.PushesOne [.pushValue (.int i)] := by
    intro m log m' h
    obtain ⟨rfl, rfl⟩ := Engine.exec_nil.1 ((Engine.exec_act rfl).1 h)
    exact ⟨.int i, rfl, rfl⟩
  have hone : ∀ z ∈ [x, y], E.PushesOne z.code := by
    simp only [List.forall_mem_cons, hx, hy]
    exact ⟨hpushes, hpushes, List.forall_mem_nil _⟩
  have hloads : E.Loads pack := fun i => rfl
  rw [List.append_nil] at hcode
  refine ⟨p, s, s', pack, [x, y], _, E, hproper, hr, hok, hcode, hpack, hloads,
    by simp [hx, hy, hxname, hyname], hone, fun m => ?_⟩
  have hcalls : ∃ m', E.Calls [x, y] 1 true m [1] m' ∧ m'.stack = .int 30 :: m.stack := by
    let frame : Bytes → Option Value :=
      fun z => if z = "a" then some (.int 10) else if z = "b" then some (.int 30) else none
    have hpush (i : Int32) (m : Memory) : E.Exec m [.pushValue (.int i)] [] { m with stack := .int i :: m.stack } :=
      .act rfl (.nil _)
    have hargs : E.Evaluates m [x, y] [] _ _ :=
      .cons (.cons .nil (by rw [hy]; exact hpush 30 m) rfl) (by rw [hx]; exact hpush 10 _) rfl
    have hframe (z : Bytes) (v : Value) : frame z = some v ↔
        (z, v) ∈ [(x.param.name.text, .int 10), (y.param.name.text, .int 30)] := by
      have hne : Bytes.ofString "a" ≠ Bytes.ofString "b" := by decide
      simp only [frame, hxname, hyname, List.mem_cons, Prod.mk.injEq, List.not_mem_nil, or_false]
      grind
    have hfile : E.files 1 = [.pushFrom (.frame 1 "b"), .storeTop .result, .pop] := by
      change pack.files.getD 1 [] = _
      rw [hfiles]
      rfl
    have hbody : E.Exec { m with frames := frame :: m.frames } (E.files 1) []
        { m with frames := frame :: m.frames, result := some (.int 30) } := by
      rw [hfile]
      exact Engine.exec_pushFrom.2 ⟨.int 30, rfl, .act rfl (.act rfl (.nil _))⟩
    exact ⟨_, .intro (.intro hargs hframe) hbody ⟨frame, m.frames, rfl, .int 30, rfl, rfl⟩, rfl⟩
  obtain ⟨m', hm', hm'stack⟩ := hcalls
  obtain ⟨-, hiff, hafter⟩ := hruns E hone m [1] m'
  exact ⟨m', hiff.2 hm', hm', hm'stack, (hafter hm' (.inr ⟨pack, hpack, hloads⟩)).1⟩

end PackScript
