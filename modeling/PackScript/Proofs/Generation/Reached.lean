import PackScript.Proofs.Generation.Outcome

/-! # What a generation run comes to

A task is one piece of the work that generation does, and a run comes to a task in a
state when it starts to work on that piece from there. The rules follow the order of the
work: a later piece is come to only when the earlier ones have succeeded. A run that
fails in the end has come to tasks as well.
-/
namespace PackScript.Gen

/-- A piece of work; `n` further levels of expansion and specialization are allowed. -/
inductive Task where
  | block (n : Nat) (b : Block)
  | bodies (n : Nat) (b : Block) (files : List (Option FileId))
  | body (n : Nat) (file : FileId) (params : List Param) (statics : List (Name × Value)) (b : Block)
  | statements (n : Nat) (b : Block)
  | statement (n : Nat) (s : Stmt)
  | conditional (n : Nat) (test : Expr) (body : Block) (other : Otherwise)
  | branch (n : Nat) (b : Block)
  | otherwise (n : Nat) (other : Otherwise)
  | text (n : Nat) (parts : List (Bytes × Expr))
  | fold (n : Nat) (e : Expr)
  | foldAll (n : Nat) (es : List Expr)
  | foldStatics (n : Nat) (args : List Expr) (params : List Param)
  | push (n : Nat) (e : Expr)
  | pushDynamics (n : Nat) (args : List Expr) (params : List Param)
  | invoke (n : Nat) (span : Span) (name : Name) (args : List Expr) (isValue : Bool)
  | expand (n : Nat) (span : Span) (e : Entry FileId) (arguments : List Value)
  | specialize (n : Nat) (span : Span) (e : Entry FileId) (statics : List (Name × Value))
  /-- To find the place of a dynamic variable for the command that is written next. -/
  | locate (name : Name) (span : Span)

/-- The state in which the statements of a program come into play. -/
def atRoot : GenState := (({} : GenState).mint.enter 0).openScope .root 0

/-- The state in which the body of a function is generated, its parameters aside. -/
def inBody (s : GenState) (file : FileId) : GenState := (s.enter file).openScope .function file

/-- The state in which an arm of a conditional is generated; `opens` says whether it has a scope. -/
def inArm (s : GenState) (opens : Bool) : GenState :=
  let s' := s.mint.enter s.files.size
  if opens then (s'.openScope .block s.files.size).write s.files.size .openFrame else s'

/-- The state in which the body of an expanded function is generated, its parameters aside. -/
def inExpansion (s : GenState) (f : FileId) (label : Bytes) : GenState :=
  GenState.openScope { s.deepen with target := some (.expansion label f none) } .expansion f

/-- The state in which a body is generated for static arguments seen for the first time. -/
def recorded (s : GenState) (e : Entry FileId) (key : Bytes) : GenState :=
  { s.mint.deepen with
    scopes := s.scopes.updateEntry e.id fun e =>
      { e with specialized := (key, s.files.size) :: e.specialized } }

/-- Declares the target of an assignment, if the assignment does. -/
def declareTarget (target : Name) (ty : Typing) (declare : Bool) : Gen Unit :=
  if declare then onScopes fun s => s.declareRuntime target ty else pure ()

/-- The run for `p` under the namespace `ns` comes to a task in a state. -/
inductive Reached (ns : Bytes) (p : Program) : Task → GenState → Prop
  | program (h : atRoot.scopes.declareStatic (.ofStatic "namespace") (.string ns) 0 = .ok scopes) :
      Reached ns p (.block maxNesting p.body) { atRoot with scopes }
  -- A block declares its functions, then generates the bodies of some, then its statements.
  | bodies (h : Reached ns p (.block n b) s) (htop : s.scopes.top = .ok top)
      (hd : b.mapM (declareAhead (top.kind = .root)) s = .ok reserved s₁) :
      Reached ns p (.bodies n b reserved) s₁
  | statements (h : Reached ns p (.block n b) s) (htop : s.scopes.top = .ok top)
      (hd : b.mapM (declareAhead (top.kind = .root)) s = .ok reserved s₁)
      (hb : reservedBodies (levels n) b reserved s₁ = .ok () s₂) :
      Reached ns p (.statements n b) s₂
  | nextBody (h : Reached ns p (.bodies n (.define span sig b :: rest) (some file :: files)) s) :
      Reached ns p (.body n file sig.params [] b) s
  | laterBodies (h : Reached ns p (.bodies n (.define span sig b :: rest) (some file :: files)) s)
      (hb : functionBody file sig.params [] (block (levels n) b) s = .ok () s₁) :
      Reached ns p (.bodies n rest files) s₁
  | skipBody (h : Reached ns p (.bodies n (d :: rest) (o :: files)) s)
      (hd : ∀ span sig b file, d = .define span sig b → o ≠ some file) :
      Reached ns p (.bodies n rest files) s
  | insideBody (h : Reached ns p (.body n file params statics b) s)
      (hp : declareParams file statics params (inBody s file) = .ok () s₁) :
      Reached ns p (.block n b) { s₁ with target := some .storage }
  | firstStatement (h : Reached ns p (.statements n (d :: rest)) s) : Reached ns p (.statement n d) s
  | laterStatements (h : Reached ns p (.statements n (d :: rest)) s)
      (hd : statement (levels n) d s = .ok () s₁) :
      Reached ns p (.statements n rest) s₁
  -- Commands of the program.
  | command (h : Reached ns p (.statement n (.command span parts tail)) s) : Reached ns p (.text n parts) s
  | hole (h : Reached ns p (.text n ((literal, e) :: parts)) s) : Reached ns p (.fold n e) s
  | laterHoles (h : Reached ns p (.text n ((literal, e) :: parts)) s)
      (he : fold (levels n) e s = .ok v s₁) (hv : (v.content.any fun b => b = 10 || b = 13) = false) :
      Reached ns p (.text n parts) s₁
  -- Conditionals.
  | cond (h : Reached ns p (.statement n (.cond span test b other)) s) :
      Reached ns p (.conditional n test b other) s
  | test (h : Reached ns p (.conditional n test b other) s) : Reached ns p (.push n test) s
  | branch (h : Reached ns p (.conditional n test b other) s)
      (ht : push (levels n) test s = .ok () s₁) :
      Reached ns p (.branch n b) s₁
  | otherwise (h : Reached ns p (.conditional n test b other) s)
      (ht : push (levels n) test s = .ok () s₁)
      (hb : Gen.branch b (block (levels n) b) s₁ = .ok g s₂)
      (hl : emit (.load .condition 1) s₂ = .ok () s₃) (hr : emit (.runIf g) s₃ = .ok () s₄) :
      Reached ns p (.otherwise n other) s₄
  | insideBranch (h : Reached ns p (.branch n b) s) :
      Reached ns p (.block n b) (inArm s (Block.requiresScope b))
  | otherBranch (h : Reached ns p (.otherwise n (.block b)) s) : Reached ns p (.branch n b) s
  | otherCond (h : Reached ns p (.otherwise n (.cond span test b other)) s) :
      Reached ns p (.conditional n test b other) (inArm s false)
  -- Assignments. The value comes first; then the place of a dynamic target is found.
  | staticTarget (h : Reached ns p (.statement n (.assign span target ty value declare)) s)
      (ht : target.isStatic = true) : Reached ns p (.fold n value) s
  | staticValue (h : Reached ns p (.statement n (.assign span target ty value declare)) s)
      (ht : target.isStatic = false) (hv : value.isStatic = true) : Reached ns p (.fold n value) s
  | dynamicValue (h : Reached ns p (.statement n (.assign span target ty value declare)) s)
      (ht : target.isStatic = false) (hv : value.isStatic = false) : Reached ns p (.push n value) s
  | targetOfStatic (h : Reached ns p (.statement n (.assign span target ty value declare)) s)
      (ht : target.isStatic = false) (hv : value.isStatic = true)
      (hf : fold (levels n) value s = .ok v s₁) (hc : checkTyping target ty value v.typing s₁ = .ok () s₂)
      (hd : declareTarget target ty declare s₂ = .ok () s₃) :
      Reached ns p (.locate target span) s₃
  | targetOfDynamic (h : Reached ns p (.statement n (.assign span target ty value declare)) s)
      (ht : target.isStatic = false) (hv : value.isStatic = false)
      (hf : push (levels n) value s = .ok () s₁)
      (hc : checkTyping target ty value (s₁.scopes.typingOf value) s₁ = .ok () s₂)
      (hd : declareTarget target ty declare s₂ = .ok () s₃) :
      Reached ns p (.locate target span) s₃
  -- Calls as statements, and returned values.
  | staticCall (h : Reached ns p (.statement n (.call span name args)) s) (hn : name.isStatic = true)
      (hr : resolve span name args s = .ok e s₁) : Reached ns p (.foldAll n args) s₁
  | expandCall (h : Reached ns p (.statement n (.call span name args)) s) (hn : name.isStatic = true)
      (hr : resolve span name args s = .ok e s₁) (hf : foldAll (levels n) args s₁ = .ok vs s₂) :
      Reached ns p (.expand n span e vs) s₂
  | dynamicCall (h : Reached ns p (.statement n (.call span name args)) s) (hn : name.isStatic = false) :
      Reached ns p (.invoke n span name args false) s
  | returnExpanded (h : Reached ns p (.statement n (.ret span value)) s)
      (ht : s.target = some (.expansion label file v)) (hf : s.writing = file :: fs) :
      Reached ns p (.fold n value) s
  | returnStatic (h : Reached ns p (.statement n (.ret span value)) s)
      (ht : s.target = some .storage) (hv : value.isStatic = true) : Reached ns p (.fold n value) s
  | returnDynamic (h : Reached ns p (.statement n (.ret span value)) s)
      (ht : s.target = some .storage) (hv : value.isStatic = false) : Reached ns p (.push n value) s
  -- Folding.
  | foldParen (h : Reached ns p (.fold n (.paren span e)) s) (hs : e.isStatic = true) :
      Reached ns p (.fold n e) s
  | foldSumLeft (h : Reached ns p (.fold n (.sum span l r)) s)
      (hs : (Expr.sum span l r).isStatic = true) : Reached ns p (.fold n l) s
  | foldSumRight (h : Reached ns p (.fold n (.sum span l r)) s)
      (hs : (Expr.sum span l r).isStatic = true) (hl : fold (levels n) l s = .ok a s₁) :
      Reached ns p (.fold n r) s₁
  | foldProductLeft (h : Reached ns p (.fold n (.product span l r)) s)
      (hs : (Expr.product span l r).isStatic = true) : Reached ns p (.fold n l) s
  | foldProductRight (h : Reached ns p (.fold n (.product span l r)) s)
      (hs : (Expr.product span l r).isStatic = true) (hl : fold (levels n) l s = .ok a s₁) :
      Reached ns p (.fold n r) s₁
  | foldArguments (h : Reached ns p (.fold n (.call span name args)) s) (hs : name.isStatic = true)
      (hr : resolve span name args s = .ok e s₁) : Reached ns p (.foldAll n args) s₁
  | foldCall (h : Reached ns p (.fold n (.call span name args)) s) (hs : name.isStatic = true)
      (hr : resolve span name args s = .ok e s₁) (hf : foldAll (levels n) args s₁ = .ok vs s₂) :
      Reached ns p (.expand n span e vs) s₂
  | foldFirst (h : Reached ns p (.foldAll n (e :: es)) s) : Reached ns p (.fold n e) s
  | foldLater (h : Reached ns p (.foldAll n (e :: es)) s) (he : fold (levels n) e s = .ok v s₁) :
      Reached ns p (.foldAll n es) s₁
  | skipDynamic (h : Reached ns p (.foldStatics n (a :: as) (q :: ps)) s) (hq : q.name.dynamic = true) :
      Reached ns p (.foldStatics n as ps) s
  | foldStatic (h : Reached ns p (.foldStatics n (a :: as) (q :: ps)) s) (hq : q.name.dynamic = false) :
      Reached ns p (.fold n a) s
  | laterStatics (h : Reached ns p (.foldStatics n (a :: as) (q :: ps)) s) (hq : q.name.dynamic = false)
      (ha : fold (levels n) a s = .ok v s₁) : Reached ns p (.foldStatics n as ps) s₁
  -- Pushing.
  | pushFolded (h : Reached ns p (.push n e) s) (hs : e.isStatic = true) : Reached ns p (.fold n e) s
  | pushVariable (h : Reached ns p (.push n (.var span name)) s) (hs : name.isStatic = false) :
      Reached ns p (.locate name span) s
  | pushParen (h : Reached ns p (.push n (.paren span e)) s) (hs : e.isStatic = false) :
      Reached ns p (.push n e) s
  | pushSumLeft (h : Reached ns p (.push n (.sum span l r)) s)
      (hs : (Expr.sum span l r).isStatic = false) (hr : refuseStrings span l r s = .ok () s₁) :
      Reached ns p (.push n l) s₁
  | pushSumRight (h : Reached ns p (.push n (.sum span l r)) s)
      (hs : (Expr.sum span l r).isStatic = false) (hr : refuseStrings span l r s = .ok () s₁)
      (hl : push (levels n) l s₁ = .ok () s₂) : Reached ns p (.push n r) s₂
  | pushProductLeft (h : Reached ns p (.push n (.product span l r)) s)
      (hs : (Expr.product span l r).isStatic = false) (hr : refuseStrings span l r s = .ok () s₁) :
      Reached ns p (.push n l) s₁
  | pushProductRight (h : Reached ns p (.push n (.product span l r)) s)
      (hs : (Expr.product span l r).isStatic = false) (hr : refuseStrings span l r s = .ok () s₁)
      (hl : push (levels n) l s₁ = .ok () s₂) : Reached ns p (.push n r) s₂
  | pushCall (h : Reached ns p (.push n (.call span name args)) s) (hs : name.isStatic = false) :
      Reached ns p (.invoke n span name args true) s
  | pushLater (h : Reached ns p (.pushDynamics n (a :: as) (q :: ps)) s) :
      Reached ns p (.pushDynamics n as ps) s
  | pushFirst (h : Reached ns p (.pushDynamics n (a :: as) (q :: ps)) s)
      (hl : pushDynamics (levels n) as ps s = .ok () s₁) (hq : q.name.dynamic = true) :
      Reached ns p (.push n a) s₁
  -- Calls of dynamic functions.
  | invokeStatics (h : Reached ns p (.invoke n span name args isValue) s)
      (hr : resolve span name args s = .ok e s₁) (hv : (isValue && !Block.hasReturn e.function.body) = false)
      (hs : 0 < e.signature.staticParams) : Reached ns p (.foldStatics n args e.signature.params) s₁
  | invokeSpecialized (h : Reached ns p (.invoke n span name args isValue) s)
      (hr : resolve span name args s = .ok e s₁) (hv : (isValue && !Block.hasReturn e.function.body) = false)
      (hs : 0 < e.signature.staticParams)
      (hf : foldStatics (levels n) args e.signature.params s₁ = .ok statics s₂) :
      Reached ns p (.specialize n span e statics) s₂
  | specializedArguments (h : Reached ns p (.invoke n span name args isValue) s)
      (hr : resolve span name args s = .ok e s₁) (hv : (isValue && !Block.hasReturn e.function.body) = false)
      (hs : 0 < e.signature.staticParams)
      (hf : foldStatics (levels n) args e.signature.params s₁ = .ok statics s₂)
      (hg : Gen.specialize (levels n) span e statics s₂ = .ok g s₃) :
      Reached ns p (.pushDynamics n args e.signature.params) s₃
  | placedArguments (h : Reached ns p (.invoke n span name args isValue) s)
      (hr : resolve span name args s = .ok e s₁) (hv : (isValue && !Block.hasReturn e.function.body) = false)
      (hs : ¬0 < e.signature.staticParams) (hg : e.file = some g) :
      Reached ns p (.pushDynamics n args e.signature.params) s₁
  | insideExpansion (h : Reached ns p (.expand (n + 1) span e arguments) s) (hf : s.writing = f :: fs)
      (hb : bindArguments f e.signature.params arguments (inExpansion s f e.signature.label) = .ok () s₁) :
      Reached ns p (.block n e.function.body) s₁
  | firstSpecialized (h : Reached ns p (.specialize (n + 1) span e statics) s)
      (hk : (s.scopes.current e).specialized.lookup
        (s.scopes.specializationKey e.function (statics.map Prod.snd)) = none) :
      Reached ns p (.body n s.files.size e.signature.params statics e.function.body)
        (recorded s e (s.scopes.specializationKey e.function (statics.map Prod.snd)))

end PackScript.Gen
