import PackScript.Command.Basic
import PackScript.Scope.Overload

/-! # The state of a generation run

Generation writes commands to the innermost of the files being written, under a stack of
open scopes. Whatever is opened for a stretch of generation is closed at its end, also
when an error ends it.
-/
namespace PackScript

inductive Warning where
  | neverCalled (span : Span) (signature : Signature)
  | typingMismatch (span : Span) (name : Name) (declared got : Typing)
deriving DecidableEq, Repr

def Warning.message : Warning → Bytes
  | .neverCalled span s => span.locate ("function " ++ s.label ++ " is declared but never called")
  | .typingMismatch span n declared got =>
    span.locate (n.render ++ " is declared " ++ declared.render ++ " but assigned a " ++ got.render)

/-- Where a return statement delivers its value. -/
inductive ReturnTarget where
  /-- To storage, when the function runs. -/
  | storage
  /-- To the call that is being expanded, while its file is being written. -/
  | expansion (label : Bytes) (file : FileId) (value : Option Value)
deriving DecidableEq, Repr

/-- The value delivered to an expansion so far. -/
def ReturnTarget.value? : ReturnTarget → Option Value
  | .storage => none
  | .expansion _ _ value => value

structure GenState where
  /-- The commands of each file, by its number. -/
  files : Array (Array Command) := #[]
  /-- The files being written, innermost first. -/
  writing : List FileId := []
  /-- The files opened for writing so far, the latest first. -/
  opened : List FileId := []
  scopes : ScopeStack FileId := {}
  target : Option ReturnTarget := none
  /-- How many expansions and specializations are being generated. -/
  depth : Nat := 0
  warnings : Array Warning := #[]

abbrev Gen := EStateM Failure GenState

namespace Gen

/-- Creates an empty file. -/
def newFile : Gen FileId := modifyGet fun s => (s.files.size, { s with files := s.files.push #[] })

def currentFile : Gen FileId := do
  match (← get).writing with
  | [] => throw (.defect .noOpenFile)
  | file :: _ => return file

/-- Writes one command to the current file. -/
def emit (c : Command) : Gen Unit := do
  let file ← currentFile
  modify fun s => { s with files := s.files.modify file (·.push c) }

def warn (w : Warning) : Gen Unit := modify fun s => { s with warnings := s.warnings.push w }

/-- Generates with `file` as the current file. -/
def writingTo {α : Type} (file : FileId) (body : Gen α) : Gen α := do
  modify fun s => { s with writing := file :: s.writing, opened := file :: s.opened }
  try body finally modify fun s => { s with writing := s.writing.tail }

/-- Generates into a file of its own. -/
def inNewFile (body : Gen Unit) : Gen FileId := do
  let file ← newFile
  writingTo file body
  return file

/-- An operation on the scopes that can fail and gives nothing but the new scopes. -/
def onScopes (f : ScopeStack FileId → Except Failure (ScopeStack FileId)) : Gen Unit := do
  let scopes ← ofExcept (f (← get).scopes)
  modify fun s => { s with scopes }

/-- Warns of the dynamic functions of a scope that nothing called. -/
def warnUncalled (s : Scope FileId) : Gen Unit :=
  (s.entries.filter fun e => !e.signature.isStatic && e.calls = 0).forM fun e =>
    warn (.neverCalled e.function.span e.signature)

def closeScope : Gen Unit := do
  let (closed, scopes) ← ofExcept (← get).scopes.pop
  modify fun s => { s with scopes }
  warnUncalled closed

/-- Generates inside a new scope. A branch opens and closes its own frame; the frame of
a function is its caller's business. -/
def inScope {α : Type} (kind : ScopeKind) (body : Gen α) : Gen α := do
  let file ← currentFile
  modify fun s => { s with scopes := s.scopes.push kind (kind ≠ .expansion) file }
  try
    if kind = .block then emit .openFrame
    let a ← body
    if kind = .block then emit .closeFrame
    pure a
  finally closeScope

/-- Generates with returned values going to `t`. -/
def returningTo {α : Type} (t : ReturnTarget) (body : Gen α) : Gen α := do
  let saved := (← get).target
  modify fun s => { s with target := some t }
  try body finally modify fun s => { s with target := saved }

/-- Generates the body of an expansion or a specialization. -/
def nested {α : Type} (body : Gen α) : Gen α := do
  modify fun s => { s with depth := s.depth + 1 }
  try body finally modify fun s => { s with depth := s.depth - 1 }

end Gen
end PackScript
