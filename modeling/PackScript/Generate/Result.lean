import PackScript.Generate.Block

/-! # Generated packs

Generation turns a program into numbered files of commands; the first one holds the
program itself. The static variables of the program as they stand at its end describe
the pack.
-/
namespace PackScript

/-- How deep expansions and specializations may nest. -/
def maxNesting : Nat := 64

namespace Gen

/-- Generates a whole program into the first file and gives its static variables. -/
def program (ns : Bytes) (p : Program) : Gen (List (Name × Value)) := do
  let file ← newFile
  writingTo file do
    inScope .root do
      onScopes fun s => s.declareStatic (.ofStatic "namespace") (.string ns) file
      block (levels maxNesting) p.body
      return (← ofExcept (← get).scopes.top).staticValues

end Gen

structure Generated where
  ns : Bytes
  files : List (List Command)
  warnings : List Warning
  /-- The static variables of the program at its end, in the byte order of their names. -/
  statics : List (Name × Value)

def Program.generate (ns : Bytes) (p : Program) : Except Failure Generated :=
  match (Gen.program ns p).run {} with
  | .ok statics s =>
    .ok { ns, files := s.files.toList.map Array.toList, warnings := s.warnings.toList, statics }
  | .error f _ => .error f

/-- Why a program does not describe its pack. -/
inductive MetaFault where
  | unset (name : Bytes)
  | wrongType (name kind : Bytes) (got : Typing)
deriving DecidableEq, Repr

def MetaFault.message : MetaFault → Bytes
  | .unset name => "variable `" ++ name ++ "` isn't set to any value"
  | .wrongType name kind got =>
    "variable `" ++ name ++ "` must be " ++ kind ++ ", got " ++ got.render

namespace Generated

/-- The lines of each file, with its name. -/
def lines (g : Generated) : List (Bytes × List Bytes) :=
  g.files.zipIdx.map fun (commands, i) => (FileId.render i, commands.map (Command.render g.ns))

/-- The name of the file that holds the program itself. -/
def root : Bytes := FileId.render 0

def static? (g : Generated) (name : Bytes) : Option Value := g.statics.lookup (.ofStatic name)

def format (g : Generated) : Except MetaFault Int32 :=
  match g.static? "pack_format" with
  | none => .error (.unset "pack_format")
  | some (.int i) => .ok i
  | some v => .error (.wrongType "pack_format" "an int" v.typing)

def description (g : Generated) : Except MetaFault Bytes :=
  match g.static? "pack_description" with
  | none => .error (.unset "pack_description")
  | some (.string s) => .ok s
  | some v => .error (.wrongType "pack_description" "a string" v.typing)

end Generated
end PackScript
