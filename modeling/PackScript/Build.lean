import PackScript.Pack.Basic
import PackScript.Program.Parser
import PackScript.Source.Report

/-! # Building a pack from source text

Every pack begins with the same few commands, which set up what the generated commands
rely on. They are read on their own, so that places in messages are places in the text
of the program.
-/
namespace PackScript

/-- The commands that every pack begins with. -/
def preamble : Bytes :=
  "# Runtime state shared by every generated function. Runs on load, before\n" ++
  "# the program's own statements.\n" ++
  "/scoreboard objectives add #\x7bnamespace\x7d.rt dummy\n" ++
  "/data modify storage #\x7bnamespace\x7d:runtime stack set value []\n" ++
  "/data modify storage #\x7bnamespace\x7d:runtime frames set value [\x7b\x7d]\n"

/-- The program that a source text is, behind the common beginning. -/
def Program.parseFull (source : Bytes) : Except Failure Program := do
  let first ← parse preamble
  let own ← parse source
  return { own with body := first.body ++ own.body }

namespace Namespace

def default : Bytes := "quill"

def isAllowed (b : UInt8) : Bool :=
  (97 ≤ b && b ≤ 122) || Decimal.isDigit b || b = 95 || b = 46 || b = 45

def isValid (ns : Bytes) : Bool := !ns.isEmpty && ns.all isAllowed

def complaint (ns : Bytes) : Bytes :=
  "invalid namespace " ++ Quoted.literal ns ++ ": only [a-z0-9_.-] are allowed"

end Namespace

inductive BuildError where
  | invalidNamespace (ns : Bytes)
  | failure (f : Failure)
  | metadata (f : MetaFault)

namespace BuildError

def message : BuildError → Bytes
  | .invalidNamespace ns => Namespace.complaint ns
  | .failure f => f.message
  | .metadata f => f.message

/-- The message in the surroundings of its place, if it has one. -/
def report (e : BuildError) (source : Bytes) (color : Bool) : Bytes :=
  match e with
  | .failure f => f.report source color
  | e => e.message

def incomplete : BuildError → Bool
  | .failure f => f.incomplete
  | _ => false

end BuildError

structure Built where
  pack : Pack
  warnings : List Warning

/-- Builds a pack in memory; an empty namespace stands for the usual one. -/
def build (source ns : Bytes) : Except BuildError Built := do
  let ns := if ns.isEmpty then Namespace.default else ns
  if !Namespace.isValid ns then throw (.invalidNamespace ns)
  let program ← (Program.parseFull source).mapError .failure
  let g ← (program.generate ns).mapError .failure
  let pack ← (Pack.ofGenerated g).mapError .metadata
  return { pack, warnings := g.warnings }

end PackScript
