import PackScript.Generate.Result
import PackScript.Text.Json
import PackScript.Text.Path

/-! # Packs

A pack is a set of functions with a description. On disk it is a list of files: the
description, the tag that makes one function run on loading, and a file for each
function.
-/
namespace PackScript

structure Pack where
  ns : Bytes
  format : Int32
  description : Bytes
  /-- The lines of each function. -/
  functions : List (Bytes × List Bytes)
  /-- The functions in the order they are written. -/
  order : List Bytes
  /-- The function that runs when the pack is loaded. -/
  load : Bytes

/-- One file of a pack. -/
structure PackFile where
  path : Bytes
  content : Bytes
deriving DecidableEq, Repr

namespace Pack

def ofGenerated (g : Generated) : Except MetaFault Pack := do
  return {
    ns := g.ns
    format := ← g.format
    description := ← g.description
    functions := g.lines
    order := g.lines.map Prod.fst
    load := Generated.root }

def linesOf (p : Pack) (name : Bytes) : List Bytes := (p.functions.lookup name).getD []

/-- The name under which the function for loading is called. -/
def loadTarget (p : Pack) : Bytes := p.ns ++ ":" ++ p.load

def metadata (p : Pack) : Json :=
  .object [("pack", .object [
    ("pack_format", .int p.format.toInt),
    ("description", .text p.description)])]

def loadTag (p : Pack) : Json := .object [("values", .array [.text p.loadTarget])]

def document (j : Json) : Bytes := j.indented 0 ++ "\n"

def functionPath (p : Pack) (name : Bytes) : Bytes :=
  Path.join ["data", p.ns, "functions", name ++ ".mcfunction"]

/-- Every line ended by a line break. -/
def functionText (lines : List Bytes) : Bytes := lines.flatMap fun l => l ++ [Bytes.newline]

/-- The files of a pack in the order they are written. -/
def files (p : Pack) : List PackFile :=
  ⟨"pack.mcmeta", document p.metadata⟩ ::
  ⟨"data/minecraft/tags/functions/load.json", document p.loadTag⟩ ::
  p.order.map fun name => ⟨p.functionPath name, functionText (p.linesOf name)⟩

def commandCount (p : Pack) : Nat := (p.order.flatMap p.linesOf).length

end Pack
end PackScript
