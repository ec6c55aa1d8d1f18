import PackScript.Build
import PackScript.Cli.Outcome
import PackScript.Disk
import PackScript.Program.Printer
import PackScript.Token.Json

/-! # The inspection command

Shows what a stage of the compiler makes of a source file: its tokens, its canonical
text with the kind of each statement, or the generated files.
-/
namespace PackScript.Cli.Inspect

def usage : Bytes :=
  "quill-inspect - Inspect the stages of the quill compiler\n\n" ++
  "Usage:\n" ++
  "  quill-inspect tokenize <file.ql>    Output JSON tokens\n" ++
  "  quill-inspect parse <file.ql>       Output the parsed program as canonical source\n" ++
  "  quill-inspect files <file.ql>       Output every generated function file\n" ++
  "  quill-inspect help                  Show this help message\n\n" ++
  "Examples:\n" ++
  "  quill-inspect tokenize counter.ql | jq .\n" ++
  "  quill-inspect parse counter.ql\n" ++
  "  quill-inspect files counter.ql\n"

inductive Stage where
  | tokens
  | program
  | files
deriving DecidableEq, Repr

def failure (message : Bytes) : Outcome := .fail 1 ("Error: " ++ message ++ "\n")

def showTokens (source : Bytes) : Outcome :=
  match tokenize source with
  | .error f => failure ("tokenizing:\n" ++ f.report source false)
  | .ok tokens => .out (Token.document tokens ++ "\n")

/-- A statement as source text, below its place and kind. -/
def statement (s : Stmt) : Bytes :=
  "# " ++ Decimal.ofInt s.span.line.toInt ++ ":" ++ Decimal.ofInt (s.span.column + 1).toInt ++ " " ++
    (if s.isStatic then "static" else "dynamic") ++ "\n" ++ Print.text (Print.stmt 0 s)

def showProgram (source : Bytes) : Outcome :=
  match Program.parse source with
  | .error f => failure ("parsing:\n" ++ f.report source false)
  | .ok p => .out (p.body.flatMap statement)

def functionFile (p : Pack) (name : Bytes) : Bytes :=
  "== " ++ p.functionPath name ++ "\n" ++ Pack.functionText (p.linesOf name)

def warningLine (w : Warning) : Bytes := "Warning: " ++ w.message ++ "\n"

def showFiles (source : Bytes) : Outcome :=
  match build source Namespace.default with
  | .error e => failure ("compiling:\n" ++ e.report source false)
  | .ok b => .err (b.warnings.flatMap warningLine) ++ .out (b.pack.order.flatMap (functionFile b.pack))

def Stage.inspect : Stage → Bytes → Outcome
  | .tokens => showTokens
  | .program => showProgram
  | .files => showFiles

inductive Request where
  | answer (outcome : Outcome)
  | inspect (stage : Stage) (path : Bytes)

def stages : List (Bytes × Stage) := [("tokenize", .tokens), ("parse", .program), ("files", .files)]

def helpWords : List Bytes := ["-h", "--help", "help"].map Bytes.ofString

/-- The usage text behind a complaint. -/
def refuse (complaint : Bytes) : Outcome := { stdout := usage, stderr := complaint, exit := 1 }

def Request.ofArgs : List Bytes → Request
  | [] => .answer (refuse [])
  | command :: rest =>
    match stages.lookup command with
    | none =>
      if helpWords.contains command then .answer (.out usage)
      else .answer (refuse ("Error: unknown command '" ++ command ++ "'\n"))
    | some stage =>
      match rest with
      | [] => .answer (refuse "Error: missing file argument\n")
      | path :: _ => .inspect stage path

/-- Runs the command in a working directory, in which it changes nothing. -/
def run (d : Disk) (args : List Bytes) : Outcome :=
  match Request.ofArgs args with
  | .answer outcome => outcome
  | .inspect stage path =>
    match d.read path with
    | .error f => failure ("reading file: " ++ f.message)
    | .ok source => stage.inspect source

end PackScript.Cli.Inspect
