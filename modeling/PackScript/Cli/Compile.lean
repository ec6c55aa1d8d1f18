import PackScript.Cli.Flags
import PackScript.Cli.Repl
import PackScript.Disk
import PackScript.Pack.Embedding

/-! # The compiler command

The arguments ask for one of three things: an answer that needs no input, an interactive
session, or the compilation of a source text. A compilation ends with an outcome and, if
the pack is to be written, with its files.
-/
namespace PackScript.Cli

def usage : Bytes :=
  "Quill - a small language that compiles to Minecraft datapacks\n\n" ++
  "Usage:\n" ++
  "  quill [options] program.ql\n" ++
  "  quill [options] < program.ql\n" ++
  "  quill -repl\n\n" ++
  "Options:\n" ++
  "  -color\n    \tcolorize diagnostics (default true)\n" ++
  "  -dry-run\n    \tcompile and report without writing anything\n" ++
  "  -emit string\n    \toutput kind: datapack (write -o), go (Go source on stdout) or stdout " ++
  "(function files on stdout) (default \"datapack\")\n" ++
  "  -go-package string\n    \tpackage name for -emit go (default \"pack\")\n" ++
  "  -namespace string\n    \tdatapack namespace (default \"quill\")\n" ++
  "  -o string\n    \tdirectory the datapack is written to (default \"out\")\n" ++
  "  -repl\n    \tstart an interactive session\n" ++
  "  -v\tprint per-file statistics\n" ++
  "  -version\n    \tprint version and exit\n"

def FlagStop.outcome (s : FlagStop) : Outcome :=
  match s.message? with
  | none => .err usage
  | some m => .fail 2 (m ++ "\n" ++ usage)

/-- What the arguments ask for. -/
inductive Request where
  | answer (outcome : Outcome)
  | repl (o : Options)
  /-- Compiles the named file, or the standard input if none is named. -/
  | compile (o : Options) (path : Option Bytes)

def Request.ofArgs (args : List Bytes) : Request :=
  match parseFlags {} args with
  | .error stop => .answer stop.outcome
  | .ok (o, rest) =>
    if o.version then .answer (.out ("quill version " ++ versionNumber ++ "\n"))
    else if !Namespace.isValid o.ns then
      .answer (.fail 2 ("Error: " ++ Namespace.complaint o.ns ++ "\n"))
    else if o.repl then .repl o
    else .compile o rest.head?

/-- How messages call the source text. -/
def sourceName : Option Bytes → Bytes
  | none => "<stdin>"
  | some path => Path.base path

def warningLine (w : Warning) : Bytes := "Warning: " ++ w.message ++ "\n"

def functionLine (p : Pack) (name : Bytes) : Bytes :=
  "  " ++ p.ns ++ ":" ++ name ++ " - " ++ Decimal.ofNat (p.linesOf name).length ++ " command(s)\n"

def statistics (p : Pack) : Bytes :=
  p.order.flatMap (functionLine p) ++ "\nGenerated " ++ Decimal.ofNat p.order.length ++
    " function(s), " ++ Decimal.ofNat p.commandCount ++ " command(s).\n\n"

def listing (f : PackFile) : Bytes := "# " ++ f.path ++ "\n" ++ f.content ++ "\n"

/-- The last step of a compilation: the pack in the form asked for. -/
def deliver (o : Options) (p : Pack) : Outcome × Option (List PackFile) :=
  if o.dryRun then
    (.err ("Dry run - would write " ++ Decimal.ofNat p.files.length ++ " file(s) to " ++ o.outDir ++
      "\n"), none)
  else if o.emit = Bytes.ofString "datapack" then ({}, some p.files)
  else if o.emit = Bytes.ofString "go" then
    match Embedding.source? p o.package with
    | some source => (.out source, none)
    | none => (.fail 1 ("Error: rendering Go source: invalid package name " ++ o.package ++ "\n"), none)
  else if o.emit = Bytes.ofString "stdout" then (.out (p.files.flatMap listing), none)
  else
    (.fail 2 ("Error: unknown emit kind " ++ Quoted.literal o.emit ++
      " (use 'datapack', 'go' or 'stdout')\n"), none)

/-- Compiles a source text. The second part is what remains to be written. -/
def compile (o : Options) (name source : Bytes) : Outcome × Option (List PackFile) :=
  if source.isEmpty then
    (.fail 1 "Error: no input provided\nUsage: quill program.ql\n", none)
  else
    match build source o.ns with
    | .error e => (.fail 1 (name ++ ": " ++ e.report source o.color ++ "\n"), none)
    | .ok b =>
      let (outcome, files) := deliver o b.pack
      (.err (b.warnings.flatMap warningLine) ++
        .err (if o.verbose then statistics b.pack else []) ++ outcome, files)

def installFailure (message : Bytes) : Outcome := .fail 1 ("Error: " ++ message ++ "\n")

def readFailure (message : Bytes) : Outcome := .fail 1 ("Error reading input: " ++ message ++ "\n")

def historyPath : Bytes := ".quill_history"

/-- A session over all of the input, on top of a history. -/
def runRepl (o : Options) (history : List Bytes) (input : Bytes) : Outcome × List Bytes :=
  let r : Repl := { color := o.color, session := { ns := o.ns }, history }
  let (outcome, history) := r.run (readLines input)
  (.out Repl.banner ++ outcome, history)

/-- Runs the command in a working directory that is also where the history is kept. -/
def run (d : Disk) (input : Bytes) (args : List Bytes) : Outcome × Disk :=
  match Request.ofArgs args with
  | .answer outcome => (outcome, d)
  | .repl o =>
    let history := match d.read historyPath with
      | .ok content => historyOf content
      | .error _ => []
    let (outcome, history) := runRepl o history input
    match d.write historyPath (historyText history) with
    | .ok d => (outcome, d)
    | .error _ => (outcome, d)
  | .compile o path =>
    let source : Except DiskFault Bytes := match path with
      | none => .ok input
      | some p => d.read p
    match source with
    | .error f => (readFailure f.message, d)
    | .ok source =>
      match compile o (sourceName path) source with
      | (outcome, none) => (outcome, d)
      | (outcome, some files) =>
        match d.install o.outDir files with
        | (d, none) => (outcome, d)
        | (d, some f) => (outcome ++ installFailure f.message, d)

end PackScript.Cli
