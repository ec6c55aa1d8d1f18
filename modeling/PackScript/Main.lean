import PackScript.Cli.Compile
import PackScript.Cli.Inspect

/-! # The commands as programs

Reading arguments, input and files, and writing what the pure commands answer.
-/
namespace PackScript.Console

def toText (t : Bytes) : String := (String.fromUTF8? (ByteArray.mk t.toArray)).getD ""

def put (stream : IO.FS.Stream) (t : Bytes) : IO Unit := do
  stream.write (ByteArray.mk t.toArray)
  stream.flush

def present (o : Cli.Outcome) : IO UInt32 := do
  put (← IO.getStdout) o.stdout
  put (← IO.getStderr) o.stderr
  return o.exit.toUInt32

partial def readAll (stream : IO.FS.Stream) (seen : Bytes) : IO Bytes := do
  let chunk ← stream.read 65536
  if chunk.isEmpty then return seen
  readAll stream (seen ++ chunk.data.toList)

/-- The reason for an error as far as it is known to the model of a disk. -/
def diskReason? : IO.Error → Option DiskReason
  | .noFileOrDirectory .. => some .notFound
  | .inappropriateType _ code _ => some (if code = 21 then .isDirectory else .notDirectory)
  | .alreadyExists .. => some .notDirectory
  | _ => none

/-- An error of an action on a path, in the words that messages use for it. -/
def complaint (action path : Bytes) (e : IO.Error) : Bytes :=
  match diskReason? e with
  | some reason => (DiskFault.mk action path reason).message
  | none => action ++ " " ++ path ++ ": " ++ Bytes.ofString (toString e)

def readFile (path : Bytes) : IO (Except Bytes Bytes) := do
  try
    let content ← IO.FS.readBinFile (toText path)
    return .ok content.data.toList
  catch e =>
    let action := if diskReason? e = some .isDirectory then "read" else "open"
    return .error (complaint action path e)

/-- Writes the files of a pack; the result is the complaint about the first that fails. -/
def install (dir : Bytes) : List PackFile → IO (Option Bytes)
  | [] => return none
  | f :: rest => do
    let target := Path.join [dir, f.path]
    let parent := Path.parent target
    try IO.FS.createDirAll (toText parent)
    catch e => return some ("creating " ++ parent ++ ": " ++ complaint "mkdir" parent e)
    try IO.FS.writeBinFile (toText target) (ByteArray.mk f.content.toArray)
    catch e => return some ("writing " ++ target ++ ": " ++ complaint "open" target e)
    install dir rest

partial def converse (r : Cli.Repl) : IO (List Bytes) := do
  let stdout ← IO.getStdout
  put stdout r.prompt
  let line ← (← IO.getStdin).getLine
  if line.isEmpty then
    put stdout [Bytes.newline]
    return r.history
  let text := Cli.stripReturn (Bytes.trimRight (· = Bytes.newline) (Bytes.ofString line))
  let reply := r.feed text
  let _ ← present reply.outcome
  if reply.quits then return reply.next.history
  converse reply.next

def historyFile : IO Bytes := do
  let home := (← IO.getEnv "HOME").getD ""
  return Path.join [Bytes.ofString home, Cli.historyPath]

def runSession (o : Cli.Options) : IO UInt32 := do
  put (← IO.getStdout) Cli.Repl.banner
  let file ← historyFile
  let history := match ← readFile file with
    | .ok content => Cli.historyOf content
    | .error _ => []
  let history ← converse { color := o.color, session := { ns := o.ns }, history }
  try IO.FS.writeBinFile (toText file) (ByteArray.mk (Cli.historyText history).toArray)
  catch _ => pure ()
  return 0

def runCompile (o : Cli.Options) (path : Option Bytes) : IO UInt32 := do
  let source ← match path with
    | none => Except.ok <$> readAll (← IO.getStdin) []
    | some p => readFile p
  match source with
  | .error e => present (Cli.readFailure e)
  | .ok source =>
    let (outcome, files) := Cli.compile o (Cli.sourceName path) source
    match files with
    | none => present outcome
    | some files =>
      match ← install o.outDir files with
      | none => present outcome
      | some e => present (outcome ++ Cli.installFailure e)

/-- The inspection command. -/
def inspect (args : List String) : IO UInt32 := do
  match Cli.Inspect.Request.ofArgs (args.map Bytes.ofString) with
  | .answer outcome => present outcome
  | .inspect stage path =>
    match ← readFile path with
    | .error e => present (Cli.Inspect.failure ("reading file: " ++ e))
    | .ok source => present (stage.inspect source)

/-- The compiler command. -/
def compile (args : List String) : IO UInt32 := do
  match Cli.Request.ofArgs (args.map Bytes.ofString) with
  | .answer outcome => present outcome
  | .repl o => runSession o
  | .compile o path => runCompile o path

end PackScript.Console

def main (args : List String) : IO UInt32 := PackScript.Console.compile args
