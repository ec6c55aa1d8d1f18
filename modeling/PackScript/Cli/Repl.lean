import PackScript.Cli.Outcome
import PackScript.Session
import PackScript.Text.Blank

/-! # The interactive session

Lines are collected until they are a complete program text or an error that no further
line can mend, and then evaluated in the session. A text that starts with a colon is a
command to the session itself.
-/
namespace PackScript.Cli

def versionNumber : Bytes := "0.3.0"

/-- Lines are read through a buffer of this size; a longer line comes in pieces. -/
def lineLimit : Nat := 4096

structure Line where
  text : Bytes
  /-- The line goes on with the next piece. -/
  cutOff : Bool
deriving DecidableEq, Repr

/-- A line without its line break, which may be preceded by a carriage return. -/
def stripReturn (t : Bytes) : Bytes := if t.getLast? = some 13 then t.dropLast else t

def readLines : Bytes → List Line
  | [] => []
  | b :: rest =>
    let t := b :: rest
    let before := (t.take lineLimit).takeWhile (· ≠ Bytes.newline)
    if before.length < (t.take lineLimit).length then
      ⟨stripReturn before, false⟩ :: readLines (rest.drop before.length)
    else if lineLimit ≤ t.length then
      let piece := stripReturn before
      ⟨piece, true⟩ :: readLines (rest.drop (piece.length - 1))
    else [⟨t, false⟩]
termination_by t => t.length
decreasing_by all_goals simp only [List.length_cons, List.length_drop]; omega

/-! ## History -/

def historyLimit : Nat := 1000

/-- Adds an entry; the oldest one goes when there are too many. -/
def remember (history : List Bytes) (entry : Bytes) : List Bytes :=
  let all := history ++ [entry]
  all.drop (all.length - historyLimit)

/-- Adds an entry unless it repeats the last one. -/
def rememberNew (history : List Bytes) (entry : Bytes) : List Bytes :=
  if history.getLast? = some entry then history else remember history entry

def isUtf8 (t : Bytes) : Bool :=
  (Utf8.pieces t).all fun
    | .char _ => true
    | .stray _ => false

/-- The entries of a history file, up to the first that cannot be one. -/
def historyOf (content : Bytes) : List Bytes :=
  (((readLines content).takeWhile fun l => !l.cutOff && isUtf8 l.text).map Line.text).foldl remember []

def historyText (history : List Bytes) : Bytes := history.flatMap fun e => e ++ [Bytes.newline]

/-! ## Entries -/

structure Repl where
  color : Bool
  session : Session
  /-- How many lines of the root file have been shown. -/
  shown : Nat := 0
  /-- The lines of an entry that is not complete yet. -/
  pending : Bytes := []
  history : List Bytes := []

/-- What a line leads to. -/
structure Reply where
  next : Repl
  outcome : Outcome := {}
  quits : Bool := false

namespace Repl

def banner : Bytes :=
  "quill " ++ versionNumber ++
    "\nCtrl+C cancels input, Ctrl+D exits. Commands: :files :source :reset :quit\n"

def prompt (r : Repl) : Bytes := if r.pending.isEmpty then "ql> " else "... "

def dim (color : Bool) (t : Bytes) : Bytes := Report.paint color .faint t

/-- A line of a file as it is shown. -/
def indentedLine (l : Bytes) : Bytes := "   " ++ l ++ "\n"

def showFile (color : Bool) (name : Bytes) (lines : List Bytes) : Bytes :=
  dim color ("== " ++ name ++ " (" ++ Decimal.ofNat lines.length ++ " command(s))") ++ "\n" ++
    lines.flatMap indentedLine

def showWarning (color : Bool) (w : Warning) : Bytes := dim color ("warning: " ++ w.message) ++ "\n"

/-- Carries out a command to the session. -/
def obey (r : Repl) (command : Bytes) : Reply :=
  if command = Bytes.ofString ":quit" then { next := r, quits := true }
  else if command = Bytes.ofString ":reset" then
    { next := { r with session := { ns := r.session.ns }, shown := 0 } }
  else if command = Bytes.ofString ":source" then { next := r, outcome := .out r.session.source }
  else if command = Bytes.ofString ":files" then
    match r.session.last with
    | none => { next := r }
    | some g => { next := r, outcome := .out (g.lines.flatMap fun f => showFile r.color f.1 f.2) }
  else { next := r, outcome := .out "unknown command. Type :quit to exit.\n" }

/-- What an accepted entry shows: warnings, the new lines of the root file, and the other
files that changed. -/
def showGenerated (r : Repl) (g : Generated) (changed : List Bytes) : Outcome :=
  let root := (g.lines.lookup Generated.root).getD []
  let others := g.lines.filter fun f => f.1 ≠ Generated.root && changed.contains f.1
  .err (g.warnings.flatMap (showWarning r.color)) ++
    .out ((root.drop r.shown).flatMap fun l => l ++ [Bytes.newline]) ++
    .out (others.flatMap fun f => showFile r.color f.1 f.2)

/-- Evaluates a complete entry. -/
def evaluate (r : Repl) (entry : Bytes) : Reply :=
  match r.session.eval entry with
  | .error f => { next := r, outcome := .err (f.report (r.session.source ++ entry) r.color ++ "\n") }
  | .ok (session, g, changed) =>
    { next := { r with
        session
        shown := ((g.lines.lookup Generated.root).getD []).length
        history := rememberNew r.history (entry.map fun b => if b = Bytes.newline then 32 else b) }
      outcome := r.showGenerated g changed }

/-- The text ended before the program did. -/
def isIncomplete (entry : Bytes) : Bool :=
  match Program.parse entry with
  | .ok _ => false
  | .error f => f.incomplete

/-- Takes one more line. -/
def feed (r : Repl) (line : Bytes) : Reply :=
  let entry := if r.pending.isEmpty then line else r.pending ++ "\n" ++ line
  let visible := Blank.trimStart entry
  let r' := { r with pending := [] }
  if visible.head? = some 58 then r'.obey (Blank.trim entry)
  else if isIncomplete entry then { next := { r with pending := entry } }
  else if visible.isEmpty then { next := r' }
  else r'.evaluate entry

/-- Runs over all lines; the end of the input ends the session. -/
def run (r : Repl) : List Line → Outcome × List Bytes
  | [] => (.out (r.prompt ++ "\n"), r.history)
  | l :: rest =>
    let reply := r.feed l.text
    let shown := Outcome.out r.prompt ++ reply.outcome
    if reply.quits then (shown, reply.next.history)
    else
      let (more, history) := reply.next.run rest
      (shown ++ more, history)

end Repl
end PackScript.Cli
