import PackScript.Build

/-! # Sessions

A session grows a program entry by entry. Every entry is generated together with all the
accepted ones before it; an entry with an error leaves the session as it was.
-/
namespace PackScript

structure Session where
  ns : Bytes
  /-- The accepted entries, each ended by a line break. -/
  source : Bytes := []
  last : Option Generated := none

namespace Session

/-- The text of the program if `entry` is accepted. -/
def extended (s : Session) (entry : Bytes) : Bytes := s.source ++ entry ++ [Bytes.newline]

/-- The lines of a file as last generated; a file that is not there has none. -/
def lastLines (s : Session) (name : Bytes) : List Bytes :=
  match s.last with
  | some g => (g.lines.lookup name).getD []
  | none => []

/-- The names of the files that differ from the last generation; without one, all of them. -/
def changed (s : Session) (g : Generated) : List Bytes :=
  (g.lines.filter fun f => s.last.isNone || s.lastLines f.1 ≠ f.2).map Prod.fst

/-- Accepts an entry: the session with it, what was generated, and which files changed. -/
def eval (s : Session) (entry : Bytes) : Except Failure (Session × Generated × List Bytes) := do
  let source := s.extended entry
  let g ← (← Program.parseFull source).generate s.ns
  return ({ s with source, last := some g }, g, s.changed g)

end Session
end PackScript
