import PackScript.Text.Bytes

/-! # What a command leaves behind on its two output streams -/
namespace PackScript.Cli

structure Outcome where
  stdout : Bytes := []
  stderr : Bytes := []
  exit : Nat := 0
deriving DecidableEq, Repr

namespace Outcome

/-- One outcome after another; the later one decides how the command ends. -/
def andThen (a b : Outcome) : Outcome := ⟨a.stdout ++ b.stdout, a.stderr ++ b.stderr, b.exit⟩

instance : Append Outcome := ⟨andThen⟩

def out (t : Bytes) : Outcome := { stdout := t }
def err (t : Bytes) : Outcome := { stderr := t }
def fail (exit : Nat) (t : Bytes) : Outcome := { stderr := t, exit }

end Outcome
end PackScript.Cli
