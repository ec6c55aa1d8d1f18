import PackScript.Command.Place
import PackScript.Program.Stmt

/-! # Scopes

A scope is one level of declarations. Its dynamic variables live in a frame of the
running pack, its static ones have values, and its functions carry what has been
generated of them so far. `φ` is whatever names the output file that was being written
when something was declared.
-/
namespace PackScript

/-- Bindings by name; the latest one counts. -/
abbrev Table (α : Type) := List (Name × α)

namespace Table

variable {α : Type}

def get? (t : Table α) (name : Name) : Option α := t.lookup name

def set (t : Table α) (name : Name) (a : α) : Table α :=
  (name, a) :: t.filter fun b => b.1 ≠ name

def names (t : Table α) : List Name := t.map Prod.fst

@[simp] theorem get?_set_self (t : Table α) (name : Name) (a : α) : (t.set name a).get? name = some a := by
  simp [get?, set]

theorem lookup_filter_ne {name other : Name} (h : other ≠ name) (t : Table α) :
    (t.filter fun b => b.1 ≠ name).lookup other = t.lookup other := by
  induction t with
  | nil => rfl
  | cons b rest ih =>
    obtain ⟨n, a⟩ := b
    by_cases hn : n = name
    · have hne : (other == n) = false := by simpa [hn] using h
      rw [List.filter_cons_of_neg (by simp [hn]), ih, List.lookup_cons, hne]
    · rw [List.filter_cons_of_pos (by simp [hn]), List.lookup_cons, List.lookup_cons, ih]

theorem get?_set_of_ne (t : Table α) {name other : Name} (h : other ≠ name) (a : α) :
    (t.set name a).get? other = t.get? other := by
  have hne : (other == name) = false := by simpa using h
  rw [get?, set, List.lookup_cons, hne]
  exact lookup_filter_ne h t

end Table

inductive ScopeKind where
  /-- The program itself. -/
  | root
  /-- A branch of a conditional. -/
  | block
  /-- The body of a dynamic function. -/
  | function
  /-- A static function expanded in place, which has no frame of its own. -/
  | expansion
  | other
deriving DecidableEq, Repr

def ScopeKind.render : ScopeKind → Bytes
  | .root => "root"
  | .block => "block"
  | .function => "function"
  | .expansion => "comptime"
  | .other => "unknown"

structure Binding (φ : Type) where
  value : Value
  /-- The file being written when the variable was declared. -/
  file : φ

/-- A declared function and what has been generated of it. -/
structure Entry (φ : Type) where
  /-- Tells this declaration from every other one of the run. -/
  id : Nat
  function : Function
  /-- The file of the body, for a function without static parameters. -/
  file : Option φ := none
  /-- The files of the bodies generated so far for a function with static parameters,
  by what such a body depends on. -/
  specialized : List (Bytes × φ) := []
  /-- How many calls have been resolved to it. -/
  calls : Nat := 0

def Entry.signature {φ : Type} (e : Entry φ) : Signature := e.function.signature

structure Scope (φ : Type) where
  kind : ScopeKind
  /-- The scope owns a frame of the running pack. -/
  frame : Bool
  file : φ
  runtime : Table Typing := []
  /-- Root variables declared further on; only function bodies see them. -/
  hoisted : Table Typing := []
  statics : Table (Binding φ) := []
  entries : List (Entry φ) := []

namespace Scope

variable {φ : Type}

/-- The static variables declared in this scope, in the byte order of their names. -/
def staticValues (s : Scope φ) : List (Name × Value) :=
  Bytes.sortBy (fun b => b.1.render) (s.statics.map fun b => (b.1, b.2.value))

/-- The typing of a dynamic variable of this scope; from inside a function, of one
declared further on as well. -/
def runtimeTyping? (s : Scope φ) (name : Name) (crossed : Bool) : Option Typing :=
  match s.runtime.get? name with
  | some ty => some ty
  | none => if crossed && s.kind = .root then s.hoisted.get? name else none

end Scope
end PackScript
