import PackScript.Text.Decimal

/-! # Names, typings and signatures

A name with a sigil is dynamic and stands for something that exists when the pack
runs; a name without one is static and is settled while the pack is built. The two
never mean the same thing, even with equal texts.
-/
namespace PackScript

structure Name where
  text : Bytes
  dynamic : Bool
deriving Repr

/-- Names are compared often enough for the texts to be compared directly. -/
instance : DecidableEq Name := fun a b =>
  if h : a.dynamic = b.dynamic ∧ Bytes.same a.text b.text = true then
    isTrue (by
      obtain ⟨_, _⟩ := a
      obtain ⟨_, _⟩ := b
      simp_all [Bytes.same_iff])
  else isFalse (by
    intro hab
    subst hab
    exact h ⟨rfl, (Bytes.same_iff _ _).2 rfl⟩)

namespace Name

def ofStatic (text : Bytes) : Name := ⟨text, false⟩
def ofDynamic (text : Bytes) : Name := ⟨text, true⟩

def isStatic (n : Name) : Bool := !n.dynamic

/-- The name as written, with its sigil. -/
def render (n : Name) : Bytes := if n.dynamic then "$" ++ n.text else n.text

end Name

/-- What a declaration says of the values it takes; advice, never enforced. -/
inductive Typing where
  | unknown
  | int
  | string
  | bool
deriving DecidableEq, Repr

namespace Typing

def render : Typing → Bytes
  | .unknown => "unknown"
  | .int => "int"
  | .string => "string"
  | .bool => "bool"

/-- The typing that an annotation names. -/
def ofAnnotation? (t : Bytes) : Option Typing :=
  [Typing.int, .string, .bool].find? fun ty => ty.render = t

/-- What two operands have in common. -/
def meet (a b : Typing) : Typing := if a = b then a else .unknown

end Typing

structure Param where
  name : Name
  typing : Typing := .unknown
deriving DecidableEq, Repr

/-- What tells one overload from another. -/
structure Signature where
  name : Name
  params : List Param
deriving DecidableEq, Repr

namespace Signature

def paramKey (p : Param) : Bytes := p.name.render ++ ":" ++ p.typing.render

/-- A text that identifies the signature within a scope. -/
def key (s : Signature) : Bytes :=
  s.name.render ++ "(" ++ Bytes.join "," (s.params.map paramKey) ++ ")"

/-- Two overloads that a scope cannot hold side by side. -/
def sameKey (s t : Signature) : Bool := s.key = t.key

/-- Name and arity, as messages show a signature. -/
def label (s : Signature) : Bytes := s.name.render ++ "/" ++ Decimal.ofNat s.params.length

/-- A static function is expanded where it is called; it has no dynamic parameter. -/
def isStatic (s : Signature) : Bool := s.name.isStatic && s.params.all fun p => p.name.isStatic

def staticParams (s : Signature) : Nat := s.params.countP fun p => p.name.isStatic

end Signature
end PackScript
