import PackScript.Program.Signature
import PackScript.Source.Span
import PackScript.Text.Quoted

/-! # What can be wrong with a program

Every error in a source text has a cause and a place. The cause says what is wrong
in the terms of the stage that found it; its wording is in one function. A defect
is no error of the program: it reports that a stage was used against its contract.
-/
namespace PackScript

/-- What could have continued the text instead of what stands there. -/
inductive Expectation where
  | closingParen
  | commaOrClosingParen
  | openingParen
  | openingBrace
  | closingBrace
  | declaration
  | semicolon
  | semicolonAfterCall
  | useOf (name : Name)
deriving DecidableEq, Repr

def Expectation.render : Expectation → Bytes
  | .closingParen => "')'"
  | .commaOrClosingParen => "',' or ')'"
  | .openingParen => "'('"
  | .openingBrace => "'\x7b'"
  | .closingBrace => "'\x7d'"
  | .declaration => "':='"
  | .semicolon => "';'"
  | .semicolonAfterCall => "';' after call"
  | .useOf name => "':=', '=' or '(' after " ++ name.render

inductive Cause where
  | unexpectedByte (b : UInt8)
  | invalidIdentifier
  | unterminatedString
  | invalidEscape (b : UInt8)
  | unterminatedHole
  | expected (what : Expectation)
  | invalidExpression
  | invalidStatement
  | invalidType
  | unexpectedBrace
  | integerOutOfRange
  | dynamicArgument
  | dynamicParameter
  | duplicateParameter (name : Name)
  | dynamicStatement
  | dynamicHole
  | dynamicValueFor (name : Name)
  | unknownVariable (name : Name) (suggestion : Option Bytes)
  | outOfReach (name : Name)
  | reassignedElsewhere (name : Name)
  | duplicateFunction (signature : Signature)
  | noOverload (name : Name) (arity : Nat)
  | unresolvedCall (name : Name) (suggestion : Option Bytes)
  | lineBreakInCommand
  | returnOutsideFunction
  | returnBelowTopLevel (label : Bytes)
  | noReturnValue (signature : Signature)
  | expansionWithoutValue (name : Name)
  | expansionTooDeep (signature : Signature)
  | specializationTooDeep (signature : Signature)
  | stringArithmetic
  | cannotAdd (left right : Typing)
  | cannotMultiply (left right : Typing)
  | remark (text : Bytes)
deriving DecidableEq, Repr

namespace Cause

def hint : Option Bytes → Bytes
  | some name => " (did you mean " ++ name ++ "?)"
  | none => []

def message : Cause → Bytes
  | .unexpectedByte b => "unexpected character " ++ Quoted.byteLiteral b
  | .invalidIdentifier => "invalid identifier"
  | .unterminatedString => "unterminated string"
  | .invalidEscape b => "invalid escape sequence \\" ++ Utf8.encode (Char.ofNat b.toNat)
  | .unterminatedHole => "unterminated interpolation"
  | .expected what => "expected " ++ what.render
  | .invalidExpression => "invalid expression"
  | .invalidStatement => "invalid statement"
  | .invalidType => "invalid type"
  | .unexpectedBrace => "unexpected '\x7d'"
  | .integerOutOfRange => "integer literal out of range"
  | .dynamicArgument => "can't call a static function with dynamic arguments"
  | .dynamicParameter => "can't use dynamic arguments in a macro declaration"
  | .duplicateParameter n => "duplicate parameter " ++ n.render
  | .dynamicStatement => "can't use dynamic statements in a static function"
  | .dynamicHole => "can't interpolate a dynamic value in a command"
  | .dynamicValueFor n => "can't assign a dynamic value to static variable " ++ n.render
  | .unknownVariable n s => "unknown variable " ++ n.render ++ hint s
  | .outOfReach n => "can't use " ++ n.render ++ " inside a nested function"
  | .reassignedElsewhere n =>
    "can't reassign static variable " ++ n.render ++ " inside a branch or function body"
  | .duplicateFunction s => "function " ++ s.label ++ " is already declared in this scope"
  | .noOverload n arity =>
    "no overload of " ++ n.render ++ " matches " ++ Decimal.ofNat arity ++ " argument(s)"
  | .unresolvedCall n s => "unresolved call to " ++ n.render ++ hint s
  | .lineBreakInCommand => "can't interpolate a string containing a line break into a command"
  | .returnOutsideFunction => "return outside of a function"
  | .returnBelowTopLevel label =>
    "return in macro " ++ label ++ " must be at the top level of its body"
  | .noReturnValue s => "function " ++ s.label ++ " doesn't return a value"
  | .expansionWithoutValue n => "macro " ++ n.render ++ " doesn't return a value"
  | .expansionTooDeep s => "expansion of macro " ++ s.label ++ " nested too deeply"
  | .specializationTooDeep s => "specialization of " ++ s.label ++ " nested too deeply"
  | .stringArithmetic => "can't do arithmetic on strings at runtime"
  | .cannotAdd l r => "can't add " ++ l.render ++ " and " ++ r.render
  | .cannotMultiply l r => "can't multiply " ++ l.render ++ " and " ++ r.render
  | .remark text => text

end Cause

/-- A text with the place it speaks of in front, as line and column from one. -/
def Span.locate (s : Span) (text : Bytes) : Bytes :=
  Decimal.ofInt s.line.toInt ++ ":" ++ Decimal.ofInt (s.column + 1).toInt ++ ": " ++ text

structure Diagnostic where
  cause : Cause
  span : Span
  /-- The text ended before the construct did, so that more text could mend it. -/
  incomplete : Bool := false
deriving DecidableEq, Repr

def Diagnostic.message (d : Diagnostic) : Bytes := d.span.locate d.cause.message

inductive Defect where
  | unclosedHole
  | popOnEmptyStack
  | noOpenScope
  | noFrame (name : Name) (kind : Bytes)
  | hoistBelowRoot
  | noOpenFile
  | foldedDynamic
  | unexpectedDynamic
  | missingArgument
  | unplacedFunction
  | runTooLong
deriving DecidableEq, Repr

def Defect.message : Defect → Bytes
  | .unclosedHole => "parser: unterminated interpolation in command token"
  | .popOnEmptyStack => "scope: pop on empty stack"
  | .noOpenScope => "scope: no open scope"
  | .noFrame name kind =>
    "scope: runtime variable " ++ name.render ++ " declared in a " ++ kind ++ " scope without a frame"
  | .hoistBelowRoot => "scope: hoisting outside the root scope"
  | .noOpenFile => "codegen: write with no active file"
  | .foldedDynamic => "codegen: fold called on a dynamic expression"
  | .unexpectedDynamic => "codegen: unexpected dynamic expression"
  | .missingArgument => "codegen: call with too few arguments"
  | .unplacedFunction => "codegen: call of a function without a file"
  | .runTooLong => "runtime error: makeslice: len out of range"

/-- Why a stage stopped. -/
inductive Failure where
  | diagnostic (d : Diagnostic)
  | defect (d : Defect)
deriving DecidableEq, Repr

namespace Failure

/-- An error of the program at a place. -/
def ofCause (span : Span) (cause : Cause) : Failure := .diagnostic { cause, span }

def message : Failure → Bytes
  | .diagnostic d => d.message
  | .defect d => d.message

def incomplete : Failure → Bool
  | .diagnostic d => d.incomplete
  | .defect _ => false

/-- The same failure, as one that no further text can mend. -/
def settled : Failure → Failure
  | .diagnostic d => .diagnostic { d with incomplete := false }
  | .defect d => .defect d

end Failure
end PackScript
