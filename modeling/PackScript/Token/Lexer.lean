import PackScript.Source.Diagnostic
import PackScript.Text.Blank
import PackScript.Token.Basic

/-! # Cutting a text into tokens

What one token is depends only on the bytes that follow, never on where they stand:
`scan` reads the token at the head of a text, and `scanFrom` lays the scanned tokens
end to end, skipping blanks and comments, and gives each its place.
-/
namespace PackScript

def isNameStart (b : UInt8) : Bool := (97 ≤ b && b ≤ 122) || (65 ≤ b && b ≤ 90) || b = 95
def isNameByte (b : UInt8) : Bool := isNameStart b || Decimal.isDigit b
def isPrime (b : UInt8) : Bool := b = 39
def isLineEnd (b : UInt8) : Bool := b = Bytes.newline
def isTrailing (b : UInt8) : Bool := b = 32 || b = 9 || b = 13

/-- The bytes before the end of the line. -/
def lineLength (t : Bytes) : Nat := (t.takeWhile fun b => !isLineEnd b).length

/-- How many bytes at the head are blanks and comments. A comment ends before its line break. -/
def skipLength : Bytes → Nat
  | [] => 0
  | b :: rest =>
    if Blank.isByte b then skipLength rest + 1
    else if b = 35 then
      skipLength (rest.drop (lineLength rest)) + lineLength rest + 1
    else 0
termination_by t => t.length
decreasing_by all_goals simp only [List.length_cons, List.length_drop]; omega

/-- The token at the head of a text, or what is wrong there. -/
inductive Scan where
  /-- `length` bytes make up the lexeme, and `more` bytes beyond the first are used up. -/
  | token (lexeme : Lexeme) (length more : Nat)
  /-- The error covers `length` bytes from `start` on; `more` bytes beyond the first were read. -/
  | fault (cause : Cause) (start length more : Nat)
deriving DecidableEq, Repr

namespace Scan

/-- A token that uses up exactly its own bytes, of which there are `more` beyond the first. -/
def exact (lexeme : Lexeme) (more : Nat) : Scan := .token lexeme (more + 1) more

/-- The letters, digits and underscores at the head, then any primes. -/
def wordLength (t : Bytes) : Nat :=
  let stem := (t.takeWhile isNameByte).length
  stem + ((t.drop stem).takeWhile isPrime).length

def word (t : Bytes) : Scan :=
  let w := t.take (wordLength t)
  match Keyword.ofWord? w with
  | some k => exact (.keyword k) (wordLength t - 1)
  | none => exact (.name (.ofStatic w)) (wordLength t - 1)

def number (t : Bytes) : Scan :=
  let digits := t.takeWhile Decimal.isDigit
  exact (.number digits) (digits.length - 1)

/-- What follows a sigil. -/
def sigiled (rest : Bytes) : Scan :=
  match rest with
  | b :: _ =>
    if isNameStart b then exact (.name (.ofDynamic (rest.take (wordLength rest)))) (wordLength rest)
    else .fault .invalidIdentifier 0 1 0
  | [] => .fault .invalidIdentifier 0 1 0

/-- The byte that an escape stands for. -/
def unescape? (b : UInt8) : Option UInt8 :=
  if b = 110 then some 10
  else if b = 116 then some 9
  else if b = 34 ∨ b = 92 then some b
  else none

/-- A string behind its opening quote; `read` bytes of it are behind us and `content`
is what they stand for, in reverse. -/
def string (read : Nat) (content : Bytes) : Bytes → Scan
  | [] => .fault .unterminatedString 0 (read + 1) read
  | b :: rest =>
    if b = 34 then exact (.string content.reverse) (read + 1)
    else if isLineEnd b then .fault .unterminatedString 0 (read + 2) (read + 1)
    else if b = 92 then
      match rest with
      | [] => .fault .unterminatedString 0 (read + 2) (read + 1)
      | e :: rest =>
        match unescape? e with
        | some c => string (read + 2) (c :: content) rest
        | none => .fault (.invalidEscape e) 0 (read + 3) (read + 2)
    else string (read + 1) (b :: content) rest

end Scan

/-- Where a hole whose inside starts here is closed: the first closing brace outside
string literals, if the line does not end before it. -/
def holeEnd? (inString : Bool) : Bytes → Option Nat
  | [] => none
  | b :: rest =>
    if isLineEnd b then none
    else if inString ∧ b = 92 then
      match rest with
      | [] => none
      | _ :: rest => (holeEnd? true rest).map (· + 2)
    else if b = 34 then (holeEnd? (!inString) rest).map (· + 1)
    else if ¬inString ∧ b = 125 then some 0
    else (holeEnd? inString rest).map (· + 1)

/-- The extent of a command line behind its slash: the bytes it takes, or the start and
length of a hole that is never closed. -/
inductive CommandExtent where
  | closed (length : Nat)
  | openHole (start length : Nat)
deriving DecidableEq, Repr

def CommandExtent.shift (n : Nat) : CommandExtent → CommandExtent
  | .closed length => .closed (length + n)
  | .openHole start length => .openHole (start + n) length

/-- A command ends at the end of its line, or before a closing brace that none of its
own opening braces matches; holes are passed over as a whole. -/
def commandExtent (depth : Nat) : Bytes → CommandExtent
  | [] => .closed 0
  | b :: rest =>
    if isLineEnd b then .closed 0
    else if b = 35 ∧ rest.head? = some 123 then
      match holeEnd? false (rest.drop 1) with
      | none => .openHole 0 (lineLength (b :: rest))
      | some n => (commandExtent depth (rest.drop (n + 2))).shift (n + 3)
    else if b = 123 then (commandExtent (depth + 1) rest).shift 1
    else if b = 125 then
      match depth with
      | 0 => .closed 0
      | depth + 1 => (commandExtent depth rest).shift 1
    else (commandExtent depth rest).shift 1
termination_by t => t.length
decreasing_by all_goals simp only [List.length_cons, List.length_drop]; omega

namespace Scan

/-- A command behind its slash. Blanks at its end are used up without being part of it. -/
def command (rest : Bytes) : Scan :=
  match commandExtent 0 rest with
  | .closed n =>
    let line := Bytes.trimRight isTrailing (rest.take n)
    .token (.command line) (line.length + 1) n
  | .openHole start length => .fault .unterminatedHole (start + 1) length (start + length)

end Scan

/-- The token at the head of `b :: rest`, where `b` is neither blank nor starts a comment. -/
def scan (b : UInt8) (rest : Bytes) : Scan :=
  if b = 40 then .exact (.mark .openParen) 0
  else if b = 41 then .exact (.mark .closeParen) 0
  else if b = 123 then .exact (.mark .openBrace) 0
  else if b = 125 then .exact (.mark .closeBrace) 0
  else if b = 44 then .exact (.mark .comma) 0
  else if b = 59 then .exact (.mark .semicolon) 0
  else if b = 43 then .exact (.mark .plus) 0
  else if b = 42 then .exact (.mark .star) 0
  else if b = 61 then .exact (.mark .equals) 0
  else if b = 58 then
    if rest.head? = some 61 then .exact (.mark .assign) 1 else .exact (.mark .colon) 0
  else if b = 34 then .string 0 [] rest
  else if b = 47 then .command rest
  else if b = 36 then .sigiled rest
  else if Decimal.isDigit b then .number (b :: rest)
  else if isNameStart b then .word (b :: rest)
  else .fault (.unexpectedByte b) 0 1 0

/-- What came of cutting a text: the tokens found, the place reached, and the error that
stopped it, if any. -/
structure Scanned where
  tokens : List Token
  reached : Cursor
  fault : Option Diagnostic
deriving DecidableEq, Repr

namespace Scanned

def cons (t : Token) (s : Scanned) : Scanned := { s with tokens := t :: s.tokens }

def result (s : Scanned) : Except Failure (List Token) :=
  match s.fault with
  | none => .ok s.tokens
  | some d => .error (.diagnostic d)

/-- A one-line account of how far the cutting came, for a text that starts at `start`. -/
def summary (start : Cursor) (s : Scanned) : Bytes :=
  "Lexer\x7bpos=" ++ Decimal.ofInt (s.reached.offset - start.offset).toInt ++
    ", line=" ++ Decimal.ofInt s.reached.line.toInt ++ ", col=" ++ Decimal.ofInt s.reached.column.toInt ++
    ", tokens=" ++ Decimal.ofNat s.tokens.length ++ "\x7d"

end Scanned

/-- Cuts `t`, whose first byte stands at `start`. -/
def scanFrom (start : Cursor) (t : Bytes) : Scanned :=
  let here := start.past (t.take (skipLength t))
  match _h : t.drop (skipLength t) with
  | [] => { tokens := [⟨.endMarker, here.span 0⟩], reached := here, fault := none }
  | b :: rest =>
    match scan b rest with
    | .token lexeme length more =>
      (scanFrom (here.past (b :: rest.take more)) (rest.drop more)).cons ⟨lexeme, here.span length⟩
    | .fault cause start length more =>
      { tokens := []
        reached := here.past (b :: rest.take more)
        fault := some {
          cause
          span := (here.past ((b :: rest).take start)).span length
          incomplete := rest.length ≤ more } }
termination_by t.length
decreasing_by
  have := congrArg List.length _h
  simp only [List.length_drop, List.length_cons] at this ⊢
  omega

/-- The tokens of a whole source text. -/
def tokenize (source : Bytes) : Except Failure (List Token) := (scanFrom .start source).result

end PackScript
