import PackScript.Layout.Line
import PackScript.Text.CharacterClass

/-! # Build constraints

A comment may say for which targets a source file is built: by an expression over tags behind
`//go:build`, or in the older form behind `// +build`, where blanks separate alternatives
and commas join what has to hold together.
-/
namespace PackScript.Layout

inductive Constraint where
  | tag (name : Line)
  | not (x : Constraint)
  | and (x y : Constraint)
  | or (x y : Constraint)
deriving DecidableEq, Repr

namespace Constraint

/-- What follows `word` in the line, if the word stands there alone. -/
def argument? (word l : Line) : Option Line :=
  if word.isPrefixOf l then
    let rest := l.drop word.length
    let text := Line.trim rest
    if rest.isEmpty || text.length < rest.length then some text else none
  else none

/-- The expression of a comment in the newer form. -/
def newer? (l : Line) : Option Line := argument? "//go:build".toList (Line.trimRight l)

/-- The alternatives of a comment in the older form. -/
def older? (l : Line) : Option Line :=
  if "//".toList.isPrefixOf l then argument? "+build".toList (Line.trim (l.drop 2)) else none

inductive Mark where
  | tag (name : Line)
  | not
  | and
  | or
  | opening
  | closing
  /-- What cannot be read, with all that follows. -/
  | unreadable
deriving DecidableEq, Repr

def isTagChar (c : Char) : Bool := CharacterClass.isLetterOrDigit c || c = '.'

def marks : Line → List Mark
  | [] => []
  | '(' :: cs => .opening :: marks cs
  | ')' :: cs => .closing :: marks cs
  | '!' :: cs => .not :: marks cs
  | '&' :: '&' :: cs => .and :: marks cs
  | '|' :: '|' :: cs => .or :: marks cs
  | c :: cs =>
    if isIndent c then marks cs
    else if isTagChar c then
      .tag (c :: cs.takeWhile isTagChar) :: marks (cs.drop (cs.takeWhile isTagChar).length)
    else [.unreadable]
termination_by cs => cs.length
decreasing_by
  all_goals simp only [List.length_cons, List.length_drop]; omega

mutual

/-- Reads an expression and gives what follows it. A conjunction binds closer than a
disjunction, and both group to the left. The number bounds the depth of the reading. -/
def disjunction? : Nat → List Mark → Option (Constraint × List Mark)
  | 0, _ => none
  | n + 1, ms => do
    let (x, ms) ← conjunction? n ms
    disjuncts? n x ms

def disjuncts? : Nat → Constraint → List Mark → Option (Constraint × List Mark)
  | 0, _, _ => none
  | n + 1, x, .or :: ms => do
    let (y, ms) ← conjunction? n ms
    disjuncts? n (.or x y) ms
  | _ + 1, x, ms => some (x, ms)

def conjunction? : Nat → List Mark → Option (Constraint × List Mark)
  | 0, _ => none
  | n + 1, ms => do
    let (x, ms) ← literal? n ms
    conjuncts? n x ms

def conjuncts? : Nat → Constraint → List Mark → Option (Constraint × List Mark)
  | 0, _, _ => none
  | n + 1, x, .and :: ms => do
    let (y, ms) ← literal? n ms
    conjuncts? n (.and x y) ms
  | _ + 1, x, ms => some (x, ms)

def literal? : Nat → List Mark → Option (Constraint × List Mark)
  | 0, _ => none
  | n + 1, .not :: ms => (atom? n ms).map fun (x, ms) => (.not x, ms)
  | n + 1, ms => atom? n ms

def atom? : Nat → List Mark → Option (Constraint × List Mark)
  | n + 1, .opening :: ms => do
    match ← disjunction? n ms with
    | (x, .closing :: ms) => some (x, ms)
    | _ => none
  | _ + 1, .tag name :: ms => some (.tag name, ms)
  | _, _ => none

end

/-- The largest number of operands in an expression. -/
def operandLimit : Nat := 1000

/-- The largest number of separators in the older form. -/
def separatorLimit : Nat := 100

def isOperand : Mark → Bool
  | .tag _ | .opening => true
  | _ => false

/-- Reads the expression at the start of a line. What follows it does not matter, as long as
the mark directly behind it can be read. -/
def parse? (l : Line) : Option Constraint :=
  let ms := marks l
  match disjunction? (6 * ms.length + 8) ms with
  | some (x, rest) =>
    let operands := (ms.take (ms.length - rest.length)).countP isOperand
    if rest.head? = some .unreadable || operandLimit < operands then none else some x
  | none => none

/-- One tag of the older form. What cannot be a tag stands for one that is never given. -/
def ofOlderTag (l : Line) : Constraint :=
  let named (name : Line) : Constraint :=
    if !name.isEmpty && name.all isTagChar then .tag name else .tag "ignore".toList
  match l with
  | ['!'] | '!' :: '!' :: _ => .tag "ignore".toList
  | '!' :: name => .not (named name)
  | name => named name

def joined (join : Constraint → Constraint → Constraint) : List Constraint → Constraint
  | [] => .tag "ignore".toList
  | x :: xs => xs.foldl join x

/-- Reads the alternatives of the older form. -/
def parseOlder? (l : Line) : Option Constraint :=
  let alternatives := ((piecesAt isSpace l).filter (fun w => !w.isEmpty)).map (piecesAt (· = ','))
  let tags := (alternatives.map List.length).foldl (· + ·) 0
  if separatorLimit + 1 < tags then none
  else some (joined .or (alternatives.map fun w => joined .and (w.map ofOlderTag)))

def parenthesized (l : Line) : Line := '(' :: l ++ [')']

def render : Constraint → Line
  | .tag name => name
  | .not x => '!' :: match x with
    | .and _ _ | .or _ _ => parenthesized x.render
    | _ => x.render
  | .and x y =>
    let operand (z : Constraint) (l : Line) : Line := match z with
      | .or _ _ => parenthesized l
      | _ => l
    operand x x.render ++ " && ".toList ++ operand y y.render
  | .or x y =>
    let operand (z : Constraint) (l : Line) : Line := match z with
      | .and _ _ => parenthesized l
      | _ => l
    operand x x.render ++ " || ".toList ++ operand y y.render

/-- The same constraint, or its negation, with negations at the tags only. -/
def normal (negated : Bool) : Constraint → Constraint
  | .tag name => if negated then .not (.tag name) else .tag name
  | .not x => normal (!negated) x
  | .and x y => if negated then .or (normal true x) (normal true y) else .and (normal false x) (normal false y)
  | .or x y => if negated then .and (normal true x) (normal true y) else .or (normal false x) (normal false y)

def conjuncts : Constraint → List Constraint
  | .and x y => conjuncts x ++ conjuncts y
  | x => [x]

def disjuncts : Constraint → List Constraint
  | .or x y => disjuncts x ++ disjuncts y
  | x => [x]

def isJoin : Constraint → Bool
  | .and _ _ | .or _ _ => true
  | _ => false

/-- The constraint in the older form, if it is a conjunction of disjunctions of conjunctions:
a line for each disjunction, or a single line if there is nothing to choose from. -/
def older (x : Constraint) : Option (List Line) :=
  let split := (conjuncts (normal false x)).map fun y => (disjuncts y).map conjuncts
  if split.any fun y => y.any fun z => z.any isJoin then none
  else
    let split := if split.all (fun y => y.length = 1) then [[split.flatten.flatten]] else split
    some (split.map fun y =>
      "// +build".toList ++ y.flatMap fun z => ' ' :: List.intercalate [','] (z.map render))

end Constraint
end PackScript.Layout
