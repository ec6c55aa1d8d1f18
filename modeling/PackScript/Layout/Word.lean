import PackScript.Layout.Remark
import PackScript.Text.CharacterClass

/-! # The words of a source text

What the head of a source file is made of: names, quoted texts, a few marks, and comments
between them. A line break ends a statement if the word before it may end one.
-/
namespace PackScript.Layout

def keywords : List Line :=
  ["break", "case", "chan", "const", "continue", "default", "defer", "else", "fallthrough", "for",
    "func", "go", "goto", "if", "import", "interface", "map", "package", "range", "return", "select",
    "struct", "switch", "type", "var"].map String.toList

/-- The keywords that may end a statement. -/
def closingKeywords : List Line := ["break", "continue", "fallthrough", "return"].map String.toList

inductive Word where
  | name (text : Line)
  | keyword (text : Line)
  /-- A text with its quotes. -/
  | quoted (text : List Char)
  | dot
  | opening
  | closing
  /-- The end of a statement, which a line break may imply. -/
  | semicolon (implied : Bool)
deriving DecidableEq, Repr

inductive Item where
  | word (w : Word) (offset : Nat)
  | remark (r : Remark)
  /-- From here on lines are counted from this number. -/
  | lineNumber (offset : Nat) (number : Int)
deriving DecidableEq, Repr

namespace Item

/-- The characters of a source text: it has no stray bytes, no null character and no byte
order mark. -/
def characters? (t : Bytes) : Option (List Char) :=
  (Utf8.pieces t).mapM fun
    | .char c => if c.toNat = 0 ∨ c.toNat = 0xFEFF then none else some c
    | .stray _ => none

def ofName (text : Line) : Word := if keywords.contains text then .keyword text else .name text

def endsStatement : Word → Bool
  | .name _ | .quoted _ | .closing => true
  | .keyword text => closingKeywords.contains text
  | _ => false

/-- How many characters there are up to the end of a comment, `*/` included. -/
def closed? : List Char → Option Nat
  | '*' :: '/' :: _ => some 2
  | _ :: cs => (closed? cs).map (· + 1)
  | [] => none

/-- The text of a block comment without carriage returns, save where one keeps a star and a
slash apart. What is kept so far is `kept`, last character first. -/
def dropReturns : (kept : List Char) → List Char → List Char
  | kept, [] => kept.reverse
  | kept, c :: cs =>
    if c ≠ '\r' ∨ (2 < kept.length ∧ kept.head? = some '*' ∧ cs.head? = some '/') then
      dropReturns (c :: kept) cs
    else dropReturns kept cs

def backquote : Char := Char.ofNat 96

def isHex (c : Char) : Bool := c.isDigit || ('a' ≤ c && c ≤ 'f') || ('A' ≤ c && c ≤ 'F')

def hexValue (cs : List Char) : Nat :=
  cs.foldl (fun n c =>
    16 * n + if c.isDigit then c.toNat - 48 else if c.toNat < 97 then c.toNat - 55 else c.toNat - 87) 0

def isOctal (c : Char) : Bool := '0' ≤ c && c ≤ '7'

def octalValue (cs : List Char) : Nat := cs.foldl (fun n c => 8 * n + (c.toNat - 48)) 0

/-- What an escape in a quoted text stands for, and how many characters it has behind the
backslash. -/
def escape? : List Char → Option (Bytes × Nat)
  | 'a' :: _ => some ([7], 1)
  | 'b' :: _ => some ([8], 1)
  | 't' :: _ => some ([9], 1)
  | 'n' :: _ => some ([10], 1)
  | 'v' :: _ => some ([11], 1)
  | 'f' :: _ => some ([12], 1)
  | 'r' :: _ => some ([13], 1)
  | '\\' :: _ => some ([92], 1)
  | '"' :: _ => some ([34], 1)
  | 'x' :: cs =>
    let digits := cs.take 2
    if digits.length = 2 ∧ digits.all isHex then some ([(hexValue digits).toUInt8], 3) else none
  | 'u' :: cs =>
    let digits := cs.take 4
    if digits.length = 4 ∧ digits.all isHex ∧ (hexValue digits).isValidChar then
      some (Utf8.encode (Char.ofNat (hexValue digits)), 5)
    else none
  | 'U' :: cs =>
    let digits := cs.take 8
    if digits.length = 8 ∧ digits.all isHex ∧ (hexValue digits).isValidChar then
      some (Utf8.encode (Char.ofNat (hexValue digits)), 9)
    else none
  | cs =>
    let digits := cs.take 3
    if digits.length = 3 ∧ digits.all isOctal ∧ octalValue digits < 256 then
      some ([(octalValue digits).toUInt8], 3)
    else none

/-- A text behind its opening quote: what it stands for, and how many characters there are up
to its end, the closing quote included. -/
def quotation? : List Char → Option (Bytes × Nat)
  | [] => none
  | c :: cs =>
    if c = '"' then some ([], 1)
    else if c = '\n' then none
    else if c = '\\' then
      match escape? cs with
      | none => none
      | some (bytes, n) => (quotation? (cs.drop n)).map fun (more, m) => (bytes ++ more, n + m + 1)
    else (quotation? cs).map fun (more, m) => (Utf8.encode c ++ more, m + 1)
termination_by cs => cs.length
decreasing_by
  all_goals simp only [List.length_cons, List.length_drop]; omega

/-- The digits at the end of a text behind a colon: where they start, and their value if they
are a number. Without a colon they start nowhere. -/
def trailingNumber (cs : List Char) : Nat × Option Nat :=
  let tail := (cs.reverse.takeWhile (· ≠ ':')).reverse
  if tail.length = cs.length then (0, none)
  else (cs.length - tail.length,
    if !tail.isEmpty && tail.all Char.isDigit then
      let n := tail.foldl (fun n c => 10 * n + (c.toNat - 48)) 0
      if n < Nat.pow 2 64 then some n else none
    else none)

/-- The largest line and the largest column that a comment may name. -/
def placeLimit : Int := Nat.pow 2 30

/-- A number of a line or column is a signed word of 64 bits. -/
def asPlace (n : Nat) : Int := if n < Nat.pow 2 63 then n else n - Nat.pow 2 64

def isPlace (n : Int) : Bool := n ≠ 0 && n ≤ placeLimit

/-- A comment that starts with the word `line` names a place in a file, if it ends in a colon
and a number, or in two of each, the line first. This is the line, if there is one; a number of
no line or column is refused. -/
def place? (text : List Char) : Option (Option Int) :=
  let body := text.drop 7
  match trailingNumber body with
  | (0, _) => some none
  | (_, none) => none
  | (i, some n) =>
    let line := (trailingNumber (body.take (i - 1))).2.getD n
    if isPlace (asPlace n) && isPlace (asPlace line) then some (some (asPlace line)) else none

/-- The line that a comment names. A comment closed by `*/` may name a place anywhere, another
one only at the start of a line. -/
def namedLine? (isBlock isLineStart : Bool) (text : List Char) : Option (Option Int) :=
  if (isBlock || isLineStart) && "line ".toList.isPrefixOf (text.drop 2) then
    place? (if isBlock then text.take (text.length - 2) else text)
  else some none

/-- A comment and the line number it gives to what starts at `next`. -/
def remarkItems (r : Remark) (next : Nat) : Option Int → List Item
  | some n => [.remark r, .lineNumber next n]
  | none => [.remark r]

/-- The items of a text that starts at `offset`. A line break that comes next ends a statement
if `closes` is set, and `fresh` says that the text starts a line. -/
def read? (closes fresh : Bool) (offset : Nat) : List Char → Option (List Item)
  | [] => some (if closes then [.word (.semicolon true) offset] else [])
  | '/' :: '/' :: cs =>
    let body := cs.takeWhile (· ≠ '\n')
    let text := '/' :: '/' :: body
    let text' := if text.getLast? = some '\r' then text.dropLast else text
    match namedLine? false fresh text' with
    | none => none
    | some number =>
      let items := remarkItems ⟨text.filter (· ≠ '\r'), offset⟩ (offset + (body.length + 3)) number
      (read? closes false (offset + (body.length + 2)) (cs.drop body.length)).map (items ++ ·)
  | '/' :: '*' :: cs =>
    match closed? cs with
    | none => none
    | some n =>
      let text := '/' :: '*' :: cs.take n
      match namedLine? true fresh text with
      | none => none
      | some number =>
        let items := remarkItems ⟨dropReturns [] text, offset⟩ (offset + (n + 2)) number
        if closes && text.contains '\n' then
          let lineBreak := offset + (text.takeWhile (· ≠ '\n')).length
          (read? false false (offset + (n + 2)) (cs.drop n)).map
            (items ++ .word (.semicolon true) lineBreak :: ·)
        else (read? closes false (offset + (n + 2)) (cs.drop n)).map (items ++ ·)
  | c :: cs =>
    let single (w : Word) : Option (List Item) :=
      (read? (endsStatement w) false (offset + 1) cs).map (.word w offset :: ·)
    if c = '\n' then
      if closes then (read? false true (offset + 1) cs).map (.word (.semicolon true) offset :: ·)
      else read? false true (offset + 1) cs
    else if c = ' ' ∨ c = '\t' ∨ c = '\r' then read? closes false (offset + 1) cs
    else if c = ';' then single (.semicolon false)
    else if c = '(' then single .opening
    else if c = ')' then single .closing
    else if c = '.' then single .dot
    else if c = '"' then
      match quotation? cs with
      | none => none
      | some (_, n) =>
        (read? true false (offset + (n + 1)) (cs.drop n)).map (.word (.quoted (c :: cs.take n)) offset :: ·)
    else if c = backquote then
      let body := cs.takeWhile (· ≠ backquote)
      if body.length < cs.length then
        (read? true false (offset + (body.length + 2)) (cs.drop (body.length + 1))).map
          (.word (.quoted (c :: body.filter (· ≠ '\r') ++ [c])) offset :: ·)
      else none
    else if CharacterClass.isLetter c then
      let more := cs.takeWhile CharacterClass.isLetterOrDigit
      let w := ofName (c :: more)
      (read? (endsStatement w) false (offset + (more.length + 1)) (cs.drop more.length)).map
        (.word w offset :: ·)
    else none
termination_by cs => cs.length
decreasing_by
  all_goals simp only [List.length_cons, List.length_drop]; omega

end Item
end PackScript.Layout
