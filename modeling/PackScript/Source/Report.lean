import PackScript.Source.Diagnostic

/-! # Showing an error in its surroundings

A report quotes the line in question with two lines around it on either side and
marks the place below it. A place outside the text is moved to the nearest line.
-/
namespace PackScript.Report

inductive Style where
  | heading
  | marker
  | faint

def Style.code : Style → Bytes
  | .heading => "\x1b[1m\x1b[31m"
  | .marker => "\x1b[31m"
  | .faint => "\x1b[2m"

def paint (color : Bool) (style : Style) (t : Bytes) : Bytes :=
  if color then style.code ++ t ++ "\x1b[0m" else t

def context : Nat := 2

def spaces (n : Nat) : Bytes := List.replicate n 32
def tildes (n : Nat) : Bytes := List.replicate n 126

/-- How many columns to mark from `column` on in a line of `width` bytes: at least one, and
none beyond the end of the line unless the place itself lies there. -/
def markWidth (length column width : Int64) : Int64 :=
  let wanted := max length 1
  if width < column + wanted ∧ column < width then width - column else wanted

/-- The longest run of blanks or of marks that is written. -/
def longestRun : Int64 := 0x1000000000000

/-- The mark for a line of `width` bytes. -/
def mark (span : Span) (width : Nat) : Except Defect Bytes :=
  let column := max span.column 0
  let more := markWidth span.length column (.ofNat width) - 1
  if longestRun < column ∨ longestRun < more then .error .runTooLong
  else .ok (spaces column.toInt.toNat ++ "^" ++ tildes more.toInt.toNat)

def numbered (n : Nat) (text : Bytes) : Bytes := Decimal.padded 4 n ++ " | " ++ text

/-- What is shown for source line `n`, the first line having number one; `mark` goes below
the line in question. -/
def showLine (color : Bool) (line : Nat) (mark : Bytes) (n : Nat) (text : Bytes) : Bytes :=
  if n ≠ line then paint color .faint (numbered n text) ++ "\n"
  else numbered n text ++ "\n" ++ spaces 5 ++ "| " ++ paint color .marker mark ++ "\n"

/-- The lines of a text, without carriage returns at their ends. -/
def linesOf (source : Bytes) : List Bytes :=
  (Bytes.splitOn Bytes.newline source).map (Bytes.trimRight (· = 13))

def window (message : Bytes) (span : Span) (source : Bytes) (color : Bool) : Except Defect Bytes := do
  let lines := linesOf source
  let line := (max 1 (min span.line.toInt lines.length)).toNat
  let mark ← mark span (lines.getD (line - 1) []).length
  let first := max 1 (line - context)
  let shown := ((lines.drop (first - 1)).take (line + context + 1 - first)).zipIdx first
  let heading := paint color .heading
    ("error at " ++ Decimal.ofNat line ++ ":" ++ Decimal.ofInt (max span.column 0 + 1).toInt ++ ":")
  return Bytes.trimRight (· = Bytes.newline)
    (heading ++ " " ++ message ++ "\n\n" ++
      shown.flatMap fun (text, n) => showLine color line mark n text)

end PackScript.Report

namespace PackScript

/-- The message of a diagnostic with the lines around its place. -/
def Diagnostic.report (d : Diagnostic) (source : Bytes) (color : Bool) : Except Defect Bytes :=
  Report.window d.cause.message d.span source color

def Failure.report (f : Failure) (source : Bytes) (color : Bool) : Bytes :=
  match f with
  | .diagnostic d =>
    match d.report source color with
    | .ok text => text
    | .error d => d.message
  | .defect d => d.message

end PackScript
