import PackScript.Layout.Line
import PackScript.Text.CharacterClass
import PackScript.Text.UpperCase

/-! # Documentation texts

A documentation text consists of paragraphs, headings, lists, code and link definitions, told
apart by indentation and empty lines. It is written out again in one form: blocks set apart
by empty lines, headings marked by `#`, code behind a tab, list items behind a dash or a
number, and link definitions at the end.
-/
namespace PackScript.Layout.DocText

structure Item where
  number : Line
  paragraphs : List (List Line)

/-- A definition that gives a name to a link. -/
structure Link where
  name : Line
  target : Line

inductive Block where
  | paragraph (lines : List Line)
  | heading (text : Line)
  | code (lines : List Line)
  /-- A list, and the link definitions among its items. -/
  | list (items : List Item) (isApart isLoose : Bool) (definitions : List Link)
  | links (definitions : List Link)

inductive Kind where
  | paragraph
  | heading
  | code
  | list
deriving DecidableEq, Repr

/-- The lines from `start` up to `stop` form a block. -/
structure Extent where
  start : Nat
  stop : Nat
  kind : Kind

/-- The lines without empty ones at both ends. -/
def trimmed (ls : List Line) : List Line :=
  ((ls.dropWhile List.isEmpty).reverse.dropWhile List.isEmpty).reverse

/-- The lines without the indentation that they have in common. -/
def unindent (ls : List Line) : List Line :=
  match trimmed ls with
  | [] => []
  | l :: rest =>
    let margin := (rest.filter fun l => !l.isEmpty).foldl (commonStart isIndent) (l.takeWhile isIndent)
    trimmed ((l :: rest).map fun l =>
      let l := l.drop (if margin.isPrefixOf l then margin.length else 0)
      if (Line.trim l).isEmpty then [] else l)

/-- The number of a list item, empty for a dash or a bullet, and the text of the item. -/
def marker? (l : Line) : Option (Line × Line) :=
  let accepted (number rest : Line) : Option (Line × Line) :=
    if Line.isIndented rest && !(Line.trim rest).isEmpty then some (number, rest) else none
  match Line.trim l with
  | [] => none
  | c :: cs =>
    if ['•', '*', '+', '-'].contains c then accepted [] cs
    else if c.isDigit then
      let number := c :: cs.takeWhile Char.isDigit
      match cs.drop (number.length - 1) with
      | '.' :: rest | ')' :: rest => accepted number rest
      | _ => none
    else none

def isItem (l : Line) : Bool := (marker? l).isSome

def isHeading : Line → Bool
  | '#' :: c :: cs => isIndent c && Line.trim ('#' :: c :: cs) ≠ ['#']
  | _ => false

/-- What follows each occurrence of `c` in the line. -/
def behindEach (c : Char) : Line → List Line
  | [] => []
  | d :: ds => if d = c then ds :: behindEach c ds else behindEach c ds

/-- Punctuation that no heading without a mark holds. -/
def headingStops : List Char := ";:!?+*/=[]\x7b\x7d_^°&§~%#@<\">\\".toList

/-- A line that reads like a heading though it has no mark: a capital first, a letter or a digit
last, no punctuation of a sentence. -/
def readsAsHeading (l : Line) : Bool :=
  let l := Line.trim l
  l.head?.any UpperCase.isCapital &&
    l.getLast?.any (fun c => CharacterClass.isLetterOrDigit c && c ≠ '_') &&
    !l.any headingStops.contains &&
    (behindEach (Char.ofNat 39) l).all (fun r => r = ['s'] || ['s', ' '].isPrefixOf r) &&
    (behindEach '.' l).all (fun r => !r.isEmpty && r.head? ≠ some ' ')

/-- The line numbered `i`, empty behind the end. -/
def line (ls : Array Line) (i : Nat) : Line := ls.getD i []

/-- A heading without a mark stands between empty lines and is followed by a paragraph. -/
def isPlainHeading (ls : Array Line) (i : Nat) : Bool :=
  0 < i && (line ls (i - 1)).isEmpty && i + 2 < ls.size && (line ls (i + 1)).isEmpty &&
    !Line.isIndented (line ls (i + 2)) && readsAsHeading (line ls i)

/-- The first number from `i` on, below `n`, that fails the test. -/
def firstNot (n : Nat) (test : Nat → Bool) (i : Nat) : Nat :=
  if i < n ∧ test i then firstNot n test (i + 1) else i
termination_by n - i

/-- Where indented lines end that lines up to `forced` count among. Items of a list count too,
up to the first empty line, if `items` is set. -/
def indentedEnd (ls : Array Line) (forced : Nat) (items : Bool) (i : Nat) : Nat :=
  if h : i < ls.size then
    let l := ls[i]
    if l.isEmpty then indentedEnd ls forced false (i + 1)
    else if i < forced || Line.isIndented l || (items && isItem l) then indentedEnd ls forced items (i + 1)
    else i
  else i
termination_by ls.size - i

/-- Goes back from `stop` over the numbers that pass the test, but not beyond `start`. -/
def backWhile (test : Nat → Bool) (start : Nat) : (stop : Nat) → Nat
  | 0 => 0
  | stop + 1 => if start < stop + 1 ∧ test stop then backWhile test start stop else stop + 1

/-- The blocks from line `i` on. Lines before `forced` count as indented: they are the first
lines of a list or of code whose other lines are. -/
def extents (ls : Array Line) : (fuel forced i : Nat) → List Extent
  | 0, _, _ => []
  | fuel + 1, forced, i =>
    let start := firstNot ls.size (fun i => (line ls i).isEmpty) i
    let first := line ls start
    if ls.size ≤ start then []
    else if start < forced || Line.isIndented first then
      let stop := backWhile (fun i => (line ls i).isEmpty) start
        (indentedEnd ls forced (isItem first && start < forced) (start + 1))
      let stop := if stop < ls.size && (line ls stop).head? = some '\x7d' then stop + 1 else stop
      ⟨start, stop, if isItem first then .list else .code⟩ :: extents ls fuel forced stop
    else
      let stop := firstNot ls.size (fun i => !(line ls i).isEmpty && !Line.isIndented (line ls i)) (start + 1)
      let last := line ls (stop - 1)
      let followed := stop < ls.size && !(line ls stop).isEmpty && !isItem (line ls stop)
      let (forced, stop) :=
        if followed && isItem last then
          (stop, backWhile (fun i => isItem (line ls i)) start (stop - 1))
        else if followed && (last.getLast? = some '\x7b' || last.getLast? = some '\\') then (stop, stop - 1)
        else (forced, stop)
      if stop = start then extents ls fuel forced start
      else
        let isSingle := stop = start + 1
        let kind :=
          if isSingle && (isHeading first || isPlainHeading ls start) then Kind.heading else .paragraph
        ⟨start, stop, kind⟩ :: extents ls fuel forced stop

/-- The words that may stand before `://` in the address of a link. -/
def isScheme (l : Line) : Bool :=
  ["file", "ftp", "gopher", "http", "https", "mailto", "nntp"].any fun s => s.toList = l

/-- A line that defines a link: a name in brackets, a colon and an address. -/
def link? : Line → Option Link
  | '[' :: cs =>
    let name := ((behindEach ']' cs).find? fun r => r.head? = some ':').map fun r =>
      cs.take (cs.length - r.length - 1)
    match name with
    | none => none
    | some name =>
      match cs.drop (name.length + 2) with
      | c :: rest =>
        let target := Line.trim rest
        let scheme := ((behindEach ':' target).find? fun r => "//".toList.isPrefixOf r).map fun r =>
          target.take (target.length - r.length - 1)
        if isIndent c && scheme.any isScheme then some ⟨name, target⟩ else none
      | [] => none
  | _ => none

/-- Lines without an empty one between them are link definitions, if all of them are. -/
def links? (ls : List Line) : Option (List Link) := ls.mapM link?

def paragraph (ls : List Line) : Block :=
  match links? ls with
  | some links => .links links
  | none => .paragraph ls

/-- The items of a list, the one under way first, its last paragraph first, the last line of
that first. -/
structure Items where
  isNumbered : Bool
  isLoose : Bool := false
  items : List (Line × List (List Line)) := []

namespace Items

/-- Starts a new paragraph in the item under way. -/
def newParagraph (s : Items) : Items :=
  { s with items := match s.items with
      | (number, [] :: ps) :: rest => (number, [] :: ps) :: rest
      | (number, ps) :: rest => (number, [] :: ps) :: rest
      | [] => [] }

def add (s : Items) (l : Line) : Items :=
  let (s, l) := match marker? l with
    | some (number, rest) =>
      if number.isEmpty != s.isNumbered then
        ({ s with items := (number, [[]]) :: s.items }, rest)
      else (s, l)
    | none => (s, l)
  let text := Line.trim l
  if text.isEmpty then { s with isLoose := true }.newParagraph
  else { s with items := match s.items with
      | (number, p :: ps) :: rest => (number, (text :: p) :: ps) :: rest
      | (number, []) :: rest => (number, [[text]]) :: rest
      | [] => [] }

end Items

/-- The items of a list; empty lines between them make it loose, and so does an item that is
not a single paragraph. -/
def list (ls : List Line) (isApart : Bool) : Block :=
  let isNumbered := ls.head?.bind marker? |>.any fun (number, _) => !number.isEmpty
  let s := ls.foldl Items.add { isNumbered }
  let all := s.items.reverse.map fun (number, ps) =>
    (⟨number, (ps.reverse.filter fun p : List Line => !p.isEmpty).map List.reverse⟩ : Item)
  let items := all.map fun i => { i with paragraphs := i.paragraphs.filter fun p => (links? p).isNone }
  let definitions := all.flatMap fun i => (i.paragraphs.filterMap links?).flatten
  .list items isApart (s.isLoose || items.any fun i => i.paragraphs.length ≠ 1) definitions

/-- The blocks of a text. A list is apart if an empty line stands before it. -/
def blocks (text : List Char) : List Block :=
  let ls := (unindent (linesOf text)).toArray
  let parts := extents ls (2 * ls.size + 2) 0 0
  (parts.zip (0 :: parts.map Extent.stop)).map fun (e, previous) =>
    let lines := (ls.extract e.start e.stop).toList
    match e.kind with
    | .paragraph => paragraph lines
    | .heading =>
      let l := line ls e.start
      .heading (Line.trim (if isHeading l then l.drop 1 else l))
    | .code => .code (unindent lines)
    | .list => list lines (previous < e.start)

/-! ## Addresses in a text -/

/-- Punctuation that may stand inside an address but does not end one. -/
def isPunctuation (b : UInt8) : Bool := (Bytes.ofString ".,:;?!").contains b

def isAlphanumeric (b : UInt8) : Bool :=
  (97 ≤ b && b ≤ 122) || (65 ≤ b && b ≤ 90) || (48 ≤ b && b ≤ 57)

def isHostByte (b : UInt8) : Bool := isAlphanumeric b || (Bytes.ofString "_@-.[]:").contains b

def isPathByte (b : UInt8) : Bool :=
  isAlphanumeric b || (Bytes.ofString "$'()*+&#=@~_/-[]\x7b\x7d%").contains b

/-- The bracket that closes an opening one. -/
def closingBracket? (b : UInt8) : Option UInt8 :=
  if b = 40 then some 41 else if b = 91 then some 93 else if b = 123 then some 125 else none

def isClosingBracket (b : UInt8) : Bool := b = 41 || b = 93 || b = 125

/-- How long the path of an address is: brackets have to match, and punctuation at the end does
not count. Of the bytes that were read, `kept` belong to the path; `expected` are the brackets
that are still open. -/
def pathLength (expected : Bytes) (read kept : Nat) : Bytes → Nat
  | [] => kept
  | b :: bs =>
    if isPunctuation b then pathLength expected (read + 1) kept bs
    else if !isPathByte b || (isClosingBracket b && expected.head? ≠ some b) then kept
    else
      let expected := match closingBracket? b with
        | some c => c :: expected
        | none => if isClosingBracket b then expected.tail else expected
      pathLength expected (read + 1) (if expected.isEmpty then read + 1 else kept) bs

/-- How many bytes the address at the head of a text has: a scheme, a host and a path. -/
def addressLength (t : Bytes) : Nat :=
  let scheme := (t.take 7).takeWhile (· ≠ 58)
  let rest := t.drop (scheme.length + 3)
  let host := Bytes.trimRight isPunctuation (rest.takeWhile isHostByte)
  if isScheme (Utf8.chars scheme) &&
      (Bytes.ofString "://").isPrefixOf (t.drop scheme.length) && !rest.head?.any isPunctuation &&
      !host.isEmpty then
    scheme.length + 3 + host.length + pathLength [] 0 0 (rest.drop host.length)
  else 0

/-- How many bytes the name at the head of a text has: letters, underscores, and digits behind
the first. -/
def nameLength (isFirst : Bool) : Bytes → Nat
  | [] => 0
  | b :: bs =>
    if b < 128 then
      if isAlphanumeric b && !(isFirst && 48 ≤ b && b ≤ 57) || b = 95 then nameLength false bs + 1 else 0
    else match Utf8.first? b bs with
      | some (c, n) =>
        if CharacterClass.isLetter c then nameLength false (bs.drop n) + n + 1 else 0
      | none => 0
termination_by t => t.length
decreasing_by all_goals simp only [List.length_cons, List.length_drop]; omega

/-! ## Writing a text -/

def backquote : UInt8 := 96
def apostrophe : UInt8 := 39

/-- Two backquotes open a quotation and two apostrophes close it, outside of addresses. Three
backquotes are no quotation, and neither are those at as many bytes behind them again as
`index` bytes come before. -/
def withQuotes (index : Nat) : Bytes → Bytes
  | [] => []
  | b :: bs =>
    let address := addressLength (b :: bs)
    let name := nameLength true (b :: bs)
    if 0 < address then (b :: bs.take (address - 1)) ++ withQuotes (index + address) (bs.drop (address - 1))
    else if 0 < name then (b :: bs.take (name - 1)) ++ withQuotes (index + name) (bs.drop (name - 1))
    else if b = backquote && bs.head? = some backquote then
      if bs[1]? = some backquote then
        let more := ((bs.drop (index + 2)).takeWhile (· = backquote)).length
        (b :: bs.take (more + 2)) ++ withQuotes (index + (more + 3)) (bs.drop (more + 2))
      else "“" ++ withQuotes (index + 2) (bs.drop 1)
    else if b = apostrophe && bs.head? = some apostrophe then "”" ++ withQuotes (index + 2) (bs.drop 1)
    else b :: withQuotes (index + 1) bs
termination_by t => t.length
decreasing_by all_goals simp only [List.length_cons, List.length_drop]; omega

/-- The lines of a paragraph with its quotations marked, each but the first behind `margin`. -/
def paragraphText (margin : Line) (ls : List Line) : List Char :=
  (Utf8.chars (withQuotes 0 (Line.encode (joinLines ls)))).flatMap fun c =>
    if c = '\n' then c :: margin else [c]

def fourBlanks : Line := [' ', ' ', ' ', ' ']

/-- A list item: its mark, and its paragraphs behind four blanks. -/
def Item.text (i : Item) : List Char :=
  let mark : Line := if i.number.isEmpty then "  - ".toList else ' ' :: i.number ++ ". ".toList
  let paragraphs := i.paragraphs.map fun ls => paragraphText fourBlanks ls ++ ['\n']
  mark ++ List.intercalate ('\n' :: fourBlanks) paragraphs

def Block.text : Block → List Char
  | .paragraph ls => paragraphText [] ls ++ ['\n']
  | .heading text => '#' :: ' ' :: text ++ ['\n']
  | .code ls => ls.flatMap fun l => (if l.isEmpty then [] else '\t' :: l) ++ ['\n']
  | .list items _ isLoose _ => List.intercalate (if isLoose then ['\n'] else []) (items.map Item.text)
  | .links _ => []

def Block.isLinks : Block → Bool
  | .links _ => true
  | _ => false

def Block.definitions : Block → List Link
  | .links ls | .list _ _ _ ls => ls
  | _ => []

def Block.needsSpace : Block → Bool
  | .list _ isApart isLoose _ => isApart || isLoose
  | _ => true

/-- The names in brackets in a paragraph. -/
def bracketed (ls : List Line) : List Line :=
  let text := (joinLines ls).map fun c => if c = '\n' ∨ c = '\t' then ' ' else c
  (behindEach '[' text).filterMap fun r =>
    let name := r.takeWhile fun c => c ≠ ']' && c ≠ '['
    if (r.drop name.length).head? = some ']' then some name else none

def Block.mentions : Block → List Line
  | .paragraph ls => bracketed ls
  | .list items _ _ _ => items.flatMap fun i => i.paragraphs.flatMap bracketed
  | _ => []

def Link.text (l : Link) : List Char := '[' :: l.name ++ "]: ".toList ++ l.target ++ ['\n']

/-- Blocks with an empty line before each that needs one. -/
def spaced : List Block → List Char
  | [] => []
  | b :: bs => b.text ++ bs.flatMap fun b => (if b.needsSpace then ['\n'] else []) ++ b.text

/-- Tells the definitions that a text uses from the others. Of several for one name only the
first is used. -/
def sortLinks (used : List Line) : (seen : List Line) → List Link → List Link × List Link
  | _, [] => ([], [])
  | seen, l :: ls =>
    let (first, second) := sortLinks used (l.name :: seen) ls
    if used.contains l.name && !seen.contains l.name then (l :: first, second) else (first, l :: second)

/-- A documentation text in its one form. Links that the text uses come before those it does
not use. -/
def format (text : List Char) : List Char :=
  let all := blocks text
  let shown := all.filter fun b => !b.isLinks
  let (first, second) := sortLinks (shown.flatMap Block.mentions) [] (all.flatMap Block.definitions)
  let listed (ls : List Link) : List Char := if ls.isEmpty then [] else '\n' :: ls.flatMap Link.text
  spaced shown ++ listed first ++ listed second

/-- The lines of a documentation text in its one form. -/
def lines (text : List Char) : List Line :=
  let ls := linesOf (format text)
  if ls.getLast? = some [] then ls.dropLast else ls

end PackScript.Layout.DocText
