import PackScript.Layout.DocText
import PackScript.Layout.Remark

/-! # Comments that document

A comment at the start of a line directly above what it documents is a documentation text,
and it is written in the one form of such texts. Directives among its lines stand behind
the text.
-/
namespace PackScript.Layout.Documentation

/-- The text of a comment says something to a tool: a word, a colon and another word without
blanks, or one of a few older forms. -/
def isDirective (l : Line) : Bool :=
  let isSmall (c : Char) : Bool := ('a' ≤ c && c ≤ 'z') || c.isDigit
  let word := l.takeWhile (· ≠ ':')
  ["line ", "extern ", "export "].any (fun s => s.toList.isPrefixOf l) ||
    !word.isEmpty && word.all isSmall &&
      ((l.drop (word.length + 1)).head?.any isSmall)

/-- The lines that a comment says, without its marks and without blank space at their ends. A
directive says nothing. -/
def plainLines (r : Remark) : List Line :=
  let body := if r.isBlock then (r.text.drop 2).take (r.text.length - 4) else r.text.drop 2
  let isEnd (c : Char) : Bool := isIndent c || c = '\r'
  let ends (ls : List Line) : List Line := ls.map fun l => (l.reverse.dropWhile isEnd).reverse
  if r.isBlock then ends (linesOf body)
  else match body with
    | ' ' :: cs => ends [cs]
    | _ => if isDirective body then [] else ends [body]

/-- Lines with no empty one at the start and no two empty ones in a row; `previous` is the line
before them. -/
def condensed (previous : Line) : List Line → List Line
  | [] => []
  | l :: ls => if l.isEmpty && previous.isEmpty then condensed previous ls else l :: condensed l ls

/-- What comments say, as a text that ends in a line break. -/
def plainText (rs : Remarks) : List Char :=
  let ls := condensed [] (rs.flatMap plainLines)
  joinLines (if ls.getLast?.any (fun l => !l.isEmpty) then ls ++ [[]] else ls)

/-- Each line of the text starts with a star, blank space apart. -/
def hasStars (text : List Char) : Bool :=
  ((linesOf text).drop 1).all fun l =>
    match l.dropWhile isIndent with
    | c :: _ => c = '*'
    | [] => true

def lineText (l : Line) : Line :=
  match l with
  | [] => "//".toList
  | c :: _ => if c = '\t' then '/' :: '/' :: l else '/' :: '/' :: ' ' :: l

/-- The text of a line comment, without the mark and one blank. -/
def uncommented (text : List Char) : List Char :=
  match text.drop 2 with
  | ' ' :: cs => cs
  | cs => cs

/-- The comments of a documentation text in its one form. All of them stand where the first
does. -/
def formatted (rs : Remarks) : Remarks :=
  let standing (text : List Char) : Remark := ⟨text, rs.offset⟩
  match rs with
  | [] => []
  | [r] =>
    if r.isBlock then
      if !r.text.contains '\n' || hasStars r.text then rs
      else
        let body := (r.text.drop 2).take (r.text.length - 4)
        [standing ("/*\n".toList ++ DocText.format body ++ "*/".toList)]
    else ofLines standing rs
  | _ => if rs.any Remark.isBlock then rs else ofLines standing rs
where
  ofLines (standing : List Char → Remark) (rs : Remarks) : Remarks :=
    let (directives, texts) := rs.partition fun r => isDirective (r.text.drop 2)
    if texts.isEmpty then rs
    else
      let lines := DocText.lines (texts.flatMap fun r => uncommented r.text ++ ['\n'])
      let shown := lines.map fun l => standing (lineText l)
      if directives.isEmpty then shown
      else shown ++ standing "//".toList :: directives.map fun r => standing r.text

end PackScript.Layout.Documentation
