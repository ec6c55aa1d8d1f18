import PackScript.Source.Span
import PackScript.Program.Signature

/-! # Tokens

A lexeme is what a stretch of source text means to the grammar; a token is a lexeme
with its place. A list of tokens ends with an end marker, and whatever follows the
first end marker is never looked at.
-/
namespace PackScript

inductive Keyword where
  | ifWord
  | elseWord
  | defWord
  | returnWord
  | trueWord
  | falseWord
deriving DecidableEq, Repr

inductive Mark where
  | openParen
  | closeParen
  | openBrace
  | closeBrace
  | comma
  | semicolon
  | colon
  | assign
  | equals
  | plus
  | star
deriving DecidableEq, Repr

inductive Lexeme where
  | name (n : Name)
  | number (digits : Bytes)
  | string (content : Bytes)
  | command (line : Bytes)
  | keyword (k : Keyword)
  | mark (m : Mark)
  | unknown
  | endMarker
deriving DecidableEq, Repr

structure Token where
  lexeme : Lexeme
  span : Span
deriving DecidableEq, Repr

namespace Keyword

def all : List Keyword := [.ifWord, .elseWord, .defWord, .returnWord, .trueWord, .falseWord]

def render : Keyword → Bytes
  | .ifWord => "if"
  | .elseWord => "else"
  | .defWord => "def"
  | .returnWord => "return"
  | .trueWord => "true"
  | .falseWord => "false"

def label : Keyword → Bytes
  | .ifWord => "IF"
  | .elseWord => "ELSE"
  | .defWord => "DEF"
  | .returnWord => "RETURN"
  | .trueWord => "TRUE"
  | .falseWord => "FALSE"

def ofWord? (word : Bytes) : Option Keyword := all.find? fun k => k.render = word

end Keyword

namespace Mark

def all : List Mark :=
  [.openParen, .closeParen, .openBrace, .closeBrace, .comma, .semicolon, .colon, .assign, .equals,
    .plus, .star]

def render : Mark → Bytes
  | .openParen => "("
  | .closeParen => ")"
  | .openBrace => "\x7b"
  | .closeBrace => "\x7d"
  | .comma => ","
  | .semicolon => ";"
  | .colon => ":"
  | .assign => ":="
  | .equals => "="
  | .plus => "+"
  | .star => "*"

def label : Mark → Bytes
  | .openParen => "LPAREN"
  | .closeParen => "RPAREN"
  | .openBrace => "LBRACE"
  | .closeBrace => "RBRACE"
  | .comma => "COMMA"
  | .semicolon => "SEMI"
  | .colon => "COLON"
  | .assign => "ASSIGN"
  | .equals => "EQUALS"
  | .plus => "PLUS"
  | .star => "STAR"

end Mark

namespace Lexeme

def label : Lexeme → Bytes
  | .name n => if n.dynamic then "VARIABLE" else "IDENTIFIER"
  | .number _ => "NUMBER"
  | .string _ => "STRING"
  | .command _ => "COMMAND"
  | .keyword k => k.label
  | .mark m => m.label
  | .unknown => "UNKNOWN"
  | .endMarker => "EOF"

/-- The part of the source text that the lexeme carries: the text of a name
without its sigil, the content of a string, the line of a command. -/
def value : Lexeme → Bytes
  | .name n => n.text
  | .number digits => digits
  | .string content => content
  | .command line => line
  | .keyword k => k.render
  | .mark m => m.render
  | .unknown => []
  | .endMarker => []

/-- The lexeme that has this label and value; other labels mean nothing to the grammar. -/
def ofLabel (label value : Bytes) : Lexeme :=
  if label = (Lexeme.name (.ofStatic value)).label then .name (.ofStatic value)
  else if label = (Lexeme.name (.ofDynamic value)).label then .name (.ofDynamic value)
  else if label = (Lexeme.number value).label then .number value
  else if label = (Lexeme.string value).label then .string value
  else if label = (Lexeme.command value).label then .command value
  else if label = Lexeme.endMarker.label then .endMarker
  else match Keyword.all.find? fun k => k.label = label with
    | some k => .keyword k
    | none => match Mark.all.find? fun m => m.label = label with
      | some m => .mark m
      | none => .unknown

def isKeyword : Lexeme → Bool
  | .keyword _ => true
  | _ => false

def isName : Lexeme → Bool
  | .name _ => true
  | _ => false

def isLiteral : Lexeme → Bool
  | .number _ | .string _ | .keyword .trueWord | .keyword .falseWord => true
  | _ => false

end Lexeme

/-- What the grammar gets to see of a list of tokens: those before the end, and the
place of the end. -/
structure TokenStream where
  tokens : List Token
  stop : Span
deriving DecidableEq, Repr

namespace TokenStream

/-- The tokens before the first end marker. A list without one ends nowhere in particular. -/
def ofTokens (tokens : List Token) : TokenStream where
  tokens := tokens.takeWhile fun t => t.lexeme ≠ .endMarker
  stop := match tokens.find? fun t => t.lexeme = .endMarker with
    | some t => t.span
    | none => {}

end TokenStream
end PackScript
