import PackScript.Text.Json
import PackScript.Token.Basic

/-! # Tokens as a JSON document -/
namespace PackScript

def Token.toJson (t : Token) : Json :=
  .object [
    ("type", .text t.lexeme.label),
    ("value", .text t.lexeme.value),
    ("offset", .int t.span.offset.toInt),
    ("len", .int t.span.length.toInt),
    ("line", .int t.span.line.toInt),
    ("col", .int t.span.column.toInt)]

def Token.document (tokens : List Token) : Bytes := (Json.array (tokens.map toJson)).compact

end PackScript
