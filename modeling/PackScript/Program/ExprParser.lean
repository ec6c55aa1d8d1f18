import PackScript.Program.Expr
import PackScript.Token.Lexer

/-! # Reading expressions

Sums bind weaker than products, and both group to the right. Every reader takes the
tokens before the end of the text and returns what it read with the tokens behind it,
of which there are fewer: that is why reading ends.
-/
namespace PackScript

/-- Something read from the head of `toks`, and the tokens behind it. -/
structure Reading (toks : List Token) (α : Type) where
  value : α
  rest : List Token
  shorter : rest.length < toks.length

namespace Reading

variable {α β : Type} {t : Token} {toks rest : List Token}

/-- What a single token says. -/
def single (value : α) : Reading (t :: rest) α := ⟨value, rest, Nat.lt_succ_self _⟩

def map (f : α → β) (r : Reading toks α) : Reading toks β := ⟨f r.value, r.rest, r.shorter⟩

/-- What was read behind a token that says nothing by itself. -/
def skip (r : Reading rest α) : Reading (t :: rest) α := ⟨r.value, r.rest, Nat.lt_succ_of_lt r.shorter⟩

/-- What was read behind another reading. -/
def follow (first : Reading toks α) (second : Reading first.rest β) : Reading toks β :=
  ⟨second.value, second.rest, Nat.lt_trans second.shorter first.shorter⟩

def ofEq (h : toks = rest) (r : Reading rest α) : Reading toks α := ⟨r.value, r.rest, h ▸ r.shorter⟩

@[simp] theorem value_single (a : α) : (single a : Reading (t :: rest) α).value = a := rfl
@[simp] theorem rest_single (a : α) : (single a : Reading (t :: rest) α).rest = rest := rfl
@[simp] theorem value_map (f : α → β) (r : Reading toks α) : (r.map f).value = f r.value := rfl
@[simp] theorem rest_map (f : α → β) (r : Reading toks α) : (r.map f).rest = r.rest := rfl
@[simp] theorem value_skip (r : Reading rest α) : (r.skip : Reading (t :: rest) α).value = r.value := rfl
@[simp] theorem rest_skip (r : Reading rest α) : (r.skip : Reading (t :: rest) α).rest = r.rest := rfl
@[simp] theorem value_follow (first : Reading toks α) (second : Reading first.rest β) :
    (first.follow second).value = second.value := rfl
@[simp] theorem rest_follow (first : Reading toks α) (second : Reading first.rest β) :
    (first.follow second).rest = second.rest := rfl
@[simp] theorem value_ofEq (h : toks = rest) (r : Reading rest α) : (ofEq h r).value = r.value := rfl
@[simp] theorem rest_ofEq (h : toks = rest) (r : Reading rest α) : (ofEq h r).rest = r.rest := rfl

end Reading

/-- A reader of a construct in a text whose end is at a known place. -/
abbrev Reader (α : Type) := (toks : List Token) → Except Failure (Reading toks α)

namespace Grammar

/-- An error at the first of the tokens, or at the end of the text if there is none;
in that case more text could mend it. -/
def fail {α : Type} (stop : Span) (cause : Cause) : List Token → Except Failure α
  | [] => .error (.diagnostic { cause, span := stop, incomplete := true })
  | t :: _ => .error (.ofCause t.span cause)

/-- Takes one punctuation mark and gives its place. -/
def expect (stop : Span) (m : Mark) (what : Expectation) : Reader Span
  | [] => fail stop (.expected what) []
  | t :: rest =>
    if t.lexeme = .mark m then .ok (.single t.span)
    else fail stop (.expected what) (t :: rest)

/-- The arguments of a static function have to be static. -/
def checkArgs (name : Name) (args : List Expr) : Except Failure Unit :=
  match if name.isStatic then args.find? fun a => !a.isStatic else none with
  | some a => .error (.ofCause a.span .dynamicArgument)
  | none => .ok ()

mutual
def expr (stop : Span) (toks : List Token) : Except Failure (Reading toks Expr) := do
  let left ← summand stop toks
  match _h : left.rest with
  | ⟨.mark .plus, _⟩ :: after =>
    let right ← expr stop after
    let both := right.map fun r => .sum (left.value.span.through r.span) left.value r
    return left.follow (both.skip.ofEq _h)
  | _ => return left
termination_by 4 * toks.length + 2
decreasing_by
  · omega
  · have hl := left.shorter
    rw [_h, List.length_cons] at hl
    omega
def summand (stop : Span) (toks : List Token) : Except Failure (Reading toks Expr) := do
  let left ← term stop toks
  match _h : left.rest with
  | ⟨.mark .star, _⟩ :: after =>
    let right ← summand stop after
    let both := right.map fun r => .product (left.value.span.through r.span) left.value r
    return left.follow (both.skip.ofEq _h)
  | _ => return left
termination_by 4 * toks.length + 1
decreasing_by
  · omega
  · have hl := left.shorter
    rw [_h, List.length_cons] at hl
    omega
def term (stop : Span) (toks : List Token) : Except Failure (Reading toks Expr) :=
  match toks with
  | ⟨.number digits, span⟩ :: _ =>
    match Decimal.int32? digits with
    | some i => .ok (.single (.number span i))
    | none => .error (.ofCause span .integerOutOfRange)
  | ⟨.string s, span⟩ :: _ => .ok (.single (.string span s))
  | ⟨.keyword .trueWord, span⟩ :: _ => .ok (.single (.bool span true))
  | ⟨.keyword .falseWord, span⟩ :: _ => .ok (.single (.bool span false))
  | ⟨.name n, span⟩ :: ⟨.mark .openParen, _⟩ :: after => do
    let r ← args stop after
    checkArgs n r.value.1
    return (r.map fun (es, close) => .call (span.through close) n es).skip.skip
  | ⟨.name n, span⟩ :: _ => .ok (.single (.var span n))
  | ⟨.mark .openParen, span⟩ :: rest => do
    let inner ← expr stop rest
    let close ← expect stop .closeParen .closingParen inner.rest
    return (inner.follow (close.map fun close => .paren (span.through close) inner.value)).skip
  | toks => fail stop .invalidExpression toks
termination_by 4 * toks.length
decreasing_by
  all_goals simp only [List.length_cons]; omega
/-- Arguments behind an opening parenthesis, with the place of the closing one. -/
def args (stop : Span) (toks : List Token) : Except Failure (Reading toks (List Expr × Span)) :=
  match toks with
  | ⟨.mark .closeParen, span⟩ :: _ => .ok (.single ([], span))
  | toks => do
    let first ← expr stop toks
    let more ← moreArgs stop first.rest
    return first.follow (more.map fun (es, close) => (first.value :: es, close))
termination_by 4 * toks.length + 3
decreasing_by
  · omega
  · have := first.shorter
    omega
/-- Arguments behind the first one, each after a comma. -/
def moreArgs (stop : Span) (toks : List Token) : Except Failure (Reading toks (List Expr × Span)) :=
  match toks with
  | ⟨.mark .closeParen, span⟩ :: _ => .ok (.single ([], span))
  | ⟨.mark .comma, _⟩ :: rest => do
    let next ← expr stop rest
    let more ← moreArgs stop next.rest
    return (next.follow (more.map fun (es, close) => (next.value :: es, close))).skip
  | toks => fail stop (.expected .commaOrClosingParen) toks
termination_by 4 * toks.length
decreasing_by
  · simp only [List.length_cons]; omega
  · have := next.shorter
    simp only [List.length_cons]; omega
end

/-- One expression and nothing behind it. -/
def wholeExpr (s : TokenStream) : Except Failure Expr := do
  let r ← expr s.stop s.tokens
  match r.rest with
  | [] => return r.value
  | t :: _ => .error (.ofCause t.span .invalidExpression)

end Grammar

/-- The expression that a whole text is. -/
def Expr.parse (source : Bytes) : Except Failure Expr := do
  Grammar.wholeExpr (.ofTokens (← tokenize source))

end PackScript
