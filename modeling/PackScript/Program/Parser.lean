import PackScript.Program.ExprParser
import PackScript.Program.Stmt

/-! # Reading programs

Statements are recognised by their first tokens, without ever going back: what fails
inside a recognised statement fails the whole program. Misuse of static and dynamic
names that shows in the text alone is refused here.
-/
namespace PackScript.Grammar

/-- A command line up to its first hole. -/
inductive Cut where
  | plain (text : Bytes)
  | hole (literal inside after : Bytes)
  | unclosed
deriving DecidableEq, Repr

def Cut.cons (b : UInt8) : Cut → Cut
  | .plain text => .plain (b :: text)
  | .hole literal inside after => .hole (b :: literal) inside after
  | .unclosed => .unclosed

def cut : Bytes → Cut
  | [] => .plain []
  | b :: rest =>
    if b = 35 ∧ rest.head? = some 123 then
      match holeEnd? false (rest.drop 1) with
      | none => .unclosed
      | some n => .hole [] ((rest.drop 1).take n) (rest.drop (n + 2))
    else (cut rest).cons b

theorem cut_hole_length {t literal inside after : Bytes} (h : cut t = .hole literal inside after) :
    after.length < t.length := by
  induction t generalizing literal with
  | nil => simp [cut] at h
  | cons b rest ih =>
    rw [cut] at h
    split at h
    · split at h
      · cases h
      · cases h
        simp only [List.length_drop, List.length_cons]
        omega
    · cases hc : cut rest with
      | plain text => simp [hc, Cut.cons] at h
      | unclosed => simp [hc, Cut.cons] at h
      | hole l i a =>
        rw [hc, Cut.cons] at h
        cases h
        exact Nat.lt_succ_of_lt (ih hc)

/-- The expression inside a hole at `place`. The hole is closed, so no further text can
mend an error in it. -/
def hole (place : Span) (inside : Bytes) : Except Failure Expr :=
  let start : Cursor := ⟨place.offset + 2, place.line, place.column + 2⟩
  match (scanFrom start inside).result with
  | .error f => .error f.settled
  | .ok tokens =>
    let s := TokenStream.ofTokens tokens
    if s.tokens.isEmpty then .error (.ofCause place .invalidExpression)
    else match wholeExpr s with
      | .error f => .error f.settled
      | .ok e => .ok e

/-- The place of a hole `length` bytes long that starts `before` bytes into a command at `span`. -/
def holeSpan (span : Span) (before length : Nat) : Span :=
  ⟨span.offset + .ofNat before, .ofNat length, span.line, span.column + .ofNat before⟩

/-- Splits the rest of a command line, which starts `before` bytes into the command. -/
def holes (span : Span) (before : Nat) (text : Bytes) :
    Except Failure (List (Bytes × Expr) × Bytes) :=
  match _h : cut text with
  | .plain tail => .ok ([], tail)
  | .unclosed => .error (.defect .unclosedHole)
  | .hole literal inside after => do
    let place := holeSpan span (before + literal.length) (inside.length + 3)
    let e ← hole place inside
    if !e.isStatic then .error (.ofCause place .dynamicHole)
    let (parts, tail) ← holes span (before + literal.length + inside.length + 3) after
    return ((literal, e) :: parts, tail)
termination_by text.length
decreasing_by exact cut_hole_length _h

/-- A command token as a statement; the text of the command starts behind its slash. -/
def command (span : Span) (line : Bytes) : Except Failure Stmt := do
  let (parts, tail) ← holes span 1 line
  return .command span parts tail

def typing (stop : Span) : Reader Typing
  | ⟨.name n, span⟩ :: _ =>
    match if n.isStatic then Typing.ofAnnotation? n.text else none with
    | some ty => .ok (.single ty)
    | none => .error (.ofCause span .invalidType)
  | toks => fail stop .invalidType toks

/-- What is left of an assignment behind its operator. -/
def assigned (stop start : Span) (target : Name) (ty : Typing) (declare : Bool) : Reader Stmt :=
  fun toks => do
    let value ← expr stop toks
    let semi ← expect stop .semicolon .semicolon value.rest
    if target.isStatic && !value.value.isStatic then
      .error (.ofCause value.value.span (.dynamicValueFor target))
    return value.follow (semi.map fun semi => .assign (start.through semi) target ty value.value declare)

/-- What is left of an assignment behind the colon of its annotation. -/
def annotatedAssignment (stop start : Span) (target : Name) : Reader Stmt :=
  fun toks => do
    let ty ← typing stop toks
    let op ← expect stop .assign .declaration ty.rest
    let stmt ← assigned stop start target ty.value true op.rest
    return ty.follow (op.follow stmt)

/-- A parameter of a function with the name `owner`, behind the parameters `seen`. -/
def param (stop : Span) (owner : Name) (seen : List Param) : Reader Param
  | ⟨.name n, span⟩ :: rest =>
    if owner.isStatic && n.dynamic then .error (.ofCause span .dynamicParameter)
    else if seen.any fun p => p.name = n then .error (.ofCause span (.duplicateParameter n))
    else match rest with
      | ⟨.mark .colon, _⟩ :: after => do
        let ty ← typing stop after
        return (ty.map fun ty => ⟨n, ty⟩).skip.skip
      | _ => .ok (.single ⟨n, .unknown⟩)
  | toks => fail stop .invalidIdentifier toks

/-- Parameters up to the closing parenthesis, behind the parameters `seen`. -/
def params (stop : Span) (owner : Name) (seen : List Param) (toks : List Token) :
    Except Failure (Reading toks (List Param)) :=
  match toks with
  | ⟨.mark .closeParen, _⟩ :: _ => .ok (.single seen)
  | toks =>
    if seen.isEmpty then do
      let p ← param stop owner seen toks
      let r ← params stop owner (seen ++ [p.value]) p.rest
      return p.follow r
    else do
      let comma ← expect stop .comma .commaOrClosingParen toks
      let p ← param stop owner seen comma.rest
      let r ← params stop owner (seen ++ [p.value]) p.rest
      return comma.follow (p.follow r)
termination_by toks.length
decreasing_by
  · exact p.shorter
  · exact Nat.lt_trans p.shorter comma.shorter

/-- Name and parameters of a declared function. -/
def signature (stop : Span) : Reader Signature
  | ⟨.name n, _⟩ :: rest => do
    let paren ← expect stop .openParen .openingParen rest
    let ps ← params stop n [] paren.rest
    return (paren.follow (ps.map fun ps => ⟨n, ps⟩)).skip
  | toks => fail stop .invalidIdentifier toks

/-- The body of a static function has to be static. -/
def checkBody (sig : Signature) (body : Block) : Except Failure Unit :=
  match if sig.name.isStatic then body.find? fun s => !s.isStatic else none with
  | some s => .error (.ofCause s.span .dynamicStatement)
  | none => .ok ()

/-- A conditional behind its keyword, with the place of its last brace. -/
structure Branching where
  test : Expr
  body : Block
  other : Otherwise
  last : Span

mutual
def stmt (stop : Span) (toks : List Token) : Except Failure (Reading toks Stmt) :=
  match toks with
  | ⟨.command line, span⟩ :: _ => do return .single (← command span line)
  | ⟨.keyword .ifWord, span⟩ :: rest => do
    let b ← branching stop rest
    return (b.map fun b => .cond (span.through b.last) b.test b.body b.other).skip
  | ⟨.keyword .defWord, span⟩ :: rest => do
    let sig ← signature stop rest
    let body ← block stop sig.rest
    checkBody sig.value body.value.1
    return (sig.follow (body.map fun (b, close) => .define (span.through close) sig.value b)).skip
  | ⟨.keyword .returnWord, span⟩ :: rest => do
    let value ← expr stop rest
    let semi ← expect stop .semicolon .semicolon value.rest
    return (value.follow (semi.map fun semi => .ret (span.through semi) value.value)).skip
  | ⟨.name n, span⟩ :: ⟨.mark .colon, _⟩ :: rest => do
    let r ← annotatedAssignment stop span n rest
    return r.skip.skip
  | ⟨.name n, span⟩ :: ⟨.mark .assign, _⟩ :: rest => do
    let r ← assigned stop span n .unknown true rest
    return r.skip.skip
  | ⟨.name n, span⟩ :: ⟨.mark .equals, _⟩ :: rest => do
    let r ← assigned stop span n .unknown false rest
    return r.skip.skip
  | ⟨.name n, span⟩ :: ⟨.mark .openParen, _⟩ :: rest => do
    let r ← args stop rest
    checkArgs n r.value.1
    let semi ← expect stop .semicolon .semicolonAfterCall r.rest
    return (r.follow (semi.map fun semi => .call (span.through semi) n r.value.1)).skip.skip
  | ⟨.name n, _⟩ :: rest => fail stop (.expected (.useOf n)) rest
  | ⟨.mark .closeBrace, span⟩ :: _ => .error (.ofCause span .unexpectedBrace)
  | toks => fail stop .invalidStatement toks
termination_by 3 * toks.length
decreasing_by
  · simp only [List.length_cons]; omega
  · have := sig.shorter
    simp only [List.length_cons]; omega
def branching (stop : Span) (toks : List Token) : Except Failure (Reading toks Branching) := do
  let test ← expr stop toks
  let body ← block stop test.rest
  match _h : body.rest with
  | ⟨.keyword .elseWord, _⟩ :: ⟨.keyword .ifWord, span⟩ :: after =>
    let next ← branching stop after
    let all : Reading after Branching := next.map fun b => {
      test := test.value
      body := body.value.1
      other := .cond (span.through b.last) b.test b.body b.other
      last := b.last }
    return test.follow (body.follow (all.skip.skip.ofEq _h))
  | ⟨.keyword .elseWord, _⟩ :: after =>
    let final ← block stop after
    let all : Reading after Branching := final.map fun (b, close) =>
      ⟨test.value, body.value.1, .block b, close⟩
    return test.follow (body.follow (all.skip.ofEq _h))
  | _ =>
    return test.follow (body.map fun (b, close) => ⟨test.value, b, .nothing, close⟩)
termination_by 3 * toks.length
decreasing_by
  · have := test.shorter
    omega
  all_goals
    have ht := test.shorter
    have hb := body.shorter
    rw [_h] at hb
    simp only [List.length_cons] at hb
    omega
/-- Statements between braces, with the place of the closing one. -/
def block (stop : Span) (toks : List Token) : Except Failure (Reading toks (Block × Span)) :=
  match toks with
  | ⟨.mark .openBrace, _⟩ :: rest => do
    let r ← statements stop rest
    return r.skip
  | toks => fail stop (.expected .openingBrace) toks
termination_by 3 * toks.length
decreasing_by simp only [List.length_cons]; omega
def statements (stop : Span) (toks : List Token) : Except Failure (Reading toks (Block × Span)) :=
  match toks with
  | [] => fail stop (.expected .closingBrace) []
  | ⟨.mark .closeBrace, span⟩ :: _ => .ok (.single ([], span))
  | toks => do
    let first ← stmt stop toks
    let more ← statements stop first.rest
    return first.follow (more.map fun (b, close) => (first.value :: b, close))
termination_by 3 * toks.length + 1
decreasing_by
  · omega
  · have := first.shorter
    omega
end

/-- Statements up to the end of the text. -/
def wholeBlock (stop : Span) : List Token → Except Failure Block
  | [] => .ok []
  | t :: rest => do
    let first ← stmt stop (t :: rest)
    let more ← wholeBlock stop first.rest
    return first.value :: more
termination_by toks => toks.length
decreasing_by exact first.shorter

end PackScript.Grammar

namespace PackScript.Program

def ofTokens (tokens : List Token) : Except Failure Program := do
  let s := TokenStream.ofTokens tokens
  return { body := ← Grammar.wholeBlock s.stop s.tokens, stop := s.stop }

/-- The program that a source text is. -/
def parse (source : Bytes) : Except Failure Program := do ofTokens (← tokenize source)

end PackScript.Program
