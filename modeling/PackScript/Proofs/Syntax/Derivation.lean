import PackScript.Proofs.Syntax.Lexemes

/-! # The grammar

Each phrase of the language is a relation between a list of tokens and the tree that it
stands for; the rules are the productions of the grammar, with the conditions that a tree
has to meet beyond its shape. A tree is placed at the extent of its own tokens, so the tokens
alone determine it.

    program := stmt*
    stmt    := COMMAND | if | 'def' name '(' [param (',' param)*] ')' block | 'return' expr ';'
             | name [':' type] ':=' expr ';' | name '=' expr ';' | call ';'
    param   := name [':' type]
    block   := '{' stmt* '}'
    if      := 'if' expr block ['else' (if | block)]
    expr    := summand ['+' expr]
    summand := term ['*' summand]
    term    := NUMBER | STRING | 'true' | 'false' | name | call | '(' expr ')'
    call    := name '(' [expr (',' expr)*] ')'
-/
namespace PackScript

/-! ## Extents -/

namespace Span

variable (s t u : Span)

theorem through_self : s.through s = s := by
  have hlength : s.offset + s.length - s.offset = s.length := by grind
  rw [through, stop, hlength]

theorem through_through_left : (s.through t).through u = s.through u := rfl

theorem through_through_right : s.through (t.through u) = s.through u := by
  have hstop : (t.through u).stop = u.stop := by
    change t.offset + (u.stop - t.offset) = u.stop
    grind
  rw [through, hstop, through]

end Span

namespace Token

variable {toks us : List Token}

/-- From the start of the first token to the end of the last one. -/
def extent (toks : List Token) : Span :=
  match toks.head?, toks.getLast? with
  | some first, some last => first.span.through last.span
  | _, _ => {}

theorem extent_singleton (t : Token) : extent [t] = t.span := t.span.through_self

theorem extent_concat (first : Token) (toks : List Token) (last : Token) :
    extent (first :: (toks ++ [last])) = first.span.through last.span := by
  rw [extent, ← List.cons_append, List.getLast?_concat]
  rfl

theorem extent_append (h : toks ≠ []) (h' : us ≠ []) :
    extent (toks ++ us) = (extent toks).through (extent us) := by
  obtain ⟨first, toks, rfl⟩ := List.exists_cons_of_ne_nil h
  obtain ⟨us, last, rfl⟩ := us.eq_nil_or_concat.resolve_left h'
  have hfirst : ∃ span, extent (first :: toks) = first.span.through span := by
    rcases toks.eq_nil_or_concat with rfl | ⟨toks, t, rfl⟩
    · exact ⟨first.span, rfl⟩
    · exact ⟨t.span, by rw [List.concat_eq_append, extent_concat]⟩
  have hlast : ∃ span : Span, extent (us.concat last) = span.through last.span := by
    cases us with
    | nil => exact ⟨last.span, rfl⟩
    | cons t us => exact ⟨t.span, by rw [List.concat_eq_append, List.cons_append, extent_concat]⟩
  obtain ⟨span, hfirst⟩ := hfirst
  obtain ⟨span', hlast⟩ := hlast
  rw [hfirst, hlast, Span.through_through_left, Span.through_through_right, List.concat_eq_append,
    List.cons_append, ← List.append_assoc, extent_concat]

theorem extent_between (h : toks ≠ []) (h' : us ≠ []) (t : Token) :
    extent (toks ++ t :: us) = (extent toks).through (extent us) := by
  have htail : extent (t :: us) = t.span.through (extent us) := by
    rw [← List.singleton_append, extent_append (by simp) h', extent_singleton]
  rw [extent_append h (by simp), htail, Span.through_through_right]

end Token

/-! ## Productions -/

namespace Grammar

/-- Items with a comma between each two. -/
inductive Separated : List (List Token) → List Token → Prop
  | none : Separated [] []
  | one (item : List Token) : Separated [item] item
  | more (item : List Token) (span : Span) (h : Separated (next :: items) toks) :
      Separated (item :: next :: items) (item ++ ⟨.mark .comma, span⟩ :: toks)

mutual
inductive IsExpr : List Token → Expr → Prop
  | summand (h : IsSummand toks e) : IsExpr toks e
  | sum (hl : IsSummand ls l) (hr : IsExpr rs r) :
      IsExpr (ls ++ ⟨.mark .plus, span⟩ :: rs)
        (.sum (Token.extent (ls ++ ⟨.mark .plus, span⟩ :: rs)) l r)
inductive IsSummand : List Token → Expr → Prop
  | term (h : IsTerm toks e) : IsSummand toks e
  | product (hl : IsTerm ls l) (hr : IsSummand rs r) :
      IsSummand (ls ++ ⟨.mark .star, span⟩ :: rs)
        (.product (Token.extent (ls ++ ⟨.mark .star, span⟩ :: rs)) l r)
inductive IsTerm : List Token → Expr → Prop
  | number (hd : IsNumeral digits) (hmax : Decimal.value digits ≤ 2147483647) :
      IsTerm [⟨.number digits, span⟩] (.number span (.ofNat (Decimal.value digits)))
  | string : IsTerm [⟨.string content, span⟩] (.string span content)
  | trueWord : IsTerm [⟨.keyword .trueWord, span⟩] (.bool span true)
  | falseWord : IsTerm [⟨.keyword .falseWord, span⟩] (.bool span false)
  | var : IsTerm [⟨.name n, span⟩] (.var span n)
  | call (h : IsCall toks n es) : IsTerm toks (.call (Token.extent toks) n es)
  | paren (h : IsExpr toks e) :
      IsTerm (⟨.mark .openParen, span⟩ :: (toks ++ [⟨.mark .closeParen, close⟩]))
        (.paren (Token.extent (⟨.mark .openParen, span⟩ :: (toks ++ [⟨.mark .closeParen, close⟩]))) e)
/-- A call, with its name and its arguments; a static function takes static arguments. -/
inductive IsCall : List Token → Name → List Expr → Prop
  | call {inner : List Token} {items : List (List Token × Expr)}
      (hsep : Separated (items.map Prod.fst) inner)
      (hitems : ∀ item ∈ items, IsExpr item.1 item.2)
      (hstatic : n.isStatic = true → ∀ item ∈ items, item.2.isStatic = true) :
      IsCall (⟨.name n, span⟩ :: ⟨.mark .openParen, paren⟩ :: (inner ++ [⟨.mark .closeParen, close⟩])) n
        (items.map Prod.snd)
end

/-- No hole starts in a text. -/
def Unbroken (text : Bytes) : Prop := ¬[35, 123] <:+: text

/-- Where the text of a hole starts that is opened `before` bytes into a command at `span`. -/
def holeStart (span : Span) (before : Nat) : Cursor :=
  ⟨span.offset + .ofNat before + 2, span.line, span.column + .ofNat before + 2⟩

/-- The rest of a command line, from `before` bytes into the command on: literal texts, each
followed by a hole that holds exactly one expression, then a final text. -/
inductive IsInterpolated (span : Span) : (before : Nat) → Bytes → List (Bytes × Expr) → Bytes → Prop
  | plain (h : Unbroken tail) : IsInterpolated span before tail [] tail
  | hole (hl : Unbroken literal) (hin : IsInside inside)
      (hscan : (scanFrom (holeStart span (before + literal.length)) inside).result = .ok toks)
      (he : IsExpr (TokenStream.ofTokens toks).tokens e) (hs : e.isStatic = true)
      (h : IsInterpolated span (before + literal.length + inside.length + 3) rest parts tail) :
      IsInterpolated span before (literal ++ holeText inside rest) ((literal, e) :: parts) tail

inductive IsType : Token → Typing → Prop
  | int : IsType ⟨.name (.ofStatic "int"), span⟩ .int
  | string : IsType ⟨.name (.ofStatic "string"), span⟩ .string
  | bool : IsType ⟨.name (.ofStatic "bool"), span⟩ .bool

inductive IsParam : List Token → Param → Prop
  | plain : IsParam [⟨.name n, span⟩] ⟨n, .unknown⟩
  | typed (h : IsType t ty) : IsParam [⟨.name n, span⟩, ⟨.mark .colon, colon⟩, t] ⟨n, ty⟩

/-- Name and parameters of a declaration. The parameters are distinct, and those of a static
function are static. -/
inductive IsSignature : List Token → Signature → Prop
  | named {inner : List Token} {items : List (List Token × Param)}
      (hsep : Separated (items.map Prod.fst) inner)
      (hitems : ∀ item ∈ items, IsParam item.1 item.2)
      (hdistinct : ((items.map Prod.snd).map Param.name).Nodup)
      (hstatic : n.isStatic = true → ∀ item ∈ items, item.2.name.isStatic = true) :
      IsSignature
        (⟨.name n, span⟩ :: ⟨.mark .openParen, paren⟩ :: (inner ++ [⟨.mark .closeParen, close⟩]))
        ⟨n, items.map Prod.snd⟩

mutual
inductive IsStmt : List Token → Stmt → Prop
  | command (h : IsInterpolated span 1 line parts tail) :
      IsStmt [⟨.command line, span⟩] (.command span parts tail)
  | cond (h : IsConditional toks test body other) :
      IsStmt toks (.cond (Token.extent toks) test body other)
  | define (hsig : IsSignature head sig) (hbody : IsBlock braced body)
      (hstatic : sig.name.isStatic = true → ∀ s ∈ body, s.isStatic = true) :
      IsStmt (⟨.keyword .defWord, span⟩ :: (head ++ braced))
        (.define (Token.extent (⟨.keyword .defWord, span⟩ :: (head ++ braced))) sig body)
  | ret (h : IsExpr toks e) :
      IsStmt (⟨.keyword .returnWord, span⟩ :: (toks ++ [⟨.mark .semicolon, semi⟩]))
        (.ret (Token.extent (⟨.keyword .returnWord, span⟩ :: (toks ++ [⟨.mark .semicolon, semi⟩]))) e)
  | declare (ht : IsParam head ⟨target, ty⟩) (h : IsExpr toks e)
      (hstatic : target.isStatic = true → e.isStatic = true) :
      IsStmt (head ++ ⟨.mark .assign, op⟩ :: (toks ++ [⟨.mark .semicolon, semi⟩]))
        (.assign (Token.extent (head ++ ⟨.mark .assign, op⟩ :: (toks ++ [⟨.mark .semicolon, semi⟩])))
          target ty e true)
  | assign (h : IsExpr toks e) (hstatic : target.isStatic = true → e.isStatic = true) :
      IsStmt (⟨.name target, span⟩ :: ⟨.mark .equals, op⟩ :: (toks ++ [⟨.mark .semicolon, semi⟩]))
        (.assign (Token.extent
          (⟨.name target, span⟩ :: ⟨.mark .equals, op⟩ :: (toks ++ [⟨.mark .semicolon, semi⟩])))
          target .unknown e false)
  | call (h : IsCall toks n es) :
      IsStmt (toks ++ [⟨.mark .semicolon, semi⟩])
        (.call (Token.extent (toks ++ [⟨.mark .semicolon, semi⟩])) n es)
/-- A conditional with its test, its block and what follows it. -/
inductive IsConditional : List Token → Expr → Block → Otherwise → Prop
  | plain (ht : IsExpr toks test) (hb : IsBlock braced body) :
      IsConditional (⟨.keyword .ifWord, span⟩ :: (toks ++ braced)) test body .nothing
  | final (ht : IsExpr toks test) (hb : IsBlock braced body) (hf : IsBlock last final) :
      IsConditional (⟨.keyword .ifWord, span⟩ :: (toks ++ (braced ++ ⟨.keyword .elseWord, other⟩ :: last)))
        test body (.block final)
  | chain (ht : IsExpr toks test) (hb : IsBlock braced body) (hn : IsConditional next test' body' other') :
      IsConditional (⟨.keyword .ifWord, span⟩ :: (toks ++ (braced ++ ⟨.keyword .elseWord, other⟩ :: next)))
        test body (.cond (Token.extent next) test' body' other')
inductive IsBlock : List Token → Block → Prop
  | block (h : IsStmts toks b) :
      IsBlock (⟨.mark .openBrace, span⟩ :: (toks ++ [⟨.mark .closeBrace, close⟩])) b
/-- Any number of statements; a program is no more than that. -/
inductive IsStmts : List Token → Block → Prop
  | nil : IsStmts [] []
  | cons (hs : IsStmt first s) (h : IsStmts rest b) : IsStmts (first ++ rest) (s :: b)
end

end Grammar
end PackScript
