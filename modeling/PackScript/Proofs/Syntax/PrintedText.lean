import Mathlib.Data.List.Forall2
import PackScript.Proofs.Syntax.Numeral
import PackScript.Proofs.Syntax.Spelling

/-! # What the printer writes

The text of a proper expression spells its lexemes and closes no hole that it stands in, so
that the text of a proper program is cut into the lexemes of the program.
-/
namespace PackScript

theorem join_cons (sep t : Bytes) (ts : List Bytes) :
    Bytes.join sep (t :: ts) = t ++ ts.flatMap (sep ++ ·) := by
  induction ts generalizing t with
  | nil => simp [Bytes.join]
  | cons u ts ih => rw [Bytes.join, ih, List.flatMap_cons, List.append_assoc, List.append_assoc]

/-! ## Texts that close no hole -/

/-- The text is passed over in search of the end of a hole. -/
def Passes (t : Bytes) : Prop :=
  ∀ rest, holeEnd? false (t ++ rest) = (holeEnd? false rest).map (· + t.length)

/-- Bytes that mean nothing to a hole. -/
def isInert (b : UInt8) : Bool := !isLineEnd b && b ≠ 34 && b ≠ 125

theorem Passes.append {t u : Bytes} (ht : Passes t) (hu : Passes u) : Passes (t ++ u) := by
  intro rest
  rw [List.append_assoc, ht, hu, Option.map_map, List.length_append]
  congr 1
  funext n
  simp only [Function.comp_apply]
  omega

theorem passes_of_all {t : Bytes} (h : t.all isInert = true) : Passes t := by
  intro rest
  induction t with
  | nil => simp
  | cons b t ih =>
    simp only [List.all_cons, isInert, Bool.and_eq_true, Bool.not_eq_true', decide_eq_true_eq] at h
    obtain ⟨⟨⟨hend, hquote⟩, hbrace⟩, ht⟩ := h
    rw [List.cons_append, holeEnd?_byte (by rw [hend]; decide) (by simp) hquote (by simp [hbrace]),
      ih ht, Option.map_map, List.length_cons]
    rfl

theorem holeEnd?_escapeByte (b : UInt8) (t : Bytes) :
    holeEnd? true (Print.escapeByte b ++ t) =
      (holeEnd? true t).map (· + (Print.escapeByte b).length) := by
  rw [Print.escapeByte]
  split
  · exact holeEnd?_escape 92 t
  split
  · exact holeEnd?_escape 34 t
  split
  · exact holeEnd?_escape 110 t
  split
  · exact holeEnd?_escape 116 t
  · rename_i hslash hquote hline htab
    exact holeEnd?_byte (fun h => hline (of_decide_eq_true h)) (fun h => hslash h.2) hquote (by simp) t

theorem passes_string (s : Bytes) : Passes (Print.string s) := by
  have hcontent (rest : Bytes) : holeEnd? true (s.flatMap Print.escapeByte ++ rest) =
      (holeEnd? true rest).map (· + (s.flatMap Print.escapeByte).length) := by
    induction s with
    | nil => simp
    | cons b s ih =>
      rw [List.flatMap_cons, List.append_assoc, holeEnd?_escapeByte, ih, Option.map_map,
        List.length_append]
      congr 1
      funext n
      simp only [Function.comp_apply]
      omega
  intro rest
  have htext : Print.string s ++ rest = 34 :: (s.flatMap Print.escapeByte ++ 34 :: rest) := by
    rw [Print.string, List.append_assoc, List.append_assoc]
    rfl
  have hlength : (Print.string s).length = (s.flatMap Print.escapeByte).length + 2 := by
    rw [Print.string, List.length_append, List.length_append]
    change 1 + _ + 1 = _
    omega
  rw [htext, holeEnd?_quote, Bool.not_false, hcontent, holeEnd?_quote, Bool.not_true, Option.map_map,
    Option.map_map, hlength]
  congr 1
  funext n
  simp only [Function.comp_apply]
  omega

theorem isInert_of_isNameByte {b : UInt8} (h : isNameByte b = true) : isInert b = true := by
  have hne (c : UInt8) (hc : isNameByte c = false) : b ≠ c := by
    rintro rfl
    rw [hc] at h
    cases h
  simp [isInert, isLineEnd, Bytes.newline, hne 10 (by decide), hne 34 (by decide), hne 125 (by decide)]

theorem IsWord.passes {w : Bytes} (hw : IsWord w) : Passes w := by
  obtain ⟨b, stem, primes, rfl, hb, hstem, hprimes⟩ := hw
  refine passes_of_all (List.all_eq_true.2 fun c hc => ?_)
  rcases List.mem_append.1 hc with hc | hc
  · cases hc with
    | head => exact isInert_of_isNameByte (by rw [isNameByte, hb, Bool.true_or])
    | tail _ hc => exact isInert_of_isNameByte (hstem c hc)
  · rw [of_decide_eq_true (hprimes c hc)]
    decide

theorem Name.Proper.passes {n : Name} (hn : n.Proper) : Passes n.render := by
  rw [Name.render]
  split
  · exact (passes_of_all (by decide)).append hn.1.passes
  · exact hn.1.passes

theorem IsNumeral.passes {t : Bytes} (h : IsNumeral t) : Passes t := by
  refine passes_of_all (List.all_eq_true.2 fun b hb => isInert_of_isNameByte ?_)
  rw [isNameByte, h.2 b hb, Bool.or_true]

theorem isNumeral_ofInt {i : Int} (h : 0 ≤ i) : IsNumeral (Decimal.ofInt i) := by
  obtain ⟨n, rfl⟩ := Int.eq_ofNat_of_zero_le h
  exact Decimal.isNumeral_ofNat n

mutual
/-- A hole that holds a printed expression ends behind it. -/
theorem Expr.Proper.passes : {e : Expr} → {k : Nat} → e.Proper k → Passes (Print.expr e)
  | .sum _ l r, _, h => by
    rw [Print.expr]
    exact (h.2.1.passes.append (passes_of_all (by decide))).append h.2.2.passes
  | .product _ l r, _, h => by
    rw [Print.expr]
    exact (h.2.1.passes.append (passes_of_all (by decide))).append h.2.2.passes
  | .number _ i, _, h => by
    rw [Print.expr]
    exact (isNumeral_ofInt h).passes
  | .string _ s, _, _ => by
    rw [Print.expr]
    exact passes_string s
  | .bool _ b, _, _ => by
    rw [Print.expr]
    cases b <;> exact passes_of_all (by decide)
  | .var _ n, _, h => by
    rw [Print.expr]
    exact Name.Proper.passes h
  | .paren _ e, _, h => by
    have he : e.Proper 2 := h
    rw [Print.expr]
    exact ((passes_of_all (by decide)).append he.passes).append (passes_of_all (by decide))
  | .call _ n args, _, h => by
    rw [Print.expr]
    refine ((h.1.passes.append (passes_of_all (by decide))).append ?_).append (passes_of_all (by decide))
    cases args with
    | nil => exact passes_of_all (by decide)
    | cons e es =>
      rw [Print.exprs, join_cons]
      exact h.2.1.1.passes.append (Expr.ProperAll.passes h.2.1.2)
theorem Expr.ProperAll.passes : {es : List Expr} → Expr.ProperAll es →
    Passes ((Print.exprs es).flatMap ((", " : Bytes) ++ ·))
  | [], _ => passes_of_all (by decide)
  | e :: es, h => by
    rw [Print.exprs, List.flatMap_cons]
    exact ((passes_of_all (by decide)).append h.1.passes).append (Expr.ProperAll.passes h.2)
end

/-! ## Expressions -/

theorem spells_spaced {m : Mark} (hm : m ≠ .colon) :
    Spells Anything ([32] ++ (m.render ++ [32])) [.mark m] := by
  exact spells_blank.followed ((spells_mark hm).followed spells_blank)

theorem spells_comma : Spells Anything (", " : Bytes) [.mark .comma] := by
  exact (spells_mark (m := .comma) (by decide)).followed spells_blank

theorem endsWord_following (ts : List Bytes) (rest : Bytes) :
    EndsWord (ts.flatMap ((", " : Bytes) ++ ·) ++ (")" : Bytes) ++ rest) := by
  cases ts with
  | nil => exact endsWord_cons (by decide) (by decide) _
  | cons t ts => exact endsWord_cons (by decide) (by decide) _

theorem spells_following {ts : List Bytes} {lss : List (List Lexeme)}
    (h : List.Forall₂ (Spells EndsWord) ts lss) :
    Spells Anything (ts.flatMap ((", " : Bytes) ++ ·) ++ (")" : Bytes)) (Lexeme.following lss) := by
  induction h with
  | nil => exact spells_mark (m := .closeParen) (by decide)
  | @cons t ls ts lss ht _ ih =>
    rw [List.flatMap_cons, Lexeme.following, List.append_assoc, List.append_assoc]
    exact spells_comma.followed (ht.append ih (endsWord_following ts))

/-- Texts between parentheses, separated by commas. -/
theorem spells_enclosed {ts : List Bytes} {lss : List (List Lexeme)}
    (h : List.Forall₂ (Spells EndsWord) ts lss) :
    Spells Anything (Bytes.join ", " ts ++ (")" : Bytes)) (Lexeme.enclosed lss) := by
  cases h with
  | nil => exact spells_mark (m := .closeParen) (by decide)
  | @cons t ls ts lss ht hts =>
    rw [join_cons, Lexeme.enclosed, List.append_assoc]
    exact ht.append (spells_following hts) (endsWord_following ts)

mutual
/-- A printed expression spells its lexemes. -/
theorem Expr.Proper.spells : {e : Expr} → {k : Nat} → e.Proper k →
    Spells EndsWord (Print.expr e) e.lexemes
  | .sum _ l r, _, h => by
    rw [Print.expr, Expr.lexemes, List.append_assoc]
    exact h.2.1.spells.append ((spells_spaced (m := .plus) (by decide)).followed h.2.2.spells)
      (fun _ => endsWord_cons (by decide) (by decide) _)
  | .product _ l r, _, h => by
    rw [Print.expr, Expr.lexemes, List.append_assoc]
    exact h.2.1.spells.append ((spells_spaced (m := .star) (by decide)).followed h.2.2.spells)
      (fun _ => endsWord_cons (by decide) (by decide) _)
  | .number _ i, _, h => by
    rw [Print.expr, Expr.lexemes]
    exact spells_number (isNumeral_ofInt h)
  | .string _ s, _, _ => by
    rw [Print.expr, Expr.lexemes]
    exact (spells_string s).weaken
  | .bool _ true, _, _ => by
    rw [Print.expr, Expr.lexemes]
    exact spells_keyword .trueWord
  | .bool _ false, _, _ => by
    rw [Print.expr, Expr.lexemes]
    exact spells_keyword .falseWord
  | .var _ n, _, h => by
    rw [Print.expr, Expr.lexemes]
    exact spells_name h
  | .paren _ e, _, h => by
    have he : e.Proper 2 := h
    rw [Print.expr, Expr.lexemes, List.append_assoc]
    refine (spells_mark (m := .openParen) (by decide)).followed ?_
    exact he.spells.append (spells_mark (m := .closeParen) (by decide)).weaken
      (fun _ => endsWord_cons (by decide) (by decide) _)
  | .call _ n args, _, h => by
    rw [Print.expr, Expr.lexemes, List.append_assoc, List.append_assoc]
    refine (spells_name h.1).append ?_ (fun _ => endsWord_cons (by decide) (by decide) _)
    exact (spells_mark (m := .openParen) (by decide)).followed (spells_enclosed (Expr.ProperAll.spells h.2.1)).weaken
theorem Expr.ProperAll.spells : {es : List Expr} → Expr.ProperAll es →
    List.Forall₂ (Spells EndsWord) (Print.exprs es) (Expr.lexemesAll es)
  | [], _ => by
    rw [Print.exprs, Expr.lexemesAll]
    exact .nil
  | e :: es, h => by
    rw [Print.exprs, Expr.lexemesAll]
    exact .cons h.1.spells (Expr.ProperAll.spells h.2)
end

/-! ## Command lines -/

theorem Expr.Proper.isInside {e : Expr} {k : Nat} (h : e.Proper k) : IsInside (Print.expr e) := by
  rw [IsInside, h.passes, holeEnd?_brace, Option.map_some, Nat.zero_add]

theorem Print.lineText_cons (literal tail : Bytes) (e : Expr) (parts : List (Bytes × Expr)) :
    lineText ((literal, e) :: parts) tail = literal ++ holeText (expr e) (lineText parts tail) := by
  simp only [lineText, List.flatMap_cons, part, holeText, List.append_assoc]
  rfl

theorem IsSegmented.isLine {d : Nat} {parts : List (Bytes × Expr)} {tail : Bytes}
    (h : IsSegmented d parts tail) : IsLine d (Print.lineText parts tail) := by
  induction h with
  | plain h => exact .plain h
  | hole hl he hs h ih =>
    rw [Print.lineText_cons]
    exact .hole hl he.isInside ih

/-! ## Statements -/

theorem Print.text_cons (l : Line) (ls : List Line) : text (l :: ls) = l.render ++ text ls :=
  List.flatMap_cons

theorem Print.text_append (ls ms : List Line) : text (ls ++ ms) = text ls ++ text ms :=
  List.flatMap_append

theorem Spells.line {P : Bytes → Prop} {t : Bytes} {ls : List Lexeme} (h : Spells P t ls)
    (hP : ∀ rest, P (10 :: rest)) (level : Nat) : Spells Anything (Print.Line.render ⟨level, t⟩) ls := by
  have hindent : Spells Anything (Print.indentation level) [] :=
    spells_blanks (List.all_eq_true.2 fun b hb => by rw [List.eq_of_mem_replicate hb]; decide)
  have hbreak : Spells Anything [10] [] := spells_blanks (by decide)
  have hline := hindent.followed (h.append hbreak hP)
  rw [List.nil_append, List.append_nil, ← List.append_assoc] at hline
  exact hline

theorem spells_keyword_blank (k : Keyword) : Spells Anything (k.render ++ [32]) [.keyword k] := by
  exact (spells_keyword k).append spells_blank (fun _ => endsWord_cons (by decide) (by decide) _)

theorem spells_opening : Spells Anything (" \x7b" : Bytes) [.mark .openBrace] := by
  exact spells_blank.followed (spells_mark (m := .openBrace) (by decide))

theorem Typing.proper_render (ty : Typing) : (Name.ofStatic ty.render).Proper := by
  cases ty <;> exact ⟨isWord_of_all (by decide) (by decide), fun _ => by decide⟩

theorem spells_annotated {n : Name} (hn : n.Proper) (ty : Typing) :
    Spells EndsWord (Print.annotated n ty) (Param.lexemes ⟨n, ty⟩) := by
  have htyped : Spells EndsWord (n.render ++ ((": " : Bytes) ++ ty.render))
      [.name n, .mark .colon, .name (.ofStatic ty.render)] :=
    (spells_name hn).append (spells_colon.followed (spells_name ty.proper_render))
      (fun _ => endsWord_cons (by decide) (by decide) _)
  rw [← List.append_assoc] at htyped
  cases ty with
  | unknown => exact spells_name hn
  | _ => exact htyped

theorem Signature.Proper.spells {sig : Signature} (h : sig.Proper) :
    Spells Anything (Print.signature sig) sig.lexemes := by
  have hparams : List.Forall₂ (Spells EndsWord) (sig.params.map fun p => Print.annotated p.name p.typing)
      (sig.params.map Param.lexemes) := by
    rw [List.forall₂_map_left_iff, List.forall₂_map_right_iff]
    exact List.forall₂_same.2 fun p hp => spells_annotated (h.params p hp) p.typing
  rw [Print.signature, Signature.lexemes, List.append_assoc, List.append_assoc]
  refine (spells_name h.name).append ?_ (fun _ => endsWord_cons (by decide) (by decide) _)
  exact (spells_mark (m := .openParen) (by decide)).followed (spells_enclosed hparams)

/-- The line that opens the block of a conditional, behind `head`. -/
theorem spells_test {head : Bytes} {ls : List Lexeme} (hhead : Spells Anything head ls) {test : Expr}
    (htest : test.Proper 2) (level : Nat) :
    Spells Anything (Print.Line.render ⟨level, head ++ Print.expr test ++ (" \x7b" : Bytes)⟩)
      (ls ++ (test.lexemes ++ [.mark .openBrace])) := by
  have htext : Spells Anything (head ++ (Print.expr test ++ (" \x7b" : Bytes)))
      (ls ++ (test.lexemes ++ [.mark .openBrace])) :=
    hhead.followed (htest.spells.append spells_opening (fun _ => endsWord_cons (by decide) (by decide) _))
  rw [← List.append_assoc] at htext
  exact htext.line (fun _ => trivial) level

theorem Spells.singleLine {t : Bytes} {ls : List Lexeme} {P : Bytes → Prop} (h : Spells P t ls)
    (hP : ∀ rest, P (10 :: rest)) (level : Nat) : Spells Anything (Print.text [⟨level, t⟩]) ls := by
  have hline := h.line hP level
  rwa [← List.append_nil (Print.Line.render _)] at hline

theorem spells_closing (level : Nat) :
    Spells Anything (Print.text [⟨level, "\x7d"⟩]) [.mark .closeBrace] :=
  (spells_mark (m := .closeBrace) (by decide)).singleLine (fun _ => trivial) level

/-- An expression and the semicolon behind it. -/
theorem Expr.Proper.spells_semicolon {e : Expr} (h : e.Proper 2) :
    Spells Anything (Print.expr e ++ (";" : Bytes)) (e.lexemes ++ [.mark .semicolon]) :=
  h.spells.append (spells_mark (m := .semicolon) (by decide))
    (fun _ => endsWord_cons (by decide) (by decide) _)

mutual
/-- The lines of a printed statement spell its lexemes. -/
theorem Stmt.Proper.spells : {s : Stmt} → s.Proper → (level : Nat) →
    Spells Anything (Print.text (Print.stmt level s)) s.lexemes
  | .command _ parts tail, h, level => by
    have hline := spells_command h.1.isLine h.2
    have htext : Print.commandLine parts tail = 47 :: Print.lineText parts tail := by
      rw [Print.commandLine, Print.lineText, List.append_assoc]
      rfl
    rw [Print.stmt, Stmt.lexemes, htext]
    exact hline.singleLine (fun rest b hb => by cases hb; rfl) level
  | .cond _ test body other, h, level => by
    have hif : Spells Anything ("if " : Bytes) [.keyword .ifWord] := spells_keyword_blank .ifWord
    have hall := (spells_test hif h.1 level).followed
      ((Block.Proper.spells h.2.1 (level + 1)).followed (h.2.2.spells level))
    rw [Print.stmt, Stmt.lexemes, Print.text_cons, Print.text_append]
    simpa only [List.append_assoc, List.cons_append, List.nil_append] using hall
  | .assign _ target typing value declare, h, level => by
    have hoperator : Spells Anything (Bytes.ofString (if declare then " := " else " = "))
        [.mark (if declare then .assign else .equals)] := by
      cases declare with
      | false => exact spells_spaced (m := .equals) (by decide)
      | true => exact spells_spaced (m := .assign) (by decide)
    have hword (rest : Bytes) : EndsWord (Bytes.ofString (if declare then " := " else " = ") ++
        (Print.expr value ++ (";" : Bytes)) ++ rest) := by
      cases declare <;> exact endsWord_cons (by decide) (by decide) _
    have htext := (spells_annotated h.1 typing).append (hoperator.followed h.2.1.spells_semicolon) hword
    rw [Print.stmt, Stmt.lexemes, List.append_assoc, List.append_assoc]
    exact htext.singleLine (fun _ => trivial) level
  | .define _ sig body, h, level => by
    have hdef : Spells Anything ("def " : Bytes) [.keyword .defWord] := spells_keyword_blank .defWord
    have hhead := (hdef.followed (h.1.spells.followed spells_opening)).line (fun _ => trivial) level
    have hall := hhead.followed ((Block.Proper.spells h.2.1 (level + 1)).followed (spells_closing level))
    rw [Print.stmt, Stmt.lexemes, Print.text_cons, Print.text_append]
    simpa only [List.append_assoc, List.cons_append, List.nil_append] using hall
  | .call _ n args, h, level => by
    have hargs := (spells_enclosed (Expr.ProperAll.spells h.2.1)).followed
      (spells_mark (m := .semicolon) (by decide))
    have hopen := (spells_mark (m := .openParen) (by decide)).followed hargs
    have htext := (spells_name h.1).append hopen (fun _ => endsWord_cons (by decide) (by decide) _)
    have hline := htext.singleLine (fun _ => trivial) level
    rw [Print.stmt, Stmt.lexemes]
    simp only [List.append_assoc] at hline ⊢
    exact hline
  | .ret _ value, h, level => by
    have hvalue : value.Proper 2 := h
    have hreturn : Spells Anything ("return " : Bytes) [.keyword .returnWord] :=
      spells_keyword_blank .returnWord
    have htext := hreturn.followed hvalue.spells_semicolon
    rw [Print.stmt, Stmt.lexemes, List.append_assoc]
    exact htext.singleLine (fun _ => trivial) level
theorem Otherwise.Proper.spells : {o : Otherwise} → o.Proper → (level : Nat) →
    Spells Anything (Print.text (Print.otherwise level o)) o.lexemes
  | .nothing, _, level => by
    rw [Print.otherwise, Otherwise.lexemes]
    exact spells_closing level
  | .block body, h, level => by
    have hbody : Block.Proper body := h
    have helse : Spells Anything ("\x7d else \x7b" : Bytes)
        [.mark .closeBrace, .keyword .elseWord, .mark .openBrace] := by
      exact (spells_mark (m := .closeBrace) (by decide)).followed
        (spells_blank.followed ((spells_keyword_blank .elseWord).followed
          (spells_mark (m := .openBrace) (by decide))))
    have hall := (helse.line (fun _ => trivial) level).followed
      ((Block.Proper.spells hbody (level + 1)).followed (spells_closing level))
    rw [Print.otherwise, Otherwise.lexemes, Print.text_cons, Print.text_append]
    exact hall
  | .cond _ test body other, h, level => by
    have helse : Spells Anything ("\x7d else if " : Bytes)
        [.mark .closeBrace, .keyword .elseWord, .keyword .ifWord] := by
      exact (spells_mark (m := .closeBrace) (by decide)).followed
        (spells_blank.followed ((spells_keyword_blank .elseWord).followed (spells_keyword_blank .ifWord)))
    have hall := (spells_test helse h.1 level).followed
      ((Block.Proper.spells h.2.1 (level + 1)).followed (h.2.2.spells level))
    rw [Print.otherwise, Otherwise.lexemes, Print.text_cons, Print.text_append]
    simpa only [List.append_assoc, List.cons_append, List.nil_append] using hall
theorem Block.Proper.spells : {b : List Stmt} → Block.Proper b → (level : Nat) →
    Spells Anything (Print.text (Print.block level b)) (Block.lexemes b)
  | [], _, level => by
    rw [Print.block, Block.lexemes]
    exact spells_blanks (by decide)
  | s :: rest, h, level => by
    rw [Print.block, Block.lexemes, Print.text_append]
    exact (h.1.spells level).followed (Block.Proper.spells h.2 level)
end

/-- The text of a proper program is cut into the lexemes of the program. -/
theorem Program.lexemes?_print {p : Program} (h : Block.Proper p.body) :
    lexemes? p.print = some (Block.lexemes p.body) := by
  have hspells := h.spells 0 [] trivial
  have hnil : lexemes? [] = some [] := lexemes?_of_drop_nil (List.drop_nil)
  rw [List.append_nil, hnil, Option.map_some, List.append_nil] at hspells
  exact hspells

end PackScript
