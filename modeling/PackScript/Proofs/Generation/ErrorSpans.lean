import PackScript.Proofs.Generation.Preamble
import PackScript.Proofs.Syntax.ErrorPlaces

/-! # Places in trees and errors

A message shows a stretch of the source. In a parsed program the stretches of its statements and
expressions are nested the way the program is. When a pack cannot be built, the message shows a
stretch of the source as well: either the source cannot be read, or one of the statements and
expressions read from it is to blame. It never shows a place in the commands that every pack begins
with, although they are read and generated like the program.
-/
namespace PackScript

theorem preamble_namesNamespace :
    ∃ first, Program.parse preamble = .ok first ∧ ∀ st ∈ first.body, st.namesNamespace = true := by
  have hview : (Program.parse preamble).toOption.map (fun p => p.body.all Stmt.namesNamespace) = some true := by
    decide +kernel
  cases hp : Program.parse preamble with
  | error f =>
    rw [hp] at hview
    cases hview
  | ok first =>
    rw [hp] at hview
    exact ⟨first, rfl, List.all_eq_true.1 (Option.some.inj hview)⟩

/-- A valid namespace can stand in a command. -/
theorem Namespace.isInline {ns : Bytes} (h : isValid ns = true) : Gen.IsInline ns := by
  have hall := List.all_eq_true.1 (Bool.and_eq_true_iff.1 h).2
  refine List.any_eq_false.2 fun b hb hbreak => ?_
  rw [Bool.or_eq_true_iff, decide_eq_true_eq, decide_eq_true_eq] at hbreak
  rcases hbreak with rfl | rfl
  · exact absurd (hall 10 hb) (by decide)
  · exact absurd (hall 13 hb) (by decide)

/-- The errors of a build that are about the program. -/
theorem build_failure {source ns : Bytes} {f : Failure} : build source ns = .error (.failure f) ↔
    Namespace.isValid (if ns.isEmpty then Namespace.default else ns) = true ∧
      ((Program.parseFull source).bind fun p => p.generate (if ns.isEmpty then Namespace.default else ns)) =
        .error f := by
  unfold build
  generalize (if ns.isEmpty then Namespace.default else ns) = name
  cases hvalid : Namespace.isValid name with
  | false =>
    simp only [hvalid]
    constructor
    · intro h
      cases h
    · rintro ⟨h, -⟩
      cases h
  | true =>
    simp only [hvalid]
    cases hp : Program.parseFull source with
    | error f' =>
      constructor
      · intro h
        cases h
        exact ⟨trivial, rfl⟩
      · rintro ⟨-, h⟩
        cases h
        rfl
    | ok p =>
      change ((p.generate name).mapError BuildError.failure >>= fun g => _) = _ ↔ True ∧ p.generate name = _
      cases hg : p.generate name with
      | error f' =>
        constructor
        · intro h
          cases h
          exact ⟨trivial, rfl⟩
        · rintro ⟨-, h⟩
          cases h
          rfl
      | ok g =>
        constructor
        · intro h
          change ((Pack.ofGenerated g).mapError BuildError.metadata >>= fun pack => _) = _ at h
          cases hpack : Pack.ofGenerated g with
          | error f' =>
            rw [hpack] at h
            cases h
          | ok pack =>
            rw [hpack] at h
            cases h
        · rintro ⟨-, h⟩
          cases h

/-- In a parsed text every statement and expression stands on the bytes of its place, inside what it
is part of and behind what comes before it, and a leaf stands on exactly the bytes it is written with.
An error of a build stands in the text too: it is what is wrong with the text, or it has the place of a
statement or an expression of the program that the text is. -/
theorem spans_of_build (src : Bytes) :
    (∀ p, Program.parse src = .ok p → Node.InOrder src (Node.block p.body).placed 0 src.length) ∧
    ∀ ns d, build src ns = .error (.failure (.diagnostic d)) → d.span.Inside src ∧
      (Program.parse src = .error (.diagnostic d) ∨
        ∃ p node, Program.parse src = .ok p ∧ Node.HasPart (.block p.body) node ∧ node.span? = some d.span) := by
  refine ⟨fun p hp => Program.inOrder_of_parse hp, fun ns d h => ?_⟩
  obtain ⟨hvalid, h⟩ := build_failure.1 h
  obtain ⟨first, hfirst, hnames⟩ := preamble_namesNamespace
  rw [Program.parseFull, hfirst] at h
  cases hp : Program.parse src with
  | error f =>
    rw [hp] at h
    cases h
    exact ⟨Program.parse_inside hp, .inl rfl⟩
  | ok own =>
    rw [hp] at h
    obtain ⟨node, hpart, hspan⟩ := Program.part_of_generate_error hnames (Namespace.isInline hvalid) h
    obtain ⟨i, j, hij, hj, hcovers⟩ := (Program.inOrder_of_parse hp).covers hpart hspan
    exact ⟨⟨i, j, Nat.le_of_lt hij, hj, hcovers⟩, .inr ⟨own, node, rfl, hpart, hspan⟩⟩

/-- A sum that cannot be formed, in a hole of a command in the second branch of a conditional. -/
theorem spans_of_build_hole : ∃ p,
    Program.parse "$b:=1;if $b \x7b\x7d else if $b*2 \x7b/say #\x7b1 + true\x7d\n\x7d" = .ok p ∧
      p.body.map Stmt.span = [⟨0, 6, 1, 0⟩, ⟨6, 41, 1, 6⟩] ∧
      Node.InOrder "$b:=1;if $b \x7b\x7d else if $b*2 \x7b/say #\x7b1 + true\x7d\n\x7d" (p.body.map .stmt) 0 47 ∧
      build "$b:=1;if $b \x7b\x7d else if $b*2 \x7b/say #\x7b1 + true\x7d\n\x7d" "demo" =
        .error (.failure (.ofCause ⟨36, 8, 1, 36⟩ (.cannotAdd .int .bool))) ∧
      Span.Inside ⟨36, 8, 1, 36⟩ "$b:=1;if $b \x7b\x7d else if $b*2 \x7b/say #\x7b1 + true\x7d\n\x7d" ∧
      ∃ node, Node.HasPart (.block p.body) node ∧ node.span? = some ⟨36, 8, 1, 36⟩ := by
  have hview : (Program.parse "$b:=1;if $b \x7b\x7d else if $b*2 \x7b/say #\x7b1 + true\x7d\n\x7d").toOption.map
      (fun p => p.body.map Stmt.span) = some [⟨0, 6, 1, 0⟩, ⟨6, 41, 1, 6⟩] := by
    decide +kernel
  have hrun : ((Program.parseFull "$b:=1;if $b \x7b\x7d else if $b*2 \x7b/say #\x7b1 + true\x7d\n\x7d").bind
      fun p => p.generate "demo").map (fun _ => ()) =
      .error (.ofCause ⟨36, 8, 1, 36⟩ (.cannotAdd .int .bool)) := by
    decide +kernel
  have hbuild : build "$b:=1;if $b \x7b\x7d else if $b*2 \x7b/say #\x7b1 + true\x7d\n\x7d" "demo" =
      .error (.failure (.ofCause ⟨36, 8, 1, 36⟩ (.cannotAdd .int .bool))) := by
    refine build_failure.2 ⟨by decide, ?_⟩
    cases hg : (Program.parseFull "$b:=1;if $b \x7b\x7d else if $b*2 \x7b/say #\x7b1 + true\x7d\n\x7d").bind
        fun p => p.generate "demo" with
    | ok g =>
      rw [hg] at hrun
      cases hrun
    | error f =>
      rw [hg] at hrun
      cases hrun
      exact hg
  obtain ⟨hnodes, herrors⟩ := spans_of_build "$b:=1;if $b \x7b\x7d else if $b*2 \x7b/say #\x7b1 + true\x7d\n\x7d"
  obtain ⟨hinside, hblamed⟩ := herrors "demo" _ hbuild
  cases hp : Program.parse "$b:=1;if $b \x7b\x7d else if $b*2 \x7b/say #\x7b1 + true\x7d\n\x7d" with
  | error f =>
    rw [hp] at hview
    cases hview
  | ok p =>
    rw [hp] at hview hblamed
    refine ⟨p, rfl, Option.some.inj hview, hnodes p hp, hbuild, hinside, ?_⟩
    rcases hblamed with hblamed | ⟨p', node, hp', hpart, hspan⟩
    · cases hblamed
    · cases hp'
      exact ⟨node, hpart, hspan⟩

end PackScript
