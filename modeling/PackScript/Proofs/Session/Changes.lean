import PackScript.Cli.Repl
import PackScript.Proofs.Generation.SingleLines

/-! # What an entry of a session changes

A session generates everything anew for each entry, so any of its files may come out different. The
files reported for an accepted entry are those that were not there before or had other lines. One kind
of file escapes the report: the lines of a file that is not there are taken to be none, so a new file
without lines passes for an old one. A rejected entry changes nothing.
-/
namespace PackScript.Session

variable {s s' : Session} {entry ns : Bytes} {g : Generated} {changed : List Bytes}

/-! ## Sequences of entries -/

/-- The session behind an entry: with it if it is accepted, and as it was if it is not. -/
def next (s : Session) (entry : Bytes) : Session :=
  match s.eval entry with
  | .ok (s', _, _) => s'
  | .error _ => s

/-- The session behind these entries, each accepted or not. -/
def behind (ns : Bytes) (entries : List Bytes) : Session := entries.foldl next { ns }

theorem behind_concat (ns : Bytes) (entries : List Bytes) (entry : Bytes) :
    behind ns (entries ++ [entry]) = (behind ns entries).next entry := by
  rw [behind, behind, List.foldl_append, List.foldl_cons, List.foldl_nil]

/-- What an accepted entry goes through. -/
theorem eval_eq_ok : s.eval entry = .ok (s', g, changed) ↔
    ∃ p, Program.parseFull (s.extended entry) = .ok p ∧ p.generate s.ns = .ok g ∧
      s' = { s with source := s.extended entry, last := some g } ∧ changed = s.changed g := by
  rw [eval]
  cases hp : Program.parseFull (s.extended entry) with
  | error f => simp [Bind.bind, Except.bind]
  | ok p =>
    cases hg : p.generate s.ns with
    | error f => simp [Bind.bind, Except.bind, hg]
    | ok g' =>
      simp only [Bind.bind, Except.bind, hg, Pure.pure, Except.pure, Except.ok.injEq, Prod.mk.injEq]
      constructor
      · rintro ⟨rfl, rfl, rfl⟩
        exact ⟨p, rfl, hg, rfl, rfl⟩
      · rintro ⟨q, rfl, hq, rfl, rfl⟩
        cases hg.symm.trans hq
        exact ⟨rfl, rfl, rfl⟩

/-- What was last generated is the accepted source as a whole; at the beginning there is neither. -/
structure Faithful (ns : Bytes) (s : Session) : Prop where
  ns_eq : s.ns = ns
  last_eq : (s.source = [] ∧ s.last = none) ∨
    ∃ p g, Program.parseFull s.source = .ok p ∧ p.generate ns = .ok g ∧ s.last = some g

theorem Faithful.of_eval (h : s.Faithful ns) (heval : s.eval entry = .ok (s', g, changed)) : s'.Faithful ns := by
  obtain ⟨p, hp, hg, rfl, -⟩ := eval_eq_ok.1 heval
  exact ⟨h.ns_eq, .inr ⟨p, g, hp, h.ns_eq ▸ hg, rfl⟩⟩

theorem Faithful.next (h : s.Faithful ns) (entry : Bytes) : (s.next entry).Faithful ns := by
  rw [Session.next]
  cases heval : s.eval entry with
  | error f => exact h
  | ok r => exact h.of_eval heval

theorem faithful_behind (ns : Bytes) (entries : List Bytes) : (behind ns entries).Faithful ns := by
  have hrun : ∀ (entries : List Bytes) (s : Session), s.Faithful ns → (entries.foldl Session.next s).Faithful ns := by
    intro entries
    induction entries with
    | nil => exact fun s h => h
    | cons entry entries ih => exact fun s h => ih _ (h.next entry)
  exact hrun entries _ ⟨rfl, .inl ⟨rfl, rfl⟩⟩

/-! ## Changed files -/

/-- The lines that a file had when the session was last generated, if it was there. -/
def file? (s : Session) (name : Bytes) : Option (List Bytes) := s.last.bind fun g => g.lines.lookup name

/-- The file was not there before, or it has other lines now. -/
def Differs (s : Session) (g : Generated) (name : Bytes) : Prop := s.file? name ≠ g.lines.lookup name

/-- The file is new in a session that has generated something, and has no lines. -/
def AddsEmpty (s : Session) (g : Generated) (name : Bytes) : Prop :=
  s.last.isSome = true ∧ s.file? name = none ∧ g.lines.lookup name = some []

instance (s : Session) (g : Generated) (name : Bytes) : Decidable (s.Differs g name) :=
  inferInstanceAs (Decidable (_ ≠ _))

instance (s : Session) (g : Generated) (name : Bytes) : Decidable (s.AddsEmpty g name) :=
  inferInstanceAs (Decidable (_ ∧ _ ∧ _))

theorem lastLines_eq (s : Session) (name : Bytes) : s.lastLines name = (s.file? name).getD [] := by
  rw [lastLines, file?]
  cases s.last <;> rfl

/-- A file is compared with what its name led to before, or with no lines. -/
theorem compare_iff {f : Bytes × List Bytes} (hf : g.lines.lookup f.1 = some f.2) :
    s.last = none ∨ s.lastLines f.1 ≠ f.2 ↔ s.Differs g f.1 ∧ ¬s.AddsEmpty g f.1 := by
  rw [Differs, AddsEmpty, lastLines_eq, hf]
  cases hlast : s.last with
  | none => simp [file?, hlast]
  | some old =>
    cases hfile : s.file? f.1 with
    | none => simp [eq_comm]
    | some lines => simp

theorem changed_eq (s : Session) (g : Generated) : s.changed g =
    (g.lines.map Prod.fst).filter fun name => s.Differs g name ∧ ¬s.AddsEmpty g name := by
  rw [changed, List.filter_map]
  congr 1
  refine List.filter_congr fun f hf => ?_
  rw [Function.comp_apply, Bool.eq_iff_iff, Bool.or_eq_true, Option.isNone_iff_eq_none, decide_eq_true_iff,
    decide_eq_true_iff]
  exact compare_iff (lookup_of_mem g.nodup_names hf)

/-- Two entries to a session with one command. The first entry is no statement. The second one has a
function without statements, another function and a command. -/
theorem evals_behind_command : ∃ f s' g,
    (behind "demo" ["/say hi"]).eval "$c;" = .error f ∧
    (behind "demo" ["/say hi"]).eval "def $f() \x7b\x7d def $g() \x7b/a\n\x7d\n/b" = .ok (s', g, ["0", "2"]) ∧
    g.lines.map Prod.fst = (["0", "1", "2"] : List Bytes) ∧
    (behind "demo" ["/say hi"]).file? "1" = none ∧ s'.file? "1" = some [] := by
  generalize hs : behind "demo" ["/say hi"] = s
  have hevals : (s.eval "$c;").toOption.isNone = true ∧ s.file? "1" = none ∧
      (s.eval "def $f() \x7b\x7d def $g() \x7b/a\n\x7d\n/b").toOption.map
        (fun r => (r.2.1.lines.map Prod.fst, r.2.2, r.1.file? "1")) =
          some ((["0", "1", "2"] : List Bytes), (["0", "2"] : List Bytes), some []) := by
    rw [← hs]
    decide +kernel
  obtain ⟨hrejected, habsent, haccepted⟩ := hevals
  cases hc : s.eval "$c;" with
  | ok r =>
    rw [hc] at hrejected
    cases hrejected
  | error f =>
    cases hg : s.eval "def $f() \x7b\x7d def $g() \x7b/a\n\x7d\n/b" with
    | error f =>
      rw [hg] at haccepted
      cases haccepted
    | ok r =>
      rw [hg] at haccepted
      obtain ⟨s', g, changed⟩ := r
      obtain ⟨hnames, hreported⟩ := Prod.mk.inj (Option.some.inj haccepted)
      obtain ⟨hchanged, hfile⟩ := Prod.mk.inj hreported
      exact ⟨f, s', g, rfl, by rw [← hchanged], hnames, habsent, hfile⟩

/-- A rejected entry leaves the session as it was. An accepted one is added to the source, and what is
generated from the whole source replaces what was generated before. The files reported are those of the
new ones, in their order, that were not there before or had other lines, except for new files without
lines. The command line threads its session in this way. -/
theorem eval_reports (ns : Bytes) (entries : List Bytes) (entry : Bytes) :
    (behind ns entries).Faithful ns ∧
    (∀ f, (behind ns entries).eval entry = .error f → behind ns (entries ++ [entry]) = behind ns entries) ∧
    (∀ s' g changed, (behind ns entries).eval entry = .ok (s', g, changed) →
      behind ns (entries ++ [entry]) = s' ∧ s'.source = (behind ns entries).source ++ entry ++ [Bytes.newline] ∧
        s'.last = some g ∧ (∃ p, Program.parseFull s'.source = .ok p ∧ p.generate ns = .ok g) ∧
        changed = (g.lines.map Prod.fst).filter fun name =>
          (behind ns entries).Differs g name ∧ ¬(behind ns entries).AddsEmpty g name) ∧
    ∀ r : Cli.Repl, r.session = behind ns entries → (r.evaluate entry).next.session = behind ns (entries ++ [entry]) := by
  have hfaithful := faithful_behind ns entries
  rw [behind_concat]
  generalize behind ns entries = s at hfaithful ⊢
  refine ⟨hfaithful, fun f hf => ?_, fun s' g changed heval => ?_, fun r hr => ?_⟩
  · rw [next, hf]
  · obtain ⟨p, hp, hg, rfl, rfl⟩ := eval_eq_ok.1 heval
    rw [hfaithful.ns_eq] at hg
    exact ⟨by rw [next, heval], rfl, rfl, ⟨p, hp, hg⟩, s.changed_eq g⟩
  · subst hr
    rw [Cli.Repl.evaluate, next]
    cases r.session.eval entry <;> rfl

/-- The report names the file of the program, which has changed, and the new file with a command in it. -/
theorem eval_reports_functions : ∃ f s' g,
    (behind "demo" ["/say hi"]).eval "$c;" = .error f ∧
    behind "demo" ["/say hi", "$c;"] = behind "demo" ["/say hi"] ∧
    (behind "demo" ["/say hi"]).eval "def $f() \x7b\x7d def $g() \x7b/a\n\x7d\n/b" = .ok (s', g, ["0", "2"]) ∧
    behind "demo" ["/say hi", "def $f() \x7b\x7d def $g() \x7b/a\n\x7d\n/b"] = s' ∧
    ((g.lines.map Prod.fst).filter fun name => (behind "demo" ["/say hi"]).Differs g name ∧
      ¬(behind "demo" ["/say hi"]).AddsEmpty g name) = (["0", "2"] : List Bytes) := by
  obtain ⟨f, s', g, hrejected, haccepted, -⟩ := evals_behind_command
  obtain ⟨-, hsame, -⟩ := eval_reports "demo" ["/say hi"] "$c;"
  obtain ⟨-, -, hreport, -⟩ := eval_reports "demo" ["/say hi"] "def $f() \x7b\x7d def $g() \x7b/a\n\x7d\n/b"
  obtain ⟨hnext, -, -, -, hchanged⟩ := hreport s' g _ haccepted
  exact ⟨f, s', g, hrejected, hsame f hrejected, haccepted, hnext, hchanged.symm⟩

/-- The file of the function without statements is new, has no lines, and is not reported. -/
theorem eval_omits_empty_file : ∃ s' g,
    (behind "demo" ["/say hi"]).eval "def $f() \x7b\x7d def $g() \x7b/a\n\x7d\n/b" = .ok (s', g, ["0", "2"]) ∧
    (behind "demo" ["/say hi"]).file? "1" = none ∧ s'.file? "1" = some [] := by
  obtain ⟨f, s', g, -, haccepted, -, habsent, hfile⟩ := evals_behind_command
  exact ⟨s', g, haccepted, habsent, hfile⟩

end PackScript.Session
