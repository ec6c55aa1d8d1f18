import PackScript.Proofs.Runtime.Addressing
import PackScript.Proofs.Syntax.Numeral

/-! # The files of a pack

Files are numbered in the order of their creation. A file may be reserved for a function long
before it is filled, and a body may refer to files that are not filled yet; but every file that
is created is opened for writing once, and commands only run files that exist.
-/
namespace PackScript

/-! ## Opening files -/

/-- How often a number is in the range from `m` to `n`, the latter not included. -/
def between (m n f : Nat) : Nat := if m ≤ f ∧ f < n then 1 else 0

@[simp] theorem between_self (n f : Nat) : between n n f = 0 := by
  rw [between, if_neg]
  omega

theorem between_add {m k n : Nat} (hmk : m ≤ k) (hkn : k ≤ n) (f : Nat) :
    between m n f = between m k f + between k n f := by
  unfold between
  split_ifs <;> omega

theorem count_cons_between {m n : Nat} (h : m < n) (f : Nat) (l : List Nat) :
    (m :: l).count f + between (m + 1) n f = l.count f + between m n f := by
  have hfirst : between m (m + 1) f = if m = f then 1 else 0 := by
    unfold between
    split_ifs <;> omega
  rw [between_add (Nat.le_succ m) h, hfirst, List.count_cons]
  by_cases hf : m = f
  · simp [hf, Nat.add_assoc]
  · simp [hf]

namespace Gen

@[simp] theorem opened_write (s : GenState) (f : FileId) (c : Command) : (s.write f c).opened = s.opened := rfl

@[simp] theorem opened_writeAll (s : GenState) (f : FileId) (cs : List Command) :
    (s.writeAll f cs).opened = s.opened := by
  induction cs generalizing s with
  | nil => rfl
  | cons c cs ih => exact ih (s.write f c)

theorem opened_inArm (s : GenState) (opens : Bool) :
    (inArm s opens).opened = s.files.size :: s.opened := by
  cases opens <;> rfl

theorem opened_endArm (s : GenState) (g : FileId) (opens : Bool) : (endArm s g opens).opened = s.opened := by
  cases opens <;> rfl

/-- Every file that is created is opened once, or is still reserved. -/
theorem Course.opened_count {N : Notes} {a b : Point} (h : Course N a b) (f : FileId) :
    b.state.opened.count f + b.pending.count f =
      a.state.opened.count f + a.pending.count f + between a.state.files.size b.state.files.size f := by
  induction h with
  | trans h h' ih ih' =>
    rw [between_add h.size_le h'.size_le, ih', ih]
    omega
  | aside h =>
    rw [h.opened, h.files]
    simp
  | @reserve s k R B fn i scopes h =>
    have hsize : s.mint.files.size = s.files.size + 1 := s.size_mint
    have hcount := count_cons_between (Nat.lt_add_one s.files.size) f []
    change s.opened.count f + (R ++ [s.files.size]).count f =
      s.opened.count f + R.count f + between s.files.size s.mint.files.size f
    rw [List.count_append, hsize]
    simp only [between_self, List.count_nil] at hcount
    omega
  | @arm s s₁ s₂ g fs opens c k R B B' hw hb he hc ih =>
    have hsize : s₂.files.size = s₁.files.size := by rw [he.files, size_endArm]
    have hopened : s₂.opened = s₁.opened := he.opened.trans (opened_endArm s₁ _ opens)
    have hlt : s.files.size < s₁.files.size := by
      have hle := hb.size_le
      rw [size_inArm] at hle
      exact hle
    have hcount := count_cons_between hlt f s.opened
    simp only [size_inArm, opened_inArm, List.count_nil, Nat.add_zero] at ih
    simp only [opened_writeAll, GenState.size_writeAll, hsize, hopened]
    omega
  | @expansion s s₁ g fs k R B B' hw hb ih =>
    simp only [List.count_nil, Nat.add_zero] at ih
    change s₁.opened.count f = s.opened.count f + between s.files.size s₁.files.size f at ih
    change s₁.opened.count f + R.count f = s.opened.count f + R.count f + between s.files.size s₁.files.size f
    omega
  | @fill s s₁ g k R R' B B' hb ih =>
    simp only [List.count_nil, Nat.add_zero] at ih
    change s₁.opened.count f = (g :: s.opened).count f + between s.files.size s₁.files.size f at ih
    change s₁.opened.count f + (R ++ R').count f =
      s.opened.count f + (R ++ g :: R').count f + between s.files.size s₁.files.size f
    simp only [List.count_append, List.count_cons] at ih ⊢
    omega
  | @specialize s s₁ s₂ e key k R B B' hb hn hs ih =>
    have hlt : s.files.size < s₁.files.size := by
      have hle : s.mint.files.size ≤ s₁.files.size := hb.size_le
      rw [s.size_mint] at hle
      exact hle
    have hcount := count_cons_between hlt f s.opened
    simp only [List.count_nil, Nat.add_zero] at ih
    change s₁.opened.count f = (s.files.size :: s.opened).count f +
      between s.mint.files.size s₁.files.size f at ih
    rw [s.size_mint] at ih
    rw [hs.opened, hs.files]
    change s₁.opened.count f + R.count f = s.opened.count f + R.count f + between s.files.size s₁.files.size f
    omega
  | _ => simp

/-- A run that succeeds has opened every file once, and no other. -/
theorem opened_of_program {ns : Bytes} {p : Program} {statics : List (Name × Value)} {s : GenState}
    (h : program ns p {} = .ok statics s) (f : FileId) :
    s.opened.count f = if f < s.files.size then 1 else 0 := by
  obtain ⟨s₁, B, hc, ha⟩ := program_course h
  have hsize : s.files.size = s₁.files.size := congrArg Array.size ha.files
  have hpos : 0 < s₁.files.size := hc.size_le
  have hcount : s₁.opened.count f = [0].count f + between 1 s₁.files.size f := hc.opened_count f
  have hroot := count_cons_between hpos f []
  have hrange : between 0 s₁.files.size f = if f < s₁.files.size then 1 else 0 := by
    unfold between
    simp
  rw [ha.opened, hsize, ← hrange]
  change s₁.opened.count f = _
  rw [hcount, hroot]
  simp

/-! ## Running files -/

theorem files_pos {ns : Bytes} {p : Program} {g : Generated} (h : p.generate ns = .ok g) : 0 < g.files.length := by
  obtain ⟨statics, s, hrun, hlength, -⟩ := generate_ok h
  obtain ⟨s₁, B, hc, ha⟩ := program_course hrun
  rw [hlength, ha.files]
  exact hc.size_le

/-- A command runs no file but one that exists, and never the first one. -/
theorem exists_of_runs {ns : Bytes} {p : Program} {g : Generated} (h : p.generate ns = .ok g)
    {file : List Command} (hfile : file ∈ g.files) {c : Command} (hc : c ∈ file) {t : FileId}
    (ht : c.runs? = some t) : t < g.files.length ∧ t ≠ 0 := by
  obtain ⟨statics, s, hrun, hlength, htext⟩ := generate_ok h
  obtain ⟨roles, s₁, B, hlaid, hroot, ha⟩ := exists_laid hrun
  obtain ⟨i, hi, rfl⟩ := List.getElem_of_mem hfile
  obtain ⟨pre, post, hsplit⟩ := List.append_of_mem hc
  have hplace : s₁.text i = pre ++ c :: post := by
    have hget : g.files.getD i [] = g.files[i] := by
      rw [List.getD_eq_getElem?_getD, List.getElem?_eq_getElem hi]
      rfl
    rw [← hsplit, ← hget, htext, GenState.Alike.text ha]
    rfl
  have hknown : ∀ {r : Role}, (t, r) ∈ roles → r ≠ .root → t < g.files.length ∧ t ≠ 0 := by
    intro r hr hne
    have hlt : t < s₁.files.size := hlaid.known _ hr
    refine ⟨?_, ?_⟩
    · rw [hlength, ha.files]
      exact hlt
    · rintro rfl
      exact hne (role_unique hlaid.distinct hr hroot)
  cases hlaid.fits i pre c post hplace with
  | silent hnone _ =>
    rw [hnone] at ht
    cases ht
  | located _ _ _ _ _ _ _ _ _ _ hnone =>
    rw [hnone] at ht
    cases ht
  | argument => cases ht
  | branch hbranch _ _ hg _ =>
    rcases hbranch with rfl | rfl
    · cases ht
      exact hknown hg (by simp)
    · cases ht
      exact hknown hg (by simp)
  | call _ _ hg =>
    cases ht
    exact hknown hg (by simp)

end Gen

/-! ## Names -/

theorem FileId.render_inj {i j : FileId} (h : FileId.render i = FileId.render j) : i = j := by
  have hvalue := congrArg Decimal.value h
  rwa [FileId.render, FileId.render, Decimal.value_ofNat, Decimal.value_ofNat] at hvalue

theorem Command.render_of_runs {c : Command} {t : FileId} (h : c.runs? = some t) (ns : Bytes) :
    ∃ before, c.render ns = before ++ Command.target ns t := by
  cases c with
  | runIf file =>
    cases h
    exact ⟨_, rfl⟩
  | runUnless file =>
    cases h
    exact ⟨_, rfl⟩
  | call file =>
    cases h
    exact ⟨_, rfl⟩
  | _ => cases h

namespace Generated

theorem names_lines (g : Generated) :
    g.lines.map Prod.fst = (List.range g.files.length).map FileId.render := by
  rw [lines, List.map_map, List.range_eq_range', ← List.zipIdx_map_snd 0 g.files, List.map_map]
  rfl

theorem nodup_names (g : Generated) : (g.lines.map Prod.fst).Nodup := by
  rw [g.names_lines, List.Nodup, List.pairwise_map]
  exact List.Pairwise.imp (fun hne h => hne (FileId.render_inj h)) List.nodup_range

theorem lookup_lines (g : Generated) (i : Nat) :
    g.lines.lookup (FileId.render i) = g.files[i]?.map fun file => file.map (Command.render g.ns) := by
  have hfrom : ∀ (files : List (List Command)) (n : Nat),
      ((files.zipIdx n).map fun x => (FileId.render x.2, x.1.map (Command.render g.ns))).lookup (FileId.render i) =
        if n ≤ i then files[i - n]?.map fun file => file.map (Command.render g.ns) else none := by
    intro files
    induction files with
    | nil => simp
    | cons file files ih =>
      intro n
      rw [List.zipIdx_cons, List.map_cons, List.lookup_cons, ih]
      by_cases hi : i = n
      · simp [hi]
      · have hne : (FileId.render i == FileId.render n) = false :=
          beq_eq_false_iff_ne.2 fun h => hi (FileId.render_inj h)
        rw [hne]
        by_cases hn : n + 1 ≤ i
        · have hle : n ≤ i := Nat.le_of_succ_le hn
          have hsub : i - n = i - (n + 1) + 1 := by omega
          simp [hn, hle, hsub]
        · have hle : ¬n ≤ i := by omega
          simp [hn, hle]
  have hall := hfrom g.files 0
  rw [if_pos (Nat.zero_le i)] at hall
  exact hall

end Generated

/-- The files of a pack are named by the numbers from zero on, without gaps and each once, and the
file of the program itself comes first. Each name leads to its file. While the pack was generated,
every file was opened for writing once and nothing else was. Every command that runs a file ends in
the name of one of them, and that is never the program itself. -/
theorem Program.generate_links {ns : Bytes} {p : Program} {g : Generated} (h : p.generate ns = .ok g) :
    (g.lines.map Prod.fst = (List.range g.files.length).map FileId.render ∧ (g.lines.map Prod.fst).Nodup ∧
      (g.lines.map Prod.fst).head? = some Generated.root ∧ Generated.root = "0") ∧
    (∀ i, g.lines.lookup (FileId.render i) = g.files[i]?.map fun file => file.map (Command.render g.ns)) ∧
    (∃ statics s, Gen.program ns p {} = .ok statics s ∧ g.files.length = s.files.size ∧
      ∀ f, s.opened.count f = if f < g.files.length then 1 else 0) ∧
    ∀ file ∈ g.files, ∀ c ∈ file, ∀ t, c.runs? = some t →
      (∃ before, c.render ns = before ++ Command.target ns t) ∧
        FileId.render t ∈ g.lines.map Prod.fst ∧ FileId.render t ≠ Generated.root := by
  obtain ⟨statics, s, hrun, hlength, -⟩ := Gen.generate_ok h
  have hopened : ∀ f, s.opened.count f = if f < g.files.length then 1 else 0 := by
    intro f
    rw [hlength]
    exact Gen.opened_of_program hrun f
  have hpos : 0 < g.files.length := by
    obtain ⟨s₁, B, hc, ha⟩ := Gen.program_course hrun
    rw [hlength, ha.files]
    exact hc.size_le
  refine ⟨⟨g.names_lines, ?_, ?_, rfl⟩, g.lookup_lines, ⟨statics, s, hrun, hlength, hopened⟩, ?_⟩
  · rw [g.names_lines, List.Nodup, List.pairwise_map]
    exact List.Pairwise.imp (fun hne h => hne (FileId.render_inj h)) List.nodup_range
  · rw [g.names_lines, List.head?_map, List.head?_range, if_neg (Nat.ne_of_gt hpos)]
    rfl
  · intro file hfile c hc t ht
    obtain ⟨hlt, hne⟩ := Gen.exists_of_runs h hfile hc ht
    refine ⟨Command.render_of_runs ht ns, ?_, fun hroot => hne (FileId.render_inj hroot)⟩
    rw [g.names_lines]
    exact List.mem_map.2 ⟨t, List.mem_range.2 hlt, rfl⟩

/-- A function that calls itself for one static argument, from a branch. -/
theorem Program.generate_links_recursion : ∃ p g,
    Program.parse "def $f(n,$x)\x7bif $x\x7b$f(n,0);\x7d\x7d$f(1,2);" = .ok p ∧ p.generate "demo" = .ok g ∧
      g.lines.map Prod.fst = ["0", "1", "2"] ∧
      (∃ statics s, Gen.program "demo" p {} = .ok statics s ∧ s.opened.count 1 = 1) ∧
      Command.call 1 ∈ g.files.getD 2 [] ∧ FileId.render 1 ∈ g.lines.map Prod.fst := by
  have hfiles : ((Program.parse "def $f(n,$x)\x7bif $x\x7b$f(n,0);\x7d\x7d$f(1,2);").bind
      (Program.generate "demo")).toOption.map Generated.files = some
        [[.pushValue (.int 2), .openFrame, .storeTop (.frame 1 "x"), .pop, .call 1, .closeFrame],
          [.pushFrom (.frame 1 "x"), .load .condition 1, .runIf 2, .pop],
          [.pushValue (.int 0), .openFrame, .storeTop (.frame 1 "x"), .pop, .call 1, .closeFrame]] := by
    decide +kernel
  obtain ⟨p, g, hp, hg, hfiles⟩ := Gen.exists_generated hfiles
  obtain ⟨⟨hnames, -⟩, -, ⟨statics, s, hrun, -, hopened⟩, hlinks⟩ := generate_links hg
  have hlength : g.files.length = 3 := by
    rw [hfiles]
    rfl
  have hcall : Command.call 1 ∈ g.files.getD 2 [] := by
    rw [hfiles]
    decide
  have hmem : g.files.getD 2 [] ∈ g.files := by
    rw [hfiles]
    decide
  rw [hlength] at hnames hopened
  exact ⟨p, g, hp, hg, hnames, ⟨statics, s, hrun, hopened 1⟩, hcall, (hlinks _ hmem _ hcall 1 rfl).2.1⟩

end PackScript
