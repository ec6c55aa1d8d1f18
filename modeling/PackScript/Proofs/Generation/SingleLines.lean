import PackScript.Build
import PackScript.Proofs.Generation.BlockLaw
import PackScript.Proofs.Generation.FileTable
import PackScript.Proofs.Syntax.Numeral

/-! # One command, one line

A line break could get into a command from four sides. The text of a command line has none, names
have none, a value in a hole is refused if it has one, and a storage literal writes it as an escape.
So every command of a pack stays on its line, and the files of the pack can be read back into the
commands they were written from.
-/
namespace PackScript

/-! ## Texts without a line break -/

theorem Stretch.newline_notMem {d d' : Nat} {t : Bytes} (h : Stretch d t d') : Bytes.newline ∉ t := by
  induction h with
  | nil => exact List.not_mem_nil
  | byte hend _ _ _ _ ih =>
    have hne := of_decide_eq_false hend
    exact fun hmem => (List.mem_cons.1 hmem).elim (fun h => hne h.symm) ih
  | openBrace _ ih => exact fun hmem => (List.mem_cons.1 hmem).elim (by decide) ih
  | closeBrace _ ih => exact fun hmem => (List.mem_cons.1 hmem).elim (by decide) ih

theorem IsWord.newline_notMem {t : Bytes} (h : IsWord t) : Bytes.newline ∉ t := by
  obtain ⟨b, stem, primes, rfl, hb, hstem, hprimes⟩ := h
  intro hmem
  rcases List.mem_append.1 hmem with hmem | hmem
  · rcases List.mem_cons.1 hmem with rfl | hmem
    · exact absurd hb (by decide)
    · exact absurd (hstem _ hmem) (by decide)
  · exact absurd (hprimes _ hmem) (by decide)

theorem Decimal.newline_notMem_ofNat (n : Nat) : Bytes.newline ∉ ofNat n :=
  fun hmem => absurd ((isNumeral_ofNat n).2 _ hmem) (by decide)

theorem Decimal.newline_notMem_ofInt (i : Int) : Bytes.newline ∉ ofInt i := by
  cases i with
  | ofNat n => exact newline_notMem_ofNat n
  | negSucc n =>
    exact fun hmem => (List.mem_append.1 hmem).elim (by decide) (newline_notMem_ofNat (n + 1))

theorem Namespace.newline_notMem {ns : Bytes} (h : isValid ns = true) : Bytes.newline ∉ ns := by
  intro hmem
  have hall := (Bool.and_eq_true_iff.1 h).2
  exact absurd (List.all_eq_true.1 hall _ hmem) (by decide)

namespace Value

theorem newline_notMem_escapeByte (b : UInt8) : Bytes.newline ∉ escapeByte b := by
  unfold escapeByte
  split
  · decide
  split
  · decide
  split
  · decide
  split
  · decide
  split
  · decide
  · rename_i hb _ _
    exact fun hmem => hb (List.mem_singleton.1 hmem).symm

theorem newline_notMem_literal_string (s : Bytes) : Bytes.newline ∉ (Value.string s).literal := by
  simp only [literal, List.mem_append, List.mem_flatMap, not_or, not_exists, not_and]
  exact ⟨⟨by decide, fun b _ => newline_notMem_escapeByte b⟩, by decide⟩

/-- What may fill a hole has no line break. -/
theorem newline_notMem_render {v : Value} (h : (v.content.any fun b => b = 10 || b = 13) = false) :
    Bytes.newline ∉ v.render := by
  have hcontent : Bytes.newline ∉ v.content := fun hmem => by
    have hbreak := List.any_eq_false.1 h _ hmem
    exact hbreak (by decide)
  cases v with
  | int i => exact Decimal.newline_notMem_ofInt i.toInt
  | string s => exact hcontent
  | bool b => cases b <;> decide
  | untyped s => exact hcontent

end Value

/-- A command line of the program with its holes filled. -/
theorem Filled.newline_notMem {value : Value → Prop} {d : Nat} {parts : List (Bytes × Expr)} {tail text : Bytes}
    (hs : IsSegmented d parts tail) (h : Filled value parts text) : Bytes.newline ∉ text ++ tail := by
  induction h generalizing d with
  | nil =>
    cases hs with
    | plain ht => exact ht.newline_notMem
  | cons _ hline _ ih =>
    cases hs with
    | hole hl _ _ hrest =>
      have hliteral := hl.newline_notMem
      have hvalue := Value.newline_notMem_render hline
      have hbehind := ih hrest
      simp only [List.append_assoc, List.mem_append, not_or] at hbehind ⊢
      exact ⟨hliteral, hvalue, hbehind⟩

/-! ## Commands -/

theorem Place.newline_notMem_frame {t : Bytes} (ht : Bytes.newline ∉ t) (d : Nat) :
    Bytes.newline ∉ (Place.frame d t).render := by
  simp only [render, List.mem_append, not_or]
  exact ⟨⟨⟨by decide, Decimal.newline_notMem_ofNat d⟩, by decide⟩, ht⟩

theorem Place.newline_notMem_rootFrame {t : Bytes} (ht : Bytes.newline ∉ t) :
    Bytes.newline ∉ (Place.rootFrame t).render := by
  simp only [render, List.mem_append, not_or]
  exact ⟨by decide, ht⟩

theorem Node.Proper.own_names {node : Node} (h : node.Proper) : ∀ n ∈ node.ownNames, n.Proper := by
  cases node with
  | expr e =>
    cases e with
    | var _ n => exact List.forall_mem_singleton.2 h
    | call _ n args => exact List.forall_mem_singleton.2 h.1
    | _ => exact List.forall_mem_nil _
  | stmt s =>
    cases s with
    | assign _ target _ _ _ => exact List.forall_mem_singleton.2 h.1
    | define _ sig body =>
      refine List.forall_mem_cons.2 ⟨h.1.name, ?_⟩
      rw [List.forall_mem_map]
      exact h.1.params
    | call _ n args => exact List.forall_mem_singleton.2 h.1
    | _ => exact List.forall_mem_nil _
  | otherwise o => exact List.forall_mem_nil _
  | block b => exact List.forall_mem_nil _

namespace Command

variable {ns : Bytes}

theorem newline_notMem_storage (hns : Bytes.newline ∉ ns) : Bytes.newline ∉ storage ns :=
  fun hmem => (List.mem_append.1 hmem).elim hns (by decide)

theorem newline_notMem_score (hns : Bytes.newline ∉ ns) (r : Register) : Bytes.newline ∉ score ns r := by
  simp only [score, objective, List.mem_append, not_or]
  refine ⟨⟨?_, by decide⟩, hns, by decide⟩
  cases r <;> decide

theorem newline_notMem_target (hns : Bytes.newline ∉ ns) (f : FileId) : Bytes.newline ∉ target ns f := by
  simp only [target, List.mem_append, not_or]
  exact ⟨⟨hns, by decide⟩, Decimal.newline_notMem_ofNat f⟩

theorem newline_notMem_of_isFixed (hns : Bytes.newline ∉ ns) {c : Command} (h : c.isFixed = true) :
    Bytes.newline ∉ c.render ns := by
  have hstorage := newline_notMem_storage hns
  have hscore := newline_notMem_score hns
  have htarget := newline_notMem_target hns
  have hnumber := Decimal.newline_notMem_ofNat
  cases c with
  | operate op => cases op <;> simp +decide [render, hscore, Operation.render]
  | verbatim _ => cases h
  | pushValue _ => cases h
  | pushFrom _ => cases h
  | storeTop _ => cases h
  | storeValue _ _ => cases h
  | _ => simp +decide [render, hstorage, hscore, htarget, hnumber]

theorem newline_notMem_pushValue (hns : Bytes.newline ∉ ns) {v : Value} (hv : Bytes.newline ∉ v.literal) :
    Bytes.newline ∉ (pushValue v).render ns := by
  have hstorage := newline_notMem_storage hns
  simp +decide [render, hstorage, hv]

theorem newline_notMem_pushFrom (hns : Bytes.newline ∉ ns) {p : Place} (hp : Bytes.newline ∉ p.render) :
    Bytes.newline ∉ (pushFrom p).render ns := by
  have hstorage := newline_notMem_storage hns
  simp +decide [render, hstorage, hp]

theorem newline_notMem_storeTop (hns : Bytes.newline ∉ ns) {p : Place} (hp : Bytes.newline ∉ p.render) :
    Bytes.newline ∉ (storeTop p).render ns := by
  have hstorage := newline_notMem_storage hns
  simp +decide [render, hstorage, hp]

theorem newline_notMem_storeValue (hns : Bytes.newline ∉ ns) {p : Place} (hp : Bytes.newline ∉ p.render)
    {v : Value} (hv : Bytes.newline ∉ v.literal) : Bytes.newline ∉ (storeValue p v).render ns := by
  have hstorage := newline_notMem_storage hns
  simp +decide [render, hstorage, hp, hv]

end Command

/-- In a pack with this namespace, proper pieces of program become commands on one line each. -/
def lineLaw {ns : Bytes} (hns : Bytes.newline ∉ ns) : Law where
  part := Node.Proper
  value v := Bytes.newline ∉ v.literal
  place p := Bytes.newline ∉ p.render
  command c := Bytes.newline ∉ c.render ns
  child h hc := h.child hc
  frame h hn d := Place.newline_notMem_frame (h.own_names _ hn).1.newline_notMem d
  rootFrame h hn := Place.newline_notMem_rootFrame (h.own_names _ hn).1.newline_notMem
  result := by decide
  int i := Decimal.newline_notMem_ofInt i.toInt
  bool b := by cases b <;> decide
  string _ := Value.newline_notMem_literal_string _
  joined _ _ := Value.newline_notMem_literal_string _
  unset := by decide
  fixed h := Command.newline_notMem_of_isFixed hns h
  verbatim h ht := ht.newline_notMem h.1
  pushValue hv := Command.newline_notMem_pushValue hns hv
  pushFrom hp := Command.newline_notMem_pushFrom hns hp
  storeTop hp := Command.newline_notMem_storeTop hns hp
  storeValue hp hv := Command.newline_notMem_storeValue hns hp hv

theorem Block.Proper.append {a b : List Stmt} (ha : Block.Proper a) (hb : Block.Proper b) :
    Block.Proper (a ++ b) := by
  induction a with
  | nil => exact hb
  | cons s a ih => exact ⟨ha.1, ih ha.2⟩

theorem Program.proper_of_parseFull {source : Bytes} {p : Program} (h : parseFull source = .ok p) :
    Block.Proper p.body := by
  unfold parseFull at h
  cases hfirst : parse preamble with
  | error f =>
    rw [hfirst] at h
    cases h
  | ok first =>
    cases hown : parse source with
    | error f =>
      rw [hfirst, hown] at h
      cases h
    | ok own =>
      rw [hfirst, hown] at h
      cases h
      exact Block.Proper.append (proper_of_parse hfirst) (proper_of_parse hown)

/-- No command of a program that is generated under a valid namespace breaks its line. -/
theorem Program.newline_notMem_lines {source ns : Bytes} {p : Program} {g : Generated}
    (hns : Namespace.isValid ns = true) (hp : parseFull source = .ok p) (hg : p.generate ns = .ok g) :
    ∀ file ∈ g.files, ∀ c ∈ file, Bytes.newline ∉ c.render ns := by
  have hline := Namespace.newline_notMem hns
  have hvalue : (lineLaw hline).value (.string ns) := Value.newline_notMem_literal_string ns
  have hpart : (lineLaw hline).part (.block p.body) := proper_of_parseFull hp
  exact Gen.lawful_of_generate hvalue hpart hg

/-! ## Reading a pack back -/

namespace Bytes

variable {b : UInt8} {t : Bytes}

theorem splitOn_of_notMem (h : b ∉ t) : splitOn b t = [t] := by
  induction t with
  | nil => rfl
  | cons c t ih =>
    rw [List.mem_cons, not_or] at h
    rw [splitOn, if_neg (Ne.symm h.1), ih h.2]

theorem splitOn_append_cons (h : b ∉ t) (rest : Bytes) : splitOn b (t ++ b :: rest) = t :: splitOn b rest := by
  induction t with
  | nil => rw [List.nil_append, splitOn, if_pos rfl]
  | cons c t ih =>
    rw [List.mem_cons, not_or] at h
    rw [List.cons_append, splitOn, if_neg (Ne.symm h.1), ih h.2]

end Bytes

namespace Pack

/-- The lines of a function, read from its file: the last line break is dropped and the others
separate the lines. An empty file has no lines. -/
def decode (content : Bytes) : List Bytes :=
  if content.isEmpty then [] else Bytes.splitOn Bytes.newline content.dropLast

theorem functionText_cons (l : Bytes) (lines : List Bytes) :
    functionText (l :: lines) = l ++ Bytes.newline :: functionText lines := by
  rw [functionText, List.flatMap_cons, List.append_assoc]
  rfl

theorem decode_functionText {lines : List Bytes} (h : ∀ l ∈ lines, Bytes.newline ∉ l) :
    decode (functionText lines) = lines := by
  induction lines with
  | nil => rfl
  | cons l lines ih =>
    rw [List.forall_mem_cons] at h
    rw [functionText_cons, decode, if_neg (by simp)]
    cases lines with
    | nil =>
      have htext : (l ++ Bytes.newline :: functionText []).dropLast = l := List.dropLast_concat
      rw [htext, Bytes.splitOn_of_notMem h.1]
    | cons l' lines =>
      have hne : functionText (l' :: lines) ≠ [] := by
        rw [functionText_cons]
        exact List.append_ne_nil_of_right_ne_nil _ (List.cons_ne_nil _ _)
      have hlater := ih h.2
      rw [decode, if_neg (by simpa using hne)] at hlater
      rw [List.dropLast_append_of_ne_nil (List.cons_ne_nil _ _), List.dropLast_cons_of_ne_nil hne,
        Bytes.splitOn_append_cons h.1, hlater]

theorem fields_ofGenerated {g : Generated} {pack : Pack} (h : ofGenerated g = .ok pack) :
    pack.ns = g.ns ∧ pack.functions = g.lines ∧ pack.order = g.lines.map Prod.fst ∧ pack.load = Generated.root := by
  unfold ofGenerated at h
  cases hformat : g.format with
  | error f =>
    rw [hformat] at h
    cases h
  | ok format =>
    cases hdescription : g.description with
    | error f =>
      rw [hformat, hdescription] at h
      cases h
    | ok description =>
      rw [hformat, hdescription] at h
      cases h
      exact ⟨rfl, rfl, rfl, rfl⟩

/-- The file of each function comes at its number, behind the two files that describe the pack. -/
theorem files_ofGenerated {g : Generated} {pack : Pack} (h : ofGenerated g = .ok pack) :
    pack.ns = g.ns ∧ pack.files.length = g.files.length + 2 ∧
      ∀ i commands, g.files[i]? = some commands → pack.files[i + 2]? =
        some ⟨pack.functionPath (FileId.render i), functionText (commands.map (Command.render g.ns))⟩ := by
  obtain ⟨hns, hfunctions, horder, -⟩ := fields_ofGenerated h
  rw [g.names_lines] at horder
  refine ⟨hns, ?_, fun i commands hi => ?_⟩
  · simp only [files, horder, List.length_cons, List.length_map, List.length_range]
  · have hlt : i < g.files.length := (List.getElem?_eq_some_iff.1 hi).1
    have hlines : pack.linesOf (FileId.render i) = commands.map (Command.render g.ns) := by
      rw [linesOf, hfunctions, g.lookup_lines, hi]
      rfl
    rw [← hlines]
    simp only [files, horder, List.getElem?_cons_succ, List.getElem?_map, List.getElem?_range hlt, Option.map_some]

end Pack

theorem Program.ns_of_generate {ns : Bytes} {p : Program} {g : Generated} (h : p.generate ns = .ok g) :
    g.ns = ns := by
  unfold generate at h
  split at h
  · cases h
    rfl
  · cases h

/-- What a successful build goes through. -/
theorem build_ok {source ns : Bytes} {built : Built} : build source ns = .ok built ↔
    ∃ p g, Namespace.isValid (if ns.isEmpty then Namespace.default else ns) = true ∧
      Program.parseFull source = .ok p ∧
      p.generate (if ns.isEmpty then Namespace.default else ns) = .ok g ∧
      Pack.ofGenerated g = .ok built.pack ∧ g.warnings = built.warnings := by
  unfold build
  generalize (if ns.isEmpty then Namespace.default else ns) = name
  constructor
  · intro h
    cases hvalid : Namespace.isValid name with
    | false =>
      simp only [hvalid] at h
      cases h
    | true =>
      simp only [hvalid] at h
      cases hp : Program.parseFull source with
      | error f =>
        rw [hp] at h
        cases h
      | ok p =>
        rw [hp] at h
        change ((p.generate name).mapError BuildError.failure >>= fun g => _) = _ at h
        cases hg : p.generate name with
        | error f =>
          rw [hg] at h
          cases h
        | ok g =>
          rw [hg] at h
          change ((Pack.ofGenerated g).mapError BuildError.metadata >>= fun pack => _) = _ at h
          cases hpack : Pack.ofGenerated g with
          | error f =>
            rw [hpack] at h
            cases h
          | ok pack =>
            rw [hpack] at h
            cases h
            exact ⟨p, g, rfl, rfl, hg, hpack, rfl⟩
  · rintro ⟨p, g, hvalid, hp, hg, hpack, hwarnings⟩
    simp only [hvalid, hp]
    change ((p.generate name).mapError BuildError.failure >>= fun g => _) = _
    rw [hg]
    change ((Pack.ofGenerated g).mapError BuildError.metadata >>= fun pack => _) = _
    rw [hpack]
    change Except.ok (⟨built.pack, g.warnings⟩ : Built) = _
    rw [hwarnings]

/-- The static variables of a program are those of its scope once its statements are generated. -/
theorem Program.statics_of_generate {ns : Bytes} {p : Program} {g : Generated} (h : p.generate ns = .ok g) :
    ∃ scopes s top, Gen.atRoot.scopes.declareStatic (.ofStatic "namespace") (.string ns) 0 = .ok scopes ∧
      Gen.block (Gen.levels maxNesting) p.body { Gen.atRoot with scopes } = .ok () s ∧
      s.scopes.top = .ok top ∧ g.statics = top.staticValues := by
  unfold generate at h
  split at h
  · rename_i statics s' hrun
    cases h
    obtain ⟨f, _, hnew, hfile⟩ := Gen.bind_ok.1 hrun
    obtain ⟨rfl, rfl⟩ := Gen.newFile_ok.1 hnew
    obtain ⟨s₁, hin, rfl⟩ := Gen.writingTo_ok.1 hfile
    obtain ⟨f, fs, _, s₂, _, hw, rfl, hbody, -⟩ := Gen.inScope_ok hin
    obtain ⟨rfl, rfl⟩ : 0 = f ∧ [] = fs := List.cons.inj hw
    obtain ⟨_, _, hns, hbody⟩ := Gen.bind_ok.1 hbody
    obtain ⟨scopes, hscopes, rfl⟩ := Gen.onScopes_ok.1 hns
    obtain ⟨_, s₃, hblock, hbody⟩ := Gen.bind_ok.1 hbody
    obtain ⟨_, _, hget, hbody⟩ := Gen.bind_ok.1 hbody
    obtain ⟨rfl, rfl⟩ := Gen.get_ok.1 hget
    obtain ⟨top, _, hof, hbody⟩ := Gen.bind_ok.1 hbody
    obtain ⟨htop, rfl⟩ := Gen.ofExcept_ok.1 hof
    obtain ⟨rfl, -⟩ := Gen.pure_ok.1 hbody
    exact ⟨scopes, _, top, hscopes, hblock, htop, rfl⟩
  · cases h

theorem lookup_of_mem {α β : Type} [BEq α] [LawfulBEq α] {l : List (α × β)} (hl : (l.map Prod.fst).Nodup)
    {b : α × β} (hb : b ∈ l) :
    l.lookup b.1 = some b.2 := by
  induction l with
  | nil => cases hb
  | cons c l ih =>
    rw [List.map_cons, List.nodup_cons] at hl
    rcases List.mem_cons.1 hb with rfl | hb
    · exact List.lookup_cons_self
    · have hne : b.1 ≠ c.1 := fun h => hl.1 (h ▸ List.mem_map_of_mem hb)
      rw [List.lookup_cons, beq_false_of_ne hne]
      exact ih hl.2 hb

/-- Putting variables in order does not change what they are found to be. -/
theorem lookup_sortBy (key : Name × Value → Bytes) {l : List (Name × Value)} (hl : (l.map Prod.fst).Nodup)
    {b : Name × Value} (hb : b ∈ l) : (Bytes.sortBy key l).lookup b.1 = some b.2 := by
  have hperm : (Bytes.sortBy key l).Perm l := List.mergeSort_perm _ _
  apply lookup_of_mem
  · exact ((hperm.map Prod.fst).nodup_iff).2 hl
  · exact hperm.mem_iff.2 hb

/-- Every command of a pack is one line of it. Under the namespace of the pack the program is
generated into files of commands, none of which has a line break in it. The files of the pack
behind the two that describe it are these, in order, and each is read back into its commands,
those without any text included. -/
theorem build_decodes {source ns : Bytes} {built : Built} (h : build source ns = .ok built) :
    ∃ p g, built.pack.ns = (if ns.isEmpty then Namespace.default else ns) ∧
      Program.parseFull source = .ok p ∧ p.generate built.pack.ns = .ok g ∧
      built.pack.files.length = g.files.length + 2 ∧
      ∀ i commands, g.files[i]? = some commands →
        (∀ c ∈ commands, Bytes.newline ∉ c.render built.pack.ns) ∧
        ∃ file, built.pack.files[i + 2]? = some file ∧
          file.path = built.pack.functionPath (FileId.render i) ∧
          Pack.decode file.content = commands.map (Command.render built.pack.ns) := by
  obtain ⟨p, g, hvalid, hp, hg, hpack, -⟩ := build_ok.1 h
  obtain ⟨hns, hlength, hfiles⟩ := Pack.files_ofGenerated hpack
  have hgen := Program.ns_of_generate hg
  have hlines := Program.newline_notMem_lines hvalid hp hg
  rw [← hgen, ← hns] at hg hlines
  refine ⟨p, g, hns.trans hgen, hp, hg, hlength, fun i commands hi => ?_⟩
  have hcommands := hlines commands (List.mem_of_getElem? hi)
  refine ⟨hcommands, _, hfiles i commands hi, rfl, ?_⟩
  rw [hns] at hcommands ⊢
  apply Pack.decode_functionText
  rw [List.forall_mem_map]
  exact hcommands

/-- A program that stores a text with a line break, has a command without any text and spreads a hole
over two lines. -/
theorem build_decodes_blank : ∃ built file,
    build ("pack_format := 1; pack_description := \"d\"; $x := \"a\\nb\";\n" ++
      "/\n/say #\x7b\"p\" # \"\\\n+ \"q\" # \"\x7d\n") "" = .ok built ∧
      built.pack.files[2]? = some file ∧ Pack.decode file.content = [
        "scoreboard objectives add quill.rt dummy",
        "data modify storage quill:runtime stack set value []",
        "data modify storage quill:runtime frames set value [\x7b\x7d]",
        "data modify storage quill:runtime frames[-1].x set value \"a\\nb\"", "", "say pq"] := by
  generalize hsource : ("pack_format := 1; pack_description := \"d\"; $x := \"a\\nb\";\n" ++
    "/\n/say #\x7b\"p\" # \"\\\n+ \"q\" # \"\x7d\n" : Bytes) = source
  have hfiles : ((Program.parseFull source).bind (Program.generate "quill")).toOption.map Generated.files = some [[
      .verbatim "scoreboard objectives add quill.rt dummy",
      .verbatim "data modify storage quill:runtime stack set value []",
      .verbatim "data modify storage quill:runtime frames set value [\x7b\x7d]",
      .storeValue (.frame 1 "x") (.string "a\nb"), .verbatim "", .verbatim "say pq"]] := by
    rw [← hsource]
    decide +kernel
  have hstatics : ((Program.parseFull source).toOption.bind fun p =>
      match (Gen.atRoot.scopes.declareStatic (.ofStatic "namespace") (.string "quill") 0) with
      | .ok scopes =>
        match Gen.block (Gen.levels maxNesting) p.body { Gen.atRoot with scopes } with
        | .ok _ s => s.scopes.top.toOption.map fun top => top.statics.map fun b => (b.1, b.2.value)
        | .error _ _ => none
      | .error _ => none) = some [(.ofStatic "pack_description", .string "d"),
        (.ofStatic "pack_format", .int 1), (.ofStatic "namespace", .string "quill")] := by
    rw [← hsource]
    decide +kernel
  cases hp : Program.parseFull source with
  | error f =>
    rw [hp] at hfiles
    cases hfiles
  | ok p =>
    rw [hp] at hfiles hstatics
    cases hg : p.generate "quill" with
    | error f =>
      rw [Except.bind, hg] at hfiles
      cases hfiles
    | ok g =>
      rw [Except.bind, hg] at hfiles
      obtain ⟨scopes, s, top, hscopes, hblock, htop, hvalues⟩ := Program.statics_of_generate hg
      simp only [Except.toOption, Option.bind, hscopes, hblock, htop, Option.map] at hstatics
      rw [Scope.staticValues, Option.some.inj hstatics] at hvalues
      have hstatic {b : Name × Value} (hb : b ∈ [(.ofStatic "pack_description", .string "d"),
          (.ofStatic "pack_format", .int 1), (.ofStatic "namespace", .string "quill")]) :
          g.statics.lookup b.1 = some b.2 := by
        rw [hvalues]
        exact lookup_sortBy _ (by decide) hb
      obtain ⟨pack, hpack⟩ : ∃ pack, Pack.ofGenerated g = .ok pack := by
        have hformat := hstatic (b := (.ofStatic "pack_format", .int 1)) (by decide)
        have hdescription := hstatic (b := (.ofStatic "pack_description", .string "d")) (by decide)
        rw [Pack.ofGenerated, Generated.format, Generated.description, Generated.static?, Generated.static?,
          hformat, hdescription]
        exact ⟨_, rfl⟩
      have hbuilt : build source "" = .ok ⟨pack, g.warnings⟩ := build_ok.2 ⟨p, g, rfl, hp, hg, hpack, rfl⟩
      obtain ⟨p', g', hns, hp', hg', -, hread⟩ := build_decodes hbuilt
      rw [hns] at hg' hread
      cases hp.symm.trans hp'
      cases hg.symm.trans hg'
      have hfirst := congrArg (fun files : List (List Command) => files[0]?) (Option.some.inj hfiles)
      obtain ⟨-, file, hfile, -, hdecode⟩ := hread 0 _ hfirst
      exact ⟨_, file, hbuilt, hfile, hdecode⟩

end PackScript
