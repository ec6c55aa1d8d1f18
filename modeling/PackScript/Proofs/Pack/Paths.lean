import PackScript.Proofs.Generation.SingleLines

/-! # Where the functions of a pack are

A command runs a function by a reference, the namespace and the name with a colon between them, and
the reference stands for a path. The pack puts the function there by a join that leaves out `.` and
takes back a step at `..`. Both are namespaces, and the only ones that a join does not keep: under any
other namespace every reference leads to its function. The files of a pack never share a path.
-/
namespace PackScript

/-! ## Joined paths -/

namespace Path

variable {elements : List Bytes} {e : Bytes}

/-- A part of a path between two slashes. -/
def IsElement (e : Bytes) : Prop := e ≠ [] ∧ slash ∉ e

instance (e : Bytes) : Decidable (IsElement e) := inferInstanceAs (Decidable (_ ∧ _))

theorem join_cons_cons (e e' : Bytes) (elements : List Bytes) :
    Bytes.join "/" (e :: e' :: elements) = e ++ slash :: Bytes.join "/" (e' :: elements) := by
  rw [Bytes.join, List.append_assoc]
  rfl

theorem splitOn_join (hne : elements ≠ []) (h : ∀ e ∈ elements, IsElement e) :
    Bytes.splitOn slash (Bytes.join "/" elements) = elements := by
  induction elements with
  | nil => exact absurd rfl hne
  | cons e elements ih =>
    rw [List.forall_mem_cons] at h
    cases elements with
    | nil => exact Bytes.splitOn_of_notMem h.1.2
    | cons e' elements =>
      rw [join_cons_cons, Bytes.splitOn_append_cons h.1.2, ih (List.cons_ne_nil _ _) h.2]

theorem isRooted_append (h : IsElement e) (t : Bytes) : isRooted (e ++ t) = false := by
  cases e with
  | nil => exact absurd rfl h.1
  | cons b e =>
    rw [isRooted, List.cons_append, List.head?_cons, decide_eq_false_iff_not]
    rintro ⟨rfl⟩
    exact h.2 List.mem_cons_self

theorem isRooted_join (hne : elements ≠ []) (h : ∀ e ∈ elements, IsElement e) :
    isRooted (Bytes.join "/" elements) = false := by
  cases elements with
  | nil => exact absurd rfl hne
  | cons e elements =>
    rw [List.forall_mem_cons] at h
    cases elements with
    | nil =>
      have hrooted := isRooted_append h.1 []
      rwa [List.append_nil] at hrooted
    | cons e' elements =>
      rw [join_cons_cons]
      exact isRooted_append h.1 _

/-- Joined parts that have no slash of their own are the elements of the path, kept or not. -/
theorem join_eq_render (hne : elements ≠ []) (h : ∀ e ∈ elements, IsElement e) :
    join elements = render false (elements.foldl (append false) []).reverse := by
  have hfilter : elements.filter (· ≠ []) = elements :=
    List.filter_eq_self.2 fun e he => decide_eq_true (h e he).1
  have hclean : clean (Bytes.join "/" elements) = render false (elements.foldl (append false) []).reverse := by
    rw [clean, Path.elements, isRooted_join hne h, splitOn_join hne h]
  cases elements with
  | nil => exact absurd rfl hne
  | cons e elements =>
    rw [join, hfilter]
    exact hclean

/-- An element that is no direction is kept. -/
theorem append_of_ne {rooted : Bool} {kept : List Bytes} (h : IsElement e) (hdot : e ≠ ".") (hup : e ≠ "..") :
    append rooted kept e = e :: kept := by
  unfold append
  rw [if_neg (not_or.2 ⟨h.1, hdot⟩), if_neg hup]

end Path

/-! ## Paths of functions -/

namespace Namespace

variable {ns : Bytes}

theorem allowed_of_isValid (h : isValid ns = true) : ∀ b ∈ ns, isAllowed b = true :=
  List.all_eq_true.1 (Bool.and_eq_true_iff.1 h).2

theorem notMem_of_isValid (h : isValid ns = true) {b : UInt8} (hb : isAllowed b = false) : b ∉ ns :=
  fun hmem => Bool.false_ne_true (hb.symm.trans (allowed_of_isValid h b hmem))

theorem isElement_of_isValid (h : isValid ns = true) : Path.IsElement ns := by
  refine ⟨?_, notMem_of_isValid h (by decide)⟩
  rintro rfl
  cases h

theorem isEmpty_of_isValid (h : isValid ns = true) : ns.isEmpty = false :=
  List.isEmpty_eq_false_iff.2 (isElement_of_isValid h).1

/-- The namespace is also a direction in a path. -/
def IsDirection (ns : Bytes) : Prop := ns = "." ∨ ns = ".."

instance (ns : Bytes) : Decidable (IsDirection ns) := inferInstanceAs (Decidable (_ ∨ _))

/-- The directory of the functions. -/
def directory (ns : Bytes) : Bytes :=
  if ns = "." then "data/functions/"
  else if ns = ".." then "functions/"
  else "data/" ++ ns ++ "/functions/"

theorem directory_of_not_isDirection (h : ¬IsDirection ns) : directory ns = "data/" ++ ns ++ "/functions/" := by
  rw [IsDirection, not_or] at h
  rw [directory, if_neg h.1, if_neg h.2]

end Namespace

theorem FileId.notMem_render {b : UInt8} (hb : Decimal.isDigit b = false) (i : FileId) : b ∉ FileId.render i :=
  fun hmem => Bool.false_ne_true (hb.symm.trans ((Decimal.isNumeral_ofNat i).2 b hmem))

namespace Pack

/-- How the path of every function ends. -/
def extension : Bytes := ".mcfunction"

theorem isElement_function {name : Bytes} (h : Path.slash ∉ name) : Path.IsElement (name ++ extension) := by
  refine ⟨List.append_ne_nil_of_right_ne_nil _ (by decide), fun hmem => ?_⟩
  rcases List.mem_append.1 hmem with hmem | hmem
  · exact h hmem
  · exact absurd hmem (by decide)

theorem function_ne {name d : Bytes} (hd : d.length < extension.length) : name ++ extension ≠ d := by
  rintro rfl
  rw [List.length_append] at hd
  omega

theorem functionPath_eq {p : Pack} {name : Bytes} (hns : Namespace.isValid p.ns = true) (h : Path.slash ∉ name) :
    p.functionPath name = Namespace.directory p.ns ++ name ++ extension := by
  have hnamespace := Namespace.isElement_of_isValid hns
  have hlast := isElement_function h
  have hall : ∀ e ∈ [Bytes.ofString "data", p.ns, "functions", name ++ extension], Path.IsElement e := by
    simp only [List.forall_mem_cons, List.not_mem_nil]
    exact ⟨by decide, hnamespace, by decide, hlast, fun e he => he.elim⟩
  have hname (kept : List Bytes) : Path.append false kept (name ++ extension) = (name ++ extension) :: kept :=
    Path.append_of_ne hlast (function_ne (by decide)) (function_ne (by decide))
  rw [functionPath, ← extension, Path.join_eq_render (List.cons_ne_nil _ _) hall]
  simp only [List.foldl_cons, List.foldl_nil, hname]
  by_cases hdot : p.ns = "."
  · rw [hdot]
    rfl
  by_cases hup : p.ns = ".."
  · rw [hup]
    rfl
  · rw [Path.append_of_ne hnamespace hdot hup, Namespace.directory, if_neg hdot, if_neg hup]
    change Bytes.join "/" [Bytes.ofString "data", p.ns, "functions", name ++ extension] = _
    simp only [Bytes.join, List.append_assoc]
    rfl

theorem path_ne {t : Bytes} (ht : ¬extension <:+ t) (directory name : Bytes) : directory ++ name ++ extension ≠ t := by
  rintro rfl
  exact ht (List.suffix_append _ _)

theorem paths_ofGenerated {g : Generated} {pack : Pack} (h : ofGenerated g = .ok pack)
    (hns : Namespace.isValid g.ns = true) : pack.files.map PackFile.path =
      Bytes.ofString "pack.mcmeta" :: Bytes.ofString "data/minecraft/tags/functions/load.json" ::
        (List.range g.files.length).map fun i => Namespace.directory g.ns ++ FileId.render i ++ extension := by
  obtain ⟨hpack, -, horder, -⟩ := fields_ofGenerated h
  rw [files, horder, g.names_lines, List.map_cons, List.map_cons, List.map_map, List.map_map]
  congr 2
  apply List.map_congr_left
  intro i _
  rw [← hpack] at hns ⊢
  exact functionPath_eq hns (FileId.notMem_render (by decide) i)

/-- The files of a pack have different paths: those of the functions differ in the name, and the two
others end in another way. -/
theorem nodup_paths {g : Generated} {pack : Pack} (h : ofGenerated g = .ok pack)
    (hns : Namespace.isValid g.ns = true) : (pack.files.map PackFile.path).Nodup := by
  rw [paths_ofGenerated h hns]
  have hother {t : Bytes} (ht : ¬extension <:+ t) :
      t ∉ (List.range g.files.length).map fun i => Namespace.directory g.ns ++ FileId.render i ++ extension := by
    intro hmem
    obtain ⟨i, -, hi⟩ := List.mem_map.1 hmem
    exact path_ne ht _ _ hi
  rw [List.nodup_cons, List.nodup_cons]
  refine ⟨?_, hother (by decide), ?_⟩
  · rw [List.mem_cons, not_or]
    exact ⟨by decide, hother (by decide)⟩
  · rw [List.Nodup, List.pairwise_map]
    refine List.Pairwise.imp (fun hne heq => hne ?_) List.nodup_range
    exact FileId.render_inj (List.append_cancel_left (List.append_cancel_right heq))

/-! ## References -/

/-- The path that a reference stands for. -/
def referencePath? (reference : Bytes) : Option Bytes :=
  match Bytes.splitOn 58 reference with
  | [ns, name] => some ("data/" ++ ns ++ "/functions/" ++ name ++ extension)
  | _ => none

theorem referencePath?_target {ns : Bytes} (hns : Namespace.isValid ns = true) (i : FileId) :
    referencePath? (Command.target ns i) = some ("data/" ++ ns ++ "/functions/" ++ FileId.render i ++ extension) := by
  have hsplit : Bytes.splitOn 58 (Command.target ns i) = [ns, FileId.render i] := by
    rw [Command.target, List.append_assoc]
    change Bytes.splitOn 58 (ns ++ 58 :: FileId.render i) = _
    rw [Bytes.splitOn_append_cons (Namespace.notMem_of_isValid hns (by decide)),
      Bytes.splitOn_of_notMem (FileId.notMem_render (by decide) i)]
  rw [referencePath?, hsplit]

/-- The reference stands for the path of a file of the pack, and the file has these commands. -/
def Leads (p : Pack) (reference : Bytes) (commands : List Command) : Prop :=
  ∃ path, referencePath? reference = some path ∧
    ⟨path, functionText (commands.map (Command.render p.ns))⟩ ∈ p.files

/-- Where a direction led the join elsewhere, there is nothing at the path with the direction in it. -/
theorem reference_notMem {ns : Bytes} (h : Namespace.IsDirection ns) (i j : FileId) :
    "data/" ++ ns ++ "/functions/" ++ FileId.render i ++ extension ≠
      Namespace.directory ns ++ FileId.render j ++ extension := by
  intro heq
  rcases h with rfl | rfl
  · have hbyte : some (46 : UInt8) = some 102 := congrArg (fun path : Bytes => path[5]?) heq
    exact absurd hbyte (by decide)
  · have hbyte : some (100 : UInt8) = some 102 := congrArg (fun path : Bytes => path[0]?) heq
    exact absurd hbyte (by decide)

theorem leads_iff {g : Generated} {pack : Pack} (h : ofGenerated g = .ok pack) (hns : Namespace.isValid g.ns = true)
    {i : FileId} {commands : List Command} (hi : g.files[i]? = some commands) :
    pack.Leads (Command.target g.ns i) commands ↔ ¬Namespace.IsDirection g.ns := by
  obtain ⟨hpack, -, hfiles⟩ := files_ofGenerated h
  rw [Leads, referencePath?_target hns]
  constructor
  · rintro ⟨_, ⟨rfl⟩, hmem⟩ hdirection
    have hpath := List.mem_map_of_mem (f := PackFile.path) hmem
    rw [paths_ofGenerated h hns, List.mem_cons, List.mem_cons, List.mem_map] at hpath
    rcases hpath with hpath | hpath | ⟨j, -, hpath⟩
    · exact path_ne (by decide) _ _ hpath
    · exact path_ne (by decide) _ _ hpath
    · exact reference_notMem hdirection i j hpath.symm
  · intro hdirection
    have hfile := List.mem_of_getElem? (hfiles i commands hi)
    rw [← hpack] at hns hfile hdirection ⊢
    rw [functionPath_eq hns (FileId.notMem_render (by decide) i),
      Namespace.directory_of_not_isDirection hdirection] at hfile
    exact ⟨_, rfl, hfile⟩

end Pack

/-! ## The tag for loading -/

namespace Json

/-- A byte that a text is quoted with as it is. -/
def IsVerbatim (b : UInt8) : Prop := b < 0x80 ∧ escape (Char.ofNat b.toNat) = [b]

instance (b : UInt8) : Decidable (IsVerbatim b) := inferInstanceAs (Decidable (_ ∧ _))

theorem quote_of_isVerbatim {t : Bytes} (h : ∀ b ∈ t, IsVerbatim b) : quote t = "\"" ++ t ++ "\"" := by
  have hchars : (Utf8.chars t).flatMap escape = t := by
    induction t with
    | nil =>
      rw [Utf8.chars, Utf8.pieces]
      rfl
    | cons b t ih =>
      rw [List.forall_mem_cons] at h
      rw [Utf8.chars, Utf8.pieces, Utf8.first?, if_pos h.1.1]
      change escape (Char.ofNat b.toNat) ++ (Utf8.chars t).flatMap escape = _
      rw [h.1.2, ih h.2]
      rfl
  rw [quote, hchars]

theorem isVerbatim_of_isAllowed {b : UInt8} (h : Namespace.isAllowed b = true) : IsVerbatim b := by
  have hall : ∀ n < 256, Namespace.isAllowed (UInt8.ofNat n) = true → IsVerbatim (UInt8.ofNat n) := by
    decide +kernel
  have hb := hall b.toNat b.toNat_lt
  rw [UInt8.ofNat_toNat] at hb
  exact hb h

end Json

namespace Pack

theorem document_loadTag {p : Pack} (h : ∀ b ∈ p.loadTarget, Json.IsVerbatim b) :
    document p.loadTag = "\x7b\n  \"values\": [\n    \"" ++ p.loadTarget ++ "\"\n  ]\n\x7d\n" := by
  have hallowed : ("values" : Bytes).all Namespace.isAllowed = true := by decide
  have hvalues : Json.quote "values" = "\"" ++ "values" ++ "\"" :=
    Json.quote_of_isVerbatim fun b hb => Json.isVerbatim_of_isAllowed (List.all_eq_true.1 hallowed b hb)
  simp only [document, loadTag, Json.indented, Json.indentedFields, Json.indentedItems, hvalues,
    Json.quote_of_isVerbatim h, Json.bracketed, List.isEmpty_cons, Bytes.join, Bool.false_eq_true, if_false,
    List.append_assoc]
  rfl

end Pack

/-! ## Packs of fixed programs -/

/-- The static variables of the program at its end, in no order. -/
def Program.staticsAtEnd? (ns : Bytes) (p : Program) : Option (List (Name × Value)) :=
  match Gen.atRoot.scopes.declareStatic (.ofStatic "namespace") (.string ns) 0 with
  | .ok scopes =>
    match Gen.block (Gen.levels maxNesting) p.body { Gen.atRoot with scopes } with
    | .ok _ s => s.scopes.top.toOption.map fun top => top.statics.map fun b => (b.1, b.2.value)
    | .error _ _ => none
  | .error _ => none

theorem Program.lookup_statics {ns : Bytes} {p : Program} {g : Generated} {statics : List (Name × Value)}
    (hg : p.generate ns = .ok g) (h : p.staticsAtEnd? ns = some statics) (hnodup : (statics.map Prod.fst).Nodup)
    {b : Name × Value} (hb : b ∈ statics) : g.statics.lookup b.1 = some b.2 := by
  obtain ⟨scopes, s, top, hscopes, hblock, htop, hvalues⟩ := statics_of_generate hg
  simp only [staticsAtEnd?, hscopes, hblock, htop, Except.toOption, Option.map] at h
  rw [hvalues, Scope.staticValues, Option.some.inj h]
  exact lookup_sortBy _ hnodup hb

/-- A program that is generated and has set its format and description is a pack. -/
theorem build_of_statics {source ns : Bytes} (hns : Namespace.isValid ns = true) {files : List (List Command)}
    {statics : List (Name × Value)} {format : Int32} {description : Bytes}
    (hfiles : ((Program.parseFull source).bind (Program.generate ns)).toOption.map Generated.files = some files)
    (hstatics : (Program.parseFull source).toOption.bind (Program.staticsAtEnd? ns) = some statics)
    (hnodup : (statics.map Prod.fst).Nodup) (hformat : (.ofStatic "pack_format", .int format) ∈ statics)
    (hdescription : (.ofStatic "pack_description", .string description) ∈ statics) :
    ∃ p g built, Program.parseFull source = .ok p ∧ p.generate ns = .ok g ∧ g.files = files ∧
      Pack.ofGenerated g = .ok built.pack ∧ build source ns = .ok built := by
  cases hp : Program.parseFull source with
  | error f =>
    rw [hp] at hfiles
    cases hfiles
  | ok p =>
    rw [hp] at hfiles hstatics
    cases hg : p.generate ns with
    | error f =>
      rw [Except.bind, hg] at hfiles
      cases hfiles
    | ok g =>
      rw [Except.bind, hg] at hfiles
      obtain ⟨pack, hpack⟩ : ∃ pack, Pack.ofGenerated g = .ok pack := by
        rw [Pack.ofGenerated, Generated.format, Generated.description, Generated.static?, Generated.static?,
          Program.lookup_statics hg hstatics hnodup hformat, Program.lookup_statics hg hstatics hnodup hdescription]
        exact ⟨_, rfl⟩
      refine ⟨p, g, ⟨pack, g.warnings⟩, rfl, hg, Option.some.inj hfiles, hpack, build_ok.2 ⟨p, g, ?_, hp, ?_, hpack, rfl⟩⟩
      · rw [Namespace.isEmpty_of_isValid hns]
        exact hns
      · rw [Namespace.isEmpty_of_isValid hns]
        exact hg

/-! ## Paths and references of a pack -/

/-- The paths of a pack are different, whatever its namespace. Its tag for loading refers to the function
of the program itself, and every command that runs a function ends in a reference to it. Unless the
namespace is a direction, every function is at the path that its reference stands for. If it is one, no
reference stands for the path of a function. -/
theorem build_paths {source ns : Bytes} {built : Built} (hns : Namespace.isValid ns = true)
    (h : build source ns = .ok built) : ∃ p g, Program.parseFull source = .ok p ∧ p.generate ns = .ok g ∧
      (built.pack.files.map PackFile.path).Nodup ∧
      (0 < g.files.length ∧ built.pack.files[1]? = some ⟨"data/minecraft/tags/functions/load.json",
        "\x7b\n  \"values\": [\n    \"" ++ Command.target ns 0 ++ "\"\n  ]\n\x7d\n"⟩) ∧
      (∀ file ∈ g.files, ∀ c ∈ file, ∀ t, c.runs? = some t →
        t < g.files.length ∧ ∃ before, c.render ns = before ++ Command.target ns t) ∧
      ∀ i commands, g.files[i]? = some commands →
        built.pack.files[i + 2]? = some ⟨Namespace.directory ns ++ FileId.render i ++ ".mcfunction",
          Pack.functionText (commands.map (Command.render ns))⟩ ∧
        (¬Namespace.IsDirection ns → Namespace.directory ns = "data/" ++ ns ++ "/functions/") ∧
        (built.pack.Leads (Command.target ns i) commands ↔ ¬Namespace.IsDirection ns) := by
  obtain ⟨p, g, -, hp, hg, hpack, -⟩ := build_ok.1 h
  rw [Namespace.isEmpty_of_isValid hns, if_neg Bool.false_ne_true] at hg
  obtain rfl := Program.ns_of_generate hg
  obtain ⟨hpackns, -, hfiles⟩ := Pack.files_ofGenerated hpack
  refine ⟨p, g, hp, hg, Pack.nodup_paths hpack hns, ⟨Gen.files_pos hg, ?_⟩, ?_, ?_⟩
  · have htarget : built.pack.loadTarget = Command.target g.ns 0 := by
      rw [Pack.loadTarget, hpackns, (Pack.fields_ofGenerated hpack).2.2.2]
      rfl
    have hverbatim : ∀ b ∈ built.pack.loadTarget, Json.IsVerbatim b := by
      rw [htarget, Command.target]
      intro b hb
      rcases List.mem_append.1 hb with hb | hb
      · rcases List.mem_append.1 hb with hb | hb
        · exact Json.isVerbatim_of_isAllowed (Namespace.allowed_of_isValid hns b hb)
        · obtain rfl : b = 58 := List.mem_singleton.1 hb
          decide
      · obtain rfl : b = 48 := List.mem_singleton.1 hb
        decide
    rw [← htarget, ← Pack.document_loadTag hverbatim]
    rfl
  · intro file hfile c hc t ht
    exact ⟨(Gen.exists_of_runs hg hfile hc ht).1, Command.render_of_runs ht g.ns⟩
  · intro i commands hi
    have hfile := hfiles i commands hi
    rw [Pack.functionPath_eq (hpackns ▸ hns) (FileId.notMem_render (by decide) i), hpackns] at hfile
    exact ⟨hfile, Namespace.directory_of_not_isDirection, Pack.leads_iff hpack hns hi⟩

/-- A branch is a function of its own, under a namespace with a dot and a dash in it. -/
theorem build_paths_branch : Namespace.isValid "a.-b" = true ∧ ∃ built,
    build ("pack_format := 48; pack_description := \"x\"; $b := 1;\n" ++ "if $b \x7b\n/say a\n\x7d\n") "a.-b" =
      .ok built ∧
    (built.pack.files.map PackFile.path).Nodup ∧
    built.pack.files[3]? = some ⟨"data/a.-b/functions/1.mcfunction", "say a\n"⟩ ∧
    Command.target "a.-b" 1 = "a.-b:1" ∧ built.pack.Leads "a.-b:1" [.verbatim "say a"] := by
  generalize hsource : ("pack_format := 48; pack_description := \"x\"; $b := 1;\n" ++
    "if $b \x7b\n/say a\n\x7d\n" : Bytes) = source
  have hns : Namespace.isValid "a.-b" = true := by decide
  have hrun : ((Program.parseFull source).bind (Program.generate "a.-b")).toOption.map Generated.files = some [[
        .verbatim "scoreboard objectives add a.-b.rt dummy",
        .verbatim "data modify storage a.-b:runtime stack set value []",
        .verbatim "data modify storage a.-b:runtime frames set value [\x7b\x7d]",
        .storeValue (.frame 1 "b") (.int 1), .pushFrom (.frame 1 "b"), .load .condition 1, .runIf 1, .pop],
        [.verbatim "say a"]] ∧
      (Program.parseFull source).toOption.bind (Program.staticsAtEnd? "a.-b") = some [
        (.ofStatic "pack_description", .string "x"), (.ofStatic "pack_format", .int 48),
        (.ofStatic "namespace", .string "a.-b")] := by
    rw [← hsource]
    decide +kernel
  obtain ⟨p, g, built, hp, hg, hfiles, -, hbuilt⟩ := build_of_statics hns hrun.1 hrun.2 (by decide)
    (List.mem_cons_of_mem _ List.mem_cons_self) List.mem_cons_self
  obtain ⟨p', g', hp', hg', hnodup, -, -, hfunctions⟩ := build_paths hns hbuilt
  cases hp.symm.trans hp'
  cases hg.symm.trans hg'
  have hbranch : g.files[1]? = some [.verbatim "say a"] := by
    rw [hfiles]
    rfl
  obtain ⟨hfile, -, hleads⟩ := hfunctions 1 _ hbranch
  exact ⟨hns, built, hbuilt, hnodup, hfile, rfl, hleads.2 (by decide)⟩

/-- The namespace `.` is lost in the path of the program, and the reference for loading stands for a path
that is not there. -/
theorem build_loses_direction : Namespace.isValid "." = true ∧ ∃ built,
    build "pack_format := 48;\npack_description := \"x\";\n" "." = .ok built ∧
    built.pack.files.map PackFile.path = [Bytes.ofString "pack.mcmeta",
      Bytes.ofString "data/minecraft/tags/functions/load.json", Bytes.ofString "data/functions/0.mcfunction"] ∧
    built.pack.loadTarget = ".:0" ∧ Pack.referencePath? ".:0" = some "data/./functions/0.mcfunction" := by
  have hns : Namespace.isValid "." = true := by decide
  have hrun : ((Program.parseFull "pack_format := 48;\npack_description := \"x\";\n").bind
        (Program.generate ".")).toOption.map Generated.files = some [[
        .verbatim "scoreboard objectives add ..rt dummy",
        .verbatim "data modify storage .:runtime stack set value []",
        .verbatim "data modify storage .:runtime frames set value [\x7b\x7d]"]] ∧
      (Program.parseFull "pack_format := 48;\npack_description := \"x\";\n").toOption.bind
        (Program.staticsAtEnd? ".") = some [(.ofStatic "pack_description", .string "x"),
          (.ofStatic "pack_format", .int 48), (.ofStatic "namespace", .string ".")] := by
    decide +kernel
  obtain ⟨p, g, built, -, hg, hfiles, hpack, hbuilt⟩ := build_of_statics hns hrun.1 hrun.2 (by decide)
    (List.mem_cons_of_mem _ List.mem_cons_self) List.mem_cons_self
  have hgns := Program.ns_of_generate hg
  have hpaths := Pack.paths_ofGenerated hpack (hgns ▸ hns)
  rw [hgns, hfiles] at hpaths
  obtain ⟨hpackns, -, -, hload⟩ := Pack.fields_ofGenerated hpack
  refine ⟨hns, built, hbuilt, hpaths, ?_, by decide⟩
  rw [Pack.loadTarget, hpackns, hgns, hload]
  rfl

end PackScript
