import PackScript.Build
import PackScript.Proofs.Generation.BlockBlame
import PackScript.Proofs.Generation.DeclarationOrder
import PackScript.Proofs.Generation.Termination

/-! # The common beginning of packs

The commands that every pack begins with name nothing but the namespace. When their turn comes, the
functions of the program have been declared and some of their bodies generated, but none of that can
change the namespace at the root: it was declared while the first file was being written, and all
those bodies are written to other files. So these commands never fail, and an error of a pack is
one of the program itself.
-/
namespace PackScript

namespace Gen

variable {own : FileId → Prop} {i : Nat} {deeper : Deeper}

/-- The bodies of functions leave the scopes around them alone, whoever owns the current file. -/
theorem apart_reservedBodies (hdeep : deeper.Tame) (b : List Stmt) (files : List (Option FileId))
    (hown : ∀ g, some g ∈ files → own g) : Apart own i (reservedBodies deeper b files) := by
  have hdone : Apart own i (pure () : Gen Unit) := fun s _ _ => .refl own i false s
  induction b generalizing files with
  | nil =>
    rw [reservedBodies.eq_def]
    exact hdone
  | cons st b ih =>
    rw [reservedBodies.eq_def]
    cases files with
    | nil => cases st <;> exact hdone
    | cons o files =>
      have hlater : Apart own i (reservedBodies deeper b files) :=
        ih files fun g hg => hown g (List.mem_cons_of_mem o hg)
      cases st with
      | define span sig body =>
        cases o with
        | none => exact hlater
        | some file =>
          intro s hclear hs
          have hbody : Tame own i true (block deeper body) := (tame_block hdeep body).imp fun _ => rfl
          refine confined_bind (confined_functionBody hclear (hown file List.mem_cons_self) _ _ hbody) ?_
          exact fun _ s₁ _ hc => hlater (hclear.confined hc) (hc.scopes_ne_nil hs)
      | command _ _ _ => exact hlater
      | cond _ _ _ _ => exact hlater
      | assign _ _ _ _ _ => exact hlater
      | call _ _ _ => exact hlater
      | ret _ _ => exact hlater

end Gen

/-! ## The opening of a program -/

/-- No scope is open but that of the program, whose only static variable is the namespace, and only the
first file is being written. -/
structure GenState.Opening (ns : Bytes) (s : GenState) : Prop where
  writing : s.writing = [0]
  size : 0 < s.files.size
  scopes : ∃ t, s.scopes.scopes = [t] ∧ t.kind = .root ∧
    t.statics = [(.ofStatic "namespace", ⟨.string ns, 0⟩)]

namespace GenState.Opening

variable {ns : Bytes} {s s' : GenState}

theorem atRoot (h : s.Opening ns) : s.AtRoot := by
  obtain ⟨t, ht, hk, -⟩ := h.scopes
  exact ⟨t, [], ht, hk⟩

theorem announced (h : s.Opening ns) (b : Block) : (s.announced b).Opening ns := by
  obtain ⟨t, ht, hk, hstatics⟩ := h.scopes
  refine ⟨h.writing, h.size, { t with hoisted := b.foldl Stmt.announce t.hoisted }, ?_, hk, hstatics⟩
  rw [GenState.announced, ScopeStack.announced_of_scopes ht]
  rfl

theorem write (h : s.Opening ns) (c : Command) : (s.write 0 c).Opening ns := by
  refine ⟨h.writing, ?_, h.scopes⟩
  rw [size_write]
  exact h.size

theorem define (h : s.Opening ns) {span : Span} {sig : Signature} {body : Block} {o : Option FileId}
    (hd : Gen.declareAhead true (.define span sig body) s = .ok o s') : s'.Opening ns := by
  obtain ⟨t, ht, hk, hstatics⟩ := h.scopes
  cases hr : s.scopes.register ⟨span, sig, body⟩ with
  | error f =>
    rw [Gen.declareAhead_define_error hr] at hd
    cases hd
  | ok r =>
    obtain ⟨i, scopes⟩ := r
    obtain ⟨t', outer', ht', -, -, rfl⟩ := ScopeStack.register_ok hr
    obtain ⟨rfl, rfl⟩ : t = t' ∧ [] = outer' := List.cons.inj (ht.symm.trans ht')
    rw [Gen.declareAhead_define_ok hr] at hd
    split at hd
    · cases hd
      refine ⟨h.writing, ?_, _, rfl, hk, hstatics⟩
      change 0 < s.mint.files.size
      rw [size_mint]
      exact Nat.succ_pos _
    · cases hd
      exact ⟨h.writing, h.size, _, rfl, hk, hstatics⟩

theorem definitions (h : s.Opening ns) {b : Block} (hb : ∀ d ∈ b, d.isDefinition = true)
    {files : List (Option FileId)} (hd : b.mapM (Gen.declareAhead true) s = .ok files s') : s'.Opening ns := by
  induction b generalizing s files with
  | nil =>
    rw [List.mapM_nil] at hd
    obtain ⟨-, rfl⟩ := Gen.pure_ok.1 hd
    exact h
  | cons d b ih =>
    rw [List.forall_mem_cons] at hb
    rw [List.mapM_cons] at hd
    obtain ⟨o, s₁, hfirst, hd⟩ := Gen.bind_ok.1 hd
    obtain ⟨os, s₂, hlater, hd⟩ := Gen.bind_ok.1 hd
    obtain ⟨-, rfl⟩ := Gen.pure_ok.1 hd
    cases d with
    | define span sig body => exact ih (h.define hfirst) hb.2 hlater
    | _ => cases hb.1

/-- The bodies of functions go to other files than the first one. -/
theorem reservedBodies (h : s.Opening ns) {deeper : Deeper} (hdeep : deeper.Tame) {b : List Stmt}
    {files : List (Option FileId)} (hfiles : ∀ g, some g ∈ files → 0 < g)
    (hb : Gen.reservedBodies deeper b files s = .ok () s') : s'.Opening ns := by
  obtain ⟨t, ht, hk, hstatics⟩ := h.scopes
  have hclear : s.Clear (0 < ·) 0 := ⟨fun f hf => Nat.lt_of_lt_of_le h.size hf, Nat.zero_le _⟩
  have hopen : s.scopes.scopes ≠ [] := by
    rw [ht]
    exact List.cons_ne_nil _ _
  have hc := Gen.apart_reservedBodies hdeep b files hfiles hclear hopen
  rw [Gen.after_of_ok hb] at hc
  have hinner := hc.inner rfl
  rw [ht] at hinner
  obtain ⟨t', rest, hspared, hrest, ht'⟩ := List.forall₂_cons_left_iff.1 hinner
  obtain rfl := List.forall₂_nil_left_iff.1 hrest
  refine ⟨hc.writing.trans h.writing, Nat.lt_of_lt_of_le h.size hc.size, t', ht', hspared.kind.trans hk, ?_⟩
  rw [hspared.statics, hstatics]
  rw [hstatics]
  exact List.forall_mem_singleton.2 (Nat.lt_irrefl 0)

theorem lookupStatic (h : s.Opening ns) (span : Span) :
    s.scopes.lookupStatic (.ofStatic "namespace") span = .ok (.string ns) := by
  obtain ⟨t, ht, -, hstatics⟩ := h.scopes
  have hfind : s.scopes.findStatic? (.ofStatic "namespace") = some ⟨.string ns, 0⟩ := by
    rw [ScopeStack.findStatic?, ht, List.findSome?_cons, hstatics]
    rfl
  rw [ScopeStack.lookupStatic, hfind]

end GenState.Opening

/-! ## Commands that name the namespace -/

/-- A command whose holes hold nothing but the namespace. -/
def Stmt.namesNamespace : Stmt → Bool
  | .command _ parts _ => parts.all fun part =>
    match part.2 with
    | .var _ n => n = .ofStatic "namespace"
    | _ => false
  | _ => false

namespace Gen

variable {ns : Bytes} {s : GenState}

/-- Text that can stand in a command. -/
def IsInline (ns : Bytes) : Prop := (ns.any fun b => b = 10 || b = 13) = false

theorem commandText_of_opening (deeper : Deeper) (hns : IsInline ns) (h : s.Opening ns) {parts : List (Bytes × Expr)}
    (hparts : ∀ part ∈ parts, ∃ span, part.2 = .var span (.ofStatic "namespace")) :
    ∃ text, commandText deeper parts s = .ok text s := by
  induction parts with
  | nil => exact ⟨[], rfl⟩
  | cons part parts ih =>
    rw [List.forall_mem_cons] at hparts
    obtain ⟨literal, e⟩ := part
    obtain ⟨⟨span, rfl⟩, hlater⟩ := hparts
    obtain ⟨text, htext⟩ := ih hlater
    have hfold : fold deeper (.var span (.ofStatic "namespace")) s = .ok (.string ns) s := by
      rw [fold.eq_def]
      refine (bind_of_ok (get_ok.2 ⟨rfl, rfl⟩)).trans ?_
      rw [h.lookupStatic]
      rfl
    refine ⟨literal ++ (Value.string ns).render ++ text, ?_⟩
    rw [commandText, bind_of_ok hfold]
    have hcontent : ((Value.string ns).content.any fun b => b = 10 || b = 13) = false := hns
    rw [hcontent]
    exact (bind_of_ok htext).trans rfl

theorem statement_of_opening (deeper : Deeper) (hns : IsInline ns) (h : s.Opening ns) {st : Stmt}
    (hst : st.namesNamespace = true) : ∃ c, statement deeper st s = .ok () (s.write 0 c) := by
  cases st with
  | command span parts tail =>
    have hparts : ∀ part ∈ parts, ∃ span, part.2 = .var span (.ofStatic "namespace") := by
      intro part hpart
      have hnames := List.all_eq_true.1 hst part hpart
      obtain ⟨literal, e⟩ := part
      cases e with
      | var span n => exact ⟨span, congrArg _ (of_decide_eq_true hnames)⟩
      | _ => cases hnames
    obtain ⟨text, htext⟩ := commandText_of_opening deeper hns h hparts
    refine ⟨.verbatim (text ++ tail), ?_⟩
    rw [statement, bind_of_ok htext]
    exact emit_ok.2 ⟨0, [], h.writing, rfl⟩
  | _ => cases hst

/-- Such commands are written without touching the scopes. -/
theorem statements_of_opening (deeper : Deeper) (hns : IsInline ns) (h : s.Opening ns) {b : List Stmt}
    (hb : ∀ st ∈ b, st.namesNamespace = true) :
    ∃ s', statements deeper b s = .ok () s' ∧ s'.scopes = s.scopes := by
  induction b generalizing s with
  | nil => exact ⟨s, rfl, rfl⟩
  | cons st b ih =>
    rw [List.forall_mem_cons] at hb
    obtain ⟨c, hfirst⟩ := statement_of_opening deeper hns h hb.1
    obtain ⟨s', hlater, hscopes⟩ := ih (h.write c) hb.2
    refine ⟨s', ?_, hscopes⟩
    rw [statements, bind_of_ok hfirst, hlater]

theorem statements_append (deeper : Deeper) (b b' : List Stmt) :
    statements deeper (b ++ b') = (do statements deeper b; statements deeper b') := by
  induction b with
  | nil => rfl
  | cons st b ih => rw [List.cons_append, statements, statements, ih, bind_assoc]

/-! ## Errors of whole programs -/

variable {d : Diagnostic} {s' : GenState}

/-- An error with a place comes from inside the scope of the program. -/
theorem insideRoot_of_program {p : Program} (h : outcome (program ns p) {} = .error (.diagnostic d)) :
    ∃ s', insideRoot ns p.body atRoot = .error (.diagnostic d) s' := by
  rw [outcome_program] at h
  cases hw : writingTo 0 (inScope .root (insideRoot ns p.body)) ({} : GenState).mint with
  | ok a s₁ =>
    rw [outcome_of_ok hw] at h
    cases h
  | error f s₁ =>
    rw [outcome_of_error hw] at h
    cases h
    unfold writingTo at hw
    rcases bind_error hw with hw | ⟨_, _, hopen, hw⟩
    · cases hw
    obtain rfl := modify_ok.1 hopen
    rcases finally_error hw with ⟨s₂, hw⟩ | ⟨s₂, hw⟩
    · unfold inScope at hw
      rcases bind_error hw with hw | ⟨file, _, hfile, hw⟩
      · cases hw
      obtain ⟨⟨files, hwriting⟩, rfl⟩ := currentFile_ok.1 hfile
      cases hwriting
      rcases finally_error hw with ⟨s₃, hw⟩ | ⟨s₃, hw⟩
      · rcases bind_error hw with hw | ⟨_, _, -, hw⟩
        · exact ⟨s₃, hw⟩
        · cases hw
      · exact absurd hw (@quiet_closeScope s₃ d _)
    · cases hw

/-- The statements of a program start in its opening, with no function declared. -/
theorem block_of_insideRoot {b : Block} (h : insideRoot ns b atRoot = .error (.diagnostic d) s') :
    ∃ s₁ : GenState, s₁.Opening ns ∧ s₁.scopes.entries = [] ∧
      outcome (block (levels maxNesting) b) s₁ = .error (.diagnostic d) := by
  unfold insideRoot at h
  rcases bind_error h with h | ⟨_, s₁, hns, h⟩
  · exact absurd h (@quiet_declareStatic _ _ _ _ d _)
  obtain ⟨scopes, hscopes, rfl⟩ := onScopes_ok.1 hns
  have hopening : GenState.Opening ns { atRoot with scopes } := by
    cases hscopes
    exact ⟨rfl, Nat.succ_pos 0, _, rfl, rfl, rfl⟩
  have hentries : scopes.entries = [] := by
    cases hscopes
    rfl
  refine ⟨_, hopening, hentries, ?_⟩
  rcases bind_error h with h | ⟨_, s₂, -, h⟩
  · exact outcome_of_error h
  · rcases bind_error h with h | ⟨t, s₃, -, h⟩
    · cases h
    rcases bind_error h with h | ⟨_, _, -, h⟩
    · exact absurd h (@quiet_top t s₃ d _)
    · cases h

theorem ok_of_outcome {α : Type} {m : Gen α} {a : α} (h : outcome m s = .ok (a, s')) : m s = .ok a s' := by
  cases hm : m s with
  | ok b s₁ =>
    rw [outcome_of_ok hm] at h
    cases h
    rfl
  | error f s₁ =>
    rw [outcome_of_error hm] at h
    cases h

theorem error_of_outcome {α : Type} {m : Gen α} {f : Failure} (h : outcome m s = .error f) :
    ∃ s', m s = .error f s' := by
  cases hm : m s with
  | ok b s₁ =>
    rw [outcome_of_ok hm] at h
    cases h
  | error g s₁ =>
    rw [outcome_of_error hm] at h
    cases h
    exact ⟨s₁, rfl⟩

end Gen

namespace Block

theorem not_isDefinition_of_namesNamespace {st : Stmt} (h : st.namesNamespace = true) : st.isDefinition = false := by
  cases st with
  | define span sig body => cases h
  | _ => rfl

theorem definitions_behind {first : Block} (h : ∀ st ∈ first, st.namesNamespace = true) (b : Block) :
    definitions (first ++ b) = definitions b := by
  have hnone : definitions first = [] := by
    refine List.filter_eq_nil_iff.2 fun st hst => ?_
    rw [not_isDefinition_of_namesNamespace (h st hst)]
    exact Bool.false_ne_true
  rw [definitions, List.filter_append]
  exact congrArg (· ++ definitions b) hnone

theorem actions_behind {first : Block} (h : ∀ st ∈ first, st.namesNamespace = true) (b : Block) :
    actions (first ++ b) = first ++ actions b := by
  have hall : actions first = first := by
    refine List.filter_eq_self.2 fun st hst => ?_
    rw [not_isDefinition_of_namesNamespace (h st hst)]
    rfl
  rw [actions, List.filter_append]
  exact congrArg (· ++ actions b) hall

end Block

theorem ScopeStack.entries_announced {φ : Type} (b : Block) (s : ScopeStack φ) :
    (s.announced b).entries = s.entries := by
  obtain ⟨scopes, nextId⟩ := s
  cases scopes with
  | nil => rfl
  | cons t outer => rfl

/-- An error in a program behind commands that name only the namespace has the place of a part of the
program itself. -/
theorem Program.part_of_generate_error {first : Block} {own : Program} {ns : Bytes} {stop : Span} {d : Diagnostic}
    (hfirst : ∀ st ∈ first, st.namesNamespace = true) (hns : Gen.IsInline ns)
    (h : generate ns ⟨first ++ own.body, stop⟩ = .error (.diagnostic d)) :
    ∃ node, Node.HasPart (.block own.body) node ∧ node.span? = some d.span := by
  have hblames := Gen.blames_levels (partLaw own) maxNesting
  have hparts : ∀ st ∈ own.body, (partLaw own).part (.stmt st) :=
    fun st hst => .child .refl (List.mem_map_of_mem hst)
  have hdefinitions : ∀ st ∈ Block.definitions own.body, (partLaw own).part (.stmt st) :=
    fun st hst => hparts st (List.mem_filter.1 hst).1
  have hactions : ∀ st ∈ Block.actions own.body, (partLaw own).part (.stmt st) :=
    fun st hst => hparts st (List.mem_filter.1 hst).1
  have hprogram : Gen.outcome (Gen.program ns ⟨first ++ own.body, stop⟩) {} = .error (.diagnostic d) := by
    unfold generate EStateM.run at h
    cases hrun : Gen.program ns ⟨first ++ own.body, stop⟩ {} with
    | ok statics s =>
      rw [hrun] at h
      cases h
    | error f s =>
      rw [hrun] at h
      cases h
      exact Gen.outcome_of_error hrun
  obtain ⟨s', hinside⟩ := Gen.insideRoot_of_program hprogram
  obtain ⟨s, hopening, hentries, hblock⟩ := Gen.block_of_insideRoot hinside
  rw [Gen.outcome_block hopening.atRoot, Block.definitions_behind hfirst, Block.actions_behind hfirst] at hblock
  replace hopening := hopening.announced (first ++ Block.actions own.body)
  have hobeys : (s.announced (first ++ Block.actions own.body)).Obeys (partLaw own) := by
    refine GenState.obeys_partLaw.2 fun e he => ?_
    rw [GenState.announced, ScopeStack.entries_announced, hentries] at he
    cases he
  generalize s.announced (first ++ Block.actions own.body) = s at hopening hobeys hblock
  cases hdeclared : Gen.outcome ((Block.definitions own.body).mapM (Gen.declareAhead true)) s with
  | error f =>
    rw [hdeclared] at hblock
    cases hblock
    obtain ⟨s₁, herror⟩ := Gen.error_of_outcome hdeclared
    exact (Gen.blames_declareAheads true hdefinitions).blamed hobeys herror d rfl
  | ok r =>
    obtain ⟨files, s₁⟩ := r
    rw [hdeclared] at hblock
    replace hdeclared := Gen.ok_of_outcome hdeclared
    have hopening₁ := hopening.definitions (fun st hst => (List.mem_filter.1 hst).2) hdeclared
    have hobeys₁ := ((Gen.blames_declareAheads true hdefinitions).lawful hobeys hdeclared).1
    have hfiles : ∀ g, some g ∈ files → 0 < g := fun g hg =>
      Nat.lt_of_lt_of_le hopening.size ((Gen.declareAheads_new hdeclared).2 g hg).1
    have hbodies := Gen.blames_reservedBodies hblames (Block.definitions own.body) hdefinitions files
    obtain ⟨s₂, herror⟩ := Gen.error_of_outcome hblock
    rcases Gen.bind_error herror with herror | ⟨_, s₃, hreserved, herror⟩
    · exact hbodies.blamed hobeys₁ herror d rfl
    -- now the common commands are written, which cannot fail
    have hopening₃ := hopening₁.reservedBodies (Gen.tame_levels maxNesting) hfiles hreserved
    have hobeys₃ := (hbodies.lawful hobeys₁ hreserved).1
    obtain ⟨s₄, hwritten, hscopes⟩ := Gen.statements_of_opening (Gen.levels maxNesting) hns hopening₃ hfirst
    have hobeys₄ : s₄.Obeys (partLaw own) := by
      rw [GenState.obeys_partLaw] at hobeys₃ ⊢
      intro e he
      rw [hscopes] at he
      exact hobeys₃ e he
    rw [Gen.statements_append, Gen.bind_of_ok hwritten] at herror
    exact (Gen.blames_statements hblames _ hactions).blamed hobeys₄ herror d rfl

end PackScript
