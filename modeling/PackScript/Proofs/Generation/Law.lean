import PackScript.Proofs.Generation.Confinement
import PackScript.Proofs.Scope.Operations
import PackScript.Proofs.Syntax.Parts

/-! # Laws that generation keeps

Whatever generation handles comes from somewhere: the functions in sight from declarations of
the program, values from literals and from arithmetic on other values, commands from statements,
names and values. A law says which of them are allowed, such that what is made from allowed
things is allowed again. Then a run that starts with allowed things meets no others. Two stretches
of generation can be compared on the states that a law allows.
-/
namespace PackScript

/-- The declaration of a function, as a piece of the program. -/
def Function.node (f : Function) : Node := .stmt (.define f.span f.signature f.body)

/-- Says nothing but what generation always says: no text, value or name of the program. -/
def Command.isFixed : Command → Bool
  | .pop | .openFrame | .closeFrame | .load _ _ | .operate _ | .writeBack | .runIf _ | .runUnless _
  | .call _ => true
  | _ => false

/-- The text of a command up to its last hole, each hole being filled with a value that does not
break the line. -/
inductive Filled (value : Value → Prop) : List (Bytes × Expr) → Bytes → Prop
  | nil : Filled value [] []
  | cons {literal text : Bytes} {e : Expr} {parts : List (Bytes × Expr)} {v : Value} (hv : value v)
      (hline : (v.content.any fun b => b = 10 || b = 13) = false) (h : Filled value parts text) :
      Filled value ((literal, e) :: parts) (literal ++ v.render ++ text)

structure Law where
  part : Node → Prop
  value : Value → Prop
  place : Place → Prop
  command : Command → Prop
  child {node c : Node} (h : part node) (hc : c ∈ node.children) : part c
  frame {node : Node} {n : Name} (h : part node) (hn : n ∈ node.ownNames) (d : Nat) : place (.frame d n.text)
  rootFrame {node : Node} {n : Name} (h : part node) (hn : n ∈ node.ownNames) : place (.rootFrame n.text)
  result : place .result
  int (i : Int32) : value (.int i)
  bool (b : Bool) : value (.bool b)
  string {span : Span} {s : Bytes} (h : part (.expr (.string span s))) : value (.string s)
  joined {s t : Bytes} (hs : value (.string s)) (ht : value (.string t)) : value (.string (s ++ t))
  unset : value (.untyped [])
  fixed {c : Command} (h : c.isFixed = true) : command c
  verbatim {span : Span} {parts : List (Bytes × Expr)} {tail text : Bytes}
    (h : part (.stmt (.command span parts tail))) (ht : Filled value parts text) :
    command (.verbatim (text ++ tail))
  pushValue {v : Value} (hv : value v) : command (.pushValue v)
  pushFrom {p : Place} (hp : place p) : command (.pushFrom p)
  storeTop {p : Place} (hp : place p) : command (.storeTop p)
  storeValue {p : Place} {v : Value} (hp : place p) (hv : value v) : command (.storeValue p v)

/-- Only lawful functions and values are declared in the scope. -/
structure Scope.Obeys (L : Law) (sc : Scope FileId) : Prop where
  entries : ∀ e ∈ sc.entries, L.part e.function.node
  statics : ∀ b ∈ sc.statics, L.value b.2.value

/-- Everything in sight, every value on its way to a call and every command written is lawful. -/
structure GenState.Obeys (L : Law) (s : GenState) : Prop where
  scopes : ∀ sc ∈ s.scopes.scopes, sc.Obeys L
  returned : ∀ t v, s.target = some t → t.value? = some v → L.value v
  files : ∀ f, ∀ c ∈ s.text f, L.command c

variable {L : Law}

/-! ## Scopes -/

namespace ScopeStack

variable {scopes scopes' : ScopeStack FileId}

theorem part_of_mem_entries (h : ∀ sc ∈ scopes.scopes, sc.Obeys L) {e : Entry FileId}
    (he : e ∈ scopes.entries) : L.part e.function.node := by
  obtain ⟨sc, hsc, hmem⟩ := List.mem_flatMap.1 he
  exact (h sc hsc).entries e hmem

/-- The innermost scope may be changed as long as it obeys the law. -/
theorem obeys_withTop {t t' : Scope FileId} {outer : List (Scope FileId)} (ht : scopes.scopes = t :: outer)
    (h : ∀ sc ∈ scopes.scopes, sc.Obeys L) (ht' : t.Obeys L → t'.Obeys L) :
    ∀ sc ∈ t' :: outer, sc.Obeys L := by
  rw [ht, List.forall_mem_cons] at h
  rw [List.forall_mem_cons]
  exact ⟨ht' h.1, h.2⟩

theorem value_of_mem_set {statics : Table (Binding FileId)} {name : Name} {b : Binding FileId}
    (hb : L.value b.value) (h : ∀ c ∈ statics, L.value c.2.value) : ∀ c ∈ statics.set name b, L.value c.2.value := by
  intro c hc
  rcases List.mem_cons.1 hc with rfl | hc
  · exact hb
  · exact h c (List.mem_filter.1 hc).1

theorem obeys_declareStatic {name : Name} {v : Value} {f : FileId} (hv : L.value v)
    (hd : scopes.declareStatic name v f = .ok scopes') (h : ∀ sc ∈ scopes.scopes, sc.Obeys L) :
    ∀ sc ∈ scopes'.scopes, sc.Obeys L := by
  obtain ⟨t, outer, ht, rfl⟩ := declareStatic_ok hd
  apply obeys_withTop ht h
  intro hobeys
  exact ⟨hobeys.entries, value_of_mem_set hv hobeys.statics⟩

theorem obeys_declareRuntime {name : Name} {ty : Typing} (hd : scopes.declareRuntime name ty = .ok scopes')
    (h : ∀ sc ∈ scopes.scopes, sc.Obeys L) : ∀ sc ∈ scopes'.scopes, sc.Obeys L := by
  obtain ⟨t, outer, ht, -, rfl⟩ := declareRuntime_ok hd
  apply obeys_withTop ht h
  intro hobeys
  exact ⟨hobeys.entries, hobeys.statics⟩

theorem obeys_hoist {name : Name} {ty : Typing} (hd : scopes.hoist name ty = .ok scopes')
    (h : ∀ sc ∈ scopes.scopes, sc.Obeys L) : ∀ sc ∈ scopes'.scopes, sc.Obeys L := by
  obtain ⟨t, outer, hoisted, ht, -, -, rfl⟩ := hoist_ok hd
  apply obeys_withTop ht h
  intro hobeys
  exact ⟨hobeys.entries, hobeys.statics⟩

theorem obeys_setStatic {name : Name} {v : Value} (hv : L.value v) {open' : List (Scope FileId)}
    (h : ∀ sc ∈ open', sc.Obeys L) : ∀ sc ∈ setStatic name v open', sc.Obeys L := by
  induction open' with
  | nil => exact h
  | cons sc outer ih =>
    rw [List.forall_mem_cons] at h
    rw [setStatic]
    split
    · rw [List.forall_mem_cons]
      exact ⟨⟨h.1.entries, value_of_mem_set hv h.1.statics⟩, h.2⟩
    · rw [List.forall_mem_cons]
      exact ⟨h.1, ih h.2⟩

theorem obeys_reassignStatic {name : Name} {v : Value} {f : FileId} {span : Span} (hv : L.value v)
    (hd : scopes.reassignStatic name v f span = .ok scopes') (h : ∀ sc ∈ scopes.scopes, sc.Obeys L) :
    ∀ sc ∈ scopes'.scopes, sc.Obeys L := by
  obtain ⟨b, -, -, rfl⟩ := reassignStatic_ok hd
  exact obeys_setStatic hv h

theorem obeys_register {fn : Function} {i : Nat} (hfn : L.part fn.node)
    (hd : scopes.register fn = .ok (i, scopes')) (h : ∀ sc ∈ scopes.scopes, sc.Obeys L) :
    ∀ sc ∈ scopes'.scopes, sc.Obeys L := by
  obtain ⟨t, outer, ht, -, -, rfl⟩ := register_ok hd
  apply obeys_withTop ht h
  intro hobeys
  refine ⟨fun e he => ?_, hobeys.statics⟩
  rcases List.mem_append.1 he with he | he
  · exact hobeys.entries e he
  · rw [List.mem_singleton.1 he]
    exact hfn

theorem obeys_updateEntry (i : Nat) {f : Entry FileId → Entry FileId}
    (hf : ∀ e, (f e).function = e.function) (h : ∀ sc ∈ scopes.scopes, sc.Obeys L) :
    ∀ sc ∈ (scopes.updateEntry i f).scopes, sc.Obeys L := by
  intro sc' hsc'
  obtain ⟨sc, hsc, rfl⟩ := List.mem_map.1 hsc'
  refine ⟨fun e' he' => ?_, (h sc hsc).statics⟩
  obtain ⟨e, he, rfl⟩ := List.mem_map.1 he'
  split
  · rw [hf]
    exact (h sc hsc).entries e he
  · exact (h sc hsc).entries e he

theorem value_of_findStatic? {name : Name} {b : Binding FileId} (h : ∀ sc ∈ scopes.scopes, sc.Obeys L)
    (hb : scopes.findStatic? name = some b) : L.value b.value := by
  obtain ⟨sc, hsc, hget⟩ := List.exists_of_findSome?_eq_some hb
  obtain ⟨front, back, hstatics, -⟩ := List.lookup_eq_some_iff.1 hget
  apply (h sc hsc).statics (name, b)
  rw [hstatics]
  exact List.mem_append_right _ List.mem_cons_self

/-- A place that a name leads to bears its name. -/
theorem place_of_reach {name : Name} {k : Nat} {crossed : Bool} {open' : List (Scope FileId)} {p : Place}
    {ty : Typing} (h : reach name k crossed open' = .found p ty) :
    (∃ d, p = .frame d name.text) ∨ p = .rootFrame name.text := by
  induction open' generalizing k crossed with
  | nil => cases h
  | cons sc outer ih =>
    rw [reach] at h
    split at h
    · split at h
      · cases h
        exact .inl ⟨_, rfl⟩
      · split at h
        · cases h
          exact .inr rfl
        · cases h
    · exact ih h

theorem place_lawful {node : Node} {name : Name} {span : Span} {p : Place} {ty : Typing} (hnode : L.part node)
    (hname : name ∈ node.ownNames) (h : scopes.place name span = .ok (p, ty)) : L.place p := by
  rw [place] at h
  split at h
  · rename_i hreach
    cases h
    rcases place_of_reach hreach with ⟨d, rfl⟩ | rfl
    · exact L.frame hnode hname d
    · exact L.rootFrame hnode hname
  · cases h
  · cases h

end ScopeStack

/-! ## Steps and brackets -/

namespace GenState

variable {s : GenState}

theorem mem_text_write {f i : FileId} {c c' : Command} (h : c' ∈ (s.write f c).text i) :
    c' = c ∨ c' ∈ s.text i := by
  by_cases hi : i = f
  · subst hi
    by_cases hlt : i < s.files.size
    · rw [text_write_self s hlt] at h
      rcases List.mem_append.1 h with h | h
      · exact .inr h
      · exact .inl (List.mem_singleton.1 h)
    · have hmissing : (s.write i c).text i = [] := by
        have hsize : (s.write i c).files.size ≤ i := by
          rw [size_write]
          exact Nat.le_of_not_lt hlt
        rw [text, Array.getD_eq_getD_getElem?, Array.getElem?_eq_none hsize]
        rfl
      rw [hmissing] at h
      cases h
  · rw [text_write_of_ne s hi] at h
    exact .inr h

namespace Obeys

theorem write (h : s.Obeys L) (f : FileId) {c : Command} (hc : L.command c) : (s.write f c).Obeys L := by
  refine ⟨h.scopes, h.returned, fun i c' hc' => ?_⟩
  rcases mem_text_write hc' with rfl | hc'
  · exact hc
  · exact h.files i c' hc'

theorem mint (h : s.Obeys L) : s.mint.Obeys L := by
  refine ⟨h.scopes, h.returned, fun i c hc => ?_⟩
  rw [text_mint] at hc
  exact h.files i c hc

theorem openScope (h : s.Obeys L) (kind : ScopeKind) (f : FileId) : (s.openScope kind f).Obeys L := by
  refine ⟨?_, h.returned, h.files⟩
  intro sc hsc
  rcases List.mem_cons.1 hsc with rfl | hsc
  · exact ⟨fun e he => (by cases he), fun b hb => (by cases hb)⟩
  · exact h.scopes sc hsc

theorem closeScope (h : s.Obeys L) (warnings : Array Warning) :
    Obeys L { s.closeScope with warnings } :=
  ⟨fun sc hsc => h.scopes sc (List.mem_of_mem_tail hsc), h.returned, h.files⟩

theorem withScopes (h : s.Obeys L) {scopes : ScopeStack FileId} (hs : ∀ sc ∈ scopes.scopes, sc.Obeys L) :
    Obeys L { s with scopes } := ⟨hs, h.returned, h.files⟩

theorem withTarget (h : s.Obeys L) {target : Option ReturnTarget}
    (ht : ∀ t v, target = some t → t.value? = some v → L.value v) : Obeys L { s with target } :=
  ⟨h.scopes, ht, h.files⟩

end Obeys
end GenState

namespace Gen

variable {α β : Type} {Q : α → Prop} {R : β → Prop}

/-- A stretch of generation that keeps the law: from lawful things to lawful things, at the same depth,
and to a result with the property `Q`. -/
def Lawful (L : Law) (Q : α → Prop) (m : Gen α) : Prop :=
  ∀ ⦃s : GenState⦄ ⦃a : α⦄ ⦃s' : GenState⦄, s.Obeys L → m s = .ok a s' → s'.Obeys L ∧ s'.depth = s.depth ∧ Q a

theorem lawful_pure {a : α} (ha : Q a) : Lawful L Q (pure a) := by
  intro s b s' hs h
  obtain ⟨rfl, rfl⟩ := pure_ok.1 h
  exact ⟨hs, rfl, ha⟩

theorem lawful_throw (f : Failure) : Lawful L Q (throw f) := fun _ _ _ _ h => (throw_ok.1 h).elim

theorem Lawful.bind {m : Gen α} {k : α → Gen β} (hm : Lawful L Q m) (hk : ∀ a, Q a → Lawful L R (k a)) :
    Lawful L R (m >>= k) := by
  intro s b s' hs h
  obtain ⟨a, s₁, ha, hb⟩ := bind_ok.1 h
  obtain ⟨hs₁, hd₁, hQ⟩ := hm hs ha
  obtain ⟨hs', hd', hR⟩ := hk a hQ hs₁ hb
  exact ⟨hs', hd'.trans hd₁, hR⟩

theorem Lawful.get {k : GenState → Gen β} (h : ∀ t : GenState, t.Obeys L → Lawful L R (k t)) :
    Lawful L R (get >>= k) := by
  intro s b s' hs hok
  obtain ⟨t, s₁, hg, hk⟩ := bind_ok.1 hok
  obtain ⟨rfl, rfl⟩ := get_ok.1 hg
  exact h s hs hs hk

theorem lawful_modify {f : GenState → GenState} (hd : ∀ s, (f s).depth = s.depth)
    (hf : ∀ s : GenState, s.Obeys L → (f s).Obeys L) : Lawful L (fun _ => True) (modify f) := by
  intro s u s' hs h
  obtain rfl := modify_ok.1 h
  exact ⟨hf s hs, hd s, trivial⟩

theorem lawful_ofExcept {r : Except Failure α} (h : ∀ a, r = .ok a → Q a) : Lawful L Q (ofExcept r) := by
  intro s a s' hs hok
  obtain ⟨hr, rfl⟩ := ofExcept_ok.1 hok
  exact ⟨hs, rfl, h a hr⟩

theorem lawful_newFile : Lawful L (fun _ => True) newFile := by
  intro s g s' hs h
  obtain ⟨rfl, rfl⟩ := newFile_ok.1 h
  exact ⟨hs.mint, rfl, trivial⟩

theorem lawful_currentFile : Lawful L (fun _ => True) currentFile := by
  intro s f s' hs h
  obtain ⟨-, rfl⟩ := currentFile_ok.1 h
  exact ⟨hs, rfl, trivial⟩

theorem lawful_emit {c : Command} (hc : L.command c) : Lawful L (fun _ => True) (emit c) := by
  intro s u s' hs h
  obtain ⟨f, fs, -, rfl⟩ := emit_ok.1 h
  exact ⟨hs.write f hc, rfl, trivial⟩

theorem lawful_warn (w : Warning) : Lawful L (fun _ => True) (warn w) :=
  lawful_modify (fun _ => rfl) fun _ hs => ⟨hs.scopes, hs.returned, hs.files⟩

theorem lawful_writingTo (f : FileId) {body : Gen α} (hb : Lawful L Q body) : Lawful L Q (writingTo f body) := by
  intro s a s' hs h
  obtain ⟨s₁, hbody, rfl⟩ := writingTo_ok.1 h
  have hin : (s.enter f).Obeys L := ⟨hs.scopes, hs.returned, hs.files⟩
  obtain ⟨hs₁, hd, hQ⟩ := hb hin hbody
  exact ⟨⟨hs₁.scopes, hs₁.returned, hs₁.files⟩, hd, hQ⟩

theorem lawful_inNewFile {body : Gen Unit} (hb : Lawful L (fun _ => True) body) :
    Lawful L (fun _ => True) (inNewFile body) :=
  lawful_newFile.bind fun f _ => (lawful_writingTo f hb).bind fun _ _ => lawful_pure trivial

theorem lawful_onScopes {f : ScopeStack FileId → Except Failure (ScopeStack FileId)}
    (hf : ∀ scopes scopes', f scopes = .ok scopes' → (∀ sc ∈ scopes.scopes, sc.Obeys L) →
      ∀ sc ∈ scopes'.scopes, sc.Obeys L) : Lawful L (fun _ => True) (onScopes f) := by
  intro s u s' hs h
  obtain ⟨scopes, hok, rfl⟩ := onScopes_ok.1 h
  exact ⟨hs.withScopes (hf _ _ hok hs.scopes), rfl, trivial⟩

theorem lawful_inScope {kind : ScopeKind} {body : Gen α} (hb : Lawful L Q body) :
    Lawful L Q (inScope kind body) := by
  intro s a s' hs h
  obtain ⟨f, fs, s₁, s₂, s₃, -, rfl, hbody, hclose, -, warnings, rfl⟩ := inScope_ok h
  have hopen : GenState.Obeys L
      (if kind = .block then (s.openScope kind f).write f .openFrame else s.openScope kind f) := by
    split
    · exact (hs.openScope kind f).write f (L.fixed rfl)
    · exact hs.openScope kind f
  obtain ⟨hs₂, hd, hQ⟩ := hb hopen hbody
  have hdepth : s₂.depth = s.depth := by
    rw [hd]
    split <;> rfl
  split at hclose
  · obtain ⟨g, gs, -, rfl⟩ := hclose
    exact ⟨(hs₂.write g (L.fixed rfl)).closeScope warnings, hdepth, hQ⟩
  · subst hclose
    exact ⟨hs₂.closeScope warnings, hdepth, hQ⟩

theorem lawful_returningTo {t : ReturnTarget} {body : Gen α} (ht : t.value? = none) (hb : Lawful L Q body) :
    Lawful L Q (returningTo t body) := by
  intro s a s' hs h
  obtain ⟨s₁, hbody, rfl⟩ := returningTo_ok.1 h
  have hin : GenState.Obeys L { s with target := some t } := by
    apply hs.withTarget
    intro t' v ht' hv
    cases ht'
    rw [ht] at hv
    cases hv
  obtain ⟨hs₁, hd, hQ⟩ := hb hin hbody
  exact ⟨hs₁.withTarget hs.returned, hd, hQ⟩

theorem lawful_nested {body : Gen α} (hb : Lawful L Q body) : Lawful L Q (nested body) := by
  intro s a s' hs h
  obtain ⟨s₁, hbody, rfl⟩ := nested_ok.1 h
  have hin : s.deepen.Obeys L := ⟨hs.scopes, hs.returned, hs.files⟩
  obtain ⟨hs₁, hd, hQ⟩ := hb hin hbody
  exact ⟨⟨hs₁.scopes, hs₁.returned, hs₁.files⟩, congrArg (· - 1) hd, hQ⟩

/-! ## Stretches that do the same -/

variable {d : Nat}

/-- The stretch `m'` does what the lawful stretch `m` does, at depth `d`. -/
structure Mirrors (L : Law) (d : Nat) (Q : α → Prop) (m m' : Gen α) : Prop where
  lawful : Lawful L Q m
  same : ∀ ⦃s : GenState⦄, s.Obeys L → s.depth = d → m' s = m s

theorem Lawful.mirrors {m : Gen α} (h : Lawful L Q m) : Mirrors L d Q m m := ⟨h, fun _ _ _ => rfl⟩

theorem bind_congr_left {m m' : Gen α} (k : α → Gen β) {s : GenState} (h : m' s = m s) :
    (m' >>= k) s = (m >>= k) s := by
  change EStateM.bind m' k s = EStateM.bind m k s
  unfold EStateM.bind
  rw [h]

theorem finally_congr {m m' : Gen α} (fin : Gen Unit) {s : GenState} (h : m' s = m s) :
    tryFinally m' fin s = tryFinally m fin s := by
  unfold tryFinally
  simp only [Functor.map, EStateM.map, tryFinally', h]

namespace Mirrors

theorem bind {m m' : Gen α} {k k' : α → Gen β} (hm : Mirrors L d Q m m')
    (hk : ∀ a, Q a → Mirrors L d R (k a) (k' a)) : Mirrors L d R (m >>= k) (m' >>= k') := by
  refine ⟨hm.lawful.bind fun a ha => (hk a ha).lawful, fun s hs hd => ?_⟩
  rw [bind_congr_left k' (hm.same hs hd)]
  cases hr : m s with
  | error f s₁ => rw [bind_of_error hr, bind_of_error hr]
  | ok a s₁ =>
    obtain ⟨hs₁, hd₁, hQ⟩ := hm.lawful hs hr
    rw [bind_of_ok hr, bind_of_ok hr]
    exact (hk a hQ).same hs₁ (hd₁.trans hd)

theorem get {k k' : GenState → Gen β} (h : ∀ t : GenState, t.Obeys L → Mirrors L d R (k t) (k' t)) :
    Mirrors L d R (get >>= k) (get >>= k') :=
  ⟨Lawful.get fun t ht => (h t ht).lawful, fun s hs hd => (h s hs).same hs hd⟩

theorem ite {c : Prop} [Decidable c] {m m' n n' : Gen α} (hm : c → Mirrors L d Q m m')
    (hn : ¬c → Mirrors L d Q n n') : Mirrors L d Q (if c then m else n) (if c then m' else n') := by
  split
  · exact hm ‹_›
  · exact hn ‹_›

end Mirrors

theorem mirrors_throw (f : Failure) : Mirrors L d Q (throw f) (throw f) := (lawful_throw f).mirrors

theorem mirrors_writingTo (file : FileId) {body body' : Gen α} (h : Mirrors L d Q body body') :
    Mirrors L d Q (writingTo file body) (writingTo file body') := by
  refine ⟨lawful_writingTo file h.lawful, fun s hs hd => ?_⟩
  have hin : (s.enter file).Obeys L := ⟨hs.scopes, hs.returned, hs.files⟩
  exact finally_congr _ (h.same hin hd)

theorem mirrors_inNewFile {body body' : Gen Unit} (h : Mirrors L d (fun _ => True) body body') :
    Mirrors L d (fun _ => True) (inNewFile body) (inNewFile body') := by
  refine lawful_newFile.mirrors.bind fun file _ => ?_
  exact (mirrors_writingTo file h).bind fun _ _ => (lawful_pure trivial).mirrors

theorem mirrors_inScope (kind : ScopeKind) {body body' : Gen α} (h : Mirrors L d Q body body') :
    Mirrors L d Q (inScope kind body) (inScope kind body') := by
  refine ⟨lawful_inScope h.lawful, fun s hs hd => ?_⟩
  have hfixed {c : Command} (hc : c.isFixed = true) : Mirrors L d (fun _ => True) (emit c) (emit c) :=
    (lawful_emit (L.fixed hc)).mirrors
  have hinside : Mirrors L d Q
      (do
        if kind = .block then emit .openFrame
        let a ← body
        if kind = .block then emit .closeFrame
        pure a)
      (do
        if kind = .block then emit .openFrame
        let a ← body'
        if kind = .block then emit .closeFrame
        pure a) := by
    split
    · refine (hfixed rfl).bind fun _ _ => h.bind fun a ha => ?_
      exact (hfixed rfl).bind fun _ _ => (lawful_pure ha).mirrors
    · exact h.bind fun a ha => (lawful_pure ha).mirrors
  unfold inScope
  cases hfile : currentFile s with
  | error f s₁ => rw [bind_of_error hfile, bind_of_error hfile]
  | ok file s₁ =>
    rw [bind_of_ok hfile, bind_of_ok hfile]
    obtain ⟨-, rfl⟩ := currentFile_ok.1 hfile
    exact finally_congr closeScope (hinside.same (hs.openScope kind file) hd)

theorem mirrors_returningTo {t : ReturnTarget} {body body' : Gen α} (ht : t.value? = none)
    (h : Mirrors L d Q body body') : Mirrors L d Q (returningTo t body) (returningTo t body') := by
  refine ⟨lawful_returningTo ht h.lawful, fun s hs hd => ?_⟩
  have hin : GenState.Obeys L { s with target := some t } := by
    apply hs.withTarget
    rintro _ v ⟨⟩ hv
    rw [ht] at hv
    cases hv
  exact finally_congr _ (h.same hin hd)

/-- A body one level deeper is compared there. -/
theorem mirrors_nested {body body' : Gen α} (h : Mirrors L (d + 1) Q body body') :
    Mirrors L d Q (nested body) (nested body') := by
  refine ⟨lawful_nested h.lawful, fun s hs hd => ?_⟩
  have hin : s.deepen.Obeys L := ⟨hs.scopes, hs.returned, hs.files⟩
  exact finally_congr _ (h.same hin (congrArg (· + 1) hd))

end Gen
end PackScript
