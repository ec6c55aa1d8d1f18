import PackScript.Proofs.Generation.Placement

/-! # Frames at run time

The frames that are open while a pack runs are those that the files being run have opened,
on top of the first one. An arm is entered with the frames in sight that its role lists,
and a function with its own frame on top. So the place of a variable leads to the frame of
the scope that the variable was found in when the command was written.
-/
namespace PackScript

namespace Machine

/-- The pack is started with one frame, the first one. -/
def boot (cells : Nat) : Machine := start 0 ⟨cells, [0], 1⟩

/-- The frame that was opened for a scope, as far as the file of the scope is being run: a
branch opens its own, the frame of a function is the last one that its caller has opened,
and the program has the first one. Of several activations of the file the innermost counts. -/
def FrameOf (running : List Activation) (sc : Scope FileId) (frame : Nat) : Prop :=
  ∃ inner a outer, running = inner ++ a :: outer ∧ (∀ x ∈ inner, x.file ≠ sc.file) ∧ a.file = sc.file ∧
    match sc.kind with
    | .root => frame = 0
    | .function => ∃ caller rest, outer = caller :: rest ∧ caller.own.head? = some frame
    | .block => a.own.getLast? = some frame
    | _ => False

/-- A place leads to the variable of a scope. -/
def Designates (m : Machine) (sc : Scope FileId) (name : Name) : Place → Prop
  | .frame n x => x = name.text ∧ 1 ≤ n ∧ n ≤ m.storage.frames.length ∧
      ∃ frame, m.storage.frames[n - 1]? = some frame ∧ FrameOf m.running sc frame
  | .rootFrame x => x = name.text ∧ m.storage.frames.getLast? = some 0 ∧ sc.kind = .root ∧
      ((sc.runtime.get? name).isSome ∨ (sc.hoisted.get? name).isSome)
  | .result => False

end Machine

namespace Gen

/-- How an activation was entered, by the role of its file. -/
def Entered (roles : Roles) (a : Activation) (outer : List Activation) : Role → Prop
  | .root => outer = [] ∧ a.entry = [0]
  | .function => ∃ b rest, outer = b :: rest ∧ b.own ≠ []
  | .arm _ visible => ∃ b rest r, outer = b :: rest ∧ (b.file, r) ∈ roles ∧ visible = r.owners b.file ∧
      a.file ∉ visible ∧ b.own.length = r.base

/-- The open frames are those of the activations, innermost first, on top of the first one. -/
def Anchored (roles : Roles) : List Activation → List Nat → Prop
  | [], _ => True
  | a :: outer, frames => frames = a.own ++ a.entry ∧ a.entry.getLast? = some 0 ∧
      (∃ r, (a.file, r) ∈ roles ∧ Entered roles a outer r) ∧ Anchored roles outer a.entry

/-- The frame that the file `o` in sight has opened or was given. -/
def OwnFrame (roles : Roles) (running : List Activation) (o : FileId) (frame : Nat) : Prop :=
  ∃ inner a outer r, running = inner ++ a :: outer ∧ (∀ x ∈ inner, x.file ≠ o) ∧ a.file = o ∧
    (o, r) ∈ roles ∧ match r with
    | .root => frame = 0
    | .function => ∃ caller rest, outer = caller :: rest ∧ caller.own.head? = some frame
    | .arm opens _ => opens = true ∧ a.own.getLast? = some frame

theorem role_unique {roles : Roles} (h : (roles.map Prod.fst).Nodup) {f : FileId} {r r' : Role}
    (hr : (f, r) ∈ roles) (hr' : (f, r') ∈ roles) : r = r' := by
  induction roles with
  | nil => cases hr
  | cons x roles ih =>
    obtain ⟨hx, hrest⟩ := List.nodup_cons.1 h
    rcases List.mem_cons.1 hr with rfl | hmem
    · rcases List.mem_cons.1 hr' with heq | hmem'
      · exact (Prod.mk.inj heq).2.symm
      · exact (hx (List.mem_map.2 ⟨_, hmem', rfl⟩)).elim
    · rcases List.mem_cons.1 hr' with rfl | hmem'
      · exact (hx (List.mem_map.2 ⟨_, hmem, rfl⟩)).elim
      · exact ih hrest hmem hmem'

theorem OwnFrame.outer {roles : Roles} {running : List Activation} {a : Activation} {o : FileId} {frame : Nat}
    (h : OwnFrame roles running o frame) (ha : a.file ≠ o) : OwnFrame roles (a :: running) o frame := by
  obtain ⟨inner, b, outer, r, rfl, hinner, hb, hr, hframe⟩ := h
  exact ⟨a :: inner, b, outer, r, rfl, List.forall_mem_cons.2 ⟨ha, hinner⟩, hb, hr, hframe⟩

/-- Between calls, the frames in sight are those of the owners that the role lists. -/
theorem Anchored.ownFrame {roles : Roles} (hdistinct : (roles.map Prod.fst).Nodup) {a : Activation}
    {outer : List Activation} {frames : List Nat} {r : Role} {n : Nat} {o : FileId}
    (h : Anchored roles (a :: outer) frames) (hr : (a.file, r) ∈ roles) (hd : a.own.length = r.base)
    (ho : (r.owners a.file)[n]? = some o) :
    ∃ frame, frames[n]? = some frame ∧ OwnFrame roles (a :: outer) o frame := by
  induction outer generalizing a frames r n with
  | nil =>
    obtain ⟨rfl, -, ⟨r', hr', hentered⟩, -⟩ := h
    obtain rfl := role_unique hdistinct hr hr'
    cases r with
    | root =>
      obtain ⟨-, hentry⟩ := hentered
      obtain ⟨rfl, rfl⟩ : n = 0 ∧ a.file = o := by
        cases n with
        | zero => exact ⟨rfl, Option.some.inj ho⟩
        | succ n => simp [Role.owners] at ho
      have hown := List.length_eq_zero_iff.1 hd
      refine ⟨0, by rw [hown, hentry]; rfl, [], a, [], .root, rfl, by simp, rfl, hr, rfl⟩
    | function =>
      obtain ⟨b, rest, hcons, -⟩ := hentered
      cases hcons
    | arm opens visible =>
      obtain ⟨b, rest, _, hcons, -⟩ := hentered
      cases hcons
  | cons b outer ih =>
    obtain ⟨rfl, -, ⟨r', hr', hentered⟩, houter⟩ := h
    obtain rfl := role_unique hdistinct hr hr'
    cases r with
    | root =>
      obtain ⟨hcons, -⟩ := hentered
      cases hcons
    | function =>
      obtain ⟨b', rest, hcons, hne⟩ := hentered
      obtain ⟨rfl, rfl⟩ := List.cons.inj hcons
      obtain ⟨rfl, rfl⟩ : n = 0 ∧ a.file = o := by
        cases n with
        | zero => exact ⟨rfl, Option.some.inj ho⟩
        | succ n => simp [Role.owners] at ho
      have hown := List.length_eq_zero_iff.1 hd
      obtain ⟨frame, frames', hb⟩ := List.exists_cons_of_ne_nil hne
      refine ⟨frame, ?_, [], a, b :: outer, .function, rfl, by simp, rfl, hr, b, outer, rfl, by rw [hb]; rfl⟩
      rw [hown, houter.1, hb]
      rfl
    | arm opens visible =>
      obtain ⟨b', rest, rb, hcons, hrb, hvisible, hfresh, hdb⟩ := hentered
      obtain ⟨rfl, rfl⟩ := List.cons.inj hcons
      have hsight : ∀ m : Nat, visible[m]? = some o →
          ∃ frame, a.entry[m]? = some frame ∧ OwnFrame roles (a :: b :: outer) o frame := by
        intro m hm
        obtain ⟨frame, hframe, hof⟩ := ih houter hrb hdb (hvisible ▸ hm)
        refine ⟨frame, hframe, hof.outer fun heq => hfresh ?_⟩
        rw [heq]
        exact List.mem_of_getElem? hm
      cases opens with
      | false =>
        have hown := List.length_eq_zero_iff.1 hd
        rw [hown, List.nil_append]
        exact hsight n ho
      | true =>
        obtain ⟨frame, hown⟩ := List.length_eq_one_iff.1 hd
        cases n with
        | zero =>
          obtain rfl : a.file = o := Option.some.inj ho
          exact ⟨frame, by rw [hown]; rfl, [], a, b :: outer, _, rfl, by simp, rfl, hr, rfl, by rw [hown]; rfl⟩
        | succ n =>
          rw [hown]
          exact hsight n ho

/-! ## Along a run -/

structure Tracked (files : List (List Command)) (roles : Roles) (m : Machine) : Prop where
  anchored : Anchored roles m.running m.storage.frames
  depth : ∀ a ∈ m.running, (a.own.length : Int) = frameSum ((files.getD a.file []).take a.done)
  fresh : ∀ frame ∈ m.storage.frames, frame < m.storage.opened
  nodup : m.storage.frames.Nodup

theorem take_of_getElem? {code : List Command} {n : Nat} {c : Command} (h : code[n]? = some c) :
    code.take (n + 1) = code.take n ++ [c] ∧ code = code.take n ++ c :: code.drop (n + 1) := by
  have htake : code.take (n + 1) = code.take n ++ [c] := by
    rw [List.take_add_one, h]
    rfl
  refine ⟨htake, ?_⟩
  have hsplit := List.take_append_drop (n + 1) code
  rw [htake, List.append_assoc] at hsplit
  exact hsplit.symm

/-- Past a command that opens and closes no frame everything is as it was. -/
theorem Anchored.after {roles : Roles} {a : Activation} {outer : List Activation} {frames : List Nat}
    {c : Command} (st : Storage) (h : Anchored roles (a :: outer) frames) (hc : c ≠ .openFrame)
    (hc' : c ≠ .closeFrame) : Anchored roles (a.after st c :: outer) frames ∧ (a.after st c).own = a.own := by
  have hafter : a.after st c = { a with done := a.done + 1 } := by
    cases c <;> first | rfl | exact (hc rfl).elim | exact (hc' rfl).elim
  rw [hafter]
  exact ⟨h, rfl⟩

section

variable {files : List (List Command)} {roles : Roles} {N : Notes} {m m' : Machine}
  (hfiles : ∀ i, Balanced (files.getD i []))
  (hfits : ∀ i pre c post, files.getD i [] = pre ++ c :: post → Fits N roles i pre c)
include hfiles

theorem Tracked.perform {a : Activation} {outer : List Activation} {st : Storage} {c : Command}
    (h : Tracked files roles ⟨a :: outer, st⟩) (hc : (files.getD a.file [])[a.done]? = some c) :
    Tracked files roles ⟨a.after st c :: outer, st.after c⟩ := by
  obtain ⟨htake, -⟩ := take_of_getElem? hc
  have hdepth := h.depth a List.mem_cons_self
  have houter : ∀ b ∈ outer, (b.own.length : Int) = frameSum ((files.getD b.file []).take b.done) :=
    fun b hb => h.depth b (List.mem_cons_of_mem _ hb)
  have hnext : frameSum ((files.getD a.file []).take (a.done + 1)) =
      frameSum ((files.getD a.file []).take a.done) + c.frameChange := by
    rw [htake, frameSum_append]
    simp [frameSum]
  obtain ⟨hframes, hlast, hrole, hrest⟩ := h.anchored
  by_cases hopen : c = .openFrame
  · subst hopen
    refine ⟨⟨congrArg (st.opened :: ·) hframes, hlast, hrole, hrest⟩, ?_, ?_, ?_⟩
    · refine List.forall_mem_cons.2 ⟨?_, houter⟩
      simp only [Activation.after, List.length_cons, hnext, Command.frameChange]
      omega
    · intro frame hframe
      rcases List.mem_cons.1 hframe with rfl | hframe
      · exact Nat.lt_succ_self _
      · exact Nat.lt_succ_of_lt (h.fresh frame hframe)
    · exact List.nodup_cons.2 ⟨fun hmem => Nat.lt_irrefl _ (h.fresh _ hmem), h.nodup⟩
  · by_cases hclose : c = .closeFrame
    · subst hclose
      have hnonneg := (hfiles a.file).frame_nonneg _ (List.take_prefix (a.done + 1) _)
      obtain ⟨frame, own, hown⟩ : ∃ frame own, a.own = frame :: own := by
        refine List.exists_cons_of_ne_nil fun hnil => ?_
        rw [hnil] at hdepth
        simp only [hnext, Command.frameChange, List.length_nil] at hnonneg hdepth
        omega
      refine ⟨⟨?_, hlast, hrole, hrest⟩, ?_, ?_, ?_⟩
      · change st.frames.tail = a.own.tail ++ a.entry
        have hst : st.frames = a.own ++ a.entry := hframes
        rw [hst, hown]
        rfl
      · refine List.forall_mem_cons.2 ⟨?_, houter⟩
        simp only [Activation.after, hnext, Command.frameChange, hown, List.length_cons, List.tail_cons] at hdepth ⊢
        omega
      · exact fun frame hframe => h.fresh frame (List.mem_of_mem_tail hframe)
      · exact h.nodup.sublist (List.tail_sublist _)
    · obtain ⟨hanchored, hown⟩ := h.anchored.after st hopen hclose
      have hst : (st.after c).frames = st.frames ∧ (st.after c).opened = st.opened ∧ c.frameChange = 0 := by
        cases c <;> first | exact ⟨rfl, rfl, rfl⟩ | exact (hopen rfl).elim | exact (hclose rfl).elim
      obtain ⟨hst, hopened, hchange⟩ := hst
      refine ⟨by rw [hst]; exact hanchored, List.forall_mem_cons.2 ⟨?_, houter⟩, ?_, by rw [hst]; exact h.nodup⟩
      · rw [hown, Activation.file_after, Activation.done_after, hnext, hchange, hdepth, Int.add_zero]
      · rw [hst, hopened]
        exact h.fresh

omit hfiles in
/-- Past a command that runs a file, be the file run or not. -/
theorem Tracked.pass {a : Activation} {outer : List Activation} {st : Storage} {c : Command}
    (h : Tracked files roles ⟨a :: outer, st⟩) (hc : (files.getD a.file [])[a.done]? = some c)
    (hrun : c.runs?.isSome) :
    Tracked files roles ⟨a.after st c :: outer, st⟩ ∧ (a.after st c).own = a.own := by
  have hopen : c ≠ .openFrame := by
    rintro rfl
    cases hrun
  have hclose : c ≠ .closeFrame := by
    rintro rfl
    cases hrun
  have hchange : c.frameChange = 0 := by
    cases c <;> first | rfl | cases hrun
  obtain ⟨hanchored, hown⟩ := h.anchored.after st hopen hclose
  refine ⟨⟨hanchored, List.forall_mem_cons.2 ⟨?_, ?_⟩, h.fresh, h.nodup⟩, hown⟩
  · rw [hown, Activation.file_after, Activation.done_after, (take_of_getElem? hc).1, frameSum_append,
      h.depth a List.mem_cons_self]
    simp [frameSum, hchange]
  · exact fun b hb => h.depth b (List.mem_cons_of_mem _ hb)

omit hfiles in
include hfits in
/-- A file is entered as its role says. -/
theorem Tracked.enter {a : Activation} {outer : List Activation} {st : Storage} {c : Command} {g : FileId}
    (h : Tracked files roles ⟨a :: outer, st⟩) (hc : (files.getD a.file [])[a.done]? = some c)
    (hrun : c.runs? = some g) :
    Tracked files roles ⟨{ file := g, entry := st.frames } :: a.after st c :: outer, st⟩ := by
  obtain ⟨hpast, hown⟩ := h.pass hc (by rw [hrun]; rfl)
  have hdepth := h.depth a List.mem_cons_self
  obtain ⟨hframes, hlast, -, -⟩ := h.anchored
  have hbottom : st.frames.getLast? = some 0 := by
    have hst : st.frames = a.own ++ a.entry := hframes
    rw [hst, List.getLast?_append, hlast]
    rfl
  have hrole : ∃ r, (g, r) ∈ roles ∧
      Entered roles { file := g, entry := st.frames } (a.after st c :: outer) r := by
    cases hfits a.file _ c _ (take_of_getElem? hc).2 with
    | silent hr _ =>
      rw [hr] at hrun
      cases hrun
    | located _ _ _ _ _ _ _ _ _ _ hr =>
      rw [hr] at hrun
      cases hrun
    | argument => cases hrun
    | @branch _ r g' opens hcg hi hd hg hfresh =>
      obtain rfl : g' = g := by
        rcases hcg with rfl | rfl <;> exact Option.some.inj hrun
      refine ⟨_, hg, a.after st c, outer, r, rfl, by rwa [Activation.file_after], by rw [Activation.file_after],
        hfresh, ?_⟩
      rw [hown]
      exact Int.ofNat.inj (hdepth.trans hd)
    | @call r g' hi hd hg =>
      obtain rfl : g' = g := Option.some.inj hrun
      refine ⟨.function, hg, a.after st (.call g'), outer, rfl, fun hnil => ?_⟩
      rw [← hown, hnil, hd] at hdepth
      simp only [List.length_nil] at hdepth
      omega
  refine ⟨⟨rfl, hbottom, hrole, hpast.anchored⟩, List.forall_mem_cons.2 ⟨rfl, hpast.depth⟩, h.fresh, h.nodup⟩

theorem Tracked.leave {a : Activation} {outer : List Activation} {st : Storage}
    (h : Tracked files roles ⟨a :: outer, st⟩) (hend : (files.getD a.file [])[a.done]? = none) :
    Tracked files roles ⟨outer, st⟩ := by
  have hdepth := h.depth a List.mem_cons_self
  rw [List.take_of_length_le (List.getElem?_eq_none_iff.1 hend), (hfiles a.file).frame_end] at hdepth
  have hown : a.own = [] := List.length_eq_zero_iff.1 (Int.ofNat.inj hdepth)
  obtain ⟨hframes, -, -, hrest⟩ := h.anchored
  rw [hown, List.nil_append] at hframes
  exact ⟨hframes ▸ hrest, fun b hb => h.depth b (List.mem_cons_of_mem _ hb), h.fresh, h.nodup⟩

include hfits in
theorem Tracked.steps (hsteps : Machine.Steps files m m') (h : Tracked files roles m) :
    Tracked files roles m' := by
  induction hsteps with
  | refl => exact h
  | tail _ hstep ih =>
    cases hstep with
    | perform hc hr => exact ih.perform hfiles hc
    | enter hc hr => exact ih.enter hfits hc hr
    | pass hc hr =>
      refine (ih.pass hc ?_).1
      rename_i c _
      cases c <;> first | rfl | cases hr
    | leave hend => exact ih.leave hfiles hend

omit hfiles in
theorem tracked_boot (hroot : (0, Role.root) ∈ roles) (cells : Nat) :
    Tracked files roles (.boot cells) where
  anchored := ⟨rfl, rfl, ⟨.root, hroot, rfl, rfl⟩, trivial⟩
  depth a ha := by
    rw [List.mem_singleton.1 ha]
    rfl
  fresh := by simp [Machine.boot, Machine.start]
  nodup := by simp [Machine.boot, Machine.start]

omit hfiles in
/-- The frame of the file of a scope is the frame of the scope. -/
theorem OwnFrame.frameOf {running : List Activation} {scopes : List (Scope FileId)} {sc : Scope FileId}
    {frame : Nat} (hdistinct : (roles.map Prod.fst).Nodup) (hs : Attributed roles scopes) (hsc : sc ∈ scopes)
    (hframe : sc.frame = true) (h : OwnFrame roles running sc.file frame) :
    Machine.FrameOf running sc frame := by
  obtain ⟨inner, a, outer, r, hrunning, hinner, ha, hr, hown⟩ := h
  refine ⟨inner, a, outer, hrunning, hinner, ha, ?_⟩
  have hkind := hs sc hsc
  cases hk : sc.kind with
  | root =>
    simp only [hk] at hkind
    obtain rfl := role_unique hdistinct hkind hr
    exact hown
  | function =>
    simp only [hk] at hkind
    obtain rfl := role_unique hdistinct hkind hr
    exact hown
  | block =>
    simp only [hk] at hkind
    obtain ⟨visible, hkind⟩ := hkind
    obtain rfl := role_unique hdistinct hkind hr
    exact hown.2
  | expansion =>
    simp only [hk, hframe] at hkind
    cases hkind
  | other => simp only [hk] at hkind

omit hfiles in
theorem Anchored.bottom {a : Activation} {outer : List Activation} {frames : List Nat}
    (h : Anchored roles (a :: outer) frames) : frames.getLast? = some 0 := by
  rw [h.1, List.getLast?_append, h.2.1]
  rfl

omit hfiles in
/-- Where a variable was looked up, its place leads to the scope that it was found in. -/
theorem designates_of_place {a : Activation} {outer : List Activation} {st : Storage} {r : Role}
    {scopes : ScopeStack FileId} {name : Name} {span : Span} {place : Place} {ty : Typing}
    (hdistinct : (roles.map Prod.fst).Nodup) (h : Anchored roles (a :: outer) st.frames)
    (hi : (a.file, r) ∈ roles) (hd : a.own.length = r.base) (htidy : Scope.Tidy scopes.scopes)
    (hs : Attributed roles scopes.scopes) (ho : Scope.owners scopes.scopes = r.owners a.file)
    (hp : scopes.place name span = .ok (place, ty)) :
    ∃ sc, Scope.declaring? name false scopes.scopes = some sc ∧
      Machine.Designates ⟨a :: outer, st⟩ sc name place := by
  obtain ⟨sc, hsc, hmem, hfound⟩ := ScopeStack.reach_found htidy (ScopeStack.place_ok hp)
  refine ⟨sc, hsc, ?_⟩
  rcases hfound with ⟨n, rfl, hown, hframe, -⟩ | ⟨rfl, hroot, hty⟩
  · rw [ho] at hown
    obtain ⟨frame, hget, hof⟩ := h.ownFrame hdistinct hi hd hown
    have hlt : n < st.frames.length := (List.getElem?_eq_some_iff.1 hget).1
    refine ⟨rfl, Nat.le_add_left 1 _, by rw [Nat.zero_add]; exact hlt, frame, ?_, ?_⟩
    · simpa using hget
    · exact hof.frameOf hdistinct hs hmem hframe
  · refine ⟨rfl, h.bottom, hroot, ?_⟩
    unfold Scope.runtimeTyping? at hty
    split at hty
    · rename_i hget
      exact .inl (by rw [hget]; rfl)
    · simp only [hroot, Bool.true_and, decide_true, if_true] at hty
      exact .inr (by rw [hty]; rfl)

end
end Gen

/-- Whenever a running pack executes a command with the place of a variable, the command
was written for a variable that the generator had looked up, and the place leads to the
frame of the scope it was found in; or it stores an argument in the frame that the file
being run has opened for a call, behind the arguments stored before. -/
theorem generate_addresses {ns : Bytes} {p : Program} {g : Generated} (h : p.generate ns = .ok g)
    {cells : Nat} {a : Activation} {outer : List Activation} {st : Storage}
    (hrun : Machine.Steps g.files (.boot cells) ⟨a :: outer, st⟩) {c : Command}
    (hc : (g.files.getD a.file [])[a.done]? = some c) {place : Place} (hv : c.variable? = some place) :
    st.frames.Nodup ∧
    ((∃ name span s fs ty sc, Gen.Reached ns p (.locate name span) s ∧ s.writing = a.file :: fs ∧
        s.text a.file = (g.files.getD a.file []).take a.done ∧ s.scopes.place name span = .ok (place, ty) ∧
        Scope.declaring? name false s.scopes.scopes = some sc ∧
        Machine.Designates ⟨a :: outer, st⟩ sc name place) ∨
      ∃ before params x frame, c = .storeTop (.frame 1 x) ∧
        (g.files.getD a.file []).take a.done = before ++ .openFrame :: Gen.fillSequence params ∧
        a.own.head? = some frame ∧ st.frames.head? = some frame) := by
  have hfiles : ∀ i, Balanced (g.files.getD i []) := fun i => (Gen.climb_of_generate h i).balanced
  obtain ⟨roles, hdistinct, hroot, hfits⟩ := Gen.laid_of_generate h
  have htracked := Gen.Tracked.steps hfiles hfits hrun (Gen.tracked_boot hroot cells)
  have hdepth := htracked.depth a List.mem_cons_self
  refine ⟨htracked.nodup, ?_⟩
  cases hfits a.file _ c _ (Gen.take_of_getElem? hc).2 with
  | silent _ hnone =>
    rw [hnone] at hv
    cases hv
  | @located _ r name span s fs place' ty hi hd hn hw ht hp htidy hs ho hv' _ =>
    obtain rfl : place' = place := Option.some.inj (hv'.symm.trans hv)
    have hbase : a.own.length = r.base := Int.ofNat.inj (hdepth.trans hd)
    obtain ⟨sc, hsc, hdes⟩ :=
      Gen.designates_of_place hdistinct htracked.anchored hi hbase htidy hs ho hp
    exact .inl ⟨name, span, s, fs, ty, sc, hn, hw, ht, hp, hsc, hdes⟩
  | @argument r before params x hi hd hpre =>
    rw [hpre, Gen.frameSum_filling hd params] at hdepth
    obtain ⟨frame, own, hown⟩ : ∃ frame own, a.own = frame :: own := by
      refine List.exists_cons_of_ne_nil fun hnil => ?_
      rw [hnil, List.length_nil] at hdepth
      omega
    refine .inr ⟨before, params, x, frame, rfl, hpre, by rw [hown]; rfl, ?_⟩
    have hframes : st.frames = a.own ++ a.entry := htracked.anchored.1
    rw [hframes, hown]
    rfl
  | branch hcg _ _ _ _ => rcases hcg with rfl | rfl <;> cases hv
  | call _ _ _ => cases hv

/-- A branch of a function reads a parameter of the function across its own frame. -/
theorem generate_addresses_branch :
    ∃ p g, Program.parse "def $f($x) \x7b if $x \x7b $y := $x; \x7d \x7d $f(2);" = .ok p ∧
      p.generate "demo" = .ok g ∧ ∃ a outer st, Machine.Steps g.files (.boot 0) ⟨a :: outer, st⟩ ∧
        (g.files.getD a.file [])[a.done]? = some (.pushFrom (.frame 2 "x")) ∧ st.frames = [2, 1, 0] ∧
        ∃ sc name, Machine.Designates ⟨a :: outer, st⟩ sc name (.frame 2 "x") := by
  have hfiles : ((Program.parse "def $f($x) \x7b if $x \x7b $y := $x; \x7d \x7d $f(2);").bind
      (Program.generate "demo")).toOption.map Generated.files = some
        [[.pushValue (.int 2), .openFrame, .storeTop (.frame 1 "x"), .pop, .call 1, .closeFrame],
          [.pushFrom (.frame 1 "x"), .load .condition 1, .runIf 2, .pop],
          [.openFrame, .pushFrom (.frame 2 "x"), .storeTop (.frame 1 "y"), .pop, .closeFrame]] := by
    decide +kernel
  obtain ⟨p, g, hp, hg, hfiles⟩ := Gen.exists_generated hfiles
  have hrun : Machine.Steps g.files (.boot 0)
      ⟨[⟨2, 1, [1, 0], [2]⟩, ⟨1, 3, [1, 0], []⟩, ⟨0, 5, [0], [1]⟩], ⟨1, [2, 1, 0], 3⟩⟩ := by
    rw [hfiles]
    refine .head (.perform rfl rfl) (.head (.perform rfl rfl) (.head (.perform rfl rfl) ?_))
    refine .head (.perform rfl rfl) (.head (.enter rfl rfl) (.head (.perform rfl rfl) ?_))
    exact .head (.perform rfl rfl) (.head (.enter rfl rfl) (.head (.perform rfl rfl) .refl))
  have hc : (g.files.getD 2 [])[1]? = some (.pushFrom (.frame 2 "x")) := by
    rw [hfiles]
    rfl
  refine ⟨p, g, hp, hg, _, _, _, hrun, hc, rfl, ?_⟩
  rcases (generate_addresses hg hrun hc rfl).2 with ⟨name, _, _, _, _, sc, _, _, _, _, _, hdes⟩ | ⟨_, _, _, _, hstore, _⟩
  · exact ⟨sc, name, hdes⟩
  · cases hstore

end PackScript
