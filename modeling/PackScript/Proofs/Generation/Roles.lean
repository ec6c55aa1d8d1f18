import PackScript.Proofs.Generation.Heights
import PackScript.Proofs.Runtime.Machine
import PackScript.Proofs.Scope.Resolution

/-! # The roles of files

Each file has one of three roles. The first holds the program, some hold the bodies of
functions and are called from anywhere, and the others are arms of conditionals, each run
from one place. Whenever a command with the place of a variable is written, the scopes
with a frame in sight are opened by the files that the role of the current file lists.
-/
namespace PackScript

/-- The place of a variable in a command. -/
def Command.variable? : Command → Option Place
  | .pushFrom .result | .storeTop .result | .storeValue .result _ => none
  | .pushFrom place | .storeTop place | .storeValue place _ => some place
  | _ => none

namespace Gen

inductive Role where
  | root
  | function
  /-- An arm with a frame of its own or without one; `visible` are the owners of frames around it. -/
  | arm (opens : Bool) (visible : List FileId)

namespace Role

/-- The files that open the frames in sight, innermost first. -/
def owners (f : FileId) : Role → List FileId
  | .root | .function => [f]
  | .arm opens visible => (if opens then [f] else []) ++ visible

/-- The frames that a file has open between calls. -/
def base : Role → Nat
  | .arm true _ => 1
  | _ => 0

end Role

abbrev Roles := List (FileId × Role)

/-- The files of scopes have the roles of these scopes. -/
def Attributed (roles : Roles) (scopes : List (Scope FileId)) : Prop :=
  ∀ sc ∈ scopes, match sc.kind with
    | .root => (sc.file, Role.root) ∈ roles
    | .function => (sc.file, Role.function) ∈ roles
    | .block => ∃ visible, (sc.file, Role.arm true visible) ∈ roles
    | .expansion => sc.frame = false
    | .other => False

/-- A command in its place in file `i`, behind the commands `pre`. -/
inductive Fits (N : Notes) (roles : Roles) (i : FileId) (pre : List Command) : Command → Prop
  | silent {c : Command} (hr : c.runs? = none) (hv : c.variable? = none) : Fits N roles i pre c
  | located {c : Command} {r : Role} {name : Name} {span : Span} {s : GenState} {fs : List FileId}
      {place : Place} {ty : Typing} (hi : (i, r) ∈ roles) (hd : frameSum pre = r.base)
      (hn : N.located name span s) (hw : s.writing = i :: fs) (ht : s.text i = pre)
      (hp : s.scopes.place name span = .ok (place, ty)) (htidy : Scope.Tidy s.scopes.scopes)
      (hs : Attributed roles s.scopes.scopes) (ho : Scope.owners s.scopes.scopes = r.owners i)
      (hv : c.variable? = some place) (hr : c.runs? = none) : Fits N roles i pre c
  | argument {r : Role} {before : List Command} (params : List Param) (x : Bytes) (hi : (i, r) ∈ roles)
      (hd : frameSum before = r.base) (hpre : pre = before ++ .openFrame :: fillSequence params) :
      Fits N roles i pre (.storeTop (.frame 1 x))
  | branch {c : Command} {r : Role} {g : FileId} {opens : Bool} (hc : c = .runIf g ∨ c = .runUnless g)
      (hi : (i, r) ∈ roles) (hd : frameSum pre = r.base)
      (hg : (g, Role.arm opens (r.owners i)) ∈ roles) (hfresh : g ∉ r.owners i) : Fits N roles i pre c
  | call {r : Role} {g : FileId} (hi : (i, r) ∈ roles) (hd : frameSum pre = r.base + 1)
      (hg : (g, Role.function) ∈ roles) : Fits N roles i pre (.call g)

/-- Several commands in their places behind `T`. -/
def FitAll (N : Notes) (roles : Roles) (f : FileId) (T cs : List Command) : Prop :=
  ∀ pre c post, cs = pre ++ c :: post → Fits N roles f (T ++ pre) c

/-- Every command written so far is in its place. -/
def AllFit (N : Notes) (roles : Roles) (s : GenState) : Prop :=
  ∀ i pre c post, s.text i = pre ++ c :: post → Fits N roles i pre c

structure Laid (N : Notes) (roles : Roles) (a : Point) : Prop where
  distinct : (roles.map Prod.fst).Nodup
  known : ∀ x ∈ roles, x.1 < a.state.files.size
  current : ∀ f fs, a.state.writing = f :: fs → ∃ r, (f, r) ∈ roles ∧
    Scope.owners a.state.scopes.scopes = r.owners f ∧ frameSum (a.state.text f) = r.base
  tidy : Scope.Tidy a.state.scopes.scopes
  attributed : Attributed roles a.state.scopes.scopes
  bodies : ∀ g ∈ a.bodies, (g, Role.function) ∈ roles
  pending : ∀ g ∈ a.pending, (g, Role.function) ∈ roles ∧ frameSum (a.state.text g) = 0
  fits : AllFit N roles a.state

section

variable {N : Notes} {roles roles' : Roles} {s s₁ s₂ : GenState} {k k' : Nat} {R R' B B' : List FileId}

theorem Attributed.mono {scopes : List (Scope FileId)} (h : Attributed roles scopes)
    (hsub : roles ⊆ roles') : Attributed roles' scopes := by
  intro sc hsc
  have hkind := h sc hsc
  cases hk : sc.kind with
  | root => simpa only [hk] using hsub (by simpa only [hk] using hkind)
  | function => simpa only [hk] using hsub (by simpa only [hk] using hkind)
  | block =>
    simp only [hk] at hkind ⊢
    obtain ⟨visible, hmem⟩ := hkind
    exact ⟨visible, hsub hmem⟩
  | expansion => simpa only [hk] using hkind
  | other => simp only [hk] at hkind

theorem Attributed.keeps {scopes scopes' : List (Scope FileId)} (h : Attributed roles scopes)
    (hk : ScopeStack.Keeps scopes scopes') : Attributed roles scopes' := by
  intro sc' hsc'
  obtain ⟨sc, hsc, hkind, hframe, hfile⟩ := hk.mem hsc'
  rw [hkind, hframe, hfile]
  exact h sc hsc

/-- The owners of frames in sight are files with a role. -/
theorem Attributed.owner_mem {scopes : List (Scope FileId)} (h : Attributed roles scopes) {o : FileId}
    (ho : o ∈ Scope.owners scopes) : ∃ r, (o, r) ∈ roles := by
  obtain ⟨sc, hsc, rfl, hframe⟩ := Scope.mem_owners ho
  have hkind := h sc hsc
  cases hk : sc.kind with
  | root => exact ⟨.root, by simpa only [hk] using hkind⟩
  | function => exact ⟨.function, by simpa only [hk] using hkind⟩
  | block =>
    simp only [hk] at hkind
    obtain ⟨visible, hmem⟩ := hkind
    exact ⟨.arm true visible, hmem⟩
  | expansion =>
    simp only [hk] at hkind
    simp [hk, hkind] at hframe
  | other => simp only [hk] at hkind

theorem Fits.mono {i : FileId} {pre : List Command} {c : Command} (h : Fits N roles i pre c)
    (hsub : roles ⊆ roles') : Fits N roles' i pre c := by
  cases h with
  | silent hr hv => exact .silent hr hv
  | located hi hd hn hw ht hp htidy hs ho hv hr =>
    exact .located (hsub hi) hd hn hw ht hp htidy (hs.mono hsub) ho hv hr
  | argument params x hi hd hpre => exact .argument params x (hsub hi) hd hpre
  | branch hc hi hd hg hfresh => exact .branch hc (hsub hi) hd (hsub hg) hfresh
  | call hi hd hg => exact .call (hsub hi) hd (hsub hg)

theorem AllFit.of_text (h : AllFit N roles s) (ht : ∀ i, s₁.text i = s.text i) : AllFit N roles s₁ := by
  intro i pre c post hi
  exact h i pre c post ((ht i).symm.trans hi)

theorem AllFit.writeAll {f : FileId} (h : AllFit N roles s) (hf : f < s.files.size) {cs : List Command}
    (hcs : FitAll N roles f (s.text f) cs) :
    AllFit N roles (s.writeAll f cs) := by
  intro i pre c post hi
  by_cases hif : i = f
  · subst hif
    rw [s.text_writeAll_self hf, List.append_eq_append_iff] at hi
    rcases hi with ⟨more, hpre, hcs'⟩ | ⟨more, htext, hcs'⟩
    · rw [hpre]
      exact hcs more c post hcs'
    · cases more with
      | nil =>
        rw [List.append_nil] at htext
        rw [← htext]
        have := hcs [] c post (by simpa using hcs'.symm)
        rwa [List.append_nil] at this
      | cons d more =>
        obtain ⟨rfl, -⟩ := List.cons.inj hcs'
        exact h i pre c more htext
  · rw [s.text_writeAll_of_ne hif] at hi
    exact h i pre c post hi

end

theorem Course.keeps {N : Notes} {a b : Point} (h : Course N a b) :
    ScopeStack.Keeps a.state.scopes.scopes b.state.scopes.scopes := by
  induction h with
  | trans _ _ ih ih' => exact ih.trans ih'
  | aside h =>
    rw [h.scopes]
    exact .refl _
  | count i => exact ScopeStack.keeps_updateEntry _ _ _
  | bind _ h => exact ScopeStack.keeps_declareStatic h
  | rebind _ h => exact ScopeStack.keeps_reassignStatic h
  | declare h => exact ScopeStack.keeps_declareRuntime h
  | announce h => exact ScopeStack.keeps_hoist h
  | register h => exact ScopeStack.keeps_register h
  | reserve h => exact (ScopeStack.keeps_register h).trans (ScopeStack.keeps_updateEntry _ _ _)
  | call _ _ =>
    rw [GenState.scopes_writeAll]
    exact .refl _
  | @arm s s₁ s₂ f fs opens c k R B B' hw hb he hc ih =>
    rw [GenState.scopes_writeAll, he.scopes]
    cases opens
    · exact ih
    · exact ih.tail
  | expansion _ _ ih => exact ih.tail
  | fill _ ih => exact ih.tail
  | specialize _ _ hs ih =>
    rw [hs.scopes]
    exact (ScopeStack.keeps_updateEntry _ _ _).trans ih.tail
  | _ => exact .refl _

/-- Outside of a call sequence the frames of a file do not change. -/
theorem Course.frameSum_text {N : Notes} {a b : Point} (h : Course N a b) (ha : a.Exists) (i : FileId) :
    frameSum (b.state.text i) = frameSum (a.state.text i) := by
  obtain ⟨cs, hcs, hup⟩ := h.ascends ha i
  have hsum : (0 : Int) = 0 + frameSum cs := hup.sum.2
  rw [hcs, frameSum_append]
  omega

namespace Laid

variable {N : Notes} {roles roles' : Roles} {a b : Point} {s s₁ s₂ : GenState} {k k' : Nat}
  {R R' R₁ B B' B₁ : List FileId}

theorem congr (h : Laid N roles a) (hsize : a.state.files.size ≤ b.state.files.size)
    (htext : ∀ i, b.state.text i = a.state.text i) (hw : b.state.writing = a.state.writing)
    (hk : ScopeStack.Keeps a.state.scopes.scopes b.state.scopes.scopes) (hbodies : b.bodies = a.bodies)
    (hpending : b.pending = a.pending) : Laid N roles b where
  distinct := h.distinct
  known x hx := Nat.lt_of_lt_of_le (h.known x hx) hsize
  current f fs hf := by
    obtain ⟨r, hr, ho, hd⟩ := h.current f fs (hw.symm.trans hf)
    exact ⟨r, hr, hk.owners_eq.trans ho, by rw [htext, hd]⟩
  tidy := hk.tidy h.tidy
  attributed := h.attributed.keeps hk
  bodies g hg := h.bodies g (hbodies ▸ hg)
  pending g hg := by
    obtain ⟨hr, hd⟩ := h.pending g (hpending ▸ hg)
    exact ⟨hr, by rw [htext, hd]⟩
  fits := h.fits.of_text htext

/-- A new file with a role. -/
theorem mint (h : Laid N roles ⟨s, k, R, B⟩) (r : Role) :
    Laid N ((s.files.size, r) :: roles) ⟨s.mint, k, R, B⟩ := by
  have hsub : roles ⊆ (s.files.size, r) :: roles := List.subset_cons_self _ _
  refine ⟨?_, ?_, ?_, h.tidy, h.attributed.mono hsub, fun g hg => hsub (h.bodies g hg), ?_, ?_⟩
  · refine List.nodup_cons.2 ⟨fun hmem => ?_, h.distinct⟩
    obtain ⟨x, hx, hfile⟩ := List.mem_map.1 hmem
    have hlt : x.1 < s.files.size := h.known x hx
    rw [hfile] at hlt
    exact Nat.lt_irrefl _ hlt
  · intro x hx
    change x.1 < s.mint.files.size
    rw [s.size_mint]
    rcases List.mem_cons.1 hx with rfl | hx
    · exact Nat.lt_succ_self _
    · exact Nat.lt_succ_of_lt (h.known x hx)
  · intro f fs hf
    obtain ⟨r', hr, ho, hd⟩ := h.current f fs hf
    exact ⟨r', hsub hr, ho, by rw [s.text_mint, hd]⟩
  · intro g hg
    obtain ⟨hr, hd⟩ := h.pending g hg
    exact ⟨hsub hr, by rw [s.text_mint, hd]⟩
  · intro i pre c post hi
    exact (h.fits i pre c post ((s.text_mint i).symm.trans hi)).mono hsub

theorem writeAll {f : FileId} {cs : List Command} (h : Laid N roles ⟨s, k, R, B⟩)
    (hf : f < s.files.size) (hsum : frameSum cs = 0)
    (hcs : FitAll N roles f (s.text f) cs) :
    Laid N roles ⟨s.writeAll f cs, k', R, B⟩ := by
  have hdepth : ∀ i, frameSum ((s.writeAll f cs).text i) = frameSum (s.text i) := by
    intro i
    by_cases hi : i = f
    · rw [hi, s.text_writeAll_self hf, frameSum_append, hsum, Int.add_zero]
    · rw [s.text_writeAll_of_ne hi]
  refine ⟨h.distinct, fun x hx => ?_, fun g gs hg => ?_, ?_, ?_, h.bodies, fun g hg => ?_,
    h.fits.writeAll hf hcs⟩
  · rw [s.size_writeAll]
    exact h.known x hx
  · rw [s.writing_writeAll] at hg
    obtain ⟨r, hr, ho, hd⟩ := h.current g gs hg
    exact ⟨r, hr, by rw [s.scopes_writeAll, ho], by rw [hdepth, hd]⟩
  · rw [s.scopes_writeAll]
    exact h.tidy
  · rw [s.scopes_writeAll]
    exact h.attributed
  · obtain ⟨hr, hd⟩ := h.pending g hg
    exact ⟨hr, by rw [hdepth, hd]⟩

theorem write {f : FileId} {c : Command} (h : Laid N roles ⟨s, k, R, B⟩)
    (hf : f < s.files.size) (hsum : c.frameChange = 0)
    (hc : Fits N roles f (s.text f) c) : Laid N roles ⟨s.write f c, k', R, B⟩ := by
  change Laid N roles ⟨s.writeAll f [c], k', R, B⟩
  refine h.writeAll hf (by simp [frameSum, hsum]) ?_
  intro pre d post hd
  obtain ⟨rfl, rfl, rfl⟩ : pre = [] ∧ d = c ∧ post = [] := by
    cases pre with
    | nil => simpa [eq_comm] using hd
    | cons x xs => simp at hd
  rwa [List.append_nil]

/-- What was laid before a stretch and is laid at its end inside is laid behind it. -/
theorem back (hout : Laid N roles ⟨s, k, R, B⟩) (hin : Laid N roles' ⟨s₁, k', R₁, B'⟩)
    (hsub : roles ⊆ roles') (hsize : s₁.files.size ≤ s₂.files.size) (hw : s₂.writing = s.writing)
    (hk : ScopeStack.Keeps s.scopes.scopes s₂.scopes.scopes)
    (hdepth : ∀ i < s.files.size, frameSum (s₂.text i) = frameSum (s.text i))
    (hexists : Point.Exists ⟨s, k, R, B⟩) (hR : R' ⊆ R) (hfits : AllFit N roles' s₂) :
    Laid N roles' ⟨s₂, k, R', B'⟩ where
  distinct := hin.distinct
  known x hx := Nat.lt_of_lt_of_le (hin.known x hx) hsize
  current f fs hf := by
    have hf' : s.writing = f :: fs := hw.symm.trans hf
    obtain ⟨r, hr, ho, hd⟩ := hout.current f fs hf'
    exact ⟨r, hsub hr, hk.owners_eq.trans ho, by rw [hdepth f (hexists.current hf'), hd]⟩
  tidy := hk.tidy hout.tidy
  attributed := (hout.attributed.keeps hk).mono hsub
  bodies := hin.bodies
  pending g hg := by
    obtain ⟨hr, hd⟩ := hout.pending g (hR hg)
    exact ⟨hsub hr, by rw [hdepth g (hexists.pending g (hR hg)), hd]⟩
  fits := hfits

theorem inBody {g : FileId} (h : Laid N roles ⟨s, k, R, B⟩) (hg : (g, Role.function) ∈ roles)
    (hd : frameSum (s.text g) = 0) : Laid N roles ⟨Gen.inBody s g, 0, [], B⟩ where
  distinct := h.distinct
  known := h.known
  current f fs hf := by
    obtain ⟨rfl, -⟩ := List.cons.inj hf
    exact ⟨.function, hg, rfl, hd⟩
  tidy := List.forall_mem_cons.2 ⟨fun _ => rfl, h.tidy⟩
  attributed := List.forall_mem_cons.2 ⟨hg, h.attributed⟩
  bodies := h.bodies
  pending := by simp
  fits := h.fits

theorem inExpansion {f : FileId} (h : Laid N roles ⟨s, k, R, B⟩) :
    Laid N roles ⟨s.openScope .expansion f, 0, [], B⟩ where
  distinct := h.distinct
  known := h.known
  current := h.current
  tidy := List.forall_mem_cons.2 ⟨fun _ => rfl, h.tidy⟩
  attributed := List.forall_mem_cons.2 ⟨rfl, h.attributed⟩
  bodies := h.bodies
  pending := by simp
  fits := h.fits

theorem inArm (h : Laid N roles ⟨s, k, R, B⟩) (opens : Bool) :
    Laid N ((s.files.size, .arm opens (Scope.owners s.scopes.scopes)) :: roles)
      ⟨Gen.inArm s opens, 0, [], B⟩ := by
  have hnew := h.mint (.arm opens (Scope.owners s.scopes.scopes))
  have hempty : s.mint.text s.files.size = [] :=
    (s.text_mint _).trans (s.text_of_size_le (Nat.le_refl _))
  cases opens with
  | false =>
    refine ⟨hnew.distinct, hnew.known, fun f fs hf => ?_, hnew.tidy, hnew.attributed, hnew.bodies, by simp,
      hnew.fits⟩
    obtain ⟨rfl, -⟩ := List.cons.inj hf
    refine ⟨_, List.mem_cons_self, rfl, ?_⟩
    exact congrArg frameSum hempty
  | true =>
    have htext := text_inArm_self s true
    refine ⟨hnew.distinct, fun x hx => ?_, fun f fs hf => ?_, ?_, ?_, hnew.bodies, by simp, ?_⟩
    · rw [size_inArm, ← s.size_mint]
      exact hnew.known x hx
    · rw [writing_inArm] at hf
      obtain ⟨rfl, -⟩ := List.cons.inj hf
      refine ⟨_, List.mem_cons_self, rfl, ?_⟩
      rw [htext]
      rfl
    · exact List.forall_mem_cons.2 ⟨fun _ => rfl, hnew.tidy⟩
    · exact List.forall_mem_cons.2 ⟨⟨_, List.mem_cons_self⟩, hnew.attributed⟩
    · intro i pre c post hi
      by_cases hsize : i = s.files.size
      · rw [hsize, htext] at hi
        obtain ⟨rfl, rfl⟩ : pre = [] ∧ c = .openFrame := by
          cases pre with
          | nil => exact ⟨rfl, (List.cons.inj hi).1.symm⟩
          | cons x xs => simp at hi
        exact .silent rfl rfl
      · rw [text_inArm_of_ne s true hsize, ← s.text_mint] at hi
        exact hnew.fits i pre c post hi

end Laid

end Gen
end PackScript
