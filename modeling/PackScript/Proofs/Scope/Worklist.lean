import PackScript.Generate.Visible
import PackScript.Proofs.Scope.Operations

/-! # The bodies behind a function

What the body of a function sees is found with a queue of bodies, to which the body at its head
adds those that its calls may go to. A function leaves the list of those not yet queued when it is
queued, so that each is queued once, also where functions call each other in circles. The queue
then amounts to one pass over a list of bodies that is closed under calls.
-/
namespace PackScript.ScopeStack

variable {φ : Type}

/-- The functions that the calls in a body may go to. -/
def callees (s : ScopeStack φ) (body : Block) : List (Entry φ) :=
  ((Block.references body {}).calls.reverse.map fun n => (n, s.candidates n)).flatMap Prod.snd

theorem mem_callees {s : ScopeStack φ} {body : Block} {e : Entry φ} :
    e ∈ s.callees body ↔ ∃ n ∈ (Block.references body {}).calls, e ∈ s.candidates n := by
  rw [callees, List.mem_flatMap]
  constructor
  · rintro ⟨c, hc, he⟩
    obtain ⟨n, hn, rfl⟩ := List.mem_map.1 hc
    exact ⟨n, List.mem_reverse.1 hn, he⟩
  · rintro ⟨n, hn, he⟩
    exact ⟨(n, s.candidates n), List.mem_map_of_mem (List.mem_reverse.2 hn), he⟩

theorem callees_subset_entries (s : ScopeStack φ) (body : Block) : s.callees body ⊆ s.entries := by
  intro e he
  obtain ⟨n, -, hn⟩ := mem_callees.1 he
  exact candidates_subset_entries s n hn

/-- What a list of bodies sees, one after the other, without a queue. -/
def survey (s : ScopeStack φ) : (known : List Name) → List Block → List Observation
  | _, [] => []
  | known, body :: bodies =>
    let references := Block.references body {}
    let fresh := references.vars.reverse.filter fun n => n ∉ known
    let callees := references.calls.reverse.map fun n => (n, s.candidates n)
    fresh.map s.observeVariable ++ callees.map (fun c => observeCallee c.1 c.2) ++
      s.survey (known ++ fresh) bodies

/-- Functions of the list, each once, among those not seen before. -/
structure Fresh (unseen : List Span) (es : List (Entry φ)) (fs : List Function) : Prop where
  nodup : (fs.map Function.span).Nodup
  unseen : ∀ f ∈ fs, f.span ∈ unseen
  known : ∀ f ∈ fs, ∃ e ∈ es, e.function = f

theorem discover_fresh (unseen : List Span) (es : List (Entry φ)) : ∃ fs : List Function, Fresh unseen es fs ∧
    (discover unseen es).1 = fs.map Function.body ∧
    (∀ span, span ∈ (discover unseen es).2 ↔ span ∈ unseen ∧ span ∉ fs.map Function.span) ∧
    ∀ e ∈ es, e.function.span ∈ unseen → e.function.span ∈ fs.map Function.span := by
  induction es generalizing unseen with
  | nil => exact ⟨[], ⟨List.nodup_nil, by simp, by simp⟩, rfl, by simp [discover], by simp⟩
  | cons e es ih =>
    by_cases hmem : e.function.span ∈ unseen
    · obtain ⟨fs, hfresh, hbodies, hleft, hclosed⟩ := ih (unseen.filter (· ≠ e.function.span))
      have hdiscover : discover unseen (e :: es) =
          (e.function.body :: (discover (unseen.filter (· ≠ e.function.span)) es).1,
            (discover (unseen.filter (· ≠ e.function.span)) es).2) := by
        rw [discover, if_pos hmem]
      have hnew : ∀ f ∈ fs, f.span ∈ unseen ∧ f.span ≠ e.function.span := by
        intro f hf
        simpa using hfresh.unseen f hf
      refine ⟨e.function :: fs, ⟨?_, ?_, ?_⟩, ?_, ?_, ?_⟩
      · rw [List.map_cons, List.nodup_cons]
        refine ⟨fun hin => ?_, hfresh.nodup⟩
        obtain ⟨f, hf, hspan⟩ := List.mem_map.1 hin
        exact (hnew f hf).2 hspan
      · rw [List.forall_mem_cons]
        exact ⟨hmem, fun f hf => (hnew f hf).1⟩
      · rw [List.forall_mem_cons]
        refine ⟨⟨e, List.mem_cons_self, rfl⟩, fun f hf => ?_⟩
        obtain ⟨e', he', hf'⟩ := hfresh.known f hf
        exact ⟨e', List.mem_cons_of_mem _ he', hf'⟩
      · rw [hdiscover, hbodies]
        rfl
      · intro span
        rw [hdiscover, hleft]
        simp only [List.mem_filter, decide_eq_true_eq, List.map_cons, List.mem_cons, not_or, and_assoc]
      · intro e' he' hspan
        by_cases hsame : e'.function.span = e.function.span
        · rw [hsame]
          exact List.mem_cons_self
        · rcases List.mem_cons.1 he' with rfl | he'
          · exact absurd rfl hsame
          · refine List.mem_cons_of_mem _ (hclosed e' he' ?_)
            simpa using ⟨hspan, hsame⟩
    · obtain ⟨fs, hfresh, hbodies, hleft, hclosed⟩ := ih unseen
      have hdiscover : discover unseen (e :: es) = discover unseen es := by
        rw [discover, if_neg hmem]
      rw [hdiscover]
      refine ⟨fs, ⟨hfresh.nodup, hfresh.unseen, fun f hf => ?_⟩, hbodies, hleft, ?_⟩
      · obtain ⟨e', he', hf'⟩ := hfresh.known f hf
        exact ⟨e', List.mem_cons_of_mem _ he', hf'⟩
      · rw [List.forall_mem_cons]
        exact ⟨fun h => absurd h hmem, hclosed⟩

theorem explore_cons (s : ScopeStack φ) (known : List Name) (unseen : List Span) (body : Block)
    (queue bodies : List Block)
    (h : ∀ known, s.explore known (discover unseen (s.callees body)).2
      (queue ++ (discover unseen (s.callees body)).1) = s.survey known (queue ++ bodies)) :
    s.explore known unseen (body :: queue) = s.survey known (body :: queue ++ bodies) := by
  rw [explore, List.cons_append, survey]
  exact congrArg _ (h _)

/-- The queue is worked off as one list: to what it holds come functions not queued before, each
once, and every function not queued before that a body on the list may call. -/
theorem explore_eq_survey (s : ScopeStack φ) (unseen : List Span) (queue : List Block) :
    ∃ fs : List Function, Fresh unseen s.entries fs ∧
      (∀ known, s.explore known unseen queue = s.survey known (queue ++ fs.map Function.body)) ∧
      ∀ body ∈ queue ++ fs.map Function.body, ∀ e ∈ s.callees body, e.function.span ∈ unseen →
        e.function.span ∈ fs.map Function.span := by
  match queue with
  | [] =>
    refine ⟨[], ⟨List.nodup_nil, by simp, by simp⟩, fun known => ?_, by simp⟩
    rw [explore]
    rfl
  | body :: queue =>
    obtain ⟨fs, hfresh, hbodies, hleft, hclosed⟩ := discover_fresh unseen (s.callees body)
    have hlength := discover_length unseen (s.callees body)
    have hlt : (discover unseen (s.callees body)).2.length +
        (queue ++ (discover unseen (s.callees body)).1).length < unseen.length + (body :: queue).length := by
      simp only [List.length_append, List.length_cons]
      omega
    obtain ⟨gs, hlater, hsurvey, hrest⟩ :=
      explore_eq_survey s (discover unseen (s.callees body)).2 (queue ++ (discover unseen (s.callees body)).1)
    have hqueue : queue ++ (discover unseen (s.callees body)).1 ++ gs.map Function.body =
        queue ++ (fs ++ gs).map Function.body := by
      rw [hbodies, List.append_assoc, List.map_append]
    have hnew : ∀ g ∈ gs, g.span ∈ unseen ∧ g.span ∉ fs.map Function.span :=
      fun g hg => (hleft g.span).1 (hlater.unseen g hg)
    simp only [hqueue] at hsurvey hrest
    refine ⟨fs ++ gs, ⟨?_, ?_, ?_⟩, fun known => explore_cons s known unseen body queue _ hsurvey, ?_⟩
    · rw [List.map_append, List.nodup_append]
      refine ⟨hfresh.nodup, hlater.nodup, ?_⟩
      rintro span hspan _ hspan' rfl
      obtain ⟨g, hg, rfl⟩ := List.mem_map.1 hspan'
      exact (hnew g hg).2 hspan
    · rw [List.forall_mem_append]
      exact ⟨hfresh.unseen, fun g hg => (hnew g hg).1⟩
    · rw [List.forall_mem_append]
      refine ⟨fun f hf => ?_, hlater.known⟩
      obtain ⟨e, he, hf'⟩ := hfresh.known f hf
      exact ⟨e, callees_subset_entries s body he, hf'⟩
    · intro body' hbody' e he hspan
      rw [List.map_append, List.mem_append]
      by_cases hfound : e.function.span ∈ fs.map Function.span
      · exact .inl hfound
      · rcases List.mem_cons.1 hbody' with rfl | hbody'
        · exact absurd (hclosed e he hspan) hfound
        · exact .inr (hrest body' hbody' e he ((hleft _).2 ⟨hspan, hfound⟩))
termination_by unseen.length + queue.length

/-- What a function sees is what its own body and the bodies of finitely many functions in sight
see, one after the other. Each of these functions comes once, and all that they may call are
among them. -/
theorem visibleTo_eq_survey (s : ScopeStack φ) (f : Function) : ∃ fs : List Function,
    s.visibleTo f = s.survey (f.signature.params.map Param.name) (f.body :: fs.map Function.body) ∧
      (f.span :: fs.map Function.span).Nodup ∧ (∀ g ∈ fs, ∃ e ∈ s.entries, e.function = g) ∧
      ∀ g ∈ f :: fs, ∀ e ∈ s.callees g.body, e.function.span ∈ f.span :: fs.map Function.span := by
  obtain ⟨fs, hfresh, hsurvey, hclosed⟩ :=
    explore_eq_survey s ((s.entries.map fun e => e.function.span).filter (· ≠ f.span)) [f.body]
  refine ⟨fs, hsurvey _, ?_, hfresh.known, ?_⟩
  · rw [List.nodup_cons]
    refine ⟨fun hin => ?_, hfresh.nodup⟩
    obtain ⟨g, hg, hspan⟩ := List.mem_map.1 hin
    have hne := (List.mem_filter.1 (hfresh.unseen g hg)).2
    exact of_decide_eq_true hne hspan
  · intro g hg e he
    by_cases hsame : e.function.span = f.span
    · rw [hsame]
      exact List.mem_cons_self
    · have hentry : e.function.span ∈ s.entries.map fun e => e.function.span :=
        List.mem_map_of_mem (callees_subset_entries s g.body he)
      have hbody : g.body ∈ [f.body] ++ fs.map Function.body := List.mem_map_of_mem hg
      exact List.mem_cons_of_mem _ (hclosed g.body hbody e he (List.mem_filter.2 ⟨hentry, decide_eq_true hsame⟩))

end PackScript.ScopeStack
