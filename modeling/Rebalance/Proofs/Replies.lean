/-
  Rebalance.Proofs.Replies

  The demands for a next page that one page comes to.  `OfPage` says which page a
  job takes in, which never changes, and a job that has come to ask for the next
  page, or has ended, does not come to it again; so a page asks for the next one
  once at most, and it asks the node that sent it.  What it asks for is for the
  topology of the plan, if only such plans are added (`Evenly`).
-/
import Rebalance.Proofs.Holding
import Rebalance.Proofs.Demands

namespace Rebalance
namespace Demander

variable {d : Demander} {i : Input} {id : JobId} {j : Job} {job : PageJob} {q : Request}

-- ============================================================================
-- Pages that have asked
-- ============================================================================

/-- A job that has ended does not come back. -/
theorem gone_step (hs : d.Steady) (hid : id < d.nextJob) (h : d.job? id = none) (i : Input) :
    (d.step i).job? id = none := by
  by_cases hact : (d.actor i).id? = some id
  swap
  · exact (job_of_other hs hact).trans h
  obtain ⟨-, k, hk⟩ := actor_of_begun hid hact
  cases h.symm.trans hk

/-- The job of a page asks for the next page, or has ended. -/
def Replied (d : Demander) (id : JobId) : Prop :=
  id < d.nextJob ∧ ((∃ job q, d.job? id = some (.replying job q)) ∨ d.job? id = none)

theorem Replied.continues (h : d.Replied id) (hs : d.Steady) (i : Input) : d.continues id i = none := by
  rcases h.2 with ⟨job, q, hj⟩ | hnone
  · exact continues_of_replying hs hj i
  · exact continues_of_gone hnone h.1 i

theorem Replied.step (h : d.Replied id) (hs : d.Steady) (i : Input) : (d.step i).Replied id := by
  refine ⟨Nat.lt_of_lt_of_le h.1 (nextJob_le hs i), ?_⟩
  rcases h.2 with ⟨job, q, hj⟩ | hnone
  · by_cases hi : ∃ r, i = .answer id r
    · obtain ⟨r, rfl⟩ := hi
      exact .inr (job?_answered hj r)
    · refine .inl ⟨job, q, ?_⟩
      rw [job_of_request hs hj rfl fun r hr => hi ⟨r, hr⟩]
      exact hj
  · exact .inr (gone_step hs h.1 hnone i)

theorem Replied.continuations (h : d.Replied id) (hs : d.Steady) (inputs : List Input) :
    d.continuations id inputs = [] := by
  induction inputs generalizing d with
  | nil => rfl
  | cons i inputs ih =>
    rw [Demander.continuations, h.continues hs i, ih (h.step hs i) (steady_step hs i)]
    rfl

-- ============================================================================
-- The page of a job
-- ============================================================================

/-- A job takes in a page, if it has not ended. -/
def OfPage (d : Demander) (id : JobId) (job : PageJob) : Prop :=
  id < d.nextJob ∧ ∀ j, d.job? id = some j → j.page? = some job

/-- The job of a page is that of a page, and of the same one. -/
theorem OfPage.step (h : d.OfPage id job) (hs : d.Steady) (i : Input) : (d.step i).OfPage id job := by
  refine ⟨Nat.lt_of_lt_of_le h.1 (nextJob_le hs i), fun j hj => ?_⟩
  cases hp : j.page? with
  | none =>
    obtain ⟨k, hk, hproceeds⟩ := proceeds_step hs hj hp
    rw [jobBefore, if_neg (Nat.ne_of_lt h.1)] at hk
    have hpage := h.2 k hk
    cases hproceeds with
    | same => cases hp.symm.trans hpage
    | waits => cases hpage
    | starts hplan =>
      cases k with
      | queued => cases hpage
      | awaiting => cases hpage
      | _ => cases hplan
    | sends => cases hpage
  | some job' =>
    -- The job is not a new one, so it has its page from before.
    cases onto_page hs hj (by rw [hp]; rfl) with
    | stays hold => exact hp.symm.trans (h.2 j hold)
    | arrives _ hid _ _ => exact absurd hid (Nat.ne_of_lt h.1)
    | goesOn hk hw =>
      obtain rfl := Option.some.inj (h.2 _ hk)
      exact hp.symm.trans (hw.left hj).page?
    | sends _ _ hnone _ => cases hnone.symm.trans hp
    | waits hnone _ => cases hnone.symm.trans hp
    | opens ho => cases (ho.demands hj).1.symm.trans hp

theorem OfPage.run (h : d.OfPage id job) (hs : d.Steady) (inputs : List Input) :
    (d.run inputs).OfPage id job := by
  induction inputs generalizing d with
  | nil => exact h
  | cons i inputs ih => exact ih (h.step hs i) (steady_step hs i)

/-- The job that a page begins takes in that page, or has ended at once. -/
theorem ofPage_begin (hs : d.Steady) {worker : WorkerId} {sender : NodeId} {page : Supply}
    (h : ∀ job', d.accepted worker sender page = some job' → job' = job) :
    (d.step (.page worker sender page)).OfPage d.nextJob job := by
  have hnext : (d.step (.page worker sender page)).nextJob = d.nextJob + 1 := nextJob_step hs _
  have hnone : d.job? d.nextJob = none := job?_of_le hs (Nat.le_refl _)
  refine ⟨hnext ▸ Nat.lt_succ_self _, fun j hj => ?_⟩
  cases hp : j.page? with
  | none =>
    obtain ⟨k, hk, -⟩ := proceeds_step hs hj hp
    rw [jobBefore, if_pos rfl] at hk
    cases hk
  | some job' =>
    cases onto_page hs hj (by rw [hp]; rfl) with
    | stays hold => cases hnone.symm.trans hold
    | arrives hi _ ha hw =>
      cases hi
      rw [← hp, (hw.left hj).page?, h _ ha]
    | goesOn hk _ => cases hnone.symm.trans hk
    | sends _ hk _ _ => cases hnone.symm.trans hk
    | waits hpage _ => cases hpage.symm.trans hp
    | opens ho => cases (ho.demands hj).1.symm.trans hp

/-- Whoever comes to ask for the next page has asked. -/
theorem replied_of_continues (hs : d.Steady) (h : d.continues id i = some q) :
    (d.step i).Replied id := by
  obtain ⟨job, hp, -⟩ := Option.bind_eq_some_iff.mp h
  obtain ⟨job', hj⟩ := eq_replying_of_reply? (((works_of_processes hp).reply? hs).trans h)
  exact ⟨(steady_step hs i).young _ _ hj, .inl ⟨job', q, hj⟩⟩

/-- A job asks for the page after the one that it takes in. -/
theorem OfPage.continues (h : d.OfPage id job) (hc : d.continues id i = some q) :
    q = d.nextRequest job := by
  obtain ⟨job', hp, hq⟩ := Option.bind_eq_some_iff.mp hc
  have hsame : job' = job := by
    rcases processes_cases hp with ⟨_, _, _, -, hid, -⟩ | ⟨_, _, _, -, hj⟩
    · exact absurd hid (Nat.ne_of_lt h.1)
    · exact Option.some.inj (h.2 _ hj)
  subst hsame
  split at hq
  · cases hq
  · exact (Option.some.inj hq).symm

/-- A page comes to ask for the next one at most once. -/
theorem OfPage.continuations (h : d.OfPage id job) (hs : d.Steady) (inputs : List Input) :
    d.continuations id inputs = [] ∨ d.continuations id inputs = [d.nextRequest job] := by
  induction inputs generalizing d with
  | nil => exact .inl rfl
  | cons i inputs ih =>
    rw [Demander.continuations]
    cases hc : d.continues id i with
    | none =>
      rw [← nextRequest_congr (settings_step hs i)]
      exact ih (h.step hs i) (steady_step hs i)
    | some q =>
      rw [(replied_of_continues hs hc).continuations (steady_step hs i), h.continues hc]
      exact .inr rfl

/-- A page that arrives comes to ask for the next one at most once, and if so it was accepted. -/
theorem continuations_of_page (hs : d.Steady) (worker : WorkerId) (sender : NodeId) (page : Supply)
    (inputs : List Input) :
    d.continuations d.nextJob (.page worker sender page :: inputs) = [] ∨
      ∃ job, d.accepted worker sender page = some job ∧
        d.continuations d.nextJob (.page worker sender page :: inputs) = [d.nextRequest job] := by
  cases ha : d.accepted worker sender page with
  | none =>
    have hnext : (d.step (.page worker sender page)).nextJob = d.nextJob + 1 := nextJob_step hs _
    have hgone : (d.step (.page worker sender page)).Replied d.nextJob :=
      ⟨hnext ▸ Nat.lt_succ_self _, .inr (job?_refused ha)⟩
    have hfirst : d.continues d.nextJob (.page worker sender page) = none := by
      rw [continues, processes, if_pos rfl, ha]
      rfl
    rw [continuations, hfirst, hgone.continuations (steady_step hs _)]
    exact .inl rfl
  | some job =>
    have hof : (d.step (.page worker sender page)).OfPage d.nextJob job :=
      ofPage_begin hs fun job' h => Option.some.inj (h.symm.trans ha)
    rw [continuations]
    cases hc : d.continues d.nextJob (.page worker sender page) with
    | none =>
      rcases hof.continuations (steady_step hs _) inputs with h | h
      · exact .inl h
      · refine .inr ⟨job, rfl, ?_⟩
        rw [nextRequest_congr (settings_step hs _)] at h
        exact h
    | some q =>
      refine .inr ⟨job, rfl, ?_⟩
      rw [(replied_of_continues hs hc).continuations (steady_step hs _)]
      obtain ⟨job', hp, hq⟩ := Option.bind_eq_some_iff.mp hc
      rw [(works_page ha).same job' hp] at hq
      split at hq
      · cases hq
      · rw [← Option.some.inj hq]
        rfl

-- ============================================================================
-- The topology that is asked for
-- ============================================================================

/-- All plans that a demander is at, or has still to process, demand partitions at their topology. -/
structure Evenly (d : Demander) : Prop where
  plan : ∀ P, d.plan = some P → P.Uniform
  jobs : ∀ id j P, d.job? id = some j → j.plan? = some P → P.Uniform

theorem Evenly.step (h : d.Evenly) (hs : d.Steady) {i : Input}
    (hi : ∀ P force, i = .add P force → P.Uniform) : (d.step i).Evenly where
  plan P hP := by
    by_cases hsite : ∃ c, i = .site c
    · obtain ⟨c, rfl⟩ := hsite
      exact h.plan P hP
    cases fates hs fun c hc => hsite ⟨c, hc⟩ with
    | stays _ hl => exact h.plan P (hl.plan.symm.trans hP)
    | stops hstop _ =>
      subst hstop
      exact h.plan P ((leads_stop hs).plan.symm.trans hP)
    | launches R id plan e hr =>
      rcases hr.outcome with heq | ⟨P', ho⟩
      · rw [heq, show ((e.pass R plan).finish id (.ok ())).plan = none from
          (beside_pass e R plan).plan] at hP
        cases hP
      · obtain rfl : P' = P := Option.some.inj (ho.after.2.symm.trans hP)
        have hplan : plan.Uniform := by
          obtain ⟨previous, hb, -⟩ := ho.follows
          cases hb with
          | added force => exact hi plan force rfl
          | queued hj => exact h.jobs id _ plan hj rfl
          | awaited hj => exact h.jobs id _ plan hj rfl
        rw [ho.stamped]
        exact hplan.stamp _ _
  jobs id j P hj hP := by
    have hpage : j.page? = none := by
      cases j <;> first | rfl | cases hP
    obtain ⟨k, hk, hproceeds⟩ := proceeds_step hs hj hpage
    have hkP := hproceeds.plan? hP
    unfold jobBefore at hk
    split at hk
    · cases i with
      | add P' force =>
        cases hk
        cases hkP
        exact hi P force rfl
      | stop =>
        cases hk
        cases hkP
      | _ => cases hk
    · exact h.jobs id k P hk hkP

theorem Evenly.run (h : d.Evenly) (hs : d.Steady) {inputs : List Input}
    (hi : ∀ P force, .add P force ∈ inputs → P.Uniform) : (d.run inputs).Evenly := by
  induction inputs generalizing d with
  | nil => exact h
  | cons i inputs ih =>
    refine ih (h.step hs ?_) (steady_step hs i) fun P force hmem =>
      hi P force (List.mem_cons_of_mem i hmem)
    rintro P force rfl
    exact hi P force List.mem_cons_self

end Demander
end Rebalance
