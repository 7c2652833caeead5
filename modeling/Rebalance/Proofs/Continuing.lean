/-
  Rebalance.Proofs.Continuing

  What a step leaves of the demands that jobs put to the transport.  `Onto` says
  where every job that is there after a step comes from; so a demand always goes
  to the supplier of the stream that its job belongs to (`proper_step`), and a
  page asks for the next one exactly if it was worked through and has left its
  round unfinished (`reply?_step`).
-/
import Mathlib.Data.List.Nodup
import Rebalance.Proofs.Coverage

namespace Rebalance

-- ============================================================================
-- Demands and streams
-- ============================================================================

/-- A stream of pages: the node that sends them, and the worker that they are for. -/
abbrev StreamId := NodeId × WorkerId

/-- The stream whose next page is asked for. -/
def Request.stream (q : Request) : StreamId := (q.target, q.topic.worker)

/-- The stream that a page belongs to. -/
def PageJob.stream (job : PageJob) : StreamId := (job.sender, job.worker)

/-- A demand goes to a supplier, and wants its answer on the topic of the same worker. -/
structure Request.Proper (q : Request) : Prop where
  role : q.topic.role = .supply
  reply : ∃ t, q.demand.reply = some t ∧ t.role = .demand ∧ t.worker = q.topic.worker

namespace Job

/-- The demands that a job is still to be told of as sent, the next one first. -/
def asks : Job → List Request
  | replying _ q => [q]
  | j => j.unanswered

theorem head?_asks (j : Job) : j.asks.head? = j.request? := by
  cases j <;> rfl

/-- Whatever a job asks for is proper, and a page asks for the next one of its stream. -/
def Proper (j : Job) : Prop :=
  ∀ q ∈ j.asks, q.Proper ∧ ∀ job, j.page? = some job → q.stream = job.stream

end Job

namespace Demander

variable {d e : Demander} {i : Input} {id : JobId} {j : Job} {job : PageJob} {R : RoundId}
  {q : Request}

theorem proper_requestTo (w : WorkerPool) (node : NodeId) (demand : Demand) (worker : WorkerId) :
    (w.requestTo node demand worker).Proper := ⟨rfl, _, rfl, rfl, rfl⟩

theorem proper_nextRequest (d : Demander) (job : PageJob) : (d.nextRequest job).Proper :=
  ⟨rfl, _, rfl, rfl, rfl⟩

theorem nextRequest_congr (h : e.settings = d.settings) (job : PageJob) :
    e.nextRequest job = d.nextRequest job := by
  rw [nextRequest, pool, h]
  rfl

-- ============================================================================
-- The end of the work on a page
-- ============================================================================

/-- All partitions of a page are done. -/
def Walked.isFinished : Walked → Bool
  | .finished => true
  | _ => false

/-- What becomes of the job of a page that was worked through to its end, or not: it waits for a lock,
    it asks for the next page, or it has returned. -/
inductive AfterWork (job : PageJob) (e : Demander) : Bool → Option Job → Prop where
  | waits (p : PartitionId) (entries : List Entry) (rest : List (PartitionId × List Entry)) :
      AfterWork job e false (some (.locking job p entries rest))
  | fails : AfterWork job e false none
  | continues (h : (e.roundOf job.round).round.isDone = false) :
      AfterWork job e true (some (.replying job (e.nextRequest job)))
  | completes (h : (e.roundOf job.round).round.isDone = true) : AfterWork job e true none

theorem afterWork_afterWalk (d : Demander) (id : JobId) (job : PageJob) (w : Walked) :
    AfterWork job (afterWalk id job (d, w)) w.isFinished ((afterWalk id job (d, w)).job? id) := by
  cases w with
  | finished =>
    show AfterWork job (d.endPage id job) true ((d.endPage id job).job? id)
    rw [endPage_eq]
    by_cases hdone : ((d.settleMissed job).roundOf job.round).round.isDone = true
    · rw [if_pos hdone, job?_finish_self]
      exact .completes hdone
    · rw [if_neg hdone, job?_park_self]
      exact .continues (Bool.eq_false_iff.mpr hdone)
  | blocked p entries rest =>
    show AfterWork job _ false ((d.park id _).job? id)
    rw [job?_park_self]
    exact .waits p entries rest
  | failed cause =>
    show AfterWork job _ false (((d.failPage job cause).finish id (.ok ())).job? id)
    rw [job?_finish_self]
    exact .fails

/-- The page of a job that a step works through to its end without an error: one that it takes up,
    or one that has waited for a lock. -/
def processes (d : Demander) (id : JobId) : Input → Option PageJob
  | .page worker sender page =>
    if id = d.nextJob then
      (d.accepted worker sender page).filter fun job =>
        ((d.spawn.1.measure Board.pageReceived).walk job job.page.entries.toList).2.isFinished
    else none
  | .resume k =>
    if id = k then
      match d.job? id with
      | some (.locking job p entries rest) =>
        if (d.site.store.base.tryLock p).2 && (d.goOn job p entries rest).2.isFinished then some job
        else none
      | _ => none
    else none
  | _ => none

/-- The demand for the next page that a step comes to: it has worked a page through, and the round
    of the page is not over. -/
def continues (d : Demander) (id : JobId) (i : Input) : Option Request :=
  (d.processes id i).bind fun job =>
    if ((d.step i).roundOf job.round).round.isDone then none else some (d.nextRequest job)

/-- The demands for a next page that the job of a page comes to along a run. -/
def continuations (d : Demander) (id : JobId) : List Input → List Request
  | [] => []
  | i :: rest => (d.continues id i).toList ++ (d.step i).continuations id rest

theorem continuations_append (d : Demander) (id : JobId) (inputs more : List Input) :
    d.continuations id (inputs ++ more) =
      d.continuations id inputs ++ (d.run inputs).continuations id more := by
  induction inputs generalizing d with
  | nil => rfl
  | cons i inputs ih =>
    rw [List.cons_append, continuations, continuations, ih, List.append_assoc]
    rfl

theorem processes_page {worker : WorkerId} {sender : NodeId} {page : Supply}
    (ha : d.accepted worker sender page = some job) :
    d.processes d.nextJob (.page worker sender page) =
      if ((d.spawn.1.measure Board.pageReceived).walk job job.page.entries.toList).2.isFinished then
        some job
      else none := by
  rw [processes, if_pos rfl, ha, Option.filter_some]

theorem processes_resume {p : PartitionId} {entries : List Entry}
    {rest : List (PartitionId × List Entry)} (hj : d.job? id = some (.locking job p entries rest)) :
    d.processes id (.resume id) =
      if (d.site.store.base.tryLock p).2 && (d.goOn job p entries rest).2.isFinished then some job
      else none := by
  simp only [processes, hj, if_true]

/-- A page that is worked through has just arrived, or has waited for a lock. -/
theorem processes_cases (h : d.processes id i = some job) :
    (∃ worker sender page, i = .page worker sender page ∧ id = d.nextJob ∧
      d.accepted worker sender page = some job) ∨
    ∃ p entries rest, i = .resume id ∧ d.job? id = some (.locking job p entries rest) := by
  cases i with
  | page worker sender page =>
    rw [processes] at h
    split at h
    · next hid => exact .inl ⟨_, _, _, rfl, hid, (Option.filter_eq_some_iff.mp h).1⟩
    · cases h
  | resume k =>
    rw [processes] at h
    split at h
    · next hk =>
      split at h
      · next job' p entries rest hj =>
        split at h
        · obtain rfl := Option.some.inj h
          exact .inr ⟨p, entries, rest, by rw [hk], hj⟩
        · cases h
      · cases h
    · cases h
  | _ => cases h

/-- The page of a job that is worked through is the one that the job was at. -/
structure Works (d : Demander) (i : Input) (id : JobId) (job : PageJob) : Prop where
  after : AfterWork job (d.step i) (d.processes id i).isSome ((d.step i).job? id)
  same : ∀ job', d.processes id i = some job' → job' = job

theorem Works.left (h : Works d i id job) (hj : (d.step i).job? id = some j) :
    AfterWork job (d.step i) (d.processes id i).isSome (some j) := hj ▸ h.after

theorem works_page {worker : WorkerId} {sender : NodeId} {page : Supply}
    (ha : d.accepted worker sender page = some job) :
    Works d (.page worker sender page) d.nextJob job := by
  have hwork := afterWork_afterWalk
    ((d.spawn.1.measure Board.pageReceived).walk job job.page.entries.toList).1 d.nextJob job
    ((d.spawn.1.measure Board.pageReceived).walk job job.page.entries.toList).2
  rw [← step_page ha] at hwork
  refine ⟨?_, fun job' h => ?_⟩
  · rw [processes_page ha]
    split <;> simp_all
  · rw [processes_page ha] at h
    split at h
    · exact (Option.some.inj h).symm
    · cases h

theorem works_resume {p : PartitionId} {entries : List Entry}
    {rest : List (PartitionId × List Entry)} (hj : d.job? id = some (.locking job p entries rest)) :
    d.step (.resume id) = d ∧ d.processes id (.resume id) = none ∨ Works d (.resume id) id job := by
  have hstep := step_resume_locking hj
  have hp := processes_resume hj
  cases hlock : (d.site.store.base.tryLock p).2 with
  | false =>
    rw [hlock] at hstep hp
    exact .inl ⟨hstep.trans (if_pos rfl), hp⟩
  | true =>
    rw [hlock, if_neg (by decide)] at hstep
    rw [hlock, Bool.true_and] at hp
    have hwork := afterWork_afterWalk (d.goOn job p entries rest).1 id job
      (d.goOn job p entries rest).2
    rw [← hstep] at hwork
    refine .inr ⟨?_, fun job' h => ?_⟩
    · rw [hp]
      split <;> simp_all
    · rw [hp] at h
      split at h
      · exact (Option.some.inj h).symm
      · cases h

-- ============================================================================
-- Where jobs come from
-- ============================================================================

/-- Where a job comes from that is there after a step: it was there before; it is that of a page
    that was taken up or that has waited for a lock; it has demands left to send after one of them
    was answered for; it waits for something else than the transport; or it is that of a plan that
    the step has started a round for. -/
inductive Onto (d : Demander) (i : Input) (id : JobId) : Job → Prop where
  | stays {j : Job} (h : d.job? id = some j) : Onto d i id j
  | arrives {worker : WorkerId} {sender : NodeId} {page : Supply} {job : PageJob} {j : Job}
      (hi : i = .page worker sender page) (hid : id = d.nextJob)
      (ha : d.accepted worker sender page = some job) (hw : Works d i id job) : Onto d i id j
  | goesOn {job : PageJob} {p : PartitionId} {entries : List Entry}
      {rest : List (PartitionId × List Entry)} {j : Job}
      (hk : d.job? id = some (.locking job p entries rest)) (hw : Works d i id job) : Onto d i id j
  | sends {k j : Job} {r : Except Fault Unit} (hi : i = .answer id r) (hk : d.job? id = some k)
      (hp : j.page? = none) (hq : j.asks = k.asks.tail) : Onto d i id j
  | waits {j : Job} (hp : j.page? = none) (hq : j.asks = []) : Onto d i id j
  | opens {R : RoundId} {P plan : Plan} {e : Demander} {j : Job} (h : Opens d i R P id plan e) :
      Onto d i id j

/-- Who has demands of a round to send that was not bound before has started it. -/
theorem opens_of_sending (hs : d.Steady) {s : Shipment} {rest : List Shipment}
    (hj : (d.step i).job? id = some (.sending R q s rest))
    (hr : (d.roundOf R).round.attached = false) : ∃ P plan e, Opens d i R P id plan e := by
  -- Whose demands are sent is bound after the step, and only a launch binds a round.
  have hbound := ((steady_step hs i).bound id _ R hj rfl).2
  have hi : ∀ c, i ≠ .site c := by
    rintro c rfl
    exact absurd (hr.symm.trans hbound) (by decide)
  cases fates hs hi with
  | stays _ hl => exact absurd ((hl.free R hr).symm.trans hbound) (by decide)
  | stops hstop _ =>
    subst hstop
    exact absurd (((leads_stop hs).free R hr).symm.trans hbound) (by decide)
  | launches R' id' plan e h =>
    have hround : R = R' := by
      by_contra hne
      rw [h.attached, if_neg hne, hr] at hbound
      cases hbound
    subst hround
    have hid : (d.actor i).id? = some id := by
      by_contra hother
      rw [job_of_other hs hother] at hj
      rw [(hs.bound id _ R hj rfl).2] at hr
      cases hr
    rw [h.who] at hid
    obtain rfl : id' = id := Option.some.inj hid
    rcases h.outcome with he | ⟨P, ho⟩
    · rw [he, job?_finish_self] at hj
      cases hj
    · exact ⟨P, plan, e, ho⟩

/-- What is left of demands after one of them was answered for. -/
theorem asks_answer {r : Except Fault Unit} {round : RoundId} {s : Shipment} {rest : List Shipment}
    (hk : d.job? id = some (.sending round q s rest)) (hj : (d.step (.answer id r)).job? id = some j) :
    j.page? = none ∧ j.asks = s.parts ++ rest.flatMap (·.parts) := by
  have hmore : ∀ (e : Demander) (s' : Shipment), s'.parts = s.parts →
      (e.dispatch id round (s' :: rest)).job? id = some j →
        j.page? = none ∧ j.asks = s.parts ++ rest.flatMap (·.parts) := by
    intro e s' hparts he
    rcases job?_dispatch e id round (s' :: rest) with ⟨hnone, -⟩ | ⟨q', s'', rest', hsend, hall⟩
    · cases hnone.symm.trans he
    · obtain rfl := Option.some.inj (he.symm.trans hsend)
      refine ⟨rfl, ?_⟩
      rw [← hparts, ← List.flatMap_cons (f := fun s : Shipment => s.parts), hall]
      rfl
  change (d.answer id r).job? id = some j at hj
  unfold answer at hj
  rw [hk] at hj
  cases r with
  | ok _ => exact hmore _ s rfl hj
  | error cause => exact hmore _ { s with failure := some (s.failure.getD cause) } rfl hj

/-- A job that is no page's before a step is no page's after it. -/
theorem page_of_actor (hs : d.Steady) (hi : ∀ c, i ≠ .site c) (hj : (d.step i).job? id = some j)
    (hw : ∀ job, d.actor i ≠ .page id job) : d.job? id = some j ∨ j.page? = none := by
  rcases (step_ticks hs hi).job hj with hold | ⟨hid, f, hparks⟩
  · refine .inl ?_
    cases i <;> exact hold
  · cases hact : d.actor i with
    | page id' job =>
      rw [hact] at hid
      obtain rfl : id' = id := Option.some.inj hid
      exact absurd hact (hw job)
    | call id' =>
      rw [hact] at hparks
      cases hparks with
      | call hp _ _ => exact .inr hp
    | nobody =>
      rw [hact] at hid
      cases hid

/-- The job of a page after a step. -/
theorem onto_page (hs : d.Steady) (hj : (d.step i).job? id = some j) (hp : j.page?.isSome = true) :
    Onto d i id j := by
  by_cases hid : (d.actor i).id? = some id
  swap
  · exact .stays ((job_of_other hs hid).symm.trans hj)
  have hi : ∀ c, i ≠ .site c := by
    rintro c rfl
    cases hid
  by_cases hw : ∀ job, d.actor i ≠ .page id job
  · rcases page_of_actor hs hi hj hw with hold | hnone
    · exact .stays hold
    · rw [hnone] at hp
      cases hp
  simp only [not_forall, not_not] at hw
  obtain ⟨job, hw⟩ := hw
  cases i with
  | page worker sender page =>
    cases ha : d.accepted worker sender page with
    | none =>
      simp only [actor, ha] at hw
      cases hw
    | some job' =>
      simp only [actor, ha] at hw
      cases hw
      exact .arrives rfl rfl ha (works_page ha)
  | resume id' =>
    obtain ⟨rfl, k, hk, hpk⟩ := job_of_actorOf hw
    cases k with
    | locking job' p entries rest =>
      rcases works_resume hk with ⟨hsame, -⟩ | hwork
      · exact .stays (hsame ▸ hj)
      · exact .goesOn hk hwork
    | replying job' q' =>
      rw [job_of_request hs hk rfl (by rintro r ⟨⟩)] at hj
      exact .stays hj
    | _ => cases hpk
  | answer id' r =>
    obtain ⟨rfl, k, hk, hpk⟩ := job_of_actorOf hw
    cases k with
    | locking job' p entries rest =>
      -- Who waits for a lock has not asked the transport for anything.
      change (d.answer id' r).job? id' = some j at hj
      unfold answer at hj
      rw [hk] at hj
      exact .stays hj
    | replying job' q' => cases (job?_answered hk r).symm.trans hj
    | _ => cases hpk
  | _ => cases hw

theorem onto_step (hs : d.Steady) (hj : (d.step i).job? id = some j) : Onto d i id j := by
  cases hp : j.page? with
  | some job => exact onto_page hs hj (by rw [hp]; rfl)
  | none =>
    obtain ⟨k, hk, hproceeds⟩ := proceeds_step hs hj hp
    cases hproceeds with
    | same =>
      unfold jobBefore at hk
      split at hk
      · cases i <;> cases hk <;> exact .waits rfl rfl
      · exact .stays hk
    | waits plan ho => exact .waits rfl rfl
    | starts hpl ho hr q s rest =>
      obtain ⟨P, plan, e, h⟩ := opens_of_sending hs hj hr
      exact .opens h
    | @sends round q q' s s' rest rest' =>
      have hk' := jobBefore_planning hk rfl
      by_cases hi : ∃ r, i = .answer id r
      · obtain ⟨r, rfl⟩ := hi
        obtain ⟨-, hasks⟩ := asks_answer hk' hj
        exact .sends rfl hk' rfl hasks
      · rw [job_of_request hs hk' rfl fun r hr => hi ⟨r, hr⟩] at hj
        exact .stays hj

-- ============================================================================
-- Demands are proper
-- ============================================================================

/-- A round that is started asks for proper demands, one for each stream. -/
theorem Opens.demands {P plan : Plan} (h : Opens d i R P id plan e)
    (hj : (d.step i).job? id = some j) :
    j.page? = none ∧ (∀ q ∈ j.asks, q.Proper) ∧ (j.asks.map Request.stream).Nodup := by
  have hall : j.page? = none ∧ j.asks = ((e.begin R P).shipments P).flatMap (·.parts) := by
    rw [h.starts] at hj
    rcases job?_dispatch (e.begin R P) id R ((e.begin R P).shipments P) with
      ⟨hnone, -⟩ | ⟨q, s, rest, hsend, hall⟩
    · cases hnone.symm.trans hj
    · obtain rfl := Option.some.inj (hj.symm.trans hsend)
      exact ⟨rfl, hall.symm⟩
  rw [hall.2]
  refine ⟨hall.1, fun q hq => ?_, ?_⟩
  · obtain ⟨node, demand, worker, p, -, -, rfl⟩ := mem_shipments.mp hq
    exact proper_requestTo _ node demand worker
  · rw [List.Nodup, List.pairwise_map]
    refine (ascending_shipments (e.begin R P) P).imp fun {a b} hbefore heq => ?_
    have htarget : a.target = b.target := congrArg Prod.fst heq
    have hworker : a.topic.worker = b.topic.worker := congrArg Prod.snd heq
    rcases hbefore with hlt | ⟨-, hlt⟩
    · exact UInt64.ne_of_lt hlt htarget
    · exact UInt64.ne_of_lt hlt hworker

theorem AfterWork.proper {b : Bool} (h : AfterWork job e b (some j)) : j.Proper := by
  cases h with
  | waits p entries rest => exact fun q hq => absurd hq List.not_mem_nil
  | continues _ =>
    intro q hq
    obtain rfl := List.mem_singleton.mp hq
    refine ⟨proper_nextRequest e job, fun job' hp => ?_⟩
    obtain rfl : job = job' := Option.some.inj hp
    rfl

/-- Whatever happens, all jobs ask for proper demands only. -/
theorem proper_step (hs : d.Steady) (hp : ∀ id j, d.job? id = some j → j.Proper) (i : Input) :
    ∀ id j, (d.step i).job? id = some j → j.Proper := by
  intro id j hj
  cases onto_step hs hj with
  | stays h => exact hp id j h
  | arrives _ _ _ hw => exact (hw.left hj).proper
  | goesOn _ hw => exact (hw.left hj).proper
  | @sends k _ r _ hk hpage hq =>
    intro q hmem
    refine ⟨(hp id k hk q (List.mem_of_mem_tail (hq ▸ hmem))).1, fun job h => ?_⟩
    cases hpage.symm.trans h
  | waits _ hq => exact fun q hmem => absurd (hq ▸ hmem) List.not_mem_nil
  | opens h =>
    obtain ⟨hpage, hproper, -⟩ := h.demands hj
    refine fun q hmem => ⟨hproper q hmem, fun job hpj => ?_⟩
    cases hpage.symm.trans hpj

-- ============================================================================
-- Asking for the next page
-- ============================================================================

/-- The demand for the next page that the job of a page waits for to be sent. -/
def reply? (d : Demander) (id : JobId) : Option Request :=
  match d.job? id with
  | some (.replying _ q) => some q
  | _ => none

theorem reply?_of_replying (h : d.job? id = some (.replying job q)) : d.reply? id = some q := by
  rw [reply?, h]

theorem eq_replying_of_reply? (h : d.reply? id = some q) :
    ∃ job, d.job? id = some (.replying job q) := by
  unfold reply? at h
  split at h
  · next job q' hj => exact ⟨job, Option.some.inj h ▸ hj⟩
  · cases h

theorem reply?_congr (h : (e.job? id) = d.job? id) : e.reply? id = d.reply? id := by
  rw [reply?, h, reply?]

/-- A page that asks for the next one has been worked through already. -/
theorem continues_of_replying (hs : d.Steady) (h : d.job? id = some (.replying job q)) (i : Input) :
    d.continues id i = none := by
  cases hp : d.processes id i with
  | none => rw [continues, hp, Option.bind_none]
  | some job' =>
    rcases processes_cases hp with ⟨_, _, _, -, hid, -⟩ | ⟨_, _, _, -, hj⟩
    · exact absurd hid (Nat.ne_of_lt (hs.young id _ h))
    · cases hj.symm.trans h

/-- A page that has returned is not taken up again. -/
theorem continues_of_gone (h : d.job? id = none) (hid : id < d.nextJob) (i : Input) :
    d.continues id i = none := by
  cases hp : d.processes id i with
  | none => rw [continues, hp, Option.bind_none]
  | some job' =>
    rcases processes_cases hp with ⟨_, _, _, -, hnew, -⟩ | ⟨_, _, _, -, hj⟩
    · exact absurd hnew (Nat.ne_of_lt hid)
    · cases hj.symm.trans h

/-- When a step works a page through, its job asks for the next page exactly if the round of the page
    is not over, and for nothing else. -/
theorem Works.reply? (h : Works d i id job) (hs : d.Steady) :
    (d.step i).reply? id = d.continues id i := by
  have hafter := h.after
  rw [continues]
  cases hp : d.processes id i with
  | none =>
    rw [hp] at hafter
    rw [Demander.reply?]
    generalize (d.step i).job? id = j at hafter
    cases hafter <;> rfl
  | some job' =>
    obtain rfl := h.same job' hp
    rw [hp] at hafter
    rw [Option.bind_some, ← nextRequest_congr (settings_step hs i), Demander.reply?]
    generalize (d.step i).job? id = j at hafter
    cases hafter with
    | continues hround =>
      rw [if_neg (Bool.eq_false_iff.mp hround)]
    | completes hround => rw [if_pos hround]

/-- A page that is worked through is at work. -/
theorem works_of_processes (h : d.processes id i = some job) : Works d i id job := by
  rcases processes_cases h with ⟨worker, sender, page, rfl, rfl, ha⟩ | ⟨p, entries, rest, rfl, hj⟩
  · exact works_page ha
  · rcases works_resume hj with ⟨-, hnone⟩ | hwork
    · cases hnone.symm.trans h
    · exact hwork

/-- Unless something is answered for, a page asks for the next one after a step if it did before, or
    if the step has worked it through and left the round unfinished. -/
theorem reply?_step (hs : d.Steady) (hi : ∀ r, i ≠ .answer id r) :
    (d.step i).reply? id = (d.reply? id).or (d.continues id i) := by
  cases hq : d.reply? id with
  | some q =>
    obtain ⟨job, hj⟩ := eq_replying_of_reply? hq
    rw [reply?_congr (job_of_request hs hj rfl hi), hq]
    rfl
  | none =>
    rw [Option.none_or]
    by_cases hw : ∃ job, Works d i id job
    · obtain ⟨job, hwork⟩ := hw
      exact hwork.reply? hs
    · -- Nobody is at work on a page of this job, so it does not come to ask for the next one.
      have hnone : d.continues id i = none := by
        cases hp : d.processes id i with
        | none => rw [continues, hp, Option.bind_none]
        | some job => exact absurd ⟨job, works_of_processes hp⟩ hw
      rw [hnone]
      cases hafter : (d.step i).reply? id with
      | none => rfl
      | some q =>
        obtain ⟨job, hj⟩ := eq_replying_of_reply? hafter
        cases onto_step hs hj with
        | stays h =>
          rw [reply?_of_replying h] at hq
          cases hq
        | arrives _ _ _ hwork => exact absurd ⟨_, hwork⟩ hw
        | goesOn _ hwork => exact absurd ⟨_, hwork⟩ hw
        | sends hanswer => exact absurd hanswer (hi _)
        | waits hp => cases hp
        | opens h => cases (h.demands hj).1

end Demander
end Rebalance
