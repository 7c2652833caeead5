/-
  Rebalance.Proofs.Duplicate

  A page that is delivered twice.  Its first delivery leaves the demander where
  the same page finds nothing more to do: what it loaded, what it took off the
  round and what it failed at are settled.  `duplicate_page_is_harmless` says so
  for every page of every node: the second delivery leaves store, rounds and
  whatever else the demander holds as they are, moves meters, and asks for the
  next page once more at most.
-/
import Rebalance.Proofs.Reworked

namespace Rebalance

/-- Whether an effect is what the transport did with a message. -/
def Effect.isMessage : Effect → Bool
  | .sent .. => true
  | .refused .. => true
  | _ => false

-- ============================================================================
-- What a page says is missing, once more
-- ============================================================================

namespace Round

variable {κ : Type} {r : Round κ} {n m : NodeId} {p : PartitionId}

theorem recedes_missAll (hs : r.Standing) (ha : r.attached = true) (m : NodeId)
    (ps : List PartitionId) : Recedes n r (r.missAll m ps) := by
  induction ps generalizing r with
  | nil => exact .refl hs ha
  | cons p ps ih =>
    have h := recedes_miss (n := n) hs ha m p
    exact h.trans (ih h.standing h.attached)

theorem recedes_drainAll (hs : r.Standing) (ha : r.attached = true) (m : NodeId)
    (ps : List PartitionId) : Recedes n r (r.drainAll m ps) := by
  induction ps generalizing r with
  | nil => exact .refl hs ha
  | cons p ps ih =>
    have h := recedes_drain (n := n) hs ha m p
    exact h.trans (ih h.standing h.attached)

theorem noted_missAll (hs : r.Standing) (ha : r.attached = true) {ps : List PartitionId}
    (hp : p ∈ ps) : (r.missAll n ps).Noted n p := by
  induction ps generalizing r with
  | nil => cases hp
  | cons q ps ih =>
    have h := recedes_miss (n := n) hs ha n q
    rcases List.mem_cons.mp hp with rfl | hp
    · exact (recedes_missAll h.standing h.attached n ps).notes p (noted_miss r n p)
    · exact ih h.standing h.attached hp

/-- A node that was given up is not awaited. -/
theorem not_awaited_cancel (hs : r.Standing) (n : NodeId) :
    n ∉ (r.after (.cancel n)).outstandingNodes := by
  rw [(standing_cancel hs n).toSound.mem_outstandingNodes_iff]
  rintro ⟨p, hp⟩
  exact ((mem_outstandingFrom_cancel r n n p hs.toSound).mp hp).2 rfl

end Round

namespace Demander

variable {d e f g : Demander} {id : JobId} {R : RoundId} {n : NodeId} {job : PageJob}
  {todo : List (PartitionId × List Entry)} {r : Except Fault Unit} {w : Walked}

theorem recedes_settleMissed (hs : (d.roundOf job.round).round.Standing) (hb : d.Bound job.round) :
    Recedes job.round n d (d.settleMissed job) := by
  refine ⟨(beside_settleMissed d job).rounds, ?_⟩
  rw [round_settleMissed d job hb.1 job.round, if_pos rfl]
  have h := Round.recedes_missAll (n := n) hs hb.2 job.sender
    (job.page.missed.toList.filter fun p => d.owns p job.demand.topology)
  exact h.trans (Round.recedes_drainAll h.standing h.attached job.sender _)

theorem absorbed_settleMissed (hs : (d.roundOf job.round).round.Standing)
    (hb : d.Bound job.round) : (d.settleMissed job).Absorbed job := by
  intro p hp
  rw [(beside_settleMissed d job).owns, round_settleMissed d job hb.1 job.round, if_pos rfl]
  have h := Round.recedes_missAll (n := job.sender) hs hb.2 job.sender
    (job.page.missed.toList.filter fun p => d.owns p job.demand.topology)
  refine ⟨fun hq => ?_, fun ho => ?_⟩
  · exact (((Round.drainAll_answers h.standing job.sender _).2.2.2.2 job.sender p).mp hq).2
      ⟨rfl, hp⟩
  · exact (Round.recedes_drainAll h.standing h.attached job.sender _).notes p
      (Round.noted_missAll hs hb.2 (List.mem_filter.mpr ⟨hp, ho⟩))

/-- What a round has taken in it does not forget. -/
theorem Absorbed.later (h : d.Absorbed job) (hr : Recedes job.round job.sender d e)
    (ha : e.site.affinity = d.site.affinity) : e.Absorbed job := by
  intro p hp
  obtain ⟨hout, hnoted⟩ := h p hp
  refine ⟨fun hq => hout (hr.round.awaits p hq), fun ho => hr.round.notes p (hnoted ?_)⟩
  rw [owns, ← ha]
  exact ho

-- ============================================================================
-- A failure, once more
-- ============================================================================

/-- The sender of a page was given up for a failure, and a broken assumption was kept. -/
def GaveUp (d : Demander) (job : PageJob) (cause : Fault) : Prop :=
  job.sender ∉ (d.roundOf job.round).round.outstandingNodes ∧
    (cause.isBreach = true → d.fault.isSome = true)

/-- A failure gives the sender up, and at most keeps the cause. -/
theorem failPage_eq (d : Demander) (job : PageJob) (cause : Fault) :
    ∃ reason fault, d.failPage job cause =
        { d.cancelNode job.round job.sender reason with fault } ∧
      (cause.isBreach = true → fault.isSome = true) := by
  unfold failPage
  cases hl : cause.isNodeLeft with
  | true =>
    refine ⟨.nodeLeft, (d.cancelNode job.round job.sender .nodeLeft).fault, rfl, fun hb => ?_⟩
    cases cause with
    | network _ => cases hb
    | _ => cases hl
  | false =>
    cases hb : cause.isBreach with
    | true => exact ⟨.processingFault, some (_ : Fault), rfl, fun _ => rfl⟩
    | false =>
      exact ⟨.processingFault, (d.cancelNode job.round job.sender .processingFault).fault, rfl, nofun⟩

theorem gaveUp_failPage (hs : (d.roundOf job.round).round.Standing)
    (hl : job.round < d.rounds.length) (cause : Fault) :
    (d.failPage job cause).GaveUp job cause := by
  obtain ⟨reason, fault, heq, hfault⟩ := failPage_eq d job cause
  rw [heq]
  refine ⟨?_, hfault⟩
  change job.sender ∉
    ((d.cancelNode job.round job.sender reason).roundOf job.round).round.outstandingNodes
  rw [round_cancelNode d job.sender hl job.round, if_pos rfl]
  exact Round.not_awaited_cancel hs job.sender

theorem recedes_failPage (hs : (d.roundOf job.round).round.Standing) (hb : d.Bound job.round)
    (cause : Fault) : Recedes job.round n d (d.failPage job cause) := by
  obtain ⟨reason, fault, heq, -⟩ := failPage_eq d job cause
  rw [heq]
  refine ⟨(beside_cancelNode d job.round job.sender reason).rounds, ?_⟩
  change Round.Recedes n _ ((d.cancelNode job.round job.sender reason).roundOf job.round).round
  rw [round_cancelNode d job.sender hb.1 job.round, if_pos rfl]
  exact Round.recedes_cancel hs hb.2 job.sender

/-- The same failure again moves nothing but meters. -/
theorem GaveUp.measured {cause : Fault} (h : d.GaveUp job cause)
    (hs : (d.roundOf job.round).round.Standing) (hl : job.round < d.rounds.length) :
    Measured d (d.failPage job cause) := by
  have hfail := failPage_of_not_awaited hs hl h.1 cause
  cases hb : cause.isBreach with
  | false =>
    rw [if_neg (by simp [hb])] at hfail
    exact hfail
  | true =>
    obtain ⟨old, hold⟩ := Option.isSome_iff_exists.mp (h.2 hb)
    have hsame : ({ d with fault := some (d.fault.getD cause) } : Demander) = d := by
      rw [hold, Option.getD_some, ← hold]
    rw [if_pos hb, hsame] at hfail
    exact hfail

-- ============================================================================
-- How a page ends
-- ============================================================================

/-- A page that is delivered, and what the transport says to its continuation if there is one. -/
def handle (d : Demander) (worker : WorkerId) (sender : NodeId) (page : Supply)
    (r : Except Fault Unit) : Demander :=
  d.run [.page worker sender page, .answer d.nextJob r]

/-- What is left of a page that was worked through: nothing, as the round is over; a continuation
    that is sent, or not; or a failure. -/
inductive Ends (id : JobId) (job : PageJob) (r : Except Fault Unit) (d : Demander) :
    Walked → Demander → Prop where
  | done (h : ((d.settleMissed job).roundOf job.round).round.isDone = true) :
      Ends id job r d .finished (d.settleMissed job)
  | sent (h : ((d.settleMissed job).roundOf job.round).round.isDone = false) (q : Request)
      (hr : r = .ok ()) :
      Ends id job r d .finished
        ((((d.settleMissed job).park id (.replying job q)).noteAnswer q r).measure Board.demandSent)
  | unsent (h : ((d.settleMissed job).roundOf job.round).round.isDone = false) (q : Request)
      (cause : Fault) (hr : r = .error cause) :
      Ends id job r d .finished
        ((((d.settleMissed job).park id (.replying job q)).noteAnswer q r).failPage job cause)
  | failed (cause : Fault) : Ends id job r d (.failed cause) (d.failPage job cause)

theorem answer_finish (d : Demander) (id : JobId) (r r' : Except Fault Unit) :
    (d.finish id r').answer id r = d.finish id r' := by
  unfold answer
  rw [job?_finish_self]

/-- A page that is accepted, and meets no lock, is worked through and ends. -/
theorem handle_of_accepted {worker : WorkerId} {sender : NodeId} {page : Supply}
    (h : d.accepted worker sender page = some job)
    (hw : ∀ q es rest, ((d.spawn.1.measure Board.pageReceived).walk job page.entries.toList).2 ≠
      .blocked q es rest) :
    ∃ e, Ends d.nextJob job r
        ((d.spawn.1.measure Board.pageReceived).walk job page.entries.toList).1
        ((d.spawn.1.measure Board.pageReceived).walk job page.entries.toList).2 e ∧
      d.handle worker sender page r = e.finish d.nextJob (.ok ()) := by
  have hstart : d.handle worker sender page r =
      (afterWalk d.nextJob job
        ((d.spawn.1.measure Board.pageReceived).walk job page.entries.toList)).answer d.nextJob r := by
    change (d.spawn.1.startPage d.nextJob worker sender page).answer d.nextJob r = _
    rw [startPage_eq, show d.spawn.1.accepted worker sender page = some job from h]
    simp only
    rw [workPage_eq]
  rw [hstart]
  generalize (d.spawn.1.measure Board.pageReceived).walk job page.entries.toList = x at hw ⊢
  obtain ⟨e, w⟩ := x
  cases w with
  | blocked q es rest => exact absurd rfl (hw q es rest)
  | failed cause => exact ⟨_, .failed cause, answer_finish _ _ _ _⟩
  | finished =>
    simp only [afterWalk]
    rw [endPage_eq]
    cases hdone : ((e.settleMissed job).roundOf job.round).round.isDone with
    | true => exact ⟨_, .done hdone, answer_finish _ _ _ _⟩
    | false =>
      have hj : ((e.settleMissed job).park d.nextJob
          (.replying job ((e.settleMissed job).nextRequest job))).job? d.nextJob =
          some (.replying job ((e.settleMissed job).nextRequest job)) := by
        rw [job?_park_self]
      simp only [Bool.false_eq_true, if_false]
      unfold answer
      rw [hj]
      cases r with
      | ok u => exact ⟨_, .sent hdone _ rfl, rfl⟩
      | error cause => exact ⟨_, .unsent hdone _ cause rfl, rfl⟩

/-- What the end of a page leaves alone: all that is stored, and all that decides which pages are
    accepted; of the jobs it touches its own. -/
structure Unmoved (id : JobId) (d e : Demander) : Prop where
  site : d.site.Alike e.site
  store : e.site.store = d.site.store
  plan : e.plan = d.plan
  stopping : e.stopping = d.stopping
  current : e.current = d.current
  nextJob : e.nextJob = d.nextJob
  returns : e.returns = d.returns
  jobs : e.jobs.erase id = d.jobs.erase id

namespace Unmoved

theorem of_beside (h : Beside d e) : Unmoved id d e :=
  ⟨h.near.site, h.store, h.plan, h.stopping, h.current, h.nextJob, h.returns, by rw [h.jobs]⟩

theorem trans (h₁ : Unmoved id d e) (h₂ : Unmoved id e f) : Unmoved id d f where
  site := h₁.site.trans h₂.site
  store := h₂.store.trans h₁.store
  plan := h₂.plan.trans h₁.plan
  stopping := h₂.stopping.trans h₁.stopping
  current := h₂.current.trans h₁.current
  nextJob := h₂.nextJob.trans h₁.nextJob
  returns := h₂.returns.trans h₁.returns
  jobs := h₂.jobs.trans h₁.jobs

theorem park (d : Demander) (id : JobId) (j : Job) : Unmoved id d (d.park id j) := by
  refine ⟨.refl _, rfl, rfl, rfl, rfl, rfl, rfl, SortedMap.ext fun k => ?_⟩
  rw [SortedMap.get?_erase, SortedMap.get?_erase]
  by_cases hk : k = id
  · rw [if_pos hk, if_pos hk]
  · rw [if_neg hk, if_neg hk]
    exact SortedMap.get?_insert_of_ne hk

theorem failPage (d : Demander) (job : PageJob) (cause : Fault) : Unmoved id d (d.failPage job cause) := by
  obtain ⟨reason, fault, heq, -⟩ := failPage_eq d job cause
  have h : Unmoved id d (d.cancelNode job.round job.sender reason) :=
    .of_beside (beside_cancelNode d job.round job.sender reason)
  rw [heq]
  exact ⟨h.site, h.store, h.plan, h.stopping, h.current, h.nextJob, h.returns, h.jobs⟩

end Unmoved

theorem Ends.unmoved (h : Ends id job r d w e) : Unmoved id d e := by
  have hsettle : Unmoved id d (d.settleMissed job) := .of_beside (beside_settleMissed d job)
  have hnote : ∀ q, Unmoved id d (((d.settleMissed job).park id (.replying job q)).noteAnswer q r) :=
    fun q => (hsettle.trans (.park _ id _)).trans (.of_beside (beside_noteAnswer _ q r))
  cases h with
  | done => exact hsettle
  | sent _ q => exact (hnote q).trans (.of_beside (beside_measure _ _))
  | unsent _ q cause => exact (hnote q).trans (.failPage _ job cause)
  | failed cause => exact .failPage d job cause

theorem Ends.recedes (h : Ends id job r d w e) (hs : (d.roundOf job.round).round.Standing)
    (hb : d.Bound job.round) : Recedes job.round job.sender d e := by
  have hsettle : Recedes job.round job.sender d (d.settleMissed job) := recedes_settleMissed hs hb
  cases h with
  | done => exact hsettle
  | sent _ q hr =>
    subst hr
    exact ⟨hsettle.rounds, hsettle.round⟩
  | unsent _ q cause hr =>
    subst hr
    have hnote : Recedes job.round job.sender d
        (((d.settleMissed job).park id (.replying job q)).noteAnswer q (.error cause)) :=
      ⟨hsettle.rounds, hsettle.round⟩
    exact hnote.trans (recedes_failPage hnote.round.standing (hnote.bound hb) cause)
  | failed cause => exact recedes_failPage hs hb cause

/-- What a page has come to is settled: the round has taken in what it says is missing, and its
    sender was given up if it failed, or if its continuation did in an open round. -/
def Spent (job : PageJob) (r : Except Fault Unit) (d : Demander) : Walked → Prop
  | .finished => d.Absorbed job ∧ ((d.roundOf job.round).round.isDone = false →
      ∀ cause, r = .error cause → d.GaveUp job cause)
  | .failed cause => d.GaveUp job cause
  | .blocked _ _ _ => False

theorem Spent.congr (h : Spent job r d w) (worker : WorkerId)
    (hr : e.roundOf job.round = d.roundOf job.round) (ha : e.site.affinity = d.site.affinity)
    (hf : e.fault = d.fault) : Spent { job with worker } r e w := by
  have howns : ∀ p t, e.owns p t = d.owns p t := fun p t => by rw [owns, ha, owns]
  cases w with
  | finished =>
    unfold Spent Absorbed GaveUp at h ⊢
    simpa only [hr, hf, howns] using h
  | failed cause =>
    unfold Spent GaveUp at h ⊢
    rw [hr, hf]
    exact h
  | blocked => exact h

theorem Ends.spent (h : Ends id job r d w e) (hs : (d.roundOf job.round).round.Standing)
    (hb : d.Bound job.round) : Spent job r e w := by
  have hsettle : Recedes job.round job.sender d (d.settleMissed job) := recedes_settleMissed hs hb
  have habsorbed := absorbed_settleMissed hs hb
  cases h with
  | done hdone =>
    refine ⟨habsorbed, fun hopen => ?_⟩
    rw [hdone] at hopen
    cases hopen
  | sent _ q hr =>
    subst hr
    refine ⟨habsorbed, fun _ cause h => ?_⟩
    cases h
  | unsent _ q cause hr =>
    subst hr
    have hstanding : ((((d.settleMissed job).park id (.replying job q)).noteAnswer q
        (.error cause)).roundOf job.round).round.Standing := hsettle.round.standing
    have hbound : (((d.settleMissed job).park id (.replying job q)).noteAnswer q
        (.error cause)).Bound job.round := hsettle.bound hb
    refine ⟨?_, fun _ cause' hcause => ?_⟩
    · have hunmoved : Unmoved id _ ((((d.settleMissed job).park id (.replying job q)).noteAnswer q
          (.error cause)).failPage job cause) := Unmoved.failPage _ job cause
      exact Absorbed.later (d := ((d.settleMissed job).park id (.replying job q)).noteAnswer q
        (.error cause)) habsorbed (recedes_failPage hstanding hbound cause) hunmoved.site.affinity
    · cases hcause
      exact gaveUp_failPage hstanding hbound.1 cause
  | failed cause => exact gaveUp_failPage hs hb.1 cause

-- ============================================================================
-- The second delivery
-- ============================================================================

/-- A call has returned without having changed anything but meters, and others can notice at most
    messages. -/
def Echoes (d e : Demander) : Prop :=
  ∃ board messages, e = { d.returned with
      site := { d.site with board, trace := d.site.trace ++ messages } } ∧
    ∀ x ∈ messages, x.isMessage = true

theorem echoes_of_measured (hs : d.Steady) (h : Measured d.spawn.1 e) :
    Echoes d (e.finish d.nextJob (.ok ())) := by
  obtain ⟨board, rfl⟩ := h
  obtain ⟨board, hb⟩ := (finish_measured_iff hs (e := { d.spawn.1 with site := { d.site with board } })
    rfl rfl).mpr ⟨board, rfl⟩
  exact ⟨board, [], by rw [List.append_nil]; exact hb, by simp⟩

/-- A continuation that is sent, or not, and moves nothing but meters apart from that. -/
theorem echoes_of_asked (hs : d.Steady) (hm : Measured d.spawn.1 e) (q : Request)
    (h : Measured ((e.park d.nextJob (.replying job q)).noteAnswer q r) f) :
    Echoes d (f.finish d.nextJob (.ok ())) := by
  obtain ⟨board, rfl⟩ := hm
  obtain ⟨board', rfl⟩ := h
  have hjobs : (d.jobs.insert d.nextJob (.replying job q)).erase d.nextJob = d.jobs :=
    (Unmoved.park d d.nextJob (.replying job q)).jobs.trans (erase_nextJob hs)
  cases r with
  | ok u =>
    refine ⟨board', [.sent (.demand q.demand) q.target q.topic q.demand.timeout], ?_, by
      simp [Effect.isMessage]⟩
    change ({ d.returned with
      site := { d.site with board := board', trace := _ }
      jobs := (d.jobs.insert d.nextJob (.replying job q)).erase d.nextJob } : Demander) = _
    rw [hjobs]
    rfl
  | error cause =>
    refine ⟨board', [.refused cause q.target q.topic], ?_, by simp [Effect.isMessage]⟩
    change ({ d.returned with
      site := { d.site with board := board', trace := _ }
      jobs := (d.jobs.insert d.nextJob (.replying job q)).erase d.nextJob } : Demander) = _
    rw [hjobs]
    rfl

/-- A page that was worked through to no effect, and is spent, ends to no effect. -/
theorem Ends.echoes (h : Ends d.nextJob job r e w f) (hd : d.Steady) (hm : Measured d.spawn.1 e)
    (hb : d.Bound job.round) (hsp : Spent job r e w) : Echoes d (f.finish d.nextJob (.ok ())) := by
  have hs : (e.roundOf job.round).round.Standing := by
    obtain ⟨board, rfl⟩ := hm
    exact hd.standing job.round
  have hl : job.round < e.rounds.length := by
    obtain ⟨board, rfl⟩ := hm
    exact hb.1
  cases h with
  | done => exact echoes_of_measured hd (hm.trans (hsp.1.measured hs hl))
  | sent _ q hr =>
    exact echoes_of_asked hd (hm.trans (hsp.1.measured hs hl)) q (.measure _ _)
  | unsent hopen q cause hr =>
    have hsame := hsp.1.measured hs hl
    have hrounds : (((e.settleMissed job).park d.nextJob (.replying job q)).noteAnswer q r).rounds =
        e.rounds ∧ (((e.settleMissed job).park d.nextJob (.replying job q)).noteAnswer q r).GaveUp job
          cause := by
      obtain ⟨board, hboard⟩ := hsame
      rw [hboard] at hopen ⊢
      subst hr
      exact ⟨rfl, hsp.2 hopen cause rfl⟩
    refine echoes_of_asked hd (hm.trans hsame) q (hrounds.2.measured ?_ ?_)
    · rw [roundOf, hrounds.1]
      exact hs
    · rw [hrounds.1]
      exact hl
  | failed cause => exact echoes_of_measured hd (hm.trans (GaveUp.measured hsp hs hl))

/-- The worker on whose topic a page came has no say in the work on it. -/
theorem walk_worker (d : Demander) (job : PageJob) (worker : WorkerId)
    (todo : List (PartitionId × List Entry)) :
    d.walk { job with worker } todo = d.walk job todo := by
  induction todo generalizing d with
  | nil => rfl
  | cons x rest ih =>
    obtain ⟨p, es⟩ := x
    rw [walk_cons, walk_cons]
    have hgo : goOn (d.pinned p) { job with worker } p es rest = (d.pinned p).goOn job p es rest := by
      have hload : ∀ e : Demander, e.load { job with worker } p es = e.load job p es := fun _ => rfl
      unfold goOn
      rw [hload, ih]
    rw [hgo, ih]

theorem accepted_again {worker worker' : WorkerId} {sender : NodeId} {page : Supply}
    (h : d.accepted worker sender page = some job) (hs : e.stopping = d.stopping)
    (hp : e.plan = d.plan) (hc : e.current = d.current)
    (ha : e.site.affinity = d.site.affinity) :
    e.accepted worker' sender page = some { job with worker := worker' } := by
  obtain ⟨hstop, plan, demand, hplan, hdemand, hchanged, hfault, rfl⟩ := accepted_round h
  unfold accepted wanted
  rw [hs, hstop, hp, hplan, hc, ha]
  simp [hdemand, hchanged, hfault]

theorem accepted_eq_none_again {worker worker' : WorkerId} {sender : NodeId} {page : Supply}
    (h : d.accepted worker sender page = none) (hs : e.stopping = d.stopping)
    (hp : e.plan = d.plan) (hc : e.current = d.current)
    (ha : e.site.affinity = d.site.affinity) : e.accepted worker' sender page = none := by
  cases he : e.accepted worker' sender page with
  | none => rfl
  | some job =>
    have hd : d.accepted worker sender page = some { job with worker } :=
      accepted_again he hs.symm hp.symm hc.symm ha.symm
    rw [h] at hd
    cases hd

/-- The demander after a page that it does not accept: its sender is given up, if the current plan
    demands anything from it. -/
def dismissed (d : Demander) (sender : NodeId) : Demander :=
  if d.stopping then d.spawn.1
  else
    match d.plan.bind (·.get? sender) with
    | none => d.spawn.1.measure Board.pageReceived
    | some demand =>
      (d.spawn.1.measure Board.pageReceived).cancelNode d.current sender
        (if d.site.affinity.changedFrom demand.topology then .topologyChanged else .classFault)

theorem handle_of_not_accepted {worker : WorkerId} {sender : NodeId} {page : Supply}
    (h : d.accepted worker sender page = none) :
    d.handle worker sender page r = (d.dismissed sender).finish d.nextJob (.ok ()) := by
  change (d.spawn.1.startPage d.nextJob worker sender page).answer d.nextJob r = _
  rw [startPage_eq, show d.spawn.1.accepted worker sender page = none from h]
  exact answer_finish (d.dismissed sender) d.nextJob r (.ok ())

theorem beside_dismissed (d : Demander) (sender : NodeId) : Beside d.spawn.1 (d.dismissed sender) := by
  unfold dismissed
  split
  · exact .refl _
  · split
    · exact beside_measure _ _
    · exact (beside_measure _ _).trans (beside_cancelNode _ _ _ _)

/-- A page that is not accepted, from a node that the current round does not await if it could be
    given up. -/
theorem measured_dismissed {sender : NodeId} (hs : d.Steady)
    (hn : d.stopping = false → (d.plan.bind (·.get? sender)).isSome = true →
      sender ∉ d.currentRound.outstandingNodes) : Measured d.spawn.1 (d.dismissed sender) := by
  unfold dismissed
  cases hstop : d.stopping with
  | true => exact .refl _
  | false =>
    simp only [Bool.false_eq_true, if_false]
    cases hget : d.plan.bind (·.get? sender) with
    | none => exact .measure _ _
    | some demand =>
      simp only
      rw [cancelNode_of_not_awaited (d := d.spawn.1.measure Board.pageReceived)
        (hs.standing d.current) hs.current (hn hstop (by rw [hget]; rfl))]
      exact (Measured.measure _ _).trans (.measure _ _)

theorem not_awaited_dismissed {sender : NodeId} (hs : d.Steady) (hstop : d.stopping = false)
    (hget : (d.plan.bind (·.get? sender)).isSome = true) :
    sender ∉ (d.dismissed sender).currentRound.outstandingNodes := by
  obtain ⟨demand, hdemand⟩ := Option.isSome_iff_exists.mp hget
  unfold currentRound
  rw [(beside_dismissed d sender).current, dismissed, hstop, hdemand]
  change sender ∉ ((Demander.cancelNode _ d.current sender _).roundOf d.current).round.outstandingNodes
  rw [round_cancelNode (d.spawn.1.measure Board.pageReceived) sender hs.current d.current, if_pos rfl]
  exact Round.not_awaited_cancel (hs.standing d.current) sender

-- ============================================================================
-- Twice is once
-- ============================================================================

section Twice

variable (hs : d.Steady) {worker : WorkerId} {sender : NodeId} {page : Supply} (worker' : WorkerId)
  (now : Instant)

include hs

/-- A page that is not accepted comes again. -/
theorem twice_of_not_accepted (h : d.accepted worker sender page = none) :
    (d.handle worker sender page r).jobs = d.jobs ∧
      (d.handle worker sender page r).returns = d.returns ++ [(d.nextJob, .ok ())] ∧
      Echoes ((d.handle worker sender page r).step (.site (.clock now)))
        (((d.handle worker sender page r).step (.site (.clock now))).handle worker' sender page r) := by
  have hb := beside_dismissed d sender
  have hsteady : ((d.handle worker sender page r).step (.site (.clock now))).Steady :=
    steady_step (steady_run hs _) _
  rw [handle_of_not_accepted h] at hsteady ⊢
  refine ⟨?_, ?_, ?_⟩
  · change (d.dismissed sender).jobs.erase d.nextJob = d.jobs
    rw [hb.jobs]
    exact erase_nextJob hs
  · change (d.dismissed sender).returns ++ _ = _
    rw [hb.returns]
    rfl
  · generalize hg : ((d.dismissed sender).finish d.nextJob (.ok ())).step (.site (.clock now)) = g
      at hsteady
    have hplan : g.plan = d.plan := by
      rw [← hg]
      exact hb.plan
    have hstop : g.stopping = d.stopping := by
      rw [← hg]
      exact hb.stopping
    have hround : g.currentRound = (d.dismissed sender).currentRound := by
      rw [← hg]
      rfl
    have hnone : g.accepted worker' sender page = none := by
      refine accepted_eq_none_again h hstop hplan ?_ ?_
      · rw [← hg]
        exact hb.current
      · rw [← hg]
        exact hb.affinity
    rw [handle_of_not_accepted hnone]
    refine echoes_of_measured hsteady (measured_dismissed hsteady fun hstop' hget => ?_)
    rw [hround]
    rw [hstop] at hstop'
    rw [hplan] at hget
    exact not_awaited_dismissed hs hstop' hget

omit hs in
/-- A page that has ended leaves the demander at a later moment of the work on it, and spent,
    whatever the clock says of other entries. -/
theorem later_of_ends (hb : d.Bound job.round) (hst : (d.roundOf job.round).round.Standing)
    (h : Ends id job r d w e)
    (hclock : ∀ x ∈ todo, ∀ en ∈ x.2, en.isExpired now = en.isExpired d.site.clock) :
    Later job todo d ((e.finish id (.ok ())).step (.site (.clock now))) := by
  have hunmoved := h.unmoved
  have hrecedes := h.recedes hst hb
  have hend : Later job todo d e := .beside hrecedes hunmoved.site hunmoved.store
  refine ⟨fun x hx => ?_, hend.lock, hend.unreservable, hend.affinity,
    ⟨hrecedes.rounds, hrecedes.round⟩⟩
  obtain ⟨hfilter, hrejected, hinvalidating, -, hfills⟩ := hend.site x hx
  exact ⟨hfilter, hrejected, hinvalidating, hclock x hx, hfills⟩

/-- A page that is accepted comes again. -/
theorem twice_of_accepted (hi : d.site.store.invalidating = ∅)
    (hfree : ∀ x ∈ page.entries.toList, d.site.store.base.lock? x.1 ≠ some true)
    (hclock : ∀ x ∈ page.entries.toList, ∀ e ∈ x.2, e.isExpired now = e.isExpired d.site.clock)
    (h : d.accepted worker sender page = some job) :
    (d.handle worker sender page r).jobs = d.jobs ∧
      (d.handle worker sender page r).returns = d.returns ++ [(d.nextJob, .ok ())] ∧
      Echoes ((d.handle worker sender page r).step (.site (.clock now)))
        (((d.handle worker sender page r).step (.site (.clock now))).handle worker' sender page r) := by
  have hround : job.round = d.current := by
    obtain ⟨-, plan, demand, -, -, -, -, rfl⟩ := accepted_round h
    rfl
  have hb : (d.spawn.1.measure Board.pageReceived).Bound job.round := by
    obtain ⟨-, plan, demand, hplan, -⟩ := accepted_round h
    rw [hround]
    exact ⟨hs.current, hs.planned (by rw [hplan]; rfl)⟩
  have hst : ((d.spawn.1.measure Board.pageReceived).roundOf job.round).round.Standing :=
    hs.standing job.round
  have hn := SortedMap.keys_nodup page.entries
  have hfinished : ∀ q es rest, ((d.spawn.1.measure Board.pageReceived).walk job
      page.entries.toList).2 ≠ .blocked q es rest := walk_ne_blocked hn hfree
  have hagain : Repeats job page.entries.toList (d.spawn.1.measure Board.pageReceived) :=
    walk_again hst hb hi hn hfree
  have hnear := near_walk (d.spawn.1.measure Board.pageReceived) job page.entries.toList
  have hwalk : Recedes job.round job.sender _ ((d.spawn.1.measure Board.pageReceived).walk job
    page.entries.toList).1 := recedes_walk hst hb
  -- The first delivery.
  obtain ⟨x, hends, hx⟩ := handle_of_accepted (r := r) h hfinished
  have hsteady : ((d.handle worker sender page r).step (.site (.clock now))).Steady :=
    steady_step (steady_run hs _) _
  rw [hx] at hsteady ⊢
  have hunmoved := hends.unmoved
  have hspent := hends.spent hwalk.round.standing (hwalk.bound hb)
  have hlater := later_of_ends now (hwalk.bound hb) hwalk.round.standing hends
    (by rw [hnear.site.clock]; exact hclock)
  have hreturned : x.jobs.erase d.nextJob = d.jobs ∧ x.returns = d.returns := by
    rw [hunmoved.jobs, hnear.jobs, hunmoved.returns, hnear.returns]
    exact ⟨erase_nextJob hs, rfl⟩
  refine ⟨hreturned.1, congrArg (· ++ _) hreturned.2, ?_⟩
  -- The second.
  have hstop := hunmoved.stopping.trans hnear.stopping
  have hplan := hunmoved.plan.trans hnear.plan
  have hcurrent := hunmoved.current.trans hnear.current
  have haffinity := hunmoved.site.affinity.trans hnear.site.affinity
  generalize hg : (x.finish d.nextJob (.ok ())).step (.site (.clock now)) = g at hsteady hlater ⊢
  have haccept : g.accepted worker' sender page = some { job with worker := worker' } := by
    refine accepted_again h ?_ ?_ ?_ ?_ <;> rw [← hg]
    · exact hstop
    · exact hplan
    · exact hcurrent
    · exact haffinity
  obtain ⟨hsame, hw⟩ := hagain (g.spawn.1.measure Board.pageReceived)
    (hlater.trans ⟨fun _ _ => ⟨rfl, rfl, rfl, fun _ _ => rfl, .refl _ _⟩, fun _ _ => rfl, rfl, rfl,
      ⟨rfl, .refl hlater.round.round.standing hlater.round.round.attached⟩⟩)
  obtain ⟨y, hends', hy⟩ := handle_of_accepted (r := r) haccept
    (by rw [walk_worker, hw]; exact hfinished)
  rw [walk_worker, hw] at hends'
  rw [hy]
  refine hends'.echoes hsteady ((Measured.measure _ _).trans hsame) ?_ ?_
  · exact hlater.round.bound (hwalk.bound hb)
  · obtain ⟨board, hboard⟩ := hsame
    rw [hboard, ← hg]
    exact hspent.congr worker' rfl rfl rfl

end Twice

/-- Delivering a page twice comes to what delivering it once does.  Whatever node and page it is,
    the first delivery ends, and the second one leaves the demander as it found it: store, rounds,
    recorder, and what others noticed.  It moves meters, counts as one more call, and gives the
    transport at most the continuation once more.  The locks of the partitions are free, the entries
    are expired or not as before, and the transport deals with both continuations alike. -/
theorem duplicate_page_is_harmless {d : Demander} (hd : d.Reachable)
    (hi : d.site.store.invalidating = ∅) (worker worker' : WorkerId) (sender : NodeId)
    (page : Supply) (r : Except Fault Unit) (now : Instant)
    (hfree : ∀ x ∈ page.entries.toList, d.site.store.base.lock? x.1 ≠ some true)
    (hclock : ∀ x ∈ page.entries.toList, ∀ e ∈ x.2,
      e.isExpired now = e.isExpired d.site.clock) :
    (d.handle worker sender page r).jobs = d.jobs ∧
      (d.handle worker sender page r).returns = d.returns ++ [(d.nextJob, .ok ())] ∧
      Echoes ((d.handle worker sender page r).step (.site (.clock now)))
        (((d.handle worker sender page r).step (.site (.clock now))).handle worker' sender page r) := by
  cases h : d.accepted worker sender page with
  | none => exact twice_of_not_accepted hd.steady worker' now h
  | some job => exact twice_of_accepted hd.steady worker' now hi hfree hclock h

/-! ## A page that meets everything -/

/-- Two nodes are to supply partitions to a node whose store has room for one value only. -/
def crowded : Demander :=
  (newborn { poolSize := 1 } 2 ⟨1, 0⟩ ⟨{ capacity := some 1 }, ∅, ∅, ∅⟩ [3, 4, 9]).run
    [.add (planFor ⟨1, 0⟩ [(5, [3, 4, 9]), (6, [4])]) true, .answer 0 (.ok ()), .answer 0 (.ok ())]

/-- A page that fills one partition to its end, with a key that comes twice, and another in part,
    with a key that there is no room for; it has a partition that does not belong here, and misses
    one that does. -/
def motleyPage : Supply :=
  ((((Supply.empty 0).addEntries 3
    [{ key := [107], value := [1], revision := ⟨1, 0⟩, expiresAt := some 5 },
      { key := [107], value := [2], revision := ⟨2, 0⟩ }]).markLast 3).addEntries 4
    [{ key := [108], value := [1], revision := ⟨1, 0⟩ }]).addEntries 7
    [{ key := [109], value := [1], revision := ⟨1, 0⟩ }] |>.markMissed 9

theorem motley_page_is_harmless :
    crowded.Reachable ∧ crowded.site.store.invalidating = ∅ ∧
      (∀ x ∈ motleyPage.entries.toList, crowded.site.store.base.lock? x.1 ≠ some true) ∧
      (∀ x ∈ motleyPage.entries.toList, ∀ e ∈ x.2,
        e.isExpired 3 = e.isExpired crowded.site.clock) ∧
      (crowded.handle 0 5 motleyPage (.error (.network (.timeout 5)))).site.store.base.read 3
        [107] = some ([2], ⟨2, 0⟩) ∧
      (crowded.handle 0 5 motleyPage (.error (.network (.timeout 5)))).jobs = crowded.jobs ∧
      Echoes
        ((crowded.handle 0 5 motleyPage (.error (.network (.timeout 5)))).step (.site (.clock 3)))
        (((crowded.handle 0 5 motleyPage (.error (.network (.timeout 5)))).step
          (.site (.clock 3))).handle 0 5 motleyPage (.error (.network (.timeout 5)))) := by
  have hd : crowded.Reachable :=
    Reachable.run (reachable_newborn rfl rfl 2 ⟨1, 0⟩ ⟨{ capacity := some 1 }, ∅, ∅, ∅⟩ [3, 4, 9]) _
  have hi : crowded.site.store.invalidating = ∅ := by decide +kernel
  have hfree : ∀ x ∈ motleyPage.entries.toList,
      crowded.site.store.base.lock? x.1 ≠ some true := by decide +kernel
  have hclock : ∀ x ∈ motleyPage.entries.toList, ∀ e ∈ x.2,
      e.isExpired 3 = e.isExpired crowded.site.clock := by decide +kernel
  obtain ⟨hjobs, -, hechoes⟩ := duplicate_page_is_harmless hd hi 0 0 5 motleyPage
    (.error (.network (.timeout 5))) 3 hfree hclock
  exact ⟨hd, hi, hfree, hclock, by decide +kernel, hjobs, hechoes⟩

end Demander
end Rebalance
