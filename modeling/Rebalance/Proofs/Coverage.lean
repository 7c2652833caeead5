/-
  Rebalance.Proofs.Coverage

  Which demands are sent for a round.  `held_run` traces the plan of a job
  back to the call that added it, and `left_run` accounts for the demands of the
  round: what the transport has dealt with, in order, and what its job is still
  to send make up the demands of the plan, whatever the transport says to them.
  With the shape of these (`covers_shipments`) this gives `demands_cover_plan`.
-/
import Rebalance.Proofs.Turns

namespace Rebalance

-- ============================================================================
-- The demands that cover a plan
-- ============================================================================

/-- A node was asked for a partition, and the partition is one of a worker's. -/
def ShareOf (settings : Settings) (reqs : List (NodeId × List PartitionId)) (node : NodeId)
    (worker : WorkerId) (p : PartitionId) : Prop :=
  (∃ ps, (node, ps) ∈ reqs ∧ p ∈ ps) ∧
    p.toNat % settings.poolSize.toNat = worker.toNat

/-- The demands for what nodes were asked for: in ascending order of node and worker, one for every
    node and worker with a share, which it carries, and no other. -/
structure Covers (settings : Settings) (exchange : Exchange)
    (reqs : List (NodeId × List PartitionId)) (asks : List Request) : Prop where
  ascending : asks.Pairwise Request.Before
  shares : ∀ q ∈ asks, ∃ node worker partitions,
    (∀ p, p ∈ partitions ↔ ShareOf settings reqs node worker p) ∧ (∃ p, p ∈ partitions) ∧
      q = {
        target := node
        topic := { role := .supply, dataset := settings.dataset, worker }
        demand := {
          partitions
          topology := exchange.topology
          timeout := settings.timeout
          batchSize := settings.batchSize
          reply := some { role := .demand, dataset := settings.dataset, worker } } }
  complete : ∀ node worker p, ShareOf settings reqs node worker p →
    ∃ q ∈ asks, q.target = node ∧ q.topic.worker = worker

namespace Covers

variable {settings : Settings} {exchange : Exchange} {reqs : List (NodeId × List PartitionId)}
  {asks : List Request}

/-- No partition is demanded twice from a node. -/
theorem disjoint (h : Covers settings exchange reqs asks) :
    asks.Pairwise fun a b => a.target = b.target →
      ∀ p ∈ a.demand.partitions, p ∉ b.demand.partitions := by
  refine h.ascending.imp_of_mem fun {a b} ha hb hbefore htarget p hpa hpb => ?_
  obtain ⟨node, v, ps, hps, -, rfl⟩ := h.shares a ha
  obtain ⟨node', w, ps', hps', -, rfl⟩ := h.shares b hb
  obtain rfl : v = w :=
    UInt64.toNat_inj.mp (((hps p).mp hpa).2.symm.trans ((hps' p).mp hpb).2)
  rcases hbefore with hlt | ⟨-, hlt⟩
  · exact UInt64.ne_of_lt hlt htarget
  · exact UInt64.lt_irrefl _ hlt

/-- All that a node was asked for is demanded, and nothing else. -/
theorem union (h : Covers settings exchange reqs asks) (node : NodeId) (p : PartitionId) :
    (∃ q ∈ asks, q.target = node ∧ p ∈ q.demand.partitions) ↔ ∃ ps, (node, ps) ∈ reqs ∧ p ∈ ps := by
  constructor
  · rintro ⟨q, hq, rfl, hp⟩
    obtain ⟨node, worker, ps, hps, -, rfl⟩ := h.shares q hq
    exact ((hps p).mp hp).1
  · intro hasked
    have hworker : (UInt64.ofNat (p.toNat % settings.poolSize.toNat)).toNat =
        p.toNat % settings.poolSize.toNat := by
      refine UInt64.toNat_ofNat_of_lt' (Nat.lt_of_le_of_lt (Nat.mod_le _ _) ?_)
      exact Nat.lt_trans p.toNat_lt (by decide)
    have hshare := And.intro hasked hworker.symm
    obtain ⟨q, hq, rfl, hw⟩ := h.complete node _ p hshare
    obtain ⟨node, worker, ps, hps, -, rfl⟩ := h.shares q hq
    refine ⟨_, hq, rfl, (hps p).mpr ?_⟩
    rw [show worker = _ from hw]
    exact hshare

/-- None of them asks for the next page. -/
theorem not_continuation (h : Covers settings exchange reqs asks) :
    ∀ q ∈ asks, q.demand.isContinuation = false := by
  intro q hq
  obtain ⟨node, worker, ps, -, hsome, rfl⟩ := h.shares q hq
  exact SortedSet.isEmpty_eq_false_iff.mpr hsome

end Covers

namespace Demander

variable {d : Demander} {R : RoundId} {id : JobId} {plan : Plan}

-- ============================================================================
-- The demands of a plan
-- ============================================================================

/-- The workers are those of the settings, as many as they say. -/
theorem pool_of_size {settings : Settings} (hs : d.settings = settings)
    (hsize : settings.poolSize ≠ 0) :
    d.pool.dataset = settings.dataset ∧ d.pool.size = settings.poolSize := by
  have hpos : 0 < settings.poolSize.toNat :=
    Nat.pos_of_ne_zero fun h => hsize (UInt64.toNat_inj.mp h)
  rw [pool, hs, WorkerPool.ofSize, dif_pos hpos]
  exact ⟨rfl, rfl⟩

/-- The demands that a gathered plan starts a round with cover what it was gathered from. -/
theorem covers_shipments {settings : Settings} (hs : d.settings = settings)
    (hsize : settings.poolSize ≠ 0) (exchange : Exchange)
    (reqs : List (NodeId × List PartitionId)) :
    Covers settings exchange reqs ((d.shipments ((Plan.gather exchange reqs).stamp
      settings.timeout settings.batchSize)).flatMap (·.parts)) := by
  obtain ⟨hexchange, huniform, hasks⟩ := Plan.gathered exchange reqs
  obtain ⟨hdataset, hworkers⟩ := pool_of_size hs hsize
  have hmod : ∀ worker p, d.pool.workerFor p = worker ↔
      p.toNat % settings.poolSize.toNat = worker.toNat := by
    intro worker p
    rw [← hworkers, ← d.pool.toNat_workerFor, UInt64.toNat_inj]
  -- The share of a worker is its shard of the demand.
  have hshare : ∀ {node worker old}, (Plan.gather exchange reqs).get? node = some old → ∀ p,
      p ∈ d.pool.shard old.partitions worker ↔ ShareOf settings reqs node worker p := by
    intro node worker old hold p
    rw [WorkerPool.mem_shard, hmod, ShareOf, ← hasks]
    refine and_congr_left fun _ => ⟨fun hp => ⟨old, hold, hp⟩, ?_⟩
    rintro ⟨old', hold', hp⟩
    rw [hold] at hold'
    cases hold'
    exact hp
  refine ⟨ascending_shipments d _, fun q hq => ?_, fun node worker p hp => ?_⟩
  · obtain ⟨node, demand, worker, p, hget, hp, rfl⟩ := mem_shipments.mp hq
    rw [Plan.get?_stamp] at hget
    obtain ⟨old, hold, rfl⟩ := Option.map_eq_some_iff.mp hget
    refine ⟨node, worker, _, hshare hold, ⟨p, hp⟩, ?_⟩
    have htopology : old.topology = exchange.topology :=
      (huniform node old hold).trans (congrArg Exchange.topology hexchange)
    rw [WorkerPool.requestTo, WorkerPool.supplyTopic, WorkerPool.demandTopic, hdataset, ← htopology]
    rfl
  · obtain ⟨old, hold, hmem⟩ := (hasks node p).mpr hp.1
    have hget : ((Plan.gather exchange reqs).stamp settings.timeout settings.batchSize).get? node =
        some { old with timeout := settings.timeout, batchSize := settings.batchSize } := by
      rw [Plan.get?_stamp, hold]
      rfl
    exact ⟨_, mem_shipments.mpr ⟨node, _, worker, p, hget, (hshare hold p).mpr hp, rfl⟩, rfl, rfl⟩

-- ============================================================================
-- Where a plan comes from
-- ============================================================================

/-- Nobody holds a plan. -/
def Planless (d : Demander) : Prop := ∀ id j, d.job? id = some j → j.plan? = none

/-- The plan of a job was there at the beginning, or was added by the call that began the job. -/
theorem held_run (hs : d.Steady) (inputs : List Input) {j : Job}
    (hj : (d.run inputs).job? id = some j) (hp : j.plan? = some plan) :
    (∃ k, d.job? id = some k ∧ k.plan? = some plan) ∨
      ∃ before force after, inputs = before ++ .add plan force :: after ∧
        id = (d.run before).nextJob := by
  induction inputs generalizing d with
  | nil => exact .inl ⟨j, hj, hp⟩
  | cons i inputs ih =>
    rcases ih (steady_step hs i) hj with ⟨k, hk, hheld⟩ | ⟨before, force, after, rfl, hid⟩
    · have hpage : k.page? = none := by
        cases k <;> first | rfl | cases hheld
      obtain ⟨k', hk', hproceeds⟩ := proceeds_step hs hk hpage
      have hheld' := hproceeds.plan? hheld
      unfold jobBefore at hk'
      split at hk'
      · next hid =>
        -- The call is being made.
        cases i with
        | add plan' force =>
          cases hk'
          cases hheld'
          exact .inr ⟨[], force, inputs, rfl, hid⟩
        | stop =>
          cases hk'
          cases hheld'
        | _ => cases hk'
      · exact .inl ⟨k', hk', hheld'⟩
    · exact .inr ⟨i :: before, force, after, rfl, hid⟩

/-- The plan that is processed was added by the call that processes it. -/
theorem added_of_reached (hs : d.Steady) (hn : d.Planless) {inputs : List Input} {i : Input}
    {e : Demander} (h : Reaches (d.run inputs) i R id plan e) :
    ∃ before force after, inputs ++ [i] = before ++ .add plan force :: after ∧
      id = (d.run before).nextJob := by
  have hheld : ∀ {j}, (d.run inputs).job? id = some j → j.plan? = some plan →
      ∃ before force after, inputs ++ [i] = before ++ .add plan force :: after ∧
        id = (d.run before).nextJob := by
    intro j hj hp
    rcases held_run hs inputs hj hp with ⟨k, hk, hheld⟩ | ⟨before, force, after, rfl, hid⟩
    · rw [hn id k hk] at hheld
      cases hheld
    · exact ⟨before, force, after ++ [i], by simp, hid⟩
  obtain ⟨previous, hb, -⟩ := h.follows
  cases hb with
  | added force hid _ _ => exact ⟨inputs, force, [], rfl, hid⟩
  | queued hj _ _ => exact hheld hj rfl
  | awaited hj => exact hheld hj rfl

-- ============================================================================
-- The demands that the transport has dealt with
-- ============================================================================

/-- The demand for a round that something answers, for a job that sends them. -/
def answered (d : Demander) (R : RoundId) : Input → List Request
  | .answer id _ =>
    match d.job? id with
    | some (.sending round q _ _) => if round = R then [q] else []
    | _ => []
  | _ => []

/-- The demands for a round that the transport has dealt with in a run, whatever became of them. -/
def attempted (R : RoundId) : Demander → List Input → List Request
  | _, [] => []
  | d, i :: rest => d.answered R i ++ attempted R (d.step i) rest

/-- The demands for a round that a job is still to send. -/
def leftFor (d : Demander) (R : RoundId) (id : JobId) : List Request :=
  match d.job? id with
  | some (.sending round q s rest) =>
    if round = R then (Job.sending round q s rest).unanswered else []
  | _ => []

/-- No other job sends demands for the round. -/
def Sends (R : RoundId) (id : JobId) (d : Demander) : Prop :=
  ∀ k q s rest, d.job? k = some (.sending R q s rest) → k = id

theorem leftFor_of_sending {q : Request} {s : Shipment} {rest : List Shipment}
    (h : d.job? id = some (.sending R q s rest)) :
    d.leftFor R id = q :: (s.parts ++ rest.flatMap (·.parts)) := by
  simp [leftFor, h, Job.unanswered]

theorem leftFor_of_none (h : ∀ q s rest, d.job? id ≠ some (.sending R q s rest)) :
    d.leftFor R id = [] := by
  unfold leftFor
  split
  · next round q s rest hj =>
    refine if_neg ?_
    rintro rfl
    exact h q s rest hj
  · rfl

theorem answered_of_none (h : ∀ k q s rest, d.job? k ≠ some (.sending R q s rest)) (i : Input) :
    d.answered R i = [] := by
  unfold answered
  split
  · next k r =>
    split
    · next round q s rest hj =>
      refine if_neg ?_
      rintro rfl
      exact h k q s rest hj
    · rfl
  · rfl

/-- The first demand that is left is what the transport is asked to send. -/
theorem requests_of_left {q : Request} (h : q ∈ (d.leftFor R id).head?) : (id, q) ∈ d.requests := by
  unfold leftFor at h
  split at h
  · next round q' s rest hj =>
    split at h
    · obtain rfl : q' = q := Option.some.inj h
      exact List.mem_filterMap.mpr ⟨_, SortedMap.get?_eq_some_iff.mp hj, rfl⟩
    · cases h
  · cases h

/-- What is left of demands that are to be sent is all of them. -/
theorem leftFor_dispatch (d : Demander) (ships : List Shipment) :
    (d.dispatch id R ships).leftFor R id = ships.flatMap (·.parts) := by
  rcases job?_dispatch d id R ships with ⟨hnone, hempty⟩ | ⟨q, s, rest, hsend, hall⟩
  · rw [hempty]
    exact leftFor_of_none fun q s rest h => by cases hnone.symm.trans h
  · rw [hall]
    exact leftFor_of_sending hsend

/-- A job that sends the demands of a bound round did so before. -/
theorem sending_step (hs : d.Steady) (hb : d.Bound R) {i : Input} {q : Request} {s : Shipment}
    {rest : List Shipment} (hj : (d.step i).job? id = some (.sending R q s rest)) :
    ∃ q' s' rest', d.job? id = some (.sending R q' s' rest') := by
  obtain ⟨k, hk, hproceeds⟩ := proceeds_step hs hj rfl
  rcases hproceeds.sending with ⟨q', s', rest', rfl⟩ | hfree
  · exact ⟨q', s', rest', jobBefore_planning hk rfl⟩
  · rw [hb.2] at hfree
    cases hfree

theorem sends_step (hs : d.Steady) (hb : d.Bound R) (h : Sends R id d) (i : Input) :
    Sends R id (d.step i) := by
  intro k q s rest hj
  obtain ⟨q', s', rest', hold⟩ := sending_step hs hb hj
  exact h k q' s' rest' hold

/-- A job that has begun is only at work when it goes on or is told what became of a demand. -/
theorem actor_of_begun {i : Input} (hid : id < d.nextJob) (h : (d.actor i).id? = some id) :
    (i = .resume id ∨ ∃ r, i = .answer id r) ∧ ∃ k, d.job? id = some k := by
  have hnew : d.nextJob ≠ id := Nat.ne_of_gt hid
  cases i with
  | add plan force => exact absurd (Option.some.inj h) hnew
  | stop => exact absurd (Option.some.inj h) hnew
  | page worker sender page =>
    simp only [actor] at h
    split at h <;> exact absurd (Option.some.inj h) hnew
  | resume id' =>
    obtain ⟨rfl, hk⟩ := id_of_actorOf h
    exact ⟨.inl rfl, hk⟩
  | answer id' r =>
    obtain ⟨rfl, hk⟩ := id_of_actorOf h
    exact ⟨.inr ⟨r, rfl⟩, hk⟩
  | _ => cases h

/-- A job whose demand is with the transport waits until it is told what became of it. -/
theorem job_of_request (hs : d.Steady) {j : Job} (hj : d.job? id = some j)
    (hq : j.request?.isSome = true) {i : Input} (hi : ∀ r, i ≠ .answer id r) :
    (d.step i).job? id = d.job? id := by
  by_cases hid : (d.actor i).id? = some id
  swap
  · exact job_of_other hs hid
  obtain ⟨rfl | ⟨r, rfl⟩, -⟩ := actor_of_begun (hs.young id _ hj) hid
  · change (d.resume id).job? id = _
    unfold resume
    rw [hj]
    cases j with
    | replying job q => exact hj
    | sending round q s rest => exact hj
    | _ => cases hq
  · exact absurd rfl (hi r)

/-- Either a step answers for the demand that the call waits for, or the call goes on to wait for what
    it has waited for and no demand for the round is answered for. -/
theorem answered_cases (hs : d.Steady) (hb : d.Bound R) (h : Sends R id d) (i : Input) :
    (∃ q s rest r, d.job? id = some (.sending R q s rest) ∧ i = .answer id r) ∨
      d.answered R i = [] ∧ ∀ q s rest,
        (d.step i).job? id = some (.sending R q s rest) ↔ d.job? id = some (.sending R q s rest) := by
  by_cases hsend : ∃ q s rest, d.job? id = some (.sending R q s rest)
  · obtain ⟨q, s, rest, hj⟩ := hsend
    by_cases hi : ∃ r, i = .answer id r
    · obtain ⟨r, rfl⟩ := hi
      exact .inl ⟨q, s, rest, r, hj, rfl⟩
    · refine .inr ⟨?_, fun q' s' rest' => ?_⟩
      · unfold answered
        split
        · next k r =>
          split
          · next round q' s' rest' hk =>
            refine if_neg ?_
            rintro rfl
            obtain rfl := h k q' s' rest' hk
            exact hi ⟨r, rfl⟩
          · rfl
        · rfl
      · rw [job_of_request hs hj rfl fun r hr => hi ⟨r, hr⟩]
  · have hnone : ∀ k q s rest, d.job? k ≠ some (.sending R q s rest) := by
      intro k q s rest hj
      obtain rfl := h k q s rest hj
      exact hsend ⟨q, s, rest, hj⟩
    refine .inr ⟨answered_of_none hnone i, fun q s rest => ⟨fun hj => ?_, fun hj => ?_⟩⟩
    · obtain ⟨q', s', rest', hold⟩ := sending_step hs hb hj
      exact absurd hold (hnone id q' s' rest')
    · exact absurd hj (hnone id q s rest)

/-- A step takes off what is left exactly the demand that it answers. -/
theorem left_step (hs : d.Steady) (hb : d.Bound R) (h : Sends R id d) (i : Input) :
    d.leftFor R id = d.answered R i ++ (d.step i).leftFor R id := by
  rcases answered_cases hs hb h i with ⟨q, s, rest, r, hj, rfl⟩ | ⟨hnone, hsame⟩
  · have hanswered : d.answered R (.answer id r) = [q] := by simp [answered, hj]
    have hstep : (d.step (.answer id r)).leftFor R id = s.parts ++ rest.flatMap (·.parts) := by
      change (d.answer id r).leftFor R id = _
      unfold answer
      rw [hj]
      cases r with
      | ok _ => exact leftFor_dispatch _ (s :: rest)
      | error cause => exact leftFor_dispatch _ _
    rw [leftFor_of_sending hj, hanswered, hstep]
    rfl
  · rw [hnone, List.nil_append]
    by_cases hsend : ∃ q s rest, d.job? id = some (.sending R q s rest)
    · obtain ⟨q, s, rest, hj⟩ := hsend
      rw [leftFor_of_sending hj, leftFor_of_sending ((hsame q s rest).mpr hj)]
    · have hnot : ∀ q s rest, d.job? id ≠ some (.sending R q s rest) := fun q s rest hj =>
        hsend ⟨q, s, rest, hj⟩
      rw [leftFor_of_none hnot, leftFor_of_none fun q s rest hj => hnot q s rest ((hsame _ _ _).mp hj)]

/-- In a run, what the transport has dealt with and what is left make up what was left. -/
theorem left_run (hs : d.Steady) (hb : d.Bound R) (h : Sends R id d) (inputs : List Input) :
    d.leftFor R id = d.attempted R inputs ++ (d.run inputs).leftFor R id := by
  induction inputs generalizing d with
  | nil => rfl
  | cons i inputs ih =>
    have hrest := ih (steady_step hs i) (bound_step hs hb i) (sends_step hs hb h i)
    rw [left_step hs hb h i, hrest, attempted, List.append_assoc]
    rfl

-- ============================================================================
-- A plan and its demands
-- ============================================================================

section Opens

variable {i : Input} {P : Plan} {e : Demander}

/-- When a round has been started all its demands are left to the job that started it, and to no
    other. -/
theorem Opens.left (h : Opens d i R P id plan e) (hs : d.Steady) :
    (d.step i).leftFor R id = ((e.begin R P).shipments P).flatMap (·.parts) ∧
      (d.step i).Bound R ∧ Sends R id (d.step i) := by
  obtain ⟨-, -, hbound⟩ := h.begins
  refine ⟨?_, ⟨?_, h.leadsOn.bound R hbound.2⟩, fun k q s rest hj => ?_⟩
  · rw [h.starts]
    exact leftFor_dispatch _ _
  · exact Nat.lt_of_lt_of_le hbound.1 h.leadsOn.rounds
  · -- No job worked on the round before it was bound.
    by_contra hk
    have hw : (d.actor i).id? ≠ some k := by
      rw [h.who]
      exact fun hid => hk (Option.some.inj hid).symm
    rw [job_of_other hs hw] at hj
    have hbefore := (hs.bound k _ R hj rfl).2
    rw [← h.leads.attached, h.free] at hbefore
    cases hbefore

end Opens

/-- Take a demander from its beginning, and the step in which it starts a round.  The plan of the
    round was added by a call, and there are demands that cover what the plan was gathered from: they
    are disjoint for each node and make up all that the node was asked for.  In any run from then
    on, those that the transport has dealt with, whatever it said, are the first of them in order,
    and the next one is with the transport until none is left. -/
theorem demands_cover_plan {σ : Type} {settings : Settings} {site : Site}
    {register : Topic → σ → Except Fault σ} {s t : σ} {start : Demander}
    (hcreate : create settings site register s = (t, .ok start)) (inputs : List Input) {i : Input}
    {R : RoundId} {P : Plan} (ha : ((start.run inputs).roundOf R).round.attached = false)
    (hc : ((start.run inputs).step i).current = R)
    (hp : ((start.run inputs).step i).plan = some P) :
    ∃ plan force before after id asks,
      inputs ++ [i] = before ++ .add plan force :: after ∧ id = (start.run before).nextJob ∧
      P.exchange = plan.exchange ∧
      (∀ exchange reqs, plan = Plan.gather exchange reqs →
        Covers settings exchange reqs asks ∧
        (asks.Pairwise fun a b => a.target = b.target →
          ∀ p ∈ a.demand.partitions, p ∉ b.demand.partitions) ∧
        (∀ node p, (∃ q ∈ asks, q.target = node ∧ p ∈ q.demand.partitions) ↔
          ∃ ps, (node, ps) ∈ reqs ∧ p ∈ ps) ∧
        ∀ q ∈ asks, q.demand.isContinuation = false) ∧
      ∀ later, let now := ((start.run inputs).step i).run later
        asks = ((start.run inputs).step i).attempted R later ++ now.leftFor R id ∧
          ∀ q ∈ (now.leftFor R id).head?, (id, q) ∈ now.requests := by
  have hs := steady_run (steady_create hcreate) inputs
  obtain ⟨hf, hset, hjobs, -, -⟩ := create_blank hcreate
  have hsize : settings.poolSize ≠ 0 := by
    intro hzero
    simp [Settings.fault?, hzero] at hf
  have hnow : (start.run inputs).settings = settings :=
    (settings_run (steady_create hcreate) inputs).trans hset
  have hplanless : start.Planless := by
    intro id j hj
    simp [job?, hjobs] at hj
  obtain ⟨id, plan, e, hopens⟩ := opens_of_started hs ha hc hp
  obtain ⟨before, force, after, hinputs, hid⟩ :=
    added_of_reached (steady_create hcreate) hplanless hopens.toReaches
  have hP : P = plan.stamp settings.timeout settings.batchSize := by
    rw [← hnow]
    exact hopens.stamped
  have hbegun : (e.begin R P).settings = settings :=
    (beside_begin e R P).settings.trans (hopens.leads.settings.trans hnow)
  refine ⟨plan, force, before, after, id, ((e.begin R P).shipments P).flatMap (·.parts), hinputs,
    hid, by rw [hP]; rfl, ?_, fun later => ⟨?_, fun q hq => requests_of_left hq⟩⟩
  · rintro exchange reqs rfl
    have hcovers : Covers settings exchange reqs
        (((e.begin R P).shipments P).flatMap (·.parts)) := by
      rw [hP] at hbegun ⊢
      exact covers_shipments hbegun hsize exchange reqs
    exact ⟨hcovers, hcovers.disjoint, hcovers.union, hcovers.not_continuation⟩
  · obtain ⟨hleft, hbound, hsends⟩ := hopens.left hs
    rw [← hleft]
    exact left_run (steady_step hs i) hbound hsends later

/-- Of three demands, in the order of nodes and workers, the second cannot be sent. -/
theorem spread_plan_is_covered :
    let start := newborn { poolSize := 2 } 2 ⟨1, 0⟩ ⟨{}, ∅, ∅, ∅⟩ [3, 4, 5, 7]
    let exchange : Exchange := ⟨0, ⟨1, 0⟩, ⟨0, .nodeJoined, 0⟩⟩
    let reqs : List (NodeId × List PartitionId) := [(6, [7]), (5, [3, 4]), (5, [5])]
    let i : Input := .add (Plan.gather exchange reqs) true
    let later : List Input :=
      [.answer 0 (.ok ()), .answer 0 (.error (.network (.nodeLeft 5))), .answer 0 (.ok ())]
    create { poolSize := 2 } start.site (fun _ s => .ok s) () = ((), .ok start) ∧
      (start.roundOf 0).round.attached = false ∧ (start.step i).current = 0 ∧
      Covers { poolSize := 2 } exchange reqs ((start.step i).attempted 0 later) ∧
      ((start.step i).attempted 0 later).map
        (fun q => (q.target, q.topic.worker, q.demand.partitions.toList)) =
          [(5, 0, [4]), (5, 1, [3, 5]), (6, 1, [7])] := by
  intro start exchange reqs i later
  have hcreate : create { poolSize := 2 } start.site (fun _ s => .ok s) () = ((), .ok start) :=
    create_newborn rfl rfl 2 ⟨1, 0⟩ _ [3, 4, 5, 7]
  have hfree : (start.roundOf 0).round.attached = false := rfl
  have hcur : (start.step i).current = 0 := by decide +kernel
  have hsome : (start.step i).plan.isSome = true := by decide +kernel
  obtain ⟨P, hP⟩ := Option.isSome_iff_exists.mp hsome
  obtain ⟨plan, force, before, after, id, asks, hinputs, hid, -, hcovers, hall⟩ :=
    demands_cover_plan hcreate [] (i := i) hfree hcur hP
  cases before with
  | cons x before => simp at hinputs
  | nil =>
    obtain ⟨hadd, -⟩ := List.cons.inj hinputs
    obtain ⟨rfl, -⟩ := Input.add.inj hadd
    have hleft : ((start.step i).run later).leftFor 0 0 = [] := by decide +kernel
    have hasks : asks = (start.step i).attempted 0 later := by
      refine (hall later).1.trans ?_
      rw [hid]
      exact (congrArg ((start.step i).attempted 0 later ++ ·) hleft).trans (List.append_nil _)
    refine ⟨hcreate, hfree, hcur, ?_, by decide +kernel⟩
    rw [← hasks]
    exact (hcovers exchange reqs rfl).1

end Demander
end Rebalance
