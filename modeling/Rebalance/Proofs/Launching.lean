/-
  Rebalance.Proofs.Launching

  How a plan begins to be fetched. A demander between two rounds that is given
  a plan to process at once makes it current with a round of its own, awaits
  all of it, and has the first demand of every stream still to send: all its
  streams are waiting.
-/
import Rebalance.Proofs.Arrival

namespace Rebalance

-- ============================================================================
-- The demander
-- ============================================================================

namespace Demander

/-- Nothing is given up for a round that is not bound or is over. -/
theorem cancelIfStale_of_over {d : Demander} (hs : d.Steady) {id : RoundId}
    (h : (d.roundOf id).round.attached = true → (d.roundOf id).round.isDone = true) :
    d.cancelIfStale id = d := by
  unfold cancelIfStale
  simp only
  split
  · rfl
  · by_cases ha : (d.roundOf id).round.attached = true
    · rw [h ha]
      rfl
    · have hnone : (d.roundOf id).round.outstandingNodes.toList = [] := by
        rw [Round.outstandingNodes, ((hs.standing id).fresh (by simpa using ha)).2.1]
        rfl
      split
      · rfl
      · rw [hnone]
        rfl

/-- A demander that is about to process a plan with the round `R`, which is not bound yet, as
    the job that was the next one of `d`. -/
structure Poised (d b : Demander) (R : RoundId) : Prop where
  steady : b.Steady
  settings : b.settings = d.settings
  site : b.site = d.site
  topics : b.topics = d.topics
  stopping : b.stopping = d.stopping
  nextJob : b.nextJob = d.nextJob + 1
  returns : b.returns = d.returns
  jobs : ∀ k, k ≠ d.nextJob → b.job? k = none
  length : R < b.rounds.length
  free : (b.roundOf R).round.attached = false
  fresh : (d.roundOf R).round.attached = false

theorem Poised.young {d b : Demander} {R : RoundId} (h : d.Poised b R) : d.nextJob < b.nextJob := by
  rw [h.nextJob]
  exact Nat.lt_succ_self _

/-- A demander to which a plan can be given: it takes part, nothing waits or has failed, and its
    round is over if there is one. -/
structure Open (d : Demander) : Prop where
  reachable : d.Reachable
  active : d.settings.isActive = true
  stopping : d.stopping = false
  fault : d.fault = none
  jobs : d.jobs = ∅
  round : d.currentRound.attached = true → d.currentRound.isDone = true

variable {d : Demander}

/-- An open demander is steady with a plan that waits for its turn. -/
theorem Open.steady_queued (h : d.Open) (plan : Plan) :
    (d.spawn.1.park d.nextJob (.queued plan)).Steady := by
  have hspawn : d.spawn.1.Steady := h.reachable.steady.spawn
  exact hspawn.park (Nat.lt_succ_self _) (fun round hr => by cases hr) fun job hj => by cases hj

/-- A plan that is given to an open demander and is not put off gets its turn at once. -/
theorem add_eq_of_open (h : d.Open) {force : Bool} (hf : d.schedule.startMode force = .immediate)
    (plan : Plan) : d.add plan force =
      if d.currentRound.attached = true then
        (d.spawn.1.park d.nextJob (.queued plan)).awaitRound d.nextJob plan d.current
      else (d.spawn.1.park d.nextJob (.queued plan)).launch d.nextJob d.current plan := by
  have hjobs : (d.spawn.1.park d.nextJob (.queued plan)).jobs =
      SortedMap.insert d.nextJob (.queued plan) ∅ := by
    show d.jobs.insert d.nextJob (.queued plan) = _
    rw [h.jobs]
  have hturn : (d.spawn.1.park d.nextJob (.queued plan)).hasTurn d.nextJob = true := by
    rw [hasTurn, hjobs]
    show (!false && some d.nextJob == some d.nextJob) = true
    simp
  have hstale : (d.spawn.1.park d.nextJob (.queued plan)).cancelIfStale d.current =
      d.spawn.1.park d.nextJob (.queued plan) :=
    cancelIfStale_of_over (h.steady_queued plan) h.round
  have hfault : d.spawn.1.takeFault = (d.spawn.1, .ok ()) := by
    have hnone : d.spawn.1.fault = none := h.fault
    rw [takeFault, hnone]
  have hactive : (!d.spawn.1.settings.isActive || d.spawn.1.stopping) = false := by
    show (!d.settings.isActive || d.stopping) = false
    rw [h.active, h.stopping]
    rfl
  have hmode : d.spawn.1.schedule.startMode force = .immediate := hf
  show d.spawn.1.startAdd d.nextJob plan force = _
  rw [startAdd_eq, hfault, hactive]
  simp only [Bool.false_eq_true, if_false, hmode]
  rw [turn, if_pos hturn]
  show (if _ then _ else _) = _
  have hcurrent : (d.spawn.1.park d.nextJob (.queued plan)).current = d.current := rfl
  rw [hcurrent, hstale]
  rfl

/-- A plan that is given to an open demander and is not put off is processed at once. -/
theorem add_of_open (h : d.Open) {force : Bool} (hf : d.schedule.startMode force = .immediate)
    (plan : Plan) : ∃ b R, d.Poised b R ∧ d.add plan force = b.launch d.nextJob R plan := by
  have hqueued := h.steady_queued plan
  have hjobs : (d.spawn.1.park d.nextJob (.queued plan)).jobs =
      SortedMap.insert d.nextJob (.queued plan) ∅ := by
    show d.jobs.insert d.nextJob (.queued plan) = _
    rw [h.jobs]
  have hadd := add_eq_of_open h hf plan
  by_cases ha : d.currentRound.attached = true
  · have htick : Tick (.call d.nextJob) (d.spawn.1.park d.nextJob (.queued plan))
        (d.spawn.1.park d.nextJob (.queued plan)).openRound.1 := .chore .openRound
    have hopen := steady_tick htick hqueued (Nat.lt_succ_self _)
    have hafter := roundOf_openRound (d.spawn.1.park d.nextJob (.queued plan)) d.rounds.length
    have hfresh : (d.roundOf d.rounds.length).round.attached = false :=
      congrArg (fun r : RoundRecord => r.round.attached) (roundOf_of_le d (Nat.le_refl _))
    refine ⟨(d.spawn.1.park d.nextJob (.queued plan)).openRound.1, d.rounds.length,
      ⟨hopen, rfl, rfl, rfl, rfl, rfl, rfl, ?_, ?_, ?_, hfresh⟩, ?_⟩
    · intro k hk
      show (d.spawn.1.park d.nextJob (.queued plan)).job? k = none
      rw [job?, hjobs, SortedMap.get?_insert_of_ne hk]
      rfl
    · show d.rounds.length < (d.rounds ++ [({} : RoundRecord)]).length
      rw [List.length_append]
      exact Nat.lt_succ_self _
    · rw [hafter]
      exact hfresh
    · have hdone : ((d.spawn.1.park d.nextJob (.queued plan)).roundOf d.current).round.isDone =
          true := h.round ha
      rw [hadd, if_pos ha, awaitRound]
      show (if d.stopping = true then _ else _) = _
      rw [h.stopping, if_neg (by exact Bool.false_ne_true), if_pos hdone]
      rfl
  · have hfree : (d.roundOf d.current).round.attached = false := Bool.eq_false_iff.mpr ha
    refine ⟨d.spawn.1.park d.nextJob (.queued plan), d.current,
      ⟨hqueued, rfl, rfl, rfl, rfl, rfl, rfl, ?_, hqueued.current, hfree, hfree⟩, ?_⟩
    · intro k hk
      rw [job?, hjobs, SortedMap.get?_insert_of_ne hk]
      rfl
    · rw [hadd, if_neg ha]

theorem Calm.mono {P Q : PartitionId → Prop} (h : d.Calm Q) (hq : ∀ p, P p → Q p) : d.Calm P where
  filter := h.filter
  rejected := h.rejected
  invalidating := h.invalidating
  unreservable := h.unreservable
  roomy := h.roomy
  evictions p hp := h.evictions p (hq p hp)
  obsolete p hp := h.obsolete p (hq p hp)
  free p hp := h.free p (hq p hp)

end Demander

-- ============================================================================
-- The demands of a plan
-- ============================================================================

namespace PlanFetch

variable {E : PlanFetch} {d : Demander} {node : NodeId} {worker : WorkerId} {p : PartitionId}

theorem mem_wanted : p ∈ E.wanted node ↔ E.plan.Asks node p := by
  unfold wanted demand Plan.Asks
  cases hd : E.plan.get? node with
  | none =>
    refine ⟨fun hp => absurd hp (SortedSet.not_mem_empty p), ?_⟩
    rintro ⟨demand, hdemand, -⟩
    cases hdemand
  | some demand =>
    constructor
    · exact fun hp => ⟨demand, rfl, hp⟩
    · rintro ⟨_, hdemand, hp⟩
      cases hdemand
      exact hp

/-- The demands with which a plan begins are the first ones of its streams. -/
theorem mem_shipments (hpool : d.pool = E.pool) {q : Request} :
    q ∈ (d.shipments E.plan).flatMap (·.parts) ↔
      ∃ node worker, E.Asks node worker ∧ q = E.request true node worker := by
  rw [Demander.mem_shipments, hpool]
  constructor
  · rintro ⟨node, demand, worker, p, hget, hp, rfl⟩
    have hdemand : E.demand node = demand := by
      rw [PlanFetch.demand, hget]
      rfl
    subst hdemand
    exact ⟨node, worker, ⟨p, hp⟩, rfl⟩
  · rintro ⟨node, worker, ⟨p, hp⟩, rfl⟩
    exact ⟨node, E.demand node, worker, p, Asks.get? ⟨p, hp⟩, hp, rfl⟩

end PlanFetch

-- ============================================================================
-- A cluster that is ready
-- ============================================================================

namespace Supplier

/-- A supplier without faults, whose entries of some partitions have not expired and fit on a
    page as far as their lengths can be written. -/
structure Reliable (s : Supplier) (Q : PartitionId → Prop) (clock : Instant) : Prop where
  classFault : s.classFault = none
  leaveOnPage : s.leaveOnPage = none
  paused : s.paused = false
  writable : ∀ p, Q p → s.store.state? p = some .owning → Writable s.store p
  lasting : ∀ p, Q p → ∀ e ∈ s.store.entries p, e.isExpired clock = false

end Supplier

namespace Cluster

/-- What is sent to a node on a topic reaches a listener. -/
def Hears (c : Cluster) (node : NodeId) (t : Topic) (l : ClusterListener) : Prop :=
  ∃ i r, c.network.find? node t = some i ∧ c.network.routes[i]? = some r ∧ r.alive = true ∧
    c.listeners[i]? = some l

/-- No message is on its way or being dealt with. -/
structure Quiet (c : Cluster) : Prop where
  held : ∀ i, c.network.held i = []
  idle : ∀ (i : RouteId) l, c.listeners[i]? = some l → l.isIdle = true

/-- A cluster in which every route is empty and every listener idle is quiet. -/
theorem quiet_of_all {c : Cluster}
    (hr : (c.network.routes.all fun r => r.queue.isEmpty && r.waiting.isEmpty) = true)
    (hl : c.listeners.all ClusterListener.isIdle = true) : c.Quiet where
  held i := by
    rw [Network.held]
    cases hi : c.network.routes[i]? with
    | none => rfl
    | some r =>
      have hempty := List.all_eq_true.mp hr r (List.mem_of_getElem? hi)
      rw [Bool.and_eq_true, List.isEmpty_iff, List.isEmpty_iff] at hempty
      show r.queue ++ r.waiting.map (·.envelope) = []
      rw [hempty.1, hempty.2]
      rfl
  idle i l hl' := List.all_eq_true.mp hl l (List.mem_of_getElem? hl')

/-- The suppliers of a plan that the demander `d` is to fetch: each node that is asked for
    something has one, which is reliable and reached through a listener for every worker. -/
def Supplied (c : Cluster) (d : Demander) (plan : Plan) : Prop :=
  ∀ node p, plan.Asks node p → c.network.hasLeft node = false ∧
    ∃ k s, c.suppliers[k]? = some s ∧ s.node = node ∧
      s.Reliable (plan.Asks node) d.site.clock ∧
      ∀ worker ∈ d.pool.workers,
        c.Hears node (d.pool.supplyTopic worker) (.supplier k none)

/-- A quiet cluster with one demander `d`, which can be given a plan at its current topology to
    process at once, and in which nothing stands in the way of the plan: it asks one node for each
    partition, its suppliers do their work, and what it fetches is still to be filled. -/
structure Ready (c : Cluster) (d : Demander) (plan : Plan) (force : Bool) : Prop where
  demanders : c.demanders = [d]
  isOpen : d.Open
  immediate : d.schedule.startMode force = .immediate
  calm : d.Calm fun p => ∃ node, plan.Asks node p
  uniform : plan.Uniform
  current : d.site.affinity.current = plan.topology
  apart : ∀ m n p, plan.Asks m p → plan.Asks n p → m = n
  moving : ∀ node p, plan.Asks node p → d.owns p plan.topology = true →
    d.site.store.base.state? p = some .moving
  quiet : c.Quiet
  transfers : c.transfers = []
  results : ∀ x ∈ c.network.results, x.1 < c.network.sends
  here : c.network.hasLeft d.site.node = false
  doors : ∀ worker ∈ d.pool.workers,
    c.Hears d.site.node (d.pool.demandTopic worker) (.demander 0 worker none)
  nodes : (c.suppliers.map (·.node)).Nodup
  supplied : c.Supplied d plan

/-- The place of the supplier on a node. -/
def indexOf (c : Cluster) (node : NodeId) : Nat :=
  (c.suppliers.findIdx? (·.node == node)).getD 0

theorem indexOf_eq {c : Cluster} (hn : (c.suppliers.map (·.node)).Nodup) {k : Nat} {s : Supplier}
    (hs : c.suppliers[k]? = some s) : c.indexOf s.node = k := by
  obtain ⟨hk, hget⟩ := List.getElem?_eq_some_iff.mp hs
  cases hfind : c.suppliers.findIdx? (·.node == s.node) with
  | none =>
    have hout := List.findIdx?_eq_none_iff.mp hfind s (List.mem_of_getElem? hs)
    rw [beq_self_eq_true] at hout
    cases hout
  | some j =>
    obtain ⟨hj, hnode, -⟩ := List.findIdx?_eq_some_iff_getElem.mp hfind
    have hsame : (c.suppliers.map (·.node))[j]? = (c.suppliers.map (·.node))[k]? := by
      rw [List.getElem?_map, List.getElem?_map, hs, List.getElem?_eq_getElem hj, Option.map_some,
        Option.map_some, beq_iff_eq.mp hnode]
    rw [indexOf, hfind, Option.getD_some]
    exact (List.getElem?_inj (by rw [List.length_map]; exact hj) hn).mp hsame

end Cluster

namespace PlanFetch

variable {c : Cluster} {d b e : Demander} {plan : Plan} {force : Bool} {R : RoundId}
  {node : NodeId} {worker : WorkerId} {p : PartitionId}

/-- The fetch of a plan that is given to the demander of a cluster. -/
def launched (c : Cluster) (d : Demander) (plan : Plan) (R : RoundId) : PlanFetch where
  node := d.site.node
  settings := d.settings
  affinity := d.site.affinity
  clock := d.site.clock
  topics := d.topics
  plan := plan.stamp d.settings.timeout d.settings.batchSize
  round := R
  call := d.nextJob
  network := c.network
  index := c.indexOf
  source node := (c.suppliers[c.indexOf node]?).getD { node, pool := d.pool }
  held := d.site.store.base.read

theorem mem_wanted_launched :
    p ∈ (launched c d plan R).wanted node ↔ plan.Asks node p :=
  mem_wanted.trans (Plan.asks_stamp d.settings.timeout d.settings.batchSize)

/-- The supplier of a stream, with a listener for every worker. -/
theorem supplier_launched (h : c.Ready d plan force)
    (ha : (launched c d plan R).Asks node worker) :
    c.network.hasLeft node = false ∧
      ∃ s, c.suppliers[c.indexOf node]? = some s ∧ s.node = node ∧
        (launched c d plan R).source node = s ∧ s.Reliable (plan.Asks node) d.site.clock ∧
        c.Hears node (d.pool.supplyTopic worker) (.supplier (c.indexOf node) none) := by
  have hworker : worker ∈ (launched c d plan R).pool.workers := ha.mem_workers
  obtain ⟨p, hp⟩ := ha
  have hasks := mem_wanted_launched.mp ((launched c d plan R).mem_part.mp hp).1
  obtain ⟨hleft, k, s, hs, rfl, hreliable, hhears⟩ := h.supplied node p hasks
  have hk := Cluster.indexOf_eq h.nodes hs
  refine ⟨hleft, s, by rw [hk]; exact hs, rfl, ?_, hreliable, ?_⟩
  · show (c.suppliers[c.indexOf s.node]?).getD _ = s
    rw [hk, hs]
    rfl
  · rw [hk]
    exact hhears worker hworker

/-- A plan can be fetched in a cluster that is ready for it. -/
theorem sane_launched (h : c.Ready d plan force) : (launched c d plan R).Sane := by
  have hget : ∀ node D, (launched c d plan R).plan.get? node = some D →
      ∃ D', plan.get? node = some D' ∧ D.topology = D'.topology := by
    intro node D hD
    have hmap : (plan.get? node).map _ = some D := (Plan.get?_stamp plan _ _ node).symm.trans hD
    obtain ⟨D', hD', rfl⟩ := Option.map_eq_some_iff.mp hmap
    exact ⟨D', hD', rfl⟩
  have hwanted : ∀ node p, p ∈ (launched c d plan R).wanted node →
      ((launched c d plan R).source node).Reliable (plan.Asks node) d.site.clock ∧
        plan.Asks node p := by
    intro node p hp
    obtain ⟨-, s, -, -, hs, hreliable, -⟩ := supplier_launched (R := R) h
      ⟨p, (launched c d plan R).asks_of_mem_wanted hp⟩
    exact ⟨hs ▸ hreliable, mem_wanted_launched.mp hp⟩
  refine ⟨?_, h.current, ?_, ?_, ?_, h.here, ?_, ?_, ?_, ?_, ?_⟩
  · intro node D hD
    obtain ⟨D', hD', ht⟩ := hget node D hD
    exact ht.trans (h.uniform node D' hD')
  · intro m n p hm hn
    exact h.apart m n p (mem_wanted_launched.mp hm) (mem_wanted_launched.mp hn)
  · intro node worker ha
    obtain ⟨-, s, -, -, -, -, i, r, hi, hr, halive, -⟩ := supplier_launched h ha
    exact ⟨i, r, hi, hr, halive⟩
  · intro worker hw
    obtain ⟨i, r, hi, hr, halive, -⟩ := h.doors worker hw
    exact ⟨i, r, hi, hr, halive⟩
  · intro node worker ha
    exact (supplier_launched h ha).1
  · intro node worker ha
    obtain ⟨-, s, -, hnode, hs, -⟩ := supplier_launched h ha
    rw [hs]
    exact hnode
  · intro node worker ha
    obtain ⟨-, s, -, -, hs, hreliable, -⟩ := supplier_launched h ha
    rw [hs]
    exact ⟨hreliable.classFault, hreliable.leaveOnPage, hreliable.paused⟩
  · intro node p hp hstate
    obtain ⟨hreliable, hasks⟩ := hwanted node p hp
    exact hreliable.writable p hasks hstate
  · intro node p hp
    obtain ⟨hreliable, hasks⟩ := hwanted node p hp
    exact hreliable.lasting p hasks

-- ============================================================================
-- The first moment
-- ============================================================================

/-- A round that has just begun awaits all of its plan, and nothing has been noted yet. -/
theorem begun_answers (hb : d.Poised b R) (P : Plan) :
    (∀ m p, p ∈ ((b.begin R P).roundOf R).round.outstandingFrom m ↔ P.Asks m p) ∧
      ((b.begin R P).roundOf R).round.missed = ∅ ∧
      ((b.begin R P).roundOf R).round.givenUp = ∅ := by
  obtain ⟨-, -, -, -, hgiven, hmissed, hget⟩ :=
    Round.started_answers (hb.steady.standing R) hb.free P
  obtain ⟨hout, hmissed', hgiven', -⟩ :=
    Round.onDone_answers ((b.roundOf R).round.started P) RoundWait.settle
  rw [Demander.round_begin b hb.length, if_pos rfl, hmissed', hgiven']
  refine ⟨fun m p => ?_, hmissed, hgiven⟩
  rw [Round.outstandingFrom_congr hout, Round.mem_outstandingFrom_iff, hget]
  constructor
  · rintro ⟨ps, hps, hp⟩
    obtain ⟨demand, hdemand, hps⟩ := Option.bind_eq_some_iff.mp hps
    split at hps
    · cases hps
    · cases hps
      exact ⟨demand, hdemand, hp⟩
  · rintro ⟨demand, hdemand, hp⟩
    refine ⟨demand.partitions, ?_, hp⟩
    rw [hdemand, Option.bind_some, if_neg]
    rw [Bool.not_eq_true, SortedSet.isEmpty_eq_false_iff]
    exact ⟨p, hp⟩

/-- The demander when it has made a plan current. -/
theorem tended_begin (h : c.Ready d plan force) (hb : d.Poised b R)
    (hp : plan.isEmpty = false) :
    (launched c d plan R).Tended (b.begin R (launched c d plan R).plan) := by
  have hbeside := Demander.beside_begin b R (launched c d plan R).plan
  obtain ⟨hout, hmissed, hgiven⟩ := begun_answers hb (launched c d plan R).plan
  have hlate : Key.below (launched c d plan R).plan.topology b.site.affinity.current = false := by
    rw [hb.site, h.current]
    exact Key.below_irrefl _
  have htick : Demander.Tick (.call d.nextJob) b (b.begin R (launched c d plan R).plan) :=
    .begin R _ hb.length hb.free ((Demander.isEmpty_stamp plan _ _).trans hp) hlate
  have hsteady := Demander.steady_tick htick hb.steady hb.young
  have hcalm : d.Calm (launched c d plan R).Demanded := by
    refine h.calm.mono fun p hp => ?_
    obtain ⟨node, hp⟩ := hp
    exact ⟨node, mem_wanted_launched.mp hp⟩
  refine ⟨hsteady, hbeside.settings.trans hb.settings, ?_, ?_, ?_,
    hbeside.topics.trans hb.topics, hbeside.plan, hbeside.current,
    (hbeside.stopping.trans hb.stopping).trans h.isOpen.stopping, ?_, ?_, ?_, hgiven⟩
  · exact hbeside.node.trans (congrArg Site.node hb.site)
  · exact hbeside.affinity.trans (congrArg Site.affinity hb.site)
  · exact hbeside.clock.trans (congrArg Site.clock hb.site)
  · exact hcalm.of_store (hbeside.filter.trans (congrArg Site.filter hb.site))
      (hbeside.store.trans (congrArg Site.store hb.site))
  · intro m p hm
    exact mem_wanted.mpr ((hout m p).mp hm)
  · intro p hm
    change p ∈ ((b.begin R (launched c d plan R).plan).roundOf R).round.missed at hm
    rw [hmissed] at hm
    exact absurd hm (SortedSet.not_mem_empty p)

theorem shipments_aside (h : b.Aside e) (P : Plan) : e.shipments P = b.shipments P := by
  refine List.map_congr_left fun x _ => ?_
  rw [Demander.shipment, Demander.pool, h.settings]
  rfl

/-- The demander `e` that the plan has just been given to: it holds no job but the call, which is
    to send every first demand, and has taken nothing in yet. -/
structure Primed (c : Cluster) (d : Demander) (plan : Plan) (R : RoundId) (e : Demander) :
    Prop where
  tended : (launched c d plan R).Tended e
  began : d.nextJob < e.nextJob
  ended : ∀ x ∈ e.returns, e.job? x.1 = none
  sends : ∀ k j, e.job? k = some j → (launched c d plan R).Sends k j
  unsent : ∀ c' : Cluster, c'.carries d.nextJob = false →
    (launched c d plan R).unsent c' e =
      (e.shipments (launched c d plan R).plan).flatMap (·.parts)
  store : e.site.store.base = d.site.store.base
  awaits : ∀ m p, p ∈ (e.roundOf R).round.outstandingFrom m ↔ p ∈ (launched c d plan R).wanted m
  missed : (e.roundOf R).round.missed = ∅

/-- A call whose plan can be fetched goes on to its demands. -/
theorem launch_of_ready (h : c.Ready d plan force) (hb : d.Poised b R)
    (hp : plan.isEmpty = false) :
    b.launch d.nextJob R plan =
      (b.begin R (launched c d plan R).plan).dispatch d.nextJob R
        ((b.begin R (launched c d plan R).plan).shipments (launched c d plan R).plan) := by
  have hlate : Key.below plan.topology b.site.affinity.current = false := by
    rw [hb.site, h.current]
    exact Key.below_irrefl _
  rw [Demander.launch_eq, if_neg (by rw [hp, hlate]; simp), hb.settings]
  rfl

/-- The call has every first demand to send, and the rest of the demander is as the round's
    beginning left it. -/
theorem goneOn_launched (h : c.Ready d plan force) (hb : d.Poised b R)
    (hp : plan.isEmpty = false) :
    (launched c d plan R).GoneOn d.nextJob
      (((b.begin R (launched c d plan R).plan).shipments
        (launched c d plan R).plan).flatMap (·.parts))
      (b.begin R (launched c d plan R).plan) (b.launch d.nextJob R plan) := by
  rw [launch_of_ready h hb hp]
  refine goneOn_dispatch (E := launched c d plan R) _ fun s hs => ?_
  obtain ⟨x, -, rfl⟩ := List.mem_map.mp hs
  rfl

/-- A call that is given a plan goes on to the first demand. -/
theorem primed_launched (h : c.Ready d plan force) (hb : d.Poised b R)
    (hp : plan.isEmpty = false) : Primed c d plan R (b.launch d.nextJob R plan) := by
  have htended := tended_begin h hb hp
  obtain ⟨hout, hmissed, -⟩ := begun_answers hb (launched c d plan R).plan
  have hbeside := Demander.beside_begin b R (launched c d plan R).plan
  obtain ⟨-, hsteady, -⟩ := (Demander.ticks_launch hb.steady hb.young hb.length hb.free plan).keeps
    (P := fun _ => True) (fun _ _ _ _ _ _ => trivial) hb.steady hb.young trivial
  have hgone := goneOn_launched h hb hp
  generalize b.launch d.nextJob R plan = e at hsteady hgone
  have hjobs : ∀ k, k ≠ d.nextJob → e.job? k = none := by
    intro k hk
    rw [hgone.others k hk, Demander.job?, hbeside.jobs]
    exact hb.jobs k hk
  refine ⟨htended.aside hgone.aside hsteady, ?_, ?_, ?_, ?_, ?_, ?_, ?_⟩
  · rw [hgone.nextJob, hbeside.nextJob]
    exact hb.young
  · have hold : ∀ x ∈ d.returns, e.job? x.1 = none := fun x hx =>
      hjobs x.1 (Nat.ne_of_lt (h.isOpen.reachable.steady.ended x hx))
    have hreturns : (b.begin R (launched c d plan R).plan).returns = d.returns :=
      hbeside.returns.trans hb.returns
    intro x hx
    rcases hgone.result with ⟨hnone, hr⟩ | ⟨hr, -⟩
    · rw [hr, hreturns, List.mem_append] at hx
      rcases hx with hx | hx
      · exact hold x hx
      · rw [List.mem_singleton.mp hx]
        exact hnone
    · rw [hr, hreturns] at hx
      exact hold x hx
  · intro k j hj
    by_cases hk : k = d.nextJob
    · subst hk
      rcases hgone.result with ⟨hnone, -⟩ | ⟨-, j', hj', hsends⟩
      · rw [hnone] at hj
        cases hj
      · rw [hj', Option.some.injEq] at hj
        subst hj
        exact hsends
    · rw [hjobs k hk] at hj
      cases hj
  · intro c' hfree
    rw [shipments_aside hgone.aside, ← hgone.todo, PlanFetch.unsent]
    show (if c'.carries d.nextJob = true then _ else _) = _
    rw [hfree]
    rfl
  · rw [hgone.aside.store, hbeside.store]
    exact congrArg (fun s : Site => s.store.base) hb.site
  · intro m p
    rw [roundOf_aside hgone.aside]
    exact (hout m p).trans mem_wanted.symm
  · rw [roundOf_aside hgone.aside]
    exact hmissed

section Primed

variable {tasks : SortedMap Nat ClusterTask}

/-- What is given to the network later is nothing yet. -/
theorem Primed.todo (h : c.Ready d plan force) (he : Primed c d plan R e) :
    (launched c d plan R).unsent { c with tasks, demanders := [e] } e =
      (e.shipments (launched c d plan R).plan).flatMap (·.parts) := by
  refine he.unsent _ ?_
  rw [Cluster.carries, h.transfers]
  rfl

/-- Every route is empty and every listener idle at first. -/
theorem mail_launched (h : c.Ready d plan force) :
    (launched c d plan R).Mail { c with tasks, demanders := [e] } := by
  refine ⟨.refl _, fun x hx => .inr (h.results x hx), Nat.le_refl _, ?_, ?_, ?_⟩
  · intro node worker i ha hi
    obtain ⟨-, s, -, -, -, -, i', r, hi', -, -, hl⟩ := supplier_launched h ha
    obtain rfl : i' = i := Option.some.inj (hi'.symm.trans hi)
    exact ⟨none, hl, nofun⟩
  · intro worker hw i hi
    obtain ⟨i', r, hi', -, -, hl⟩ := h.doors worker hw
    obtain rfl : i' = i := Option.some.inj (hi'.symm.trans hi)
    refine ⟨⟨none, hl⟩, fun x hx => ?_⟩
    change x ∈ c.network.held i' at hx
    rw [h.quiet.held i'] at hx
    cases hx
  · intro i _ _
    exact ⟨h.quiet.held i, h.quiet.idle i⟩

/-- The call is the only job at first. -/
theorem Primed.jobs (h : c.Ready d plan force) (he : Primed c d plan R e) :
    (launched c d plan R).Jobs { c with tasks, demanders := [e] } e := by
  have hnone : ({ c with tasks, demanders := [e] } : Cluster).transfers = [] := h.transfers
  have hpool := he.tended.pool
  refine ⟨he.began, he.ended, fun k j hj => .inl (he.sends k j hj), ?_, ?_, ?_, ?_, ?_⟩
  · intro q hq
    rw [he.todo h] at hq
    exact (mem_shipments hpool).mp hq
  · rw [he.todo h]
    exact (Demander.ascending_shipments _ _).imp Request.Before.ne
  · intro t ht
    rw [hnone] at ht
    cases ht
  · rw [hnone]
    exact List.nodup_nil
  · rw [hnone]
    exact List.nodup_nil

/-- Every stream waits at first. -/
theorem Primed.waiting (h : c.Ready d plan force) (he : Primed c d plan R e)
    (ha : (launched c d plan R).Asks node worker) :
    (launched c d plan R).At { c with tasks, demanders := [e] } e node worker .waiting := by
  refine ⟨?_, ?_, ?_, ?_, nofun, ?_, ?_⟩
  · intro i hi
    obtain ⟨-, s, -, -, -, -, i', r, hi', -, -, hl⟩ := supplier_launched h ha
    obtain rfl : i' = i := Option.some.inj (hi'.symm.trans hi)
    refine ⟨h.quiet.held i', ?_⟩
    show (c.listeners[i']?).bind ClusterListener.inHand = none
    rw [hl]
    rfl
  · intro i _
    show (c.network.held i).filter _ = []
    rw [h.quiet.held i]
    rfl
  · refine ⟨?_, nofun⟩
    rintro ⟨k, job, q, hj, -⟩
    obtain ⟨-, _, _, _, hj', -⟩ := he.sends k _ hj
    cases hj'
  · rw [he.todo h]
    exact ⟨fun _ => rfl, fun _ => (mem_shipments he.tended.pool).mpr ⟨node, worker, ha, rfl⟩⟩
  · refine Supplier.sound_openStream _ fun p hpart hstate => ?_
    exact (sane_launched (R := R) h).writable node p
      ((launched c d plan R).mem_part.mp hpart).1 hstate
  · show StreamProgress _ _ _ _ _ ((launched c d plan R).opened node worker) _ _
    rw [he.store]
    refine StreamProgress.opened _ ?_ ?_ (fun _ _ _ => rfl) he.missed
    · intro p hpart
      exact (he.awaits node p).mpr ((launched c d plan R).mem_part.mp hpart).1
    · intro p hpart ho
      have hasks := mem_wanted_launched.mp ((launched c d plan R).mem_part.mp hpart).1
      exact h.moving node p hasks ho

end Primed

/-- As soon as the demander has been given its plan, every stream waits for its first demand. -/
theorem underway_launched (h : c.Ready d plan force) (hb : d.Poised b R)
    (hp : plan.isEmpty = false) (tasks : SortedMap Nat ClusterTask) :
    (launched c d plan R).Underway
      { c with tasks, demanders := [b.launch d.nextJob R plan] } (b.launch d.nextJob R plan) := by
  have he := primed_launched h hb hp
  refine ⟨rfl, he.tended, mail_launched h, ?_, he.jobs h, fun node worker ha =>
    ⟨.waiting, he.waiting h ha⟩⟩
  intro node worker ha
  obtain ⟨-, s, hs, -, hsource, -⟩ := supplier_launched h ha
  exact ⟨s, hs, by rw [hsource]; exact .refl s⟩

end PlanFetch
end Rebalance
