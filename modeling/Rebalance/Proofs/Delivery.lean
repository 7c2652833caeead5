/-
  Rebalance.Proofs.Delivery

  What a plan has brought once the cluster is quiet. Streams can rest nowhere
  but at their end, so nothing is awaited any more: the round is over with no
  node given up, it notes as missed exactly what the suppliers do not own, and
  everything else is owned and holds every entry of its supplier.
-/
import Rebalance.Proofs.Assembly

namespace Rebalance

theorem ClusterListener.inHand_of_isIdle {l : ClusterListener} (h : l.isIdle = true) :
    l.inHand = none := by
  cases l with
  | nobody => rfl
  | demander index worker busy => rfl
  | supplier index busy =>
    cases busy with
    | none => rfl
    | some work => cases h

-- ============================================================================
-- Following a cluster
-- ============================================================================

namespace Cluster

/-- The cluster after some things have been done one after another, each if it was possible. -/
def follow (c : Cluster) (ms : List Move) : Cluster := ms.foldl (fun c m => (c.move m).getD c) c

/-- Nothing happens in a quiet cluster whose only demander waits for nothing. -/
theorem follow_of_still {c : Cluster} {d : Demander} (hd : c.demanders = [d])
    (hj : ∀ id, d.job? id = none) (ht : c.transfers = []) (hq : c.Quiet) (ms : List Move) :
    c.follow ms = c := by
  have hstill : ∀ m, c.move m = none := by
    intro m
    cases m with
    | submit k id =>
      show c.submit k id = none
      rw [submit, hd]
      cases k with
      | succ k => rfl
      | zero =>
        show (if _ then none else ((d.job? id).bind Job.request?).map _) = none
        rw [hj]
        split <;> rfl
    | report send =>
      show c.report send = none
      rw [report, ht]
      rfl
    | resume k id =>
      show c.resume k id = none
      rw [resume, hd]
      cases k with
      | succ k => rfl
      | zero =>
        show (if d.isReady id = true then _ else none) = none
        rw [Demander.isReady, hj]
        rfl
    | listen i =>
      show c.listen i = none
      cases hl : c.listeners[i]? with
      | none => rw [listen, hl]
      | some l =>
        rw [listen_idle hl (hq.idle i l hl), Network.take_of_held_nil (hq.held i)]
        rfl
  induction ms with
  | nil => rfl
  | cons m ms ih =>
    show ((c.move m).getD c).follow ms = c
    rw [hstill m]
    exact ih

end Cluster

namespace PlanFetch

variable {E : PlanFetch} {c : Cluster} {d : Demander} {node : NodeId} {worker : WorkerId}

/-- Whatever a cluster does while a plan is being fetched, nothing goes wrong. -/
theorem Underway.follow (hS : E.Sane) (h : E.Underway c d) (ms : List Cluster.Move) :
    ∃ e, E.Underway (c.follow ms) e := by
  induction ms generalizing c d with
  | nil => exact ⟨d, h⟩
  | cons m ms ih =>
    show ∃ e, E.Underway (((c.move m).getD c).follow ms) e
    cases hm : c.move m with
    | none => exact ih h
    | some c' =>
      obtain ⟨d', h'⟩ := h.moves hS hm
      exact ih h'

-- ============================================================================
-- Nowhere to rest
-- ============================================================================

/-- In a quiet cluster in which the call has returned, every stream is at its end. -/
theorem Underway.done (hS : E.Sane) (h : E.Underway c d) (hq : c.Quiet)
    (hover : d.job? E.call = none) (ha : E.Asks node worker) : E.At c d node worker .done := by
  obtain ⟨spot, hspot⟩ := h.streams node worker ha
  cases spot with
  | waiting =>
    have hmem := hspot.waits.mpr rfl
    rw [unsent, hover] at hmem
    simp at hmem
  | asked first =>
    obtain ⟨i, r, hi, -⟩ := hS.routes node worker ha
    have hheld := (hspot.route i hi).1
    rw [hq.held i] at hheld
    cases hheld
  | withSupplier first =>
    obtain ⟨i, r, hi, -⟩ := hS.routes node worker ha
    have hhand := (hspot.route i hi).2
    obtain ⟨l, hl, hbusy⟩ := Option.bind_eq_some_iff.mp hhand
    rw [ClusterListener.inHand_of_isIdle (hq.idle i l hl)] at hbusy
    cases hbusy
  | paged s page =>
    obtain ⟨i, r, hi, -⟩ := hS.doors worker ha.mem_workers
    have hheld := hspot.door i hi
    rw [hq.held i] at hheld
    cases hheld
  | turning =>
    obtain ⟨id, job, q, hj, -, -, -⟩ := hspot.turns.mpr rfl
    rcases h.jobs.kinds id _ hj with ⟨rfl, -⟩ | ⟨-, job', -, -, hasks, hl⟩
    · rw [hover] at hj
      cases hj
    · obtain ⟨i, r, hi, -⟩ := hS.doors job'.worker hasks.mem_workers
      have hidle := hq.idle i _ (hl i hi)
      cases hidle
  | done => exact hspot

/-- In a quiet cluster in which the call has returned, nothing is awaited any more. -/
theorem Underway.settled (hS : E.Sane) (h : E.Underway c d) (hq : c.Quiet)
    (hover : d.job? E.call = none) : (d.roundOf E.round).round.isDone = true := by
  refine (h.tended.steady.standing E.round).done_of_none h.tended.bound.2 fun m p hp => ?_
  -- A partition that is awaited belongs to a stream.
  have hpart := E.asks_of_mem_wanted (h.tended.awaits m p hp)
  have hdone := h.done hS hq hover ⟨p, hpart⟩
  exact hdone.progress.past p hpart rfl (SortedSet.not_mem_empty p) hp

end PlanFetch

-- ============================================================================
-- Delivery
-- ============================================================================

namespace Cluster

/-- What a plan that was given to the demander `d` of a cluster has brought, as the demander `e`
    shows it: its round is over, with no node given up and exactly that missed which is to be
    filled here and which the supplier does not own; everything else is owned, and each entry of
    its supplier was merged with what was held before. -/
structure Delivered (c : Cluster) (d : Demander) (plan : Plan) (e : Demander) : Prop where
  fresh : (d.roundOf e.current).round.attached = false
  summary : ∃ outcome, e.currentRound.summary = some outcome ∧ outcome.cancelled = ∅ ∧
    ∀ p, p ∈ outcome.missed ↔ ∃ s ∈ c.suppliers, plan.Asks s.node p ∧
      d.owns p plan.topology = true ∧ s.store.state? p ≠ some .owning
  owned : ∀ s ∈ c.suppliers, ∀ p, plan.Asks s.node p → d.owns p plan.topology = true →
    s.store.state? p = some .owning → e.site.store.base.state? p = some .owning
  merged : ∀ s ∈ c.suppliers, ∀ p, plan.Asks s.node p → d.owns p plan.topology = true →
    s.store.state? p = some .owning → ∀ x ∈ s.store.entries p,
      e.site.store.base.read p x.key = some (x.mergedWith (d.site.store.base.read p x.key))

variable {c c' : Cluster} {d e b : Demander} {plan : Plan} {force : Bool} {R : RoundId}

/-- Each partition of a plan belongs to a stream, which is at its end once all is quiet. -/
theorem streamProgress_of_underway (h : c.Ready d plan force)
    (hu : (PlanFetch.launched c d plan R).Underway c' e) (hq : c'.Quiet)
    (hover : e.job? d.nextJob = none) {s : Supplier} (hs : s ∈ c.suppliers) {p : PartitionId}
    (hp : plan.Asks s.node p) :
    ∃ ps, p ∈ ps ∧ StreamProgress (fun p => d.owns p plan.topology) s.node ps s.store
      d.site.store.base.read {} e.site.store.base (e.roundOf R).round := by
  have hpart := (PlanFetch.launched c d plan R).asks_of_mem_wanted
    (PlanFetch.mem_wanted_launched.mpr hp)
  obtain ⟨-, s', hs', hnode, hsource, -⟩ := PlanFetch.supplier_launched (R := R) h ⟨p, hpart⟩
  have hsame : s' = s :=
    List.inj_on_of_nodup_map h.nodes (List.mem_of_getElem? hs') hs hnode
  have hdone := (hu.done (PlanFetch.sane_launched h) hq hover ⟨p, hpart⟩).progress
  rw [hsource, hsame] at hdone
  exact ⟨_, hpart, hdone⟩

/-- A plan whose streams have all come to their end has been delivered. -/
theorem delivered_of_underway (h : c.Ready d plan force)
    (hfresh : (d.roundOf R).round.attached = false)
    (hu : (PlanFetch.launched c d plan R).Underway c' e) (hq : c'.Quiet)
    (hover : e.job? d.nextJob = none) : c.Delivered d plan e := by
  have hS := PlanFetch.sane_launched (R := R) h
  have hcurrent : e.current = R := hu.tended.current
  have hprogress := fun s hs p hp => streamProgress_of_underway h hu hq hover (s := s) hs (p := p) hp
  obtain ⟨outcome, houtcome⟩ := Option.isSome_iff_exists.mp (hu.settled hS hq hover)
  have hsummary : (e.roundOf R).round.summary = some outcome := houtcome
  have hmissed : (e.roundOf R).round.missed = outcome.missed := by
    rw [Round.missed, hsummary]
  have hcancelled : (e.roundOf R).round.givenUp = outcome.cancelled := by
    rw [Round.givenUp, hsummary]
  refine ⟨by rw [hcurrent]; exact hfresh, ⟨outcome, ?_, ?_, ?_⟩, ?_, ?_⟩
  · rw [Demander.currentRound, hcurrent]
    exact hsummary
  · rw [← hcancelled]
    exact hu.tended.keeps
  · intro p
    rw [← hmissed]
    constructor
    · intro hp
      obtain ⟨node, hwanted⟩ := hu.tended.misses p hp
      have hasks := PlanFetch.mem_wanted_launched.mp hwanted
      obtain ⟨-, k, s, hs, rfl, -⟩ := h.supplied node p hasks
      obtain ⟨ps, hps, hd⟩ := hprogress s (List.mem_of_getElem? hs) p hasks
      obtain ⟨ho, hstate, -⟩ := (hd.missed p hps).mp hp
      exact ⟨s, List.mem_of_getElem? hs, hasks, ho, hstate⟩
    · rintro ⟨s, hs, hasks, ho, hstate⟩
      obtain ⟨ps, hps, hd⟩ := hprogress s hs p hasks
      exact (hd.missed p hps).mpr ⟨ho, hstate, SortedSet.not_mem_empty p⟩
  · intro s hs p hasks ho hstate
    obtain ⟨ps, hps, hd⟩ := hprogress s hs p hasks
    exact hd.state p hps ho hstate
  · intro s hs p hasks ho hstate x hx
    obtain ⟨ps, hps, hd⟩ := hprogress s hs p hasks
    obtain ⟨gone, hgone, hread⟩ := hd.read p hps ho hstate
    have hall : s.store.entries p = gone := hgone.trans (List.append_nil gone)
    rw [hread x.key, ← hall]
    exact Entry.mergeAll_of_mem (s.store.entries_keys_nodup p) hx

/-- A plan that asks for nothing leaves no job behind. -/
theorem job?_launch_of_isEmpty (hb : d.Poised b R) (hp : plan.isEmpty = true) (id : JobId) :
    (b.launch d.nextJob R plan).job? id = none := by
  rw [Demander.launch_eq, if_pos (.inl hp), Demander.job?_finish]
  by_cases hid : id = d.nextJob
  · rw [if_pos hid]
  · rw [if_neg hid, Demander.job?, (Demander.beside_pass b R plan).jobs]
    exact hb.jobs id hid

/-- A plan that asks for nothing is delivered as soon as it has been given to the demander. -/
theorem delivered_of_isEmpty (hb : d.Poised b R) (hp : plan.isEmpty = true) :
    c.Delivered d plan (b.launch d.nextJob R plan) := by
  have hnone : ∀ n p, ¬ plan.Asks n p := by
    rintro n p ⟨demand, hdemand, hmem⟩
    rw [Plan.isEmpty, List.all_eq_true] at hp
    have he := hp demand (SortedMap.mem_values_iff.mpr ⟨n, hdemand⟩)
    rw [SortedSet.isEmpty_iff.mp he] at hmem
    exact SortedSet.not_mem_empty p hmem
  have hlaunch : b.launch d.nextJob R plan = (b.pass R plan).finish d.nextJob (.ok ()) := by
    rw [Demander.launch_eq, if_pos (.inl hp)]
  have hcurrent : (b.launch d.nextJob R plan).current = R := by
    rw [hlaunch]
    exact (Demander.beside_pass b R plan).current
  have hround : ((b.launch d.nextJob R plan).roundOf R).round =
      ((b.roundOf R).round.attach plan.exchange).after .complete := by
    have hpass := Demander.round_pass b hb.length plan R
    rw [if_pos rfl] at hpass
    rw [hlaunch]
    exact hpass
  have hsummary : ((b.launch d.nextJob R plan).roundOf R).round.summary = some ⟨∅, ∅⟩ := by
    rw [hround]
    exact Round.summary_complete (hb.steady.standing R) hb.free plan.exchange
  refine ⟨by rw [hcurrent]; exact hb.fresh, ⟨⟨∅, ∅⟩, ?_, rfl,
    fun p => ⟨fun hp => absurd hp (SortedSet.not_mem_empty p), ?_⟩⟩, ?_, ?_⟩
  · rw [Demander.currentRound, hcurrent]
    exact hsummary
  · rintro ⟨s, -, hasks, -⟩
    exact absurd hasks (hnone _ _)
  · intro s _ p hasks
    exact absurd hasks (hnone _ _)
  · intro s _ p hasks
    exact absurd hasks (hnone _ _)

/-- End-to-end delivery.  Give a plan to the demander of a cluster that is ready for it, and let
    the cluster go on in any way.  Whenever the call has returned without a failure and the
    cluster is quiet, the plan has been delivered. -/
theorem delivered_when_quiet (h : c.Ready d plan force) (number : Nat) (ms : List Move)
    (hr : ((c.call number 0 (.add plan force)).follow ms).result? (.call 0 d.nextJob) =
      some (.inl (.ok ())))
    (hq : ((c.call number 0 (.add plan force)).follow ms).Quiet) :
    ∃ e, ((c.call number 0 (.add plan force)).follow ms).demanders = [e] ∧
      c.Delivered d plan e := by
  obtain ⟨b, R, hb, hadd⟩ := Demander.add_of_open h.isOpen h.immediate plan
  have hstep : d.step (.add plan force) = b.launch d.nextJob R plan := hadd
  have htopics : (b.launch d.nextJob R plan).topics = d.topics := by
    by_cases hp : plan.isEmpty = true
    · rw [Demander.launch_eq, if_pos (.inl hp)]
      exact (Demander.beside_pass b R plan).topics.trans hb.topics
    · exact (PlanFetch.underway_launched h hb (Bool.eq_false_iff.mpr hp) ∅).tended.topics
  have hcall : c.call number 0 (.add plan force) =
      { c with
        tasks := c.tasks.insert number (.call 0 d.nextJob)
        demanders := [b.launch d.nextJob R plan] } := by
    have hone : ({ c with tasks := c.tasks.insert number (.call 0 d.nextJob) } :
        Cluster).demanders = [d] := h.demanders
    have hfirst : c.demanders[0]? = some d := by
      rw [h.demanders]
      rfl
    rw [Cluster.call, hfirst]
    show ({ c with tasks := _ } : Cluster).step 0 _ = _
    rw [step_one hone (by rw [hstep]; exact htopics), hstep]
  rw [hcall] at hr hq ⊢
  by_cases hp : plan.isEmpty = true
  · have hstill := follow_of_still (c := { c with
      tasks := c.tasks.insert number (.call 0 d.nextJob)
      demanders := [b.launch d.nextJob R plan] }) rfl (job?_launch_of_isEmpty hb hp) h.transfers
      ⟨h.quiet.held, h.quiet.idle⟩ ms
    rw [hstill]
    exact ⟨_, rfl, delivered_of_isEmpty hb hp⟩
  · have hasks : plan.isEmpty = false := Bool.eq_false_iff.mpr hp
    obtain ⟨e, hu⟩ := (PlanFetch.underway_launched h hb hasks
      (c.tasks.insert number (.call 0 d.nextJob))).follow (PlanFetch.sane_launched h) ms
    refine ⟨e, hu.demanders, delivered_of_underway h hb.fresh hu hq ?_⟩
    -- A job that has returned does not wait.
    rw [result?, hu.demanders] at hr
    change ((e.returns.find? fun x => x.1 == d.nextJob).map fun x => Sum.inl x.2) = _ at hr
    obtain ⟨x, hx, -⟩ := Option.map_eq_some_iff.mp hr
    have hid : x.1 = d.nextJob := by simpa using List.find?_some hx
    rw [← hid]
    exact hu.jobs.ended x (List.mem_of_find?_eq_some hx)

/-- A store that owns one partition with two entries. -/
def pairStore : Store :=
  ((({} : Store).create 3 .owning).put 3 { key := [1], value := [7], revision := ⟨1, 0⟩ }).put 3
    { key := [2], value := [8], revision := ⟨1, 0⟩ }

/-- A supplier that sends one entry on each page, and one that owns nothing. -/
def pairSuppliers : List Supplier :=
  [{ node := 5, pool := WorkerPool.ofSize 0 1, store := pairStore, pageSize := 1 },
    { node := 6, pool := WorkerPool.ofSize 0 1 }]

/-- A plan that asks both suppliers. -/
def pairPlan : Plan := Demander.planFor ⟨1, 0⟩ [(5, [3]), (6, [4])]

theorem asks_pairPlan {n : NodeId} {p : PartitionId} :
    pairPlan.Asks n p ↔ (n = 6 ∧ p = 4) ∨ (n = 5 ∧ p = 3) := by
  show ((Plan.request _ 5 [3]).request 6 [4]).Asks n p ↔ _
  rw [Plan.asks_request, Plan.asks_request, List.mem_singleton, List.mem_singleton]
  have hnone : ¬ Plan.Asks { exchange := ⟨0, ⟨1, 0⟩, ⟨0, .nodeJoined, 0⟩⟩ } n p := by
    rintro ⟨demand, hdemand, -⟩
    cases hdemand
  simp only [hnone, or_false]

/-- The demander 2 joins both suppliers. -/
def pair : Cluster := together ⟨1, 0⟩ pairSuppliers 2 { poolSize := 1 } [3, 4] 0

def pairDemander : Demander := joining ⟨1, 0⟩ 2 { poolSize := 1 } [3, 4] 0

theorem ready_pair : pair.Ready pairDemander pairPlan true := by
  refine ready_together rfl rfl rfl (by decide) ?_ rfl (Plan.uniform_planFor _ _) ?_ ?_
  · intro s hs
    simp only [pairSuppliers, List.mem_cons, List.not_mem_nil, or_false] at hs
    rcases hs with rfl | rfl <;> rfl
  · intro m n p hm hn
    rcases asks_pairPlan.mp hm with ⟨rfl, rfl⟩ | ⟨rfl, rfl⟩
    · rcases asks_pairPlan.mp hn with ⟨rfl, -⟩ | ⟨-, hp⟩
      · rfl
      · cases hp
    · rcases asks_pairPlan.mp hn with ⟨-, hp⟩ | ⟨rfl, -⟩
      · cases hp
      · rfl
  · intro n p hp
    rcases asks_pairPlan.mp hp with ⟨rfl, rfl⟩ | ⟨rfl, rfl⟩
    · refine ⟨_, List.mem_cons_of_mem _ List.mem_cons_self, rfl, rfl, rfl, rfl, ?_, ?_⟩
      · intro p _ hstate
        cases hstate
      · intro p _ e he
        cases he
    · have hthree : ∀ p, pairPlan.Asks 5 p → p = 3 := by
        intro p hp
        rcases asks_pairPlan.mp hp with ⟨hn, -⟩ | ⟨-, rfl⟩
        · cases hn
        · rfl
      refine ⟨_, List.mem_cons_self, rfl, rfl, rfl, rfl, ?_, ?_⟩
      · intro p hp _
        obtain rfl := hthree p hp
        have hfits : ∀ e ∈ pairStore.entries 3,
            e.key.length < UInt64.size ∧ e.value.length < UInt64.size := by decide
        exact ⟨by decide, hfits⟩
      · intro p hp
        obtain rfl := hthree p hp
        have hlasting : ∀ e ∈ pairStore.entries 3, e.isExpired 0 = false := by decide
        exact hlasting

/-- One way in which the cluster goes on until it is quiet. -/
def pairMoves : List Move :=
  [.submit 0 0, .report 0, .submit 0 0, .report 1, .listen 0, .listen 0, .listen 0, .listen 1,
    .listen 1, .listen 1, .listen 2, .submit 0 1, .report 4, .listen 0, .listen 0, .listen 0,
    .listen 2, .listen 2, .submit 0 2, .report 6, .listen 1, .listen 1, .listen 2, .listen 2,
    .listen 2]

/-- The cluster of both suppliers when everything has been done. -/
def pairDone : Cluster := (pair.call 0 0 (.add pairPlan true)).follow pairMoves

/-- Both suppliers' answers are delivered: two pages of entries, and a partition that is missed. -/
theorem pair_is_delivered :
    pair.Ready pairDemander pairPlan true ∧
      pairDone.result? (.call 0 pairDemander.nextJob) = some (.inl (.ok ())) ∧
      pairDone.Quiet ∧
      ∃ e, pairDone.demanders = [e] ∧ pair.Delivered pairDemander pairPlan e := by
  have hresult : pairDone.result? (.call 0 pairDemander.nextJob) = some (.inl (.ok ())) := by
    decide +kernel
  have hquiet : pairDone.Quiet := quiet_of_all (by decide +kernel) (by decide +kernel)
  exact ⟨ready_pair, hresult, hquiet,
    delivered_when_quiet ready_pair 0 pairMoves hresult hquiet⟩

end Cluster
end Rebalance
