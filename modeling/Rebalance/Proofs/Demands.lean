/-
  Rebalance.Proofs.Demands

  From a plan to the demands that are sent for it.  A plan is made by asking
  node after node for partitions, and asks a node for the union of what it was
  asked for (`asks_gather`).  The partitions of a node are split by worker, and
  `mem_shipments` and `ascending_shipments` say which requests that makes and
  in which order; `job?_dispatch` says that a job has exactly these to send.
-/
import Rebalance.Proofs.Step

namespace Rebalance

-- ============================================================================
-- Plans
-- ============================================================================

namespace Plan

/-- A node is asked for a partition. -/
def Asks (plan : Plan) (node : NodeId) (p : PartitionId) : Prop :=
  ∃ demand, plan.get? node = some demand ∧ p ∈ demand.partitions

/-- All demands of a plan are made at its topology. -/
def Uniform (plan : Plan) : Prop :=
  ∀ node demand, plan.get? node = some demand → demand.topology = plan.topology

/-- The plan for an exchange in which nodes are asked for partitions, one after the other. -/
def gather (exchange : Exchange) (reqs : List (NodeId × List PartitionId)) : Plan :=
  reqs.foldl (fun (plan : Plan) x => plan.request x.1 x.2) { exchange }

variable {plan : Plan} {node n : NodeId} {ps : List PartitionId} {p : PartitionId}

/-! ## The settings of a plan -/

theorem get?_stamp (plan : Plan) (timeout : Span) (batchSize : UInt64) (node : NodeId) :
    (plan.stamp timeout batchSize).get? node =
      (plan.get? node).map fun d => { d with timeout, batchSize } := by
  rw [stamp, get?, SortedMap.get?_mapValues]
  rfl

theorem asks_stamp (timeout : Span) (batchSize : UInt64) :
    (plan.stamp timeout batchSize).Asks node p ↔ plan.Asks node p := by
  unfold Asks
  rw [get?_stamp]
  cases plan.get? node with
  | none => rfl
  | some demand =>
    constructor
    · rintro ⟨d, hd, hp⟩
      cases hd
      exact ⟨demand, rfl, hp⟩
    · rintro ⟨d, hd, hp⟩
      cases hd
      exact ⟨_, rfl, hp⟩

theorem Uniform.stamp (h : plan.Uniform) (timeout : Span) (batchSize : UInt64) :
    (plan.stamp timeout batchSize).Uniform := by
  intro n demand hget
  rw [get?_stamp] at hget
  obtain ⟨old, hold, rfl⟩ := Option.map_eq_some_iff.mp hget
  exact h n old hold

/-! ## What a plan asks for -/

theorem get?_request : (plan.request node ps).get? n =
    if n = node then
      some { (plan.get? node).getD (Demand.ofList [] plan.topology) with
        partitions := (SortedSet.ofList ps).union
          ((plan.get? node).getD (Demand.ofList [] plan.topology)).partitions }
    else plan.get? n := SortedMap.get?_alter

/-- Whoever asks for more asks for what is listed and for what was asked for before. -/
theorem asks_request : (plan.request node ps).Asks n p ↔ (n = node ∧ p ∈ ps) ∨ plan.Asks n p := by
  unfold Asks
  rw [get?_request]
  by_cases hn : n = node
  · subst hn
    rw [if_pos rfl]
    simp only [Option.some.injEq, exists_eq_left', SortedSet.mem_union, SortedSet.mem_ofList,
      true_and]
    refine or_congr_right ?_
    cases hget : plan.get? n with
    | none =>
      refine ⟨fun hp => absurd hp (SortedSet.not_mem_empty p), ?_⟩
      rintro ⟨demand, hdemand, -⟩
      cases hdemand
    | some demand =>
      refine ⟨fun hp => ⟨demand, rfl, hp⟩, ?_⟩
      rintro ⟨demand', hdemand, hp⟩
      cases hdemand
      exact hp
  · rw [if_neg hn]
    simp only [hn, false_and, false_or]

theorem Uniform.request (h : plan.Uniform) (node : NodeId) (ps : List PartitionId) :
    (plan.request node ps).Uniform := by
  intro n demand hget
  rw [get?_request] at hget
  by_cases hn : n = node
  · rw [if_pos hn, Option.some.injEq] at hget
    rw [← hget]
    show ((plan.get? node).getD (Demand.ofList [] plan.topology)).topology = plan.topology
    cases hnode : plan.get? node with
    | none => rfl
    | some old => exact h node old hnode
  · rw [if_neg hn] at hget
    exact h n demand hget

/-- Every demand of a plan that was gathered has the topology of its exchange, and the plan asks a
    node for a partition exactly if it was asked for it. -/
theorem gathered (exchange : Exchange) (reqs : List (NodeId × List PartitionId)) :
    (gather exchange reqs).exchange = exchange ∧ (gather exchange reqs).Uniform ∧
      ∀ n p, (gather exchange reqs).Asks n p ↔ ∃ ps, (n, ps) ∈ reqs ∧ p ∈ ps := by
  have hmore : ∀ plan : Plan, plan.Uniform →
      (reqs.foldl (fun (plan : Plan) x => plan.request x.1 x.2) plan).exchange = plan.exchange ∧
        (reqs.foldl (fun (plan : Plan) x => plan.request x.1 x.2) plan).Uniform ∧
        ∀ n p, (reqs.foldl (fun (plan : Plan) x => plan.request x.1 x.2) plan).Asks n p ↔
          (∃ ps, (n, ps) ∈ reqs ∧ p ∈ ps) ∨ plan.Asks n p := by
    induction reqs with
    | nil => exact fun plan h => ⟨rfl, h, fun n p => by simp⟩
    | cons x reqs ih =>
      intro plan h
      obtain ⟨hexchange, huniform, hasks⟩ := ih (plan.request x.1 x.2) (h.request x.1 x.2)
      refine ⟨hexchange, huniform, fun n p => ?_⟩
      rw [List.foldl_cons, hasks, asks_request]
      simp only [List.mem_cons]
      constructor
      · rintro (⟨ps, hmem, hp⟩ | ⟨rfl, hp⟩ | hold)
        · exact .inl ⟨ps, .inr hmem, hp⟩
        · exact .inl ⟨x.2, .inl rfl, hp⟩
        · exact .inr hold
      · rintro (⟨ps, rfl | hmem, hp⟩ | hold)
        · exact .inr (.inl ⟨rfl, hp⟩)
        · exact .inl ⟨ps, hmem, hp⟩
        · exact .inr (.inr hold)
  obtain ⟨hexchange, huniform, hasks⟩ := hmore { exchange } nofun
  refine ⟨hexchange, huniform, fun n p => (hasks n p).trans (or_iff_left ?_)⟩
  rintro ⟨demand, hdemand, -⟩
  cases hdemand

/-- A plan that was asked for node by node is uniform. -/
theorem uniform_planFor (topology : Topology) (demands : List (NodeId × List PartitionId)) :
    (Demander.planFor topology demands).Uniform :=
  (gathered ⟨0, topology, ⟨0, .nodeJoined, 0⟩⟩ demands).2.1

end Plan

-- ============================================================================
-- Workers
-- ============================================================================

namespace WorkerPool

variable (w : WorkerPool)

theorem toNat_workerFor (p : PartitionId) :
    (w.workerFor p).toNat = p.toNat % w.size.toNat := by
  unfold workerFor
  rw [UInt64.toNat_mod, UInt32.toNat_toUInt64]

/-- The worker of a partition is one of the pool's. -/
theorem mem_workers (p : PartitionId) : w.workerFor p ∈ w.workers := by
  rw [workers, List.mem_map]
  refine ⟨(w.workerFor p).toNat, ?_, UInt64.ofNat_toNat⟩
  rw [List.mem_range, toNat_workerFor]
  exact Nat.mod_lt _ w.size_pos

theorem ascending_workers : w.workers.Pairwise (· < ·) := by
  rw [workers, List.pairwise_map]
  refine List.pairwise_lt_range.imp_of_mem fun {a b} ha hb hlt => ?_
  have hsmall : ∀ n ∈ List.range w.size.toNat, (UInt64.ofNat n).toNat = n := fun n hn =>
    UInt64.toNat_ofNat_of_lt' (Nat.lt_trans (List.mem_range.mp hn) w.size.toNat_lt)
  rw [UInt64.lt_iff_toNat_lt, hsmall a ha, hsmall b hb]
  exact hlt

theorem nodup_workers : w.workers.Nodup :=
  w.ascending_workers.imp fun h => UInt64.ne_of_lt h

theorem mem_shard {ps : SortedSet PartitionId} {worker : WorkerId} {p : PartitionId} :
    p ∈ w.shard ps worker ↔ p ∈ ps ∧ w.workerFor p = worker := by
  rw [shard, SortedSet.mem_filter, beq_iff_eq]

/-- The demand on a node for the partitions of one worker. -/
def requestTo (node : NodeId) (demand : Demand) (worker : WorkerId) : Request where
  target := node
  topic := w.supplyTopic worker
  demand := demand.withPartitions (w.shard demand.partitions worker) (w.demandTopic worker)

end WorkerPool

-- ============================================================================
-- Requests
-- ============================================================================

/-- In ascending order of node and worker. -/
def Request.Before (a b : Request) : Prop :=
  a.target < b.target ∨ a.target = b.target ∧ a.topic.worker < b.topic.worker

theorem Request.Before.ne {a b : Request} (h : a.Before b) : a ≠ b := by
  rintro rfl
  rcases h with h | ⟨-, h⟩
  · exact UInt64.lt_irrefl _ h
  · exact UInt64.lt_irrefl _ h

namespace Demander

variable {d : Demander} {plan : Plan} {node : NodeId} {demand : Demand} {q : Request}

theorem parts_shipment (d : Demander) (node : NodeId) (demand : Demand) :
    (d.shipment node demand).parts = d.pool.workers.filterMap fun worker =>
      if (d.pool.shard demand.partitions worker).isEmpty then none
      else some (d.pool.requestTo node demand worker) := rfl

/-- The requests to a node are those for the workers that have some of its partitions. -/
theorem mem_parts : q ∈ (d.shipment node demand).parts ↔
    ∃ worker p, p ∈ d.pool.shard demand.partitions worker ∧
      q = d.pool.requestTo node demand worker := by
  rw [parts_shipment, List.mem_filterMap]
  constructor
  · rintro ⟨worker, -, hq⟩
    split at hq
    · cases hq
    · next hne =>
      rw [Bool.not_eq_true, SortedSet.isEmpty_eq_false_iff] at hne
      obtain ⟨p, hp⟩ := hne
      exact ⟨worker, p, hp, (Option.some.inj hq).symm⟩
  · rintro ⟨worker, p, hp, rfl⟩
    refine ⟨worker, ?_, ?_⟩
    · rw [← ((WorkerPool.mem_shard _).mp hp).2]
      exact d.pool.mem_workers p
    · rw [if_neg]
      rw [Bool.not_eq_true, SortedSet.isEmpty_eq_false_iff]
      exact ⟨p, hp⟩

/-- The requests of a plan are those to its nodes. -/
theorem mem_shipments : q ∈ (d.shipments plan).flatMap (·.parts) ↔
    ∃ node demand worker p, plan.get? node = some demand ∧
      p ∈ d.pool.shard demand.partitions worker ∧ q = d.pool.requestTo node demand worker := by
  rw [shipments, List.flatMap_map, List.mem_flatMap]
  constructor
  · rintro ⟨x, hx, hq⟩
    obtain ⟨worker, p, hp, rfl⟩ := mem_parts.mp hq
    exact ⟨x.1, x.2, worker, p, SortedMap.get?_eq_some_iff.mpr hx, hp, rfl⟩
  · rintro ⟨node, demand, worker, p, hget, hp, rfl⟩
    exact ⟨(node, demand), SortedMap.get?_eq_some_iff.mp hget, mem_parts.mpr ⟨worker, p, hp, rfl⟩⟩

/-- They come in ascending order of node and worker. -/
theorem ascending_shipments (d : Demander) (plan : Plan) :
    ((d.shipments plan).flatMap (·.parts)).Pairwise Request.Before := by
  rw [shipments, List.flatMap_map, List.pairwise_flatMap]
  constructor
  · intro x _
    rw [parts_shipment]
    refine d.pool.ascending_workers.filterMap _ fun v w hlt a ha b hb => ?_
    split at ha
    · cases ha
    · split at hb
      · cases hb
      · cases ha
        cases hb
        exact .inr ⟨rfl, hlt⟩
  · have hkeys := plan.demands.ordered
    rw [List.pairwise_map] at hkeys
    refine hkeys.imp fun {x y} hlt a ha b hb => ?_
    obtain ⟨v, -, -, rfl⟩ := mem_parts.mp ha
    obtain ⟨w, -, -, rfl⟩ := mem_parts.mp hb
    exact .inl (UInt64.lt_iff_toNat_lt.mpr (of_decide_eq_true hlt))

end Demander

-- ============================================================================
-- What a job has to send
-- ============================================================================

/-- The demands that a plan has not been told of yet as sent. -/
def Job.unanswered : Job → List Request
  | sending _ q s rest => q :: (s.parts ++ rest.flatMap (·.parts))
  | _ => []

/-- A plan that sends its demands has returned, as there are none, or waits for the first of them
    to be sent. -/
theorem Demander.job?_dispatch (d : Demander) (id : JobId) (round : RoundId)
    (ships : List Shipment) :
    ((d.dispatch id round ships).job? id = none ∧ ships.flatMap (·.parts) = []) ∨
      ∃ q s rest, (d.dispatch id round ships).job? id = some (.sending round q s rest) ∧
        ships.flatMap (·.parts) = (Job.sending round q s rest).unanswered := by
  induction ships generalizing d with
  | nil =>
    refine .inl ⟨?_, rfl⟩
    rw [dispatch, job?_finish_self]
  | cons s rest ih =>
    rw [dispatch, List.flatMap_cons]
    cases hp : s.parts with
    | nil => exact ih _
    | cons q parts => exact .inr ⟨q, { s with parts }, rest, (job?_park _ _ _ _).trans (if_pos rfl), rfl⟩

end Rebalance
