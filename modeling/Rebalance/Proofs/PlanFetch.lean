/-
  Rebalance.Proofs.PlanFetch

  One plan being fetched. Its demands are split by node and worker into
  streams, and at any moment a stream is in exactly one spot: its first demand
  is still to be sent, a demand is on its way or with the supplier, a page is
  on its way, the demander is about to ask for the next page, or nothing is to
  come any more. Where a stream is decides what is found in the places that it
  passes through.
-/
import Rebalance.Cluster
import Rebalance.Proofs.StreamProgress
import Rebalance.Proofs.Routing
import Rebalance.Proofs.Demands

namespace Rebalance

open SortedMap (find)

/-- One plan being fetched: by whom, as what job and in which round, from whom and over which
    network, and what the demander held before. -/
structure PlanFetch where
  node : NodeId
  settings : Settings
  affinity : Affinity
  clock : Instant
  topics : List Topic
  plan : Plan
  round : RoundId
  call : JobId
  network : Network
  index : NodeId → Nat
  source : NodeId → Supplier
  held : PartitionId → Bytes → Option (Bytes × Revision)

/-- Where a stream is. A demand is the first one or asks for the next page, and a page comes
    with the stream that it was taken off. -/
inductive Spot where
  | waiting
  | asked (first : Bool)
  | withSupplier (first : Bool)
  | paged (s : SupplyStream) (page : Supply)
  | turning
  | done

namespace PlanFetch

variable (E : PlanFetch)

-- ============================================================================
-- Streams
-- ============================================================================

def pool : WorkerPool := WorkerPool.ofSize E.settings.dataset E.settings.poolSize

/-- Whether a partition belongs to the demander. -/
def owned (p : PartitionId) : Bool := E.affinity.isOwned p E.plan.topology

/-- The demand on a node. -/
def demand (node : NodeId) : Demand := (E.plan.get? node).getD (Demand.ofList [] E.plan.topology)

/-- The partitions demanded from a node. -/
def wanted (node : NodeId) : SortedSet PartitionId := (E.demand node).partitions

/-- The partitions that one worker fetches from a node. -/
def part (node : NodeId) (worker : WorkerId) : SortedSet PartitionId :=
  E.pool.shard (E.wanted node) worker

/-- There is a stream of a node for a worker. -/
def Asks (node : NodeId) (worker : WorkerId) : Prop := ∃ p, p ∈ E.part node worker

/-- Some node is asked for a partition. -/
def Demanded (p : PartitionId) : Prop := ∃ node, p ∈ E.wanted node

/-- A demand of a stream. -/
def ask (first : Bool) (node : NodeId) (worker : WorkerId) : Demand :=
  (E.demand node).withPartitions (if first then E.part node worker else ∅)
    (E.pool.demandTopic worker)

/-- A demand of a stream on its way to the supplier. -/
def request (first : Bool) (node : NodeId) (worker : WorkerId) : Request :=
  ⟨node, E.pool.supplyTopic worker, E.ask first node worker⟩

/-- The stream as it is opened. -/
def opened (node : NodeId) (worker : WorkerId) : SupplyStream :=
  (E.source node).openStream (E.part node worker)

theorem mem_part {node : NodeId} {worker : WorkerId} {p : PartitionId} :
    p ∈ E.part node worker ↔ p ∈ E.wanted node ∧ E.pool.workerFor p = worker :=
  E.pool.mem_shard

theorem get?_of_mem_wanted {node : NodeId} {p : PartitionId} (h : p ∈ E.wanted node) :
    E.plan.get? node = some (E.demand node) := by
  unfold wanted demand at h
  cases hd : E.plan.get? node with
  | none =>
    rw [hd] at h
    exact absurd h (SortedSet.not_mem_empty p)
  | some D => rw [demand, hd]; rfl

variable {E} in
theorem Asks.get? {node : NodeId} {worker : WorkerId} (h : E.Asks node worker) :
    E.plan.get? node = some (E.demand node) := by
  obtain ⟨p, hp⟩ := h
  exact E.get?_of_mem_wanted (E.mem_part.mp hp).1

variable {E} in
theorem Asks.mem_workers {node : NodeId} {worker : WorkerId} (h : E.Asks node worker) :
    worker ∈ E.pool.workers := by
  obtain ⟨p, hp⟩ := h
  rw [← (E.mem_part.mp hp).2]
  exact E.pool.mem_workers p

/-- Every partition that is demanded belongs to a stream. -/
theorem asks_of_mem_wanted {node : NodeId} {p : PartitionId} (h : p ∈ E.wanted node) :
    p ∈ E.part node (E.pool.workerFor p) := E.mem_part.mpr ⟨h, rfl⟩

theorem isContinuation_ask (first : Bool) {node : NodeId} {worker : WorkerId}
    (h : E.Asks node worker) : (E.ask first node worker).isContinuation = !first := by
  cases first with
  | false => rfl
  | true =>
    show (E.part node worker).isEmpty = false
    exact SortedSet.isEmpty_eq_false_iff.mpr h

end PlanFetch

-- ============================================================================
-- What is found where
-- ============================================================================

namespace Spot

/-- What is still to come of a stream, from how it is opened and how the supplier keeps it. -/
def left (opened stored : SupplyStream) : Spot → SupplyStream
  | waiting => opened
  | asked first => if first then opened else stored
  | withSupplier first => if first then opened else stored
  | paged s _ => s
  | turning => stored
  | done => {}

variable (E : PlanFetch) (node : NodeId) (worker : WorkerId)

/-- What is found on the route to the supplier. -/
def onRoute : Spot → List Envelope
  | asked first => [⟨E.node, Wire.encode (.demand (E.ask first node worker))⟩]
  | _ => []

/-- The demand that the supplier is busy with. -/
def inHand : Spot → Option (NodeId × Demand)
  | withSupplier first => some (E.node, E.ask first node worker)
  | _ => none

/-- What is found of the stream on the route to the demander. -/
def onDoor : Spot → List Envelope
  | paged _ page => [⟨node, Wire.encode (.supply page)⟩]
  | _ => []

end Spot

/-- The demand that a listener is busy with. -/
def ClusterListener.inHand : ClusterListener → Option (NodeId × Demand)
  | supplier _ (some (.held sender d)) => some (sender, d)
  | _ => none

/-- A listener that is not busy. -/
def ClusterListener.isIdle : ClusterListener → Bool
  | nobody => true
  | demander _ _ busy => busy.isNone
  | supplier _ busy => busy.isNone

-- ============================================================================
-- Demands still to be sent
-- ============================================================================

namespace Demander

/-- Demands that have not failed so far are sent one after another. -/
theorem dispatch_sound (d : Demander) (id : JobId) (round : RoundId) {ships : List Shipment}
    (h : ∀ s ∈ ships, s.failure = none) :
    (ships.flatMap (·.parts) = [] ∧ d.dispatch id round ships = d.finish id (.ok ())) ∨
      ∃ q s rest, ships.flatMap (·.parts) = (Job.sending round q s rest).unanswered ∧
        s.failure = none ∧ (∀ x ∈ rest, x.failure = none) ∧
        d.dispatch id round ships = d.park id (.sending round q s rest) := by
  induction ships with
  | nil => exact .inl ⟨rfl, rfl⟩
  | cons s ships ih =>
    have hs : s.failure = none := h s List.mem_cons_self
    have hrest : ∀ x ∈ ships, x.failure = none := fun x hx => h x (List.mem_cons_of_mem s hx)
    rw [dispatch, List.flatMap_cons]
    cases hp : s.parts with
    | nil =>
      have hend : d.endShipment round s = d := by rw [endShipment_eq, hs]
      rw [List.nil_append]
      show _ ∨ _
      simp only [hend]
      exact ih hrest
    | cons q parts =>
      exact .inr ⟨q, { s with parts }, ships, rfl, hs, hrest, rfl⟩

end Demander

-- ============================================================================
-- A stream in its spot
-- ============================================================================

namespace Cluster

/-- A demand was given to the network for a job and has not been answered for yet. -/
def carries (c : Cluster) (id : JobId) : Bool := c.transfers.any fun t => t.2.1 == id

/-- The demander is about to ask for the next page of a stream. -/
def Turns (c : Cluster) (d : Demander) (node : NodeId) (worker : WorkerId) : Prop :=
  ∃ id job q, d.job? id = some (.replying job q) ∧ job.sender = node ∧ job.worker = worker ∧
    c.carries id = false

end Cluster

namespace PlanFetch

variable (E : PlanFetch)

/-- The first demands that have not been given to the network. -/
def unsent (c : Cluster) (d : Demander) : List Request :=
  let l := ((d.job? E.call).map Job.unanswered).getD []
  if c.carries E.call then l.tail else l

/-- What the supplier keeps of a stream. -/
def stored (c : Cluster) (node : NodeId) (worker : WorkerId) : SupplyStream :=
  ((c.suppliers[E.index node]?).bind fun s => s.streams.get? (E.node, worker)).getD {}

/-- A stream in its spot: what is found of it in the places that it passes through, and what
    store and round of the demander show. -/
structure At (c : Cluster) (d : Demander) (node : NodeId) (worker : WorkerId) (spot : Spot) :
    Prop where
  route : ∀ i, E.network.find? node (E.pool.supplyTopic worker) = some i →
    c.network.held i = spot.onRoute E node worker ∧
      (c.listeners[i]?).bind ClusterListener.inHand = spot.inHand E node worker
  door : ∀ i, E.network.find? E.node (E.pool.demandTopic worker) = some i →
    ((c.network.held i).filter fun e => e.sender == node) = spot.onDoor node
  turns : c.Turns d node worker ↔ spot = .turning
  waits : E.request true node worker ∈ E.unsent c d ↔ spot = .waiting
  page : ∀ s page, spot = .paged s page →
    s.Paged (E.stored c node worker) worker page ∧ (E.stored c node worker).Sound
  sound : (spot.left (E.opened node worker) (E.stored c node worker)).Sound
  progress : StreamProgress E.owned node (E.part node worker) (E.source node).store E.held
    (spot.left (E.opened node worker) (E.stored c node worker)) d.site.store.base
    (d.roundOf E.round).round

variable {E}

/-- A stream stays in its spot while nothing happens in the places that it passes through. -/
theorem At.stay {c c' : Cluster} {d d' : Demander} {node : NodeId} {worker : WorkerId}
    {spot : Spot} (h : E.At c d node worker spot)
    (hroute : ∀ i, E.network.find? node (E.pool.supplyTopic worker) = some i →
      c'.network.held i = c.network.held i ∧
        (c'.listeners[i]?).bind ClusterListener.inHand =
          (c.listeners[i]?).bind ClusterListener.inHand)
    (hdoor : ∀ i, E.network.find? E.node (E.pool.demandTopic worker) = some i →
      ((c'.network.held i).filter fun e => e.sender == node) =
        (c.network.held i).filter fun e => e.sender == node)
    (hturns : c'.Turns d' node worker ↔ c.Turns d node worker)
    (hwaits : E.request true node worker ∈ E.unsent c' d' ↔
      E.request true node worker ∈ E.unsent c d)
    (hstored : E.stored c' node worker = E.stored c node worker)
    (hprogress : ∀ left,
      StreamProgress E.owned node (E.part node worker) (E.source node).store E.held left
        d.site.store.base (d.roundOf E.round).round →
      StreamProgress E.owned node (E.part node worker) (E.source node).store E.held left
        d'.site.store.base (d'.roundOf E.round).round) : E.At c' d' node worker spot where
  route i hi := by
    obtain ⟨hheld, hhand⟩ := h.route i hi
    obtain ⟨hheld', hhand'⟩ := hroute i hi
    exact ⟨hheld'.trans hheld, hhand'.trans hhand⟩
  door i hi := (hdoor i hi).trans (h.door i hi)
  turns := hturns.trans h.turns
  waits := hwaits.trans h.waits
  page s page hs := by
    rw [hstored]
    exact h.page s page hs
  sound := by
    rw [hstored]
    exact h.sound
  progress := by
    rw [hstored]
    exact hprogress _ h.progress

/-- A stream comes into another spot with as much of it to come as before. -/
theorem At.shift {c c' : Cluster} {d d' : Demander} {node : NodeId} {worker : WorkerId}
    {spot spot' : Spot} (h : E.At c d node worker spot)
    (hroute : ∀ i, E.network.find? node (E.pool.supplyTopic worker) = some i →
      c'.network.held i = spot'.onRoute E node worker ∧
        (c'.listeners[i]?).bind ClusterListener.inHand = spot'.inHand E node worker)
    (hdoor : ∀ i, E.network.find? E.node (E.pool.demandTopic worker) = some i →
      ((c'.network.held i).filter fun e => e.sender == node) = spot'.onDoor node)
    (hturns : c'.Turns d' node worker ↔ spot' = .turning)
    (hwaits : E.request true node worker ∈ E.unsent c' d' ↔ spot' = .waiting)
    (hpage : ∀ s page, spot' = .paged s page →
      s.Paged (E.stored c' node worker) worker page ∧ (E.stored c' node worker).Sound)
    (hleft : spot'.left (E.opened node worker) (E.stored c' node worker) =
      spot.left (E.opened node worker) (E.stored c node worker))
    (hstore : d'.site.store = d.site.store)
    (hround : d'.roundOf E.round = d.roundOf E.round) : E.At c' d' node worker spot' where
  route := hroute
  door := hdoor
  turns := hturns
  waits := hwaits
  page := hpage
  sound := by
    rw [hleft]
    exact h.sound
  progress := by
    rw [hleft, hstore, hround]
    exact h.progress

end PlanFetch
end Rebalance
