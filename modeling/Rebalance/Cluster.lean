/-
  Rebalance.Cluster

  Demanders and suppliers on one network. Every route has a listener, which is
  busy with one message at a time: a demander until the page is taken in, a
  supplier until it has sent its answer. `settle` lets everything go on until
  nothing moves any more.
-/
import Rebalance.Network
import Rebalance.Supplier
import Rebalance.Demander.Run
import Rebalance.Demander.Startup

namespace Rebalance

/-- What a supplier is busy with on one route. -/
inductive SupplierWork where
  /-- A demand waits until the supplier is not paused. -/
  | held (sender : NodeId) (d : Demand)
  /-- A page waits to be sent. -/
  | sending (id : SendId)

/-- The listener of a route, with what it is busy with. `nobody` is left behind on the topics
    of a demander that did not come into being. -/
inductive ClusterListener where
  | nobody
  | demander (index : Nat) (worker : WorkerId) (busy : Option JobId)
  | supplier (index : Nat) (busy : Option SupplierWork)

/-- The round of a demander that another one waits for. -/
abbrev RoundRef := Nat × RoundId

/-- A call on a demander that may have to wait. -/
inductive ClusterTask where
  /-- A plan is added, or the demander is stopped. -/
  | call (index : Nat) (id : JobId)
  /-- The demander waits for others. -/
  | start (index : Nat) (w : Startup RoundRef)

/-- Nodes on a network, at one topology. `transfers` are the demands given to the network that
    have not been answered for yet. -/
structure Cluster where
  topology : Topology
  network : Network := {}
  demanders : List Demander := []
  suppliers : List Supplier := []
  listeners : List ClusterListener := []
  transfers : List (Nat × JobId × SendId) := []
  tasks : SortedMap Nat ClusterTask := ∅

namespace Cluster

-- ============================================================================
-- What can be seen
-- ============================================================================

/-- The result of a task, once it has one: how a call ended, or whether rounds may begin. -/
def result? (c : Cluster) : ClusterTask → Option (Except Fault Unit ⊕ Bool)
  | .call index id =>
    c.demanders[index]?.bind fun d => (d.returns.find? (·.1 == id)).map fun e => .inl e.2
  | .start index w =>
    c.demanders[index]?.bind fun d =>
      (w.outcome d.stopping fun r =>
        c.demanders[r.1]?.any fun d => (d.roundOf r.2).round.isDone).map .inr

/-- The tasks that have ended, with their results. -/
def finished (c : Cluster) : List (Nat × (Except Fault Unit ⊕ Bool)) :=
  c.tasks.toList.filterMap fun e => (c.result? e.2).map fun r => (e.1, r)

/-- The tasks that wait. -/
def pending (c : Cluster) : List Nat :=
  (c.tasks.filter fun _ t => (c.result? t).isNone).keys.toList

/-- Forget the tasks that have ended. -/
def clear (c : Cluster) : Cluster :=
  { c with tasks := c.tasks.filter fun _ t => (c.result? t).isNone }

/-- Everything noticed at any demander. -/
def effects (c : Cluster) : List Effect := c.demanders.flatMap fun d => d.site.trace

/-- How often the manager was asked for a preload exchange. -/
def preloads (c : Cluster) : Nat :=
  (c.effects.filter fun
    | .preload _ => true
    | _ => false).length

/-- For every dummy exchange the manager was asked for, whether it reassigns. -/
def dummies (c : Cluster) : List Bool :=
  c.effects.filterMap fun
    | .dummy _ reassign => some reassign
    | _ => none

-- ============================================================================
-- Members
-- ============================================================================

/-- Let a node listen on a topic. -/
def listenOn (c : Cluster) (node : NodeId) (t : Topic) (l : ClusterListener) :
    Except Fault Cluster :=
  match c.network.register node t with
  | .error cause => .error (.network cause)
  | .ok (network, _) => .ok { c with network, listeners := c.listeners ++ [l] }

/-- The entry with a number of a supplied partition. -/
def sampleEntry (p : PartitionId) (i : Nat) : Entry :=
  let bytes (s : String) : Bytes := s.toUTF8.data.toList
  let p := toString p.toNat
  { key := bytes ("p" ++ p ++ "-k" ++ toString i)
    value := bytes ("value-" ++ p ++ "-" ++ toString i)
    revision := ⟨1, 0⟩ }

/-- A store that owns partitions with a number of sample entries each. -/
def sampleStore (ps : List PartitionId) (keys : Nat) : Store :=
  ps.foldl
    (fun s p =>
      (List.range keys).foldl (fun s i => s.put p (sampleEntry p i)) (s.create p .owning))
    {}

/-- Add a supplier. -/
def addSupplier (c : Cluster) (s : Supplier) : Cluster × Except Fault Unit :=
  let index := c.suppliers.length
  Demander.registerAll (fun t c => c.listenOn s.node t (.supplier index none))
    (s.pool.topics .supply) { c with suppliers := c.suppliers ++ [s] }

/-- Add a demander for partitions that belong to its node and are still to be filled. -/
def addDemander (c : Cluster) (node : NodeId) (settings : Settings) (owned : List PartitionId)
    (clock : Instant) : Cluster × Except Fault Unit :=
  let site : Site := {
    node
    store := { base := owned.foldl (fun (s : Store) p => s.create p .moving) {} }
    affinity := Affinity.start c.topology (SortedSet.ofList owned)
    recorder := Recorder.all
    clock }
  let index := c.demanders.length
  match Demander.create settings site
      (fun t (c : Cluster) => c.listenOn node t (.demander index t.worker none)) c with
  | (after, .error cause) =>
    let listeners := after.listeners.mapIdx fun i l => if i < c.listeners.length then l else .nobody
    ({ after with listeners }, .error cause)
  | (after, .ok d) => ({ after with demanders := after.demanders ++ [d] }, .ok ())

-- ============================================================================
-- Calls
-- ============================================================================

/-- Replace a demander. The topics on which it listens no more are given up. -/
def setDemander (c : Cluster) (index : Nat) (d : Demander) : Cluster :=
  match c.demanders[index]? with
  | none => c
  | some old =>
    let gone := old.topics.filter fun t => !decide (t ∈ d.topics)
    { c with
      demanders := c.demanders.set index d
      network := gone.foldl (fun n t => (n.unregister d.site.node t).1) c.network }

/-- Let something happen to a demander. -/
def step (c : Cluster) (index : Nat) (i : Demander.Input) : Cluster :=
  match c.demanders[index]? with
  | none => c
  | some d => c.setDemander index (d.step i)

/-- Change a supplier. -/
def onSupplier (c : Cluster) (index : Nat) (f : Supplier → Supplier) : Cluster :=
  { c with suppliers := c.suppliers.modify index f }

/-- Let something happen to a demander that begins a job, and note it as a task. -/
def call (c : Cluster) (number index : Nat) (i : Demander.Input) : Cluster :=
  match c.demanders[index]? with
  | none => c
  | some d => { c with tasks := c.tasks.insert number (.call index d.nextJob) }.step index i

/-- Let a demander wait for the current rounds of others. -/
def start (c : Cluster) (number index : Nat) (system ordered : Option Nat) : Cluster :=
  match c.demanders[index]? with
  | none => c
  | some d =>
    let ref (other : Nat) : Option RoundRef :=
      c.demanders[other]?.map fun d => (other, d.current)
    let w := Startup.ofDependencies d.settings (system.bind ref) (ordered.bind ref)
    { c with tasks := c.tasks.insert number (.start index w) }

/-- Let a demander know of a finished exchange. -/
def exchange (c : Cluster) (index : Nat) (topology : Topology) : Option (Cluster × Exchange) :=
  c.demanders[index]?.map fun d =>
    let event : Discovery := ⟨0, .nodeJoined, 0⟩
    (c.step index (.exchange topology event true), (d.schedule.enter topology event true).2)

/-- Add a plan for partitions of nodes. -/
def plan (c : Cluster) (number index : Nat) (topology : Topology)
    (demands : List (NodeId × List PartitionId)) (force : Bool) : Cluster :=
  match c.exchange index topology with
  | none => c
  | some (c, e) =>
    let p := demands.foldl (fun (p : Plan) x => p.request x.1 x.2) { exchange := e }
    c.call number index (.add p force)

/-- Let a demander know of the latest exchange, which has finished. -/
def remember (c : Cluster) (index : Nat) : Cluster :=
  match c.exchange index c.topology with
  | none => c
  | some (c, e) => c.step index (.remember e)

-- ============================================================================
-- Moving on
-- ============================================================================

/-- Give the demand that a job waits for to the network, once. -/
def submit (c : Cluster) (index : Nat) (job : JobId) : Option Cluster :=
  match c.demanders[index]? with
  | none => none
  | some d =>
    if c.transfers.any fun t => t.1 == index && t.2.1 == job then none
    else
      ((d.job? job).bind Job.request?).map fun q =>
        let (network, id) :=
          c.network.send d.site.node q.target q.topic (.demand q.demand) q.demand.timeout
        { c with network, transfers := c.transfers ++ [(index, job, id)] }

/-- Tell a demander how a demand ended. -/
def report (c : Cluster) (id : SendId) : Option Cluster :=
  match c.transfers.find? fun t => t.2.2 == id with
  | none => none
  | some t =>
    (c.network.result? id).map fun r =>
      { c with transfers := c.transfers.filter fun x => x.2.2 != id }.step t.1
        (.answer t.2.1 (r.mapError Fault.network))

/-- Let a job of a demander go on that is ready to. -/
def resume (c : Cluster) (index : Nat) (job : JobId) : Option Cluster :=
  match c.demanders[index]? with
  | none => none
  | some d => if d.isReady job then some (c.step index (.resume job)) else none

/-- Replace the listener of a route. -/
def setListener (c : Cluster) (i : RouteId) (l : ClusterListener) : Cluster :=
  { c with listeners := c.listeners.set i l }

/-- Let a supplier answer a demand that it is busy with. -/
def supply (c : Cluster) (i : RouteId) (index : Nat) (s : Supplier) (sender : NodeId)
    (d : Demand) : Cluster :=
  let (s, answer) := s.answer sender d
  let c := c.onSupplier index fun _ => s
  match answer with
  | none => c.setListener i (.supplier index none)
  | some a =>
    let network := if a.leaves then c.network.depart s.node else c.network
    let (network, id) := network.send s.node sender a.topic (.supply a.page) a.timeout
    { c with network }.setListener i (.supplier index (some (.sending id)))

/-- Hand a message to an idle listener. -/
def hear (c : Cluster) (i : RouteId) (l : ClusterListener) (e : Envelope) : Cluster :=
  match l, Wire.decode e.bytes with
  | .demander index worker _, .ok (.supply page) =>
    match c.demanders[index]? with
    | none => c
    | some d =>
      (c.step index (.page worker e.sender page)).setListener i
        (.demander index worker (some d.nextJob))
  | .demander index _ _, .error _ => c.step index (.unreadable e.sender)
  | .supplier index _, .ok (.demand d) =>
    (c.onSupplier index Supplier.receive).setListener i
      (.supplier index (some (.held e.sender d)))
  | _, _ => c

/-- Let a listener do one thing. -/
def listen (c : Cluster) (i : RouteId) : Option Cluster :=
  let next (l : ClusterListener) : Option Cluster :=
    (c.network.take i).map fun (e, network) => { c with network }.hear i l e
  match c.listeners[i]? with
  | none => none
  | some (.demander index worker (some id)) =>
    match c.demanders[index]? with
    | none => none
    | some d =>
      if d.returns.any (·.1 == id) then some (c.setListener i (.demander index worker none))
      else none
  | some (.supplier index (some (.held sender d))) =>
    match c.suppliers[index]? with
    | none => none
    | some s => if s.paused then none else some (c.supply i index s sender d)
  | some (.supplier index (some (.sending id))) =>
    (c.network.result? id).map fun _ => c.setListener i (.supplier index none)
  | some l => next l

/-- One thing that may be possible somewhere. -/
inductive Move where
  | submit (index : Nat) (job : JobId)
  | report (id : SendId)
  | resume (index : Nat) (job : JobId)
  | listen (i : RouteId)

/-- Do one thing, if it is possible. -/
def move (c : Cluster) : Move → Option Cluster
  | .submit index job => c.submit index job
  | .report id => c.report id
  | .resume index job => c.resume index job
  | .listen i => c.listen i

/-- Every thing that may be possible. -/
def moves (c : Cluster) : List Move :=
  let jobs := c.demanders.zipIdx.flatMap fun (d, index) => d.jobs.keys.toList.map fun id => (index, id)
  jobs.map (fun x => .submit x.1 x.2) ++ c.transfers.map (fun t => .report t.2.2) ++
    jobs.map (fun x => .resume x.1 x.2) ++ (List.range c.listeners.length).map .listen

/-- Do the first thing that is possible. -/
def advance (c : Cluster) : Option Cluster := c.moves.findSome? c.move

/-- At most `fuel` steps. -/
def advanceFor (c : Cluster) : Nat → Cluster
  | 0 => c
  | fuel + 1 =>
    match c.advance with
    | none => c
    | some c => c.advanceFor fuel

/-- A bound on the pages that answer one demand: one for every entry and partition, and one
    for what is not there. -/
def streamBound (c : Cluster) : Nat :=
  let stored (s : Supplier) : Nat :=
    s.store.partitions.values.foldl (fun n p => n + p.slots.size + 1) 0
  let pending (s : Supplier) : Nat :=
    (s.streams.values.flatMap SupplyStream.pending).foldl (fun n e => n + e.2.length + 1) 0
  c.suppliers.foldl (fun n s => n + stored s + pending s) 0 + 1

/-- A bound on the demands and pages that are under way or still to be sent first. -/
def messageBound (c : Cluster) : Nat :=
  c.demanders.foldl (fun n d => n + d.workload) 0 + c.transfers.length + c.listeners.length +
    c.network.routes.foldl (fun n r => n + r.queue.length + r.waiting.length) 0

/-- A bound on the steps that can still be made. Every message leads to a stream of pages, and
    every page to one step per partition at most and to a few for the listeners. -/
def workload (c : Cluster) : Nat :=
  16 * (c.messageBound + 1) * (c.streamBound + 1) * (c.streamBound + 1)

/-- Let everything go on until nothing moves. -/
def settle (c : Cluster) : Cluster := c.advanceFor c.workload

end Cluster

end Rebalance
