/-
  Rebalance.Proofs.Traffic

  The messages of a cluster with one demander, and what can happen to them.
  `Cluster.inFlight` lists the stream of every message: those in queues, the
  demands that suppliers have not answered yet, and what the demander holds.
  `Stirs` is one thing that happens: a move of the cluster, a supplier that
  answers as it likes, something that happens to the demander from outside, or
  a loss; `Runs` is any number of them.
-/
import Rebalance.Proofs.PlanFetch
import Rebalance.Proofs.Holding
import Rebalance.Proofs.Sending

namespace Rebalance

-- ============================================================================
-- Messages
-- ============================================================================

/-- The stream of a message on a route: demands are for the node that listens, and pages belong to
    the node that sent them. -/
def Route.stream (r : Route) (e : Envelope) : StreamId :=
  match r.topic.role with
  | .supply => (r.node, r.topic.worker)
  | .demand => (e.sender, r.topic.worker)

/-- The stream that a supplier answers for on its route. -/
def Route.supplied (r : Route) : StreamId := (r.node, r.topic.worker)

/-- The streams of the messages in the queue of a route. -/
def Network.queuedOn (n : Network) (i : RouteId) : List StreamId :=
  ((n.routes[i]?).map fun r => r.queue.map r.stream).getD []

/-- The streams of the messages in all queues. -/
def Network.queued (n : Network) : List StreamId :=
  (List.range n.routes.length).flatMap fun i : Nat => n.queuedOn i

/-- Whether a supplier is busy with a demand that it has not answered: the network has not accepted
    its page. -/
def ClusterListener.owes (n : Network) : ClusterListener → Bool
  | supplier _ (some (.held _ _)) => true
  | supplier _ (some (.sending id)) => !n.accepted id
  | _ => false

namespace Cluster

/-- The stream of the demand that the supplier on a route has not answered. -/
def owedOn (c : Cluster) (i : RouteId) : List StreamId :=
  match c.listeners[i]?, c.network.routes[i]? with
  | some l, some r => if l.owes c.network then [r.supplied] else []
  | _, _ => []

/-- The streams of the demands that suppliers have not answered. -/
def owed (c : Cluster) : List StreamId :=
  (List.range c.listeners.length).flatMap fun i : Nat => c.owedOn i

/-- Whether the network has accepted the demand that a job waits for. -/
def sent (c : Cluster) (id : JobId) : Bool :=
  c.transfers.any fun t => t.2.1 == id && c.network.accepted t.2.2

/-- The streams of the messages that are with suppliers or with the demander: demands that are not
    answered, pages that are not answered, and first demands that are still to be sent. -/
def withMembers (c : Cluster) (d : Demander) : List StreamId := c.owed ++ d.holds c.sent

/-- The streams of all messages of a cluster with one demander: those in queues, and those that are
    with its members. -/
def inFlight (c : Cluster) (d : Demander) : List StreamId := c.network.queued ++ c.withMembers d

end Cluster

-- ============================================================================
-- What can happen
-- ============================================================================

/-- What is noted of a run: something happens to the demander, or it gives a demand to the network
    for one of its jobs. -/
inductive Deed where
  | input (i : Demander.Input)
  | sends (id : JobId) (q : Request)

namespace Deed

/-- What happened to the demander in a run. -/
def inputs (deeds : List Deed) : List Demander.Input :=
  deeds.filterMap fun
    | input i => some i
    | sends _ _ => none

/-- The demands that the demander gave to the network for a job in a run. -/
def sentFor (id : JobId) (deeds : List Deed) : List Request :=
  deeds.filterMap fun
    | input _ => none
    | sends k q => if k = id then some q else none

theorem inputs_append (deeds more : List Deed) : inputs (deeds ++ more) = inputs deeds ++ inputs more :=
  List.filterMap_append

theorem sentFor_sends (id k : JobId) (q : Request) :
    sentFor id [sends k q] = if k = id then [q] else [] := by
  by_cases h : k = id <;> simp [sentFor, h]

theorem sentFor_append (id : JobId) (deeds more : List Deed) :
    sentFor id (deeds ++ more) = sentFor id deeds ++ sentFor id more := List.filterMap_append

end Deed

/-- Something happens to a demander from outside: neither the network nor one of its jobs does it. -/
def Demander.Input.isOutside : Demander.Input → Bool
  | page _ _ _ => false
  | unreadable _ => false
  | resume _ => false
  | answer _ _ => false
  | _ => true

namespace Cluster

/-- What the demander is told when its listener on a route takes a message. -/
def told (c : Cluster) (i : RouteId) : List Deed :=
  match c.listeners[i]?, c.network.take i with
  | some (.demander _ worker none), some (e, _) =>
    match Wire.decode e.bytes with
    | .ok (.supply page) => [.input (.page worker e.sender page)]
    | .ok (.demand _) => []
    | .error _ => [.input (.unreadable e.sender)]
  | _, _ => []

/-- What is noted of a move of a cluster with one demander. -/
def deeds (c : Cluster) : Move → List Deed
  | .submit _ id =>
    match c.demanders.head?.bind fun d => (d.job? id).bind Job.request? with
    | none => []
    | some q => [.sends id q]
  | .report id =>
    match c.transfers.find? fun t => t.2.2 == id, c.network.result? id with
    | some t, some r => [.input (.answer t.2.1 (r.mapError Fault.network))]
    | _, _ => []
  | .resume _ id => [.input (.resume id)]
  | .listen i => c.told i

/-- One thing that happens in a cluster with one demander, with what is noted of it. A supplier that
    has taken a demand may answer it, when it likes, with one page of whatever content, on the topic
    that the demand names; or it does not answer. -/
inductive Stirs (c : Cluster) : List Deed → Cluster → Prop where
  /-- The cluster makes a move. -/
  | moves {c' : Cluster} (m : Move) (h : c.move m = some c') : Stirs c (c.deeds m) c'
  /-- Something happens to the demander from outside. -/
  | happens (i : Demander.Input) (ho : i.isOutside = true) : Stirs c [.input i] (c.step 0 i)
  /-- A supplier answers a demand. -/
  | answers {i : RouteId} {k : Nat} {sender : NodeId} {q : Demand} {s : Supplier} {topic : Topic}
      (page : Supply) (timeout : Span)
      (hl : c.listeners[i]? = some (.supplier k (some (.held sender q))))
      (hs : c.suppliers[k]? = some s) (ht : q.reply = some topic) :
      Stirs c []
        ({ c with network := (c.network.send s.node sender topic (.supply page) timeout).1
          }.setListener i (.supplier k (some (.sending c.network.sends))))
  /-- A supplier does not answer a demand. -/
  | ignores {i : RouteId} {k : Nat} {sender : NodeId} {q : Demand}
      (hl : c.listeners[i]? = some (.supplier k (some (.held sender q)))) :
      Stirs c [] (c.setListener i (.supplier k none))
  /-- A supplier changes by itself. -/
  | changes (k : Nat) (f : Supplier → Supplier) (hf : ∀ s, (f s).node = s.node) :
      Stirs c [] (c.onSupplier k f)
  /-- Time passes on the network. -/
  | elapses (ms : Nat) : Stirs c [] { c with network := c.network.elapse ms }
  /-- A node leaves. -/
  | departs (node : NodeId) : Stirs c [] { c with network := c.network.depart node }
  /-- Somebody listens no more on a topic. -/
  | leaves (node : NodeId) (topic : Topic) :
      Stirs c [] { c with network := (c.network.unregister node topic).1 }
  /-- The listener of a route dies. -/
  | dies (i : RouteId) : Stirs c [] { c with network := c.network.kill i }

/-- Any number of things that happen, with what is noted of them, in order. -/
inductive Runs (c : Cluster) : List Deed → Cluster → Prop where
  | refl : Runs c [] c
  | tail {deeds more : List Deed} {c' c'' : Cluster} (h : Runs c deeds c') (hs : Stirs c' more c'') :
      Runs c (deeds ++ more) c''

/-- A listener is at its place: a demander's on the topic of its worker, a supplier's on one of its
    node. -/
def Attends (c : Cluster) (l : ClusterListener) (r : Route) : Prop :=
  match l with
  | .nobody => True
  | .demander k worker _ => k = 0 ∧ r.topic.role = .demand ∧ r.topic.worker = worker
  | .supplier k _ => r.topic.role = .supply ∧ ∃ s, c.suppliers[k]? = some s ∧ s.node = r.node

/-- A cluster with one demander that has no plan and no jobs yet, on a network on which nothing was
    sent yet, with all listeners idle at their places. -/
structure Fresh (c : Cluster) (d : Demander) : Prop where
  demanders : c.demanders = [d]
  reachable : d.Reachable
  jobs : d.jobs = ∅
  plan : d.plan = none
  transfers : c.transfers = []
  results : c.network.results = []
  still : ∀ r ∈ c.network.routes, r.queue = [] ∧ r.waiting = []
  idle : ∀ l ∈ c.listeners, l.isIdle = true
  attended : ∀ (i : RouteId) (l : ClusterListener), c.listeners[i]? = some l →
    ∃ r, c.network.routes[i]? = some r ∧ c.Attends l r

end Cluster

end Rebalance
