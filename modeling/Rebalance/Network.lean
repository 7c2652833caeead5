/-
  Rebalance.Network

  The message hub of a set of nodes. A node that listens on a topic has a
  route there: a queue of bounded length, which its listener empties in order.
  A send onto a full queue waits for room, in the order the sends came, or
  until its time is over. A route that is not registered any more takes no new
  sends but keeps what it has, and so does a route of a node that left; a
  route whose listener died has lost everything.

  Every send has a number, and `results` holds how each ended, the latest
  first.
-/
import Rebalance.Wire.Codec

namespace Rebalance

/-- Number of messages a route holds besides the one its listener is busy with. -/
def routeCapacity : Nat := 1024

/-- A send, by the order in which sends came. -/
abbrev SendId := Nat

/-- A route, by the order in which routes were registered. -/
abbrev RouteId := Nat

/-- A message on its way, with the node it came from. -/
structure Envelope where
  sender : NodeId
  bytes : Bytes
deriving DecidableEq

/-- A send that waits for room, perhaps not beyond a moment. -/
structure Waiter where
  id : SendId
  envelope : Envelope
  deadline : Option Nat

/-- The way to one listener. -/
structure Route where
  node : NodeId
  topic : Topic
  registered : Bool := true
  alive : Bool := true
  queue : List Envelope := []
  waiting : List Waiter := []

/-- All routes, the nodes that left, and the time in milliseconds. -/
structure Network where
  routes : List Route := []
  departed : SortedSet NodeId := ∅
  now : Nat := 0
  sends : Nat := 0
  results : List (SendId × Except NetworkFault Unit) := []

namespace Network

-- ============================================================================
-- Routes
-- ============================================================================

/-- The registered route of a node for a topic. -/
def find? (n : Network) (node : NodeId) (topic : Topic) : Option RouteId :=
  n.routes.findIdx? fun r => r.registered && r.node == node && r.topic == topic

/-- Whether a node listens on a topic. -/
def isRegistered (n : Network) (node : NodeId) (topic : Topic) : Bool :=
  (n.find? node topic).isSome

/-- Whether a node left. -/
def hasLeft (n : Network) (node : NodeId) : Bool := decide (node ∈ n.departed)

/-- Let a node listen on a topic, unless it does already. -/
def register (n : Network) (node : NodeId) (topic : Topic) :
    Except NetworkFault (Network × RouteId) :=
  if n.isRegistered node topic then .error (.duplicateHandler topic.text)
  else .ok ({ n with routes := n.routes ++ [{ node, topic }] }, n.routes.length)

/-- Stop listening on a topic; tells whether the node did. -/
def unregister (n : Network) (node : NodeId) (topic : Topic) : Network × Bool :=
  match n.find? node topic with
  | none => (n, false)
  | some i => ({ n with routes := n.routes.modify i ({ · with registered := false }) }, true)

/-- A node leaves: it is not listening any more, and cannot be reached. -/
def depart (n : Network) (node : NodeId) : Network :=
  { n with
    departed := n.departed.insert node
    routes := n.routes.map fun r => if r.node = node then { r with registered := false } else r }

-- ============================================================================
-- Sending
-- ============================================================================

/-- How a send ended, if it has. -/
def result? (n : Network) (id : SendId) : Option (Except NetworkFault Unit) :=
  (n.results.find? fun e => e.1 == id).map Prod.snd

/-- Note how a send ended. -/
def settle (n : Network) (id : SendId) (r : Except NetworkFault Unit) : Network :=
  { n with results := (id, r) :: n.results }

/-- Why a send onto a route without a listener fails. -/
def deadFault (n : Network) (r : Route) : NetworkFault :=
  if n.hasLeft r.node then .nodeLeft r.node
  else .sendFailed
    ("route " ++ r.topic.text ++ " on node " ++ toString r.node.toNat ++ " closed")

/-- Put a send onto a route: into the queue if there is room and no send waits for it already,
    otherwise behind those that wait. -/
def offer (n : Network) (i : RouteId) (r : Route) (id : SendId) (e : Envelope)
    (timeout : Span) : Network :=
  if !r.alive then n.settle id (.error (n.deadFault r))
  else if r.queue.length < routeCapacity && r.waiting.isEmpty then
    { n with routes := n.routes.set i { r with queue := r.queue ++ [e] } }.settle id (.ok ())
  else
    let deadline := if timeout.isZero then none else some (n.now + timeout.coverMillis)
    { n with routes := n.routes.set i { r with waiting := r.waiting ++ [⟨id, e, deadline⟩] } }

/-- Send a message to a topic on a node. No timeout means to wait for as long as it takes. -/
def send (n : Network) (sender target : NodeId) (topic : Topic) (m : Message) (timeout : Span) :
    Network × SendId :=
  let id := n.sends
  let n := { n with sends := n.sends + 1 }
  let next :=
    if n.hasLeft target then n.settle id (.error (.nodeLeft target))
    else
      match n.find? target topic with
      | none => n.settle id (.error (.noHandler target topic.text))
      | some i =>
        match n.routes[i]? with
        | none => n.settle id (.error (.noHandler target topic.text))
        | some r => n.offer i r id ⟨sender, Wire.encode m⟩ timeout
  (next, id)

-- ============================================================================
-- Receiving
-- ============================================================================

/-- Take the next message off a route; the first send that waits for room gets it. -/
def take (n : Network) (i : RouteId) : Option (Envelope × Network) :=
  match n.routes[i]? with
  | none => none
  | some r =>
    match r.queue with
    | [] => none
    | e :: queue =>
      match r.waiting with
      | [] => some (e, { n with routes := n.routes.set i { r with queue } })
      | w :: waiting =>
        let queue := queue ++ [w.envelope]
        some (e, { n with routes := n.routes.set i { r with queue, waiting } }.settle w.id (.ok ()))

/-- The listener of a route died. What was queued is lost, and the sends that wait fail. -/
def kill (n : Network) (i : RouteId) : Network :=
  match n.routes[i]? with
  | none => n
  | some r =>
    let cause := n.deadFault r
    r.waiting.foldl (fun n w => n.settle w.id (.error cause))
      { n with routes := n.routes.set i { r with alive := false, queue := [], waiting := [] } }

-- ============================================================================
-- Time
-- ============================================================================

/-- Whether the time of a waiting send is over. -/
def Waiter.isOver (now : Nat) (w : Waiter) : Bool := w.deadline.any (· ≤ now)

/-- Let time pass: sends that waited for too long end. -/
def elapse (n : Network) (ms : Nat) : Network :=
  let now := n.now + ms
  let late := n.routes.flatMap fun r =>
    (r.waiting.filter (Waiter.isOver now)).map fun w => (w.id, r.node)
  late.foldl (fun n w => n.settle w.1 (.error (.timeout w.2)))
    { n with
      now
      routes := n.routes.map fun r =>
        { r with waiting := r.waiting.filter fun w => !Waiter.isOver now w } }

end Network

end Rebalance
