/-
  Rebalance.Network.Exercise

  A network put to use: named listeners that note what they hear, and senders
  that send copies of a message one after another. A listener may hear each
  message only while a gate is open, or die of the first. Senders and
  listeners take turns until nothing moves any more.
-/
import Rebalance.Network

namespace Rebalance

/-- How a listener treats a message. -/
inductive ListenMode where
  /-- It hears it. -/
  | plain
  /-- It hears it while the gate is open. -/
  | gated
  /-- It hears it and dies. -/
  | fatal
deriving DecidableEq

/-- The listener of a route, with the message it is busy with. -/
structure Listener where
  name : String
  mode : ListenMode
  busy : Option (NodeId × Message) := none

/-- Something a listener heard. -/
structure Heard where
  name : String
  sender : NodeId
  message : Message

/-- Someone who sends a number of copies, and how far this has come. -/
structure Sender where
  node : NodeId
  target : NodeId
  topic : Topic
  message : Message
  timeout : Span
  left : Nat
  sent : Nat := 0
  waiting : Option SendId := none
  failure : Option NetworkFault := none

namespace Sender

/-- Whether there is nothing more to do. -/
def isDone (s : Sender) : Bool := s.failure.isSome || (s.left == 0 && s.waiting.isNone)

/-- Note how the send of a copy ended. A failure ends all. -/
def settle (s : Sender) : Except NetworkFault Unit → Sender
  | .ok () => { s with left := s.left - 1, sent := s.sent + 1, waiting := none }
  | .error cause => { s with failure := some cause, waiting := none }

/-- How many copies were sent, and what prevented the rest. -/
def result (s : Sender) : Nat × Except Fault Unit :=
  (s.sent, match s.failure with
    | none => .ok ()
    | some cause => .error (.network cause))

end Sender

/-- A network with its listeners, by route, and its senders, by number. -/
structure Exercise where
  network : Network := {}
  listeners : List Listener := []
  senders : SortedMap Nat Sender := ∅
  gate : Bool := false
  heard : List Heard := []

namespace Exercise

-- ============================================================================
-- Calls
-- ============================================================================

/-- Add a listener. -/
def register (e : Exercise) (node : NodeId) (topic : Topic) (l : Listener) :
    Except NetworkFault Exercise :=
  match e.network.register node topic with
  | .error cause => .error cause
  | .ok (network, _) => .ok { e with network, listeners := e.listeners ++ [l] }

/-- Add a sender. -/
def send (e : Exercise) (number : Nat) (s : Sender) : Exercise :=
  { e with senders := e.senders.insert number s }

/-- Before a call: what was heard before it, and the senders that are done, are past. -/
def clear (e : Exercise) : Exercise :=
  { e with heard := [], senders := e.senders.filter fun _ s => !s.isDone }

/-- The senders that are done, with their results. -/
def finished (e : Exercise) : List (Nat × Nat × Except Fault Unit) :=
  (e.senders.toList.filter fun x => x.2.isDone).map fun x => (x.1, x.2.result)

/-- The senders that are not done. -/
def pending (e : Exercise) : List Nat :=
  (e.senders.toList.filter fun x => !x.2.isDone).map Prod.fst

-- ============================================================================
-- Moving on
-- ============================================================================

/-- Let a sender do one thing: send the next copy, or learn how the last one ended. -/
def transmit (e : Exercise) (number : Nat) : Option Exercise :=
  match e.senders.get? number with
  | none => none
  | some s =>
    if s.isDone then none
    else
      match s.waiting with
      | some id =>
        (e.network.result? id).map fun r => { e with senders := e.senders.insert number (s.settle r) }
      | none =>
        let (network, id) := e.network.send s.node s.target s.topic s.message s.timeout
        let s := match network.result? id with
          | some r => s.settle r
          | none => { s with waiting := some id }
        some { e with network, senders := e.senders.insert number s }

/-- Let a listener do one thing: take a message off its route, or hear the one it has. -/
def listen (e : Exercise) (i : RouteId) : Option Exercise :=
  match e.listeners[i]? with
  | none => none
  | some l =>
    match l.busy with
    | none =>
      match e.network.take i with
      | none => none
      | some (envelope, network) =>
        match Wire.decode envelope.bytes with
        | .error _ => some { e with network }
        | .ok m =>
          let l := { l with busy := some (envelope.sender, m) }
          some { e with network, listeners := e.listeners.set i l }
    | some (sender, message) =>
      if l.mode = .gated && !e.gate then none
      else
        let network := if l.mode = .fatal then e.network.kill i else e.network
        some { e with
          network
          listeners := e.listeners.set i { l with busy := none }
          heard := e.heard ++ [⟨l.name, sender, message⟩] }

/-- Repeat what can be done, at most `fuel` times. -/
def repeated (f : Exercise → Option Exercise) (e : Exercise) : Nat → Exercise
  | 0 => e
  | fuel + 1 =>
    match f e with
    | none => e
    | some e => repeated f e fuel

/-- How many copies a sender sends before it lets the listeners have their turn. -/
def burst : Nat := 128

/-- An upper bound on what one sender and all listeners can still do. -/
def workload (e : Exercise) : Nat :=
  e.senders.values.foldl (fun n s => n + 4 * s.left + 1) 0 +
    e.network.routes.foldl (fun n r => n + 2 * (r.queue.length + r.waiting.length)) 0 +
    e.listeners.countP (·.busy.isSome)

/-- One turn of every sender and then of every listener. -/
def turn (e : Exercise) : Exercise :=
  let e := e.senders.keys.toList.foldl (fun e k => repeated (transmit · k) e burst) e
  (List.range e.listeners.length).foldl (fun e i => repeated (listen · i) e e.workload) e

/-- Whether anyone can do anything. -/
def isQuiet (e : Exercise) : Bool :=
  (e.senders.keys.toList.all fun k => (e.transmit k).isNone) &&
    (List.range e.listeners.length).all fun i => (e.listen i).isNone

/-- Take turns until nothing moves. -/
def settle (e : Exercise) : Exercise :=
  repeated (fun e => if e.isQuiet then none else some e.turn) e (e.workload + 1)

end Exercise

end Rebalance
