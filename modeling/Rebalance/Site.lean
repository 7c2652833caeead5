/-
  Rebalance.Site

  What one node brings to a rebalance: its store, what it knows of the
  topology, its recorder, its meters, its clock and the filter on incoming
  entries, together with the trace of everything others can notice, in the
  order it happened.
-/
import Rebalance.Affinity
import Rebalance.Partition.Tampered
import Rebalance.Metrics.Board
import Rebalance.Event
import Rebalance.Round
import Rebalance.Fault

namespace Rebalance

/-- What can be seen of a site at one moment. -/
structure Glimpse where
  store : Tampered
  recorder : Recorder
  board : Board

/-- Something that others can notice. -/
inductive Effect where
  /-- The transport took a message. -/
  | sent (message : Message) (target : NodeId) (topic : Topic) (timeout : Span)
  /-- The transport reported that it could not deliver. -/
  | refused (cause : Fault) (target : NodeId) (topic : Topic)
  /-- An event was handed to the recorder. -/
  | recorded (event : Event)
  /-- The manager was asked for a preload exchange. -/
  | preload (exchange : Exchange)
  /-- The manager was asked for a dummy exchange. -/
  | dummy (exchange : Exchange) (reassign : Bool)
  /-- A continuation of a round ran, with the summary of the round and what there was to see. -/
  | notified (round : RoundId) (w : RoundWait) (summary : Summary) (seen : Glimpse)

/-- Decides whether an entry is loaded into a partition at all. -/
abbrev LoadFilter := PartitionId → Entry → Bool

/-- Turns away every entry of some partitions, and every entry whose key starts with given
    bytes. -/
def LoadFilter.turningAway (start : Option Bytes) (ps : SortedSet PartitionId) : LoadFilter :=
  fun p e => !(decide (p ∈ ps) || start.any (·.isPrefixOf e.key))

/-- The local side of a rebalance. -/
structure Site where
  node : NodeId
  store : Tampered
  affinity : Affinity
  recorder : Recorder := Recorder.noop
  board : Board := {}
  clock : Instant
  filter : Option LoadFilter := none
  trace : List Effect := []

namespace Site

/-- What can be seen of a site. -/
def glimpse (s : Site) : Glimpse := { store := s.store, recorder := s.recorder, board := s.board }

/-- Note that something noticeable happened. -/
def emit (s : Site) (e : Effect) : Site := { s with trace := s.trace ++ [e] }

/-- Move the meters. -/
def measure (s : Site) (f : Board → Board) : Site := { s with board := f s.board }

/-- Change the store, misbehaviour left as it is. -/
def onStore (s : Site) (f : Store → Store) : Site := { s with store := s.store.onBase f }

/-- Hand an event to the recorder if it wants events of that kind. -/
def report (s : Site) (e : Event) : Site :=
  if s.recorder.isRecordable e.kind then
    { s with recorder := s.recorder.record e }.emit (.recorded e)
  else s

/-- Whether the filter lets an entry through; without a filter all pass. -/
def accepts (s : Site) (p : PartitionId) (e : Entry) : Bool :=
  match s.filter with
  | none => true
  | some accept => accept p e

/-- A change to a site that does not come from its own rebalancing. -/
inductive Change where
  /-- Something else changes the store. -/
  | store (f : Tampered → Tampered)
  /-- The assignment for a version is known. -/
  | assign (version : Topology) (ps : SortedSet PartitionId)
  /-- A topology is known. -/
  | advance (version : Topology)
  /-- The filter on incoming entries is set or removed. -/
  | filter (f : Option LoadFilter)
  /-- The clock moves. -/
  | clock (now : Instant)
  /-- What was noticed so far is past. -/
  | forget

/-- A site after a change. -/
def change (s : Site) : Change → Site
  | .store f => { s with store := f s.store }
  | .assign version ps => { s with affinity := s.affinity.assign version ps }
  | .advance version => { s with affinity := s.affinity.advance version }
  | .filter filter => { s with filter }
  | .clock now => { s with clock := now }
  | .forget => { s with trace := [] }

/-- The name of a site with its node, for diagnostics. -/
def describe (s : Site) : String :=
  "RebalanceContext \x7b local_node: " ++ toString s.node.toNat ++ ", .. \x7d"

end Site

end Rebalance
