/-
  Rebalance.Event

  The events of a rebalance and who records them. A recorder says which kinds
  it wants built at all; whether it keeps what it is given is another matter.
-/
import Rebalance.Exchange

namespace Rebalance

/-- The kinds of events. -/
inductive EventKind where
  | partitionLoaded
  | objectLoaded
deriving DecidableEq

namespace EventKind

/-- The name of a kind. -/
def name : EventKind → String
  | partitionLoaded => "partition_loaded"
  | objectLoaded => "object_loaded"

/-- Both kinds. -/
def all : List EventKind := [partitionLoaded, objectLoaded]

end EventKind

/-- An event: a partition was loaded to its end because of a membership change, or an entry
    arrived from a node and was written. -/
inductive Event where
  | partitionLoaded (partition : PartitionId) (discovery : Discovery)
  | objectLoaded (partition : PartitionId) (key : Bytes) (node : NodeId) (value : Bytes)
deriving DecidableEq

namespace Event

/-- The kind of an event. -/
def kind : Event → EventKind
  | partitionLoaded .. => .partitionLoaded
  | objectLoaded .. => .objectLoaded

/-- The partition an event is about. -/
def partition : Event → PartitionId
  | partitionLoaded p _ => p
  | objectLoaded p _ _ _ => p

end Event

/-- A sink for events. -/
structure Recorder where
  enabled : List EventKind := []
  keeps : Bool := false
  events : List Event := []

namespace Recorder

/-- Wants nothing and keeps nothing. -/
def noop : Recorder := {}

/-- Wants loaded partitions, to write them to a log, and keeps nothing. -/
def logging : Recorder := { enabled := [.partitionLoaded] }

/-- Wants the kinds given and keeps whatever it is handed. -/
def memory (kinds : List EventKind) : Recorder := { enabled := kinds, keeps := true }

/-- Wants and keeps everything. -/
def all : Recorder := memory EventKind.all

/-- Whether events of a kind are to be recorded. -/
def isRecordable (r : Recorder) (k : EventKind) : Bool := decide (k ∈ r.enabled)

/-- Hand an event over. -/
def record (r : Recorder) (e : Event) : Recorder :=
  if r.keeps then { r with events := r.events ++ [e] } else r

/-- The kept events of one kind. -/
def eventsOf (r : Recorder) (k : EventKind) : List Event := r.events.filter fun e => e.kind == k

end Recorder

end Rebalance
