/-
  Rebalance.Message

  The two messages of the protocol. A demand asks a peer for partitions; the
  peer answers with supply pages, and each page but the last of a stream is
  asked for by a continuation, a demand without partitions.
-/
import Rebalance.Entry
import Rebalance.Topic

namespace Rebalance

-- ============================================================================
-- Demands
-- ============================================================================

/-- A request for partitions, computed against `topology` and answered on `reply`. -/
structure Demand where
  partitions : SortedSet PartitionId
  topology : Topology
  timeout : Span := Span.zero
  batchSize : UInt64 := 0
  reply : Option Topic := none
deriving DecidableEq

namespace Demand

/-- A demand for the partitions listed, with everything else left open. -/
def ofList (ps : List PartitionId) (topology : Topology) : Demand :=
  { partitions := SortedSet.ofList ps, topology }

/-- The same demand for other partitions, answered on `topic`. -/
def withPartitions (d : Demand) (ps : SortedSet PartitionId) (topic : Topic) : Demand :=
  { d with partitions := ps, reply := some topic }

/-- The request for the next page, answered on `topic`. -/
def continuation (d : Demand) (topic : Topic) : Demand := d.withPartitions ∅ topic

/-- A demand without partitions asks for the next page. -/
def isContinuation (d : Demand) : Bool := d.partitions.isEmpty

end Demand

-- ============================================================================
-- Supplies
-- ============================================================================

/-- A page of a stream: entries by partition, the partitions that end with this page, the
    partitions the supplier does not have, and why it could not load its data, if so. -/
structure Supply where
  worker : WorkerId
  entries : SortedMap PartitionId (List Entry) := ∅
  last : SortedSet PartitionId := ∅
  missed : SortedSet PartitionId := ∅
  classFault : Option String := none
deriving DecidableEq

namespace Supply

/-- An empty page. -/
def empty (worker : WorkerId) : Supply := { worker }

/-- The page with more entries for a partition, after those it has. -/
def addEntries (s : Supply) (p : PartitionId) (es : List Entry) : Supply :=
  { s with entries := s.entries.alter p fun old => old.getD [] ++ es }

/-- The page as the final one of a partition, which it then mentions. -/
def markLast (s : Supply) (p : PartitionId) : Supply :=
  { s.addEntries p [] with last := s.last.insert p }

/-- The page with one more partition that the supplier does not have. -/
def markMissed (s : Supply) (p : PartitionId) : Supply := { s with missed := s.missed.insert p }

/-- Number of entries, over all partitions. -/
def entryCount (s : Supply) : Nat := s.entries.values.flatten.length

/-- Whether the page carries nothing at all. -/
def isEmpty (s : Supply) : Bool :=
  s.entries.isEmpty && s.missed.isEmpty && s.classFault.isNone

end Supply

-- ============================================================================
-- Either of them
-- ============================================================================

/-- What travels on a topic. -/
inductive Message where
  | demand (body : Demand)
  | supply (body : Supply)
deriving DecidableEq

namespace Message

/-- Which of the two a message is. -/
def kind : Message → String
  | demand _ => "demand"
  | supply _ => "supply"

end Message

end Rebalance
