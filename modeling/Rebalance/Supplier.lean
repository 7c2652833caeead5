/-
  Rebalance.Supplier

  The supplying side of a dataset on one node. A demand for partitions opens a
  stream: what the node owns is sent page by page, bounded by a number of
  entries and by a number of bytes, and what it does not own is reported on the
  first page. A continuation asks for the next page of the stream.
-/
import Rebalance.Message
import Rebalance.Partition.Store

namespace Rebalance

-- ============================================================================
-- Streams
-- ============================================================================

/-- What is left of a stream. -/
structure SupplyStream where
  pending : List (PartitionId × List Entry) := []
  missed : SortedSet PartitionId := ∅

namespace SupplyStream

/-- Nothing is left to be sent. -/
def isFinished (s : SupplyStream) : Bool := s.pending.isEmpty && s.missed.isEmpty

/-- How much of a page is used: entries still allowed, and bytes of keys and values so far. -/
structure Fill where
  budget : Nat
  bytes : Nat

/-- Whether a page takes no more entries. -/
def Fill.isFull (f : Fill) (limit : Nat) : Bool := f.budget == 0 || limit ≤ f.bytes

/-- Take entries while the page is not full. -/
def cut (limit : Nat) (f : Fill) : List Entry → List Entry × List Entry × Fill
  | [] => ([], [], f)
  | e :: rest =>
    if f.isFull limit then ([], e :: rest, f)
    else
      let (taken, left, f) :=
        cut limit ⟨f.budget - 1, f.bytes + e.key.length + e.value.length⟩ rest
      (e :: taken, left, f)

/-- Fill a page from the pending partitions in order. A partition that is exhausted is the
    last time on this page. -/
def fill (limit : Nat) (f : Fill) (page : Supply) :
    List (PartitionId × List Entry) → Supply × List (PartitionId × List Entry)
  | [] => (page, [])
  | (p, entries) :: rest =>
    let (taken, left, f) := cut limit f entries
    let page := page.addEntries p taken
    if left.isEmpty then
      if f.isFull limit then (page.markLast p, rest) else fill limit f (page.markLast p) rest
    else (page, (p, left) :: rest)

/-- The next page. A page holds at least one entry if there is one. -/
def nextPage (s : SupplyStream) (worker : WorkerId) (pageSize limit : Nat) :
    SupplyStream × Supply :=
  let (page, pending) :=
    fill limit ⟨max pageSize 1, 0⟩ { Supply.empty worker with missed := s.missed } s.pending
  ({ pending }, page)

end SupplyStream

-- ============================================================================
-- Suppliers
-- ============================================================================

/-- The supplying side of a node. -/
structure Supplier where
  node : NodeId
  pool : WorkerPool
  store : Store := {}
  pageSize : Nat := UInt64.size - 1
  classFault : Option String := none
  leaveOnPage : Option Nat := none
  paused : Bool := false
  streams : SortedMap (NodeId × WorkerId) SupplyStream := ∅
  pagesSent : Nat := 0
  demandsReceived : Nat := 0

namespace Supplier

/-- The stream for a demand: owned partitions with their entries, and the others. -/
def openStream (s : Supplier) (ps : SortedSet PartitionId) : SupplyStream where
  pending := (ps.toList.filter fun p => s.store.state? p == some .owning).map fun p =>
    (p, s.store.entries p)
  missed := ps.filter fun p => s.store.state? p != some .owning

/-- The page that answers a demand of a node. A demand that names no size has no limit. None
    if it asks for the next page and no stream is open. -/
def page (s : Supplier) (sender : NodeId) (worker : WorkerId) (d : Demand) :
    Supplier × Option Supply :=
  match s.classFault with
  | some reason => (s, some { Supply.empty worker with classFault := some reason })
  | none =>
    let key := (sender, worker)
    let stream :=
      if d.isContinuation then s.streams.get? key else some (s.openStream d.partitions)
    match stream with
    | none => (s, none)
    | some stream =>
      let limit := if d.batchSize = 0 then UInt64.size - 1 else d.batchSize.toNat
      let (stream, page) := stream.nextPage worker s.pageSize limit
      let streams :=
        if stream.isFinished then s.streams.erase key else s.streams.insert key stream
      ({ s with streams }, some page)

/-- A page to be sent, and whether the supplier leaves the cluster right before. -/
structure Answer where
  topic : Topic
  page : Supply
  timeout : Span
  leaves : Bool

/-- Answer a demand, if it says where to and there is something to answer. -/
def answer (s : Supplier) (sender : NodeId) (d : Demand) : Supplier × Option Answer :=
  match d.reply with
  | none => (s, none)
  | some topic =>
    match s.page sender topic.worker d with
    | (s, none) => (s, none)
    | (s, some page) =>
      let sent := s.pagesSent + 1
      let leaves := s.leaveOnPage == some sent
      ({ s with pagesSent := sent }, some { topic, page, timeout := d.timeout, leaves })

/-- A demand arrived. -/
def receive (s : Supplier) : Supplier := { s with demandsReceived := s.demandsReceived + 1 }

end Supplier

end Rebalance
