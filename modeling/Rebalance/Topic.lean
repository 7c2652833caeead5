/-
  Rebalance.Topic

  Where messages are addressed, and how a dataset's partitions are spread
  over its workers. Every worker of a dataset has two topics: the demander
  listens on one, the supplier on the other.
-/
import Rebalance.Ident

namespace Rebalance

/-- Who listens on a topic. -/
inductive Role where
  /-- The demander listens; supplies arrive here. -/
  | demand
  /-- The supplier listens; demands arrive here. -/
  | supply
deriving DecidableEq

namespace Role

/-- The other side. -/
def peer : Role → Role
  | demand => supply
  | supply => demand

/-- The name of a role within a topic. -/
def name : Role → String
  | demand => "demand"
  | supply => "supply"

end Role

/-- The address of one worker's messages in one direction. -/
structure Topic where
  role : Role
  dataset : DatasetId
  worker : WorkerId
deriving DecidableEq

namespace Topic

/-- The topic of the other side for the same worker. -/
def peer (t : Topic) : Topic := { t with role := t.role.peer }

/-- The written form of a topic. -/
def text (t : Topic) : String :=
  "rebalance/" ++ t.role.name ++ "/" ++ toString t.dataset.toNat ++ "/" ++
    toString t.worker.toNat

end Topic

/-- A dataset's workers. There is always at least one. -/
structure WorkerPool where
  dataset : DatasetId
  size : UInt64
  size_pos : 0 < size.toNat

namespace WorkerPool

/-- A pool of the given size; a size of zero counts as one. -/
def ofSize (dataset : DatasetId) (size : UInt64) : WorkerPool :=
  if h : 0 < size.toNat then ⟨dataset, size, h⟩ else ⟨dataset, 1, by decide⟩

/-- The worker of a partition: the remainder of its number by the size of the pool. -/
def workerFor (w : WorkerPool) (p : PartitionId) : WorkerId := p.toUInt64 % w.size

/-- The workers in ascending order. -/
def workers (w : WorkerPool) : List WorkerId := (List.range w.size.toNat).map UInt64.ofNat

/-- The partitions of one worker. -/
def shard (w : WorkerPool) (ps : SortedSet PartitionId) (worker : WorkerId) :
    SortedSet PartitionId :=
  ps.filter fun p => w.workerFor p == worker

/-- One set per worker, in worker order; some may be empty. -/
def shards (w : WorkerPool) (ps : SortedSet PartitionId) : List (SortedSet PartitionId) :=
  w.workers.map (w.shard ps)

/-- The topic on which the demander of a worker listens. -/
def demandTopic (w : WorkerPool) (worker : WorkerId) : Topic := ⟨.demand, w.dataset, worker⟩

/-- The topic on which the supplier of a worker listens. -/
def supplyTopic (w : WorkerPool) (worker : WorkerId) : Topic := ⟨.supply, w.dataset, worker⟩

/-- All topics of one side, in worker order. -/
def topics (w : WorkerPool) (role : Role) : List Topic :=
  w.workers.map fun worker => ⟨role, w.dataset, worker⟩

end WorkerPool

end Rebalance
