/-
  Rebalance.Partition.Tampered

  A store that misbehaves on request: some partitions cannot be reserved, the
  writes of some keys are rejected, and the write of some keys finds the
  partition taken away. With nothing requested it is the store itself.
-/
import Rebalance.Partition.Store

namespace Rebalance

/-- A store and the ways in which it misbehaves. -/
structure Tampered where
  base : Store
  unreservable : SortedSet PartitionId := ∅
  rejected : SortedMap Bytes String := ∅
  invalidating : SortedSet Bytes := ∅

namespace Tampered

/-- Change the store itself. -/
def onBase (s : Tampered) (f : Store → Store) : Tampered := { s with base := f s.base }

/-- Pin a partition, unless it cannot be reserved. -/
def reserve (s : Tampered) (p : PartitionId) : Tampered × Bool :=
  if p ∈ s.unreservable then (s, false)
  else
    let (base, ok) := s.base.reserve p
    ({ s with base }, ok)

/-- Write an entry, unless writes of its key are rejected; a key that invalidates its
    partition does so first. -/
def insertIfNewer (s : Tampered) (p : PartitionId) (e : Entry) :
    Tampered × Except StoreFault InsertOutcome :=
  match s.rejected.get? e.key with
  | some reason => (s, .error (.writeRejected reason))
  | none =>
    let before := if e.key ∈ s.invalidating then s.base.setState p .invalid else s.base
    let (base, outcome) := before.insertIfNewer p e
    ({ s with base }, outcome)

end Tampered

end Rebalance
