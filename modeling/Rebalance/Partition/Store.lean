/-
  Rebalance.Partition.Store

  The local store of one node: partitions with their state, slots by key, and
  the revisions at which keys were evicted. A slot may be empty, after a
  write that was refused for capacity or a concurrent removal; `count` is the
  number of slots that hold a value.
-/
import Rebalance.Entry
import Rebalance.Fault

namespace Rebalance

/-- The local state of a partition. -/
inductive PartitionState where
  /-- Being filled by a rebalance. -/
  | moving
  /-- Fully loaded and serving. -/
  | owning
  /-- Handed over, waiting to be evicted. -/
  | renting
  /-- Removed locally. -/
  | evicted
  /-- Not assigned to this node any more. -/
  | invalid
deriving DecidableEq

namespace PartitionState

/-- The name of a state. -/
def name : PartitionState → String
  | moving => "moving"
  | owning => "owning"
  | renting => "renting"
  | evicted => "evicted"
  | invalid => "invalid"

/-- All states. -/
def all : List PartitionState := [moving, owning, renting, evicted, invalid]

/-- Whether entries can still be written. -/
def acceptsWrites : PartitionState → Bool
  | moving => true
  | owning => true
  | _ => false

end PartitionState

/-- What a conditional insert did. -/
inductive InsertOutcome where
  /-- The entry was written. -/
  | inserted
  /-- The same or a later revision is stored already. -/
  | alreadyNewer
  /-- The partition takes no writes. -/
  | partitionInvalid
  /-- The key was removed concurrently. -/
  | removed
deriving DecidableEq

namespace InsertOutcome

/-- The name of an outcome. -/
def name : InsertOutcome → String
  | inserted => "inserted"
  | alreadyNewer => "already_newer"
  | partitionInvalid => "partition_invalid"
  | removed => "removed"

end InsertOutcome

/-- The place of a key in a partition. -/
structure Slot where
  value : Option Bytes := none
  revision : Revision := Revision.initial
  expiresAt : Option Instant := none
  obsolete : Bool := false
deriving DecidableEq

namespace Slot

/-- The slot with the contents of an entry. -/
def write (s : Slot) (e : Entry) : Slot :=
  { s with value := some e.value, revision := e.revision, expiresAt := e.expiresAt }

end Slot

/-- A partition: its state, how often it is reserved, whether it is locked, its slots, and
    the keys known to the eviction policy. -/
structure Partition where
  state : PartitionState
  reservations : Nat := 0
  locked : Bool := false
  slots : SortedMap Bytes Slot := ∅
  tracked : SortedSet Bytes := ∅
deriving DecidableEq

namespace Partition

/-- The slots that hold a value, with key and value, in key order. -/
def live (p : Partition) : List (Bytes × Bytes × Slot) :=
  p.slots.toList.filterMap fun e => e.2.value.map fun v => (e.1, v, e.2)

/-- The entries with a value, in key order. What only concerned their transfer is not stored. -/
def entries (p : Partition) : List Entry :=
  p.live.map fun e =>
    { key := e.1, value := e.2.1, revision := e.2.2.revision, expiresAt := e.2.2.expiresAt }

end Partition

/-- The store of a node. With a capacity it refuses new keys beyond that many values. -/
structure Store where
  partitions : SortedMap PartitionId Partition := ∅
  evictions : SortedMap (PartitionId × Bytes) Revision := ∅
  capacity : Option Nat := none
  count : Nat := 0

namespace Store

-- ============================================================================
-- Partitions
-- ============================================================================

/-- A partition of the store. -/
def get? (s : Store) (p : PartitionId) : Option Partition := s.partitions.get? p

/-- Change a partition, if the store has it. -/
def modify (s : Store) (p : PartitionId) (f : Partition → Partition) : Store :=
  match s.get? p with
  | none => s
  | some part => { s with partitions := s.partitions.insert p (f part) }

/-- Add a partition in a state, or reset the state of the one there is. -/
def create (s : Store) (p : PartitionId) (state : PartitionState) : Store :=
  match s.get? p with
  | none => { s with partitions := s.partitions.insert p { state } }
  | some part => { s with partitions := s.partitions.insert p { part with state } }

/-- Force the state of a partition there is. -/
def setState (s : Store) (p : PartitionId) (state : PartitionState) : Store :=
  s.modify p fun part => { part with state }

/-- The state of a partition. -/
def state? (s : Store) (p : PartitionId) : Option PartitionState := (s.get? p).map (·.state)

/-- The state of a partition; one the store does not have is not assigned here. -/
def state (s : Store) (p : PartitionId) : PartitionState := (s.state? p).getD .invalid

/-- The partitions in a state. -/
def inState (s : Store) (state : PartitionState) : SortedSet PartitionId :=
  (s.partitions.filter fun _ part => part.state == state).keys

/-- The partitions by state, as far as there are any in it. -/
def byState (s : Store) : List (PartitionState × SortedSet PartitionId) :=
  (PartitionState.all.map fun state => (state, s.inState state)).filter fun e => !e.2.isEmpty

/-- Move a partition from moving to owning; tells whether its state allowed it. -/
def own (s : Store) (p : PartitionId) : Store × Bool :=
  if s.state? p = some .moving then (s.setState p .owning, true) else (s, false)

-- ============================================================================
-- Reservations and locks
-- ============================================================================

/-- Pin a partition so that it cannot be evicted; refused if it is gone. -/
def reserve (s : Store) (p : PartitionId) : Store × Bool :=
  match s.state? p with
  | none => (s, false)
  | some .evicted => (s, false)
  | some _ => (s.modify p fun part => { part with reservations := part.reservations + 1 }, true)

/-- Give one reservation back, if any is held. -/
def release (s : Store) (p : PartitionId) : Store :=
  s.modify p fun part => { part with reservations := part.reservations - 1 }

/-- Take the write lock of a partition if it is free. Of a partition that is not there is
    nothing to take. -/
def tryLock (s : Store) (p : PartitionId) : Store × Bool :=
  match s.get? p with
  | none => (s, true)
  | some part => if part.locked then (s, false) else (s.modify p ({ · with locked := true }), true)

/-- Give the write lock back. -/
def unlock (s : Store) (p : PartitionId) : Store := s.modify p ({ · with locked := false })

-- ============================================================================
-- Slots
-- ============================================================================

/-- The slot of a key. -/
def slot? (s : Store) (p : PartitionId) (key : Bytes) : Option Slot :=
  (s.get? p).bind fun part => part.slots.get? key

/-- Whether a key has a slot, with or without a value. -/
def hasSlot (s : Store) (p : PartitionId) (key : Bytes) : Bool := (s.slot? p key).isSome

/-- The stored value and revision of a key. -/
def read (s : Store) (p : PartitionId) (key : Bytes) : Option (Bytes × Revision) :=
  (s.slot? p key).bind fun slot => slot.value.map fun v => (v, slot.revision)

/-- The entries of a partition, in key order. -/
def entries (s : Store) (p : PartitionId) : List Entry :=
  match s.get? p with
  | none => []
  | some part => part.entries

/-- Change the slots of a partition, if the store has it. -/
def modifySlots (s : Store) (p : PartitionId)
    (f : SortedMap Bytes Slot → SortedMap Bytes Slot) : Store :=
  s.modify p fun part => { part with slots := f part.slots }

/-- Write an entry whatever is stored. -/
def put (s : Store) (p : PartitionId) (e : Entry) : Store :=
  match s.get? p with
  | none => s
  | some _ =>
    let held := (s.read p e.key).isSome
    { s.modifySlots p (·.insert e.key (({} : Slot).write e)) with
      count := if held then s.count else s.count + 1 }

/-- Evict a key, remembering the revision its slot had. -/
def evict (s : Store) (p : PartitionId) (key : Bytes) : Store :=
  match s.slot? p key with
  | none => s
  | some slot =>
    { s.modifySlots p (·.erase key) with
      count := if slot.value.isSome then s.count - 1 else s.count
      evictions := s.evictions.insert (p, key) slot.revision }

/-- Mark a key as removed concurrently. -/
def markObsolete (s : Store) (p : PartitionId) (key : Bytes) : Store :=
  s.modifySlots p fun slots => slots.alter key fun old => { old.getD {} with obsolete := true }

/-- Whether a key may be loaded at a revision: it was not evicted at that revision or a
    later one. -/
def loadPermitted (s : Store) (p : PartitionId) (key : Bytes) (r : Revision) : Bool :=
  match s.evictions.get? (p, key) with
  | none => true
  | some at_ => Key.below at_ r

/-- Write an entry unless the same or a later revision is stored. A new key leaves an empty
    slot behind where capacity refuses it. -/
def insertIfNewer (s : Store) (p : PartitionId) (e : Entry) :
    Store × Except StoreFault InsertOutcome :=
  match s.get? p with
  | none => (s, .error (.partitionNotFound p))
  | some part =>
    if !part.state.acceptsWrites then (s, .ok .partitionInvalid)
    else
      let slot := (part.slots.get? e.key).getD {}
      if slot.obsolete then (s, .ok .removed)
      else if slot.value.isSome then
        if e.revision.atMost slot.revision then (s, .ok .alreadyNewer)
        else (s.modifySlots p (·.insert e.key (slot.write e)), .ok .inserted)
      else if s.capacity.any (· ≤ s.count) then
        (s.modifySlots p (·.insert e.key slot), .error (.capacityExceeded p))
      else
        ({ s.modifySlots p (·.insert e.key (slot.write e)) with count := s.count + 1 },
          .ok .inserted)

/-- Make a key known to the eviction policy. -/
def track (s : Store) (p : PartitionId) (key : Bytes) : Store :=
  s.modify p fun part => { part with tracked := part.tracked.insert key }

/-- Remove the slot of a key if it holds no value; tells whether it did. -/
def discardIfEmpty (s : Store) (p : PartitionId) (key : Bytes) : Store × Bool :=
  match s.slot? p key with
  | none => (s, false)
  | some slot =>
    if slot.value.isSome then (s, false) else (s.modifySlots p (·.erase key), true)

end Store

end Rebalance
