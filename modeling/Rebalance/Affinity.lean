/-
  Rebalance.Affinity

  Which partitions belong to the local node at each topology. Assignments are
  recorded per version, and a look-up takes the one recorded at the greatest
  version that is not above the version asked for.
-/
import Rebalance.Version

namespace Rebalance

/-- The recorded assignments, and the latest topology known locally. -/
structure Affinity where
  current : Topology
  assignments : SortedMap Topology (SortedSet PartitionId)

namespace Affinity

/-- An affinity at `version` with one assignment recorded. -/
def start (version : Topology) (ps : SortedSet PartitionId) : Affinity :=
  ⟨version, SortedMap.insert version ps ∅⟩

/-- Record the assignment for a version, replacing an earlier record for it. -/
def assign (a : Affinity) (version : Topology) (ps : SortedSet PartitionId) : Affinity :=
  { a with assignments := a.assignments.insert version ps }

/-- Learn of a topology. The current one never goes back. -/
def advance (a : Affinity) (version : Topology) : Affinity :=
  { a with current := a.current.latest version }

/-- The last value listed under a key that is not above `version`. -/
def greatestUpTo (version : Topology) :
    List (Topology × SortedSet PartitionId) → Option (SortedSet PartitionId)
  | [] => none
  | (v, ps) :: rest =>
    if Key.below version v then none else some ((greatestUpTo version rest).getD ps)

/-- The partitions of the local node at a version. -/
def ownedAt (a : Affinity) (version : Topology) : SortedSet PartitionId :=
  (greatestUpTo version a.assignments.toList).getD ∅

/-- Whether a partition belongs to the local node at a version. No set is made for it. -/
def isOwned (a : Affinity) (p : PartitionId) (version : Topology) : Bool :=
  (greatestUpTo version a.assignments.toList).any fun ps => decide (p ∈ ps)

/-- The two look-ups agree. -/
theorem isOwned_iff {a : Affinity} {p : PartitionId} {version : Topology} :
    a.isOwned p version = true ↔ p ∈ a.ownedAt version := by
  unfold isOwned ownedAt
  cases greatestUpTo version a.assignments.toList with
  | none => simp
  | some ps => simp

/-- Whether the current topology is another than `version`. -/
def changedFrom (a : Affinity) (version : Topology) : Bool := decide (a.current ≠ version)

end Affinity

end Rebalance
