/-
  Rebalance.Partition.Ranges

  Compact text of a set of partitions: its maximal runs of consecutive
  numbers in ascending order, a run of one number as that number and a longer
  one as first and last joined by a hyphen, for instance 1-3, 5, 7-8.
-/
import Rebalance.Ident

namespace Rebalance

/-- Consecutive partitions from `first` to `last`. -/
structure Run where
  first : PartitionId
  last : PartitionId
deriving DecidableEq

namespace Run

/-- A single number, or the two ends joined by a hyphen. -/
def chars (r : Run) : List Char :=
  if r.first = r.last then Nat.toDigits 10 r.first.toNat
  else Nat.toDigits 10 r.first.toNat ++ '-' :: Nat.toDigits 10 r.last.toNat

/-- Split ascending numbers into maximal runs, of which `r` is the one being built. The number
    after its last one is taken at the width of an id. -/
def extend (r : Run) : List PartitionId → List Run
  | [] => [r]
  | p :: rest =>
    if p = r.last + 1 then extend { r with last := p } rest
    else r :: extend ⟨p, p⟩ rest

/-- The maximal runs of consecutive numbers in an ascending list. -/
def ofAscending : List PartitionId → List Run
  | [] => []
  | p :: rest => extend ⟨p, p⟩ rest

/-- The runs, separated by a comma and a space. -/
def joinChars : List Run → List Char
  | [] => []
  | [r] => r.chars
  | r :: s :: rest => r.chars ++ ',' :: ' ' :: joinChars (s :: rest)

end Run

/-- The text of a set of partitions with its runs collapsed. -/
def rangesText (ps : SortedSet PartitionId) : String :=
  String.ofList (Run.joinChars (Run.ofAscending ps.toList))

end Rebalance
