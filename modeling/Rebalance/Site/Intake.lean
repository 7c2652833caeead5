/-
  Rebalance.Site.Intake

  Writing received entries. Whatever is decided about an entry is counted
  once; an entry that was written is known to the eviction policy and, unless
  it is internal, reported as an event. A refusal for capacity leaves no slot
  behind, and any other refusal by the store ends the intake.
-/
import Rebalance.Site

namespace Rebalance
namespace Site

/-- What becomes of the partition after an entry: further entries of it may follow, or it
    was taken away and they are not to be tried. -/
inductive Verdict where
  | more
  | partitionGone
deriving DecidableEq

/-- Count the outcome of a write and report it. -/
def settleWrite (s : Site) (sender : NodeId) (p : PartitionId) (e : Entry) :
    Except StoreFault InsertOutcome → Site × Except Fault Verdict
  | .ok .inserted =>
    let s := (s.onStore (·.track p e.key)).measure Board.entryApplied
    let s := if e.internal then s else s.report (.objectLoaded p e.key sender e.value)
    (s, .ok .more)
  | .ok .alreadyNewer => (s.measure Board.entrySkipped, .ok .more)
  | .ok .removed => (s.measure Board.entrySkipped, .ok .more)
  | .ok .partitionInvalid => (s, .ok .partitionGone)
  | .error (.capacityExceeded _) =>
    ((s.onStore fun st => (st.discardIfEmpty p e.key).1).measure Board.entryDropped, .ok .more)
  | .error cause => (s, .error (.entryNotApplied sender p e.keyText cause.message))

/-- Take in an entry from `sender`: expired entries and those that the filter turns away are
    passed over, the others go to the store. -/
def takeIn (s : Site) (sender : NodeId) (p : PartitionId) (e : Entry) :
    Site × Except Fault Verdict :=
  if e.isExpired s.clock then (s.measure Board.entrySkipped, .ok .more)
  else if !s.accepts p e then (s.measure Board.entrySkipped, .ok .more)
  else
    let (store, outcome) := s.store.insertIfNewer p e
    settleWrite { s with store } sender p e outcome

/-- Take in the entries of a partition in order. One that was evicted at its revision or a
    later one is passed over; a partition that was taken away ends the intake quietly. -/
def takeInAll (s : Site) (sender : NodeId) (p : PartitionId) : List Entry → Site × Except Fault Unit
  | [] => (s, .ok ())
  | e :: rest =>
    if !s.store.base.loadPermitted p e.key e.revision then
      takeInAll (s.measure Board.entrySkipped) sender p rest
    else
      match s.takeIn sender p e with
      | (s, .ok .more) => takeInAll s sender p rest
      | (s, .ok .partitionGone) => (s, .ok ())
      | (s, .error cause) => (s, .error cause)

end Site
end Rebalance
