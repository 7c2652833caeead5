/-
  Rebalance.Round

  The progress of one round: per node the partitions still awaited, the
  partitions reported missing, and the nodes given up. When the round is
  bound to a plan and nothing is awaited any more it closes, exactly once,
  with a summary; misses ask for one forced exchange, and the summary then
  goes to whoever waits for it.

  Closing and announcing are two steps, because the exchange is forced in
  between: `closed` is set first and the outcome follows.
-/
import Rebalance.Plan

namespace Rebalance

/-- A round, by the order in which rounds came into being. -/
abbrev RoundId := Nat

/-- What waits for a round to end: the meters, or someone who is told. Whoever is told keeps in
    mind whether a plan had bound the round when they came. -/
inductive RoundWait where
  | settle
  | notify (tag : String) (bound : Bool)

/-- How a round ended: the partitions to be fetched again, and the nodes given up. -/
structure Summary where
  missed : SortedSet PartitionId
  cancelled : SortedSet NodeId
deriving DecidableEq

namespace Summary

/-- Whether every partition asked for arrived. -/
def isClean (s : Summary) : Bool := s.missed.isEmpty && s.cancelled.isEmpty

end Summary

/-- The progress of a round. -/
structure Round (κ : Type) where
  exchange : Option Exchange := none
  attached : Bool := false
  closed : Bool := false
  outstanding : SortedMap NodeId (SortedSet PartitionId) := ∅
  missing : SortedMap NodeId (SortedSet PartitionId) := ∅
  cancelled : SortedSet NodeId := ∅
  outcome : Promise Summary κ := {}

namespace Round

variable {κ : Type}

-- ============================================================================
-- What can be asked of a round
-- ============================================================================

/-- The topology of the plan, once bound to one. -/
def topology (r : Round κ) : Option Topology := r.exchange.map (·.topology)

/-- Whether the round has ended and said so. -/
def isDone (r : Round κ) : Bool := r.outcome.isDone

/-- How the round ended. -/
def summary (r : Round κ) : Option Summary := r.outcome.value

/-- The nodes still awaited. -/
def outstandingNodes (r : Round κ) : SortedSet NodeId := r.outstanding.keys

/-- The partitions still awaited from a node. -/
def outstandingFrom (r : Round κ) (node : NodeId) : SortedSet PartitionId :=
  (r.outstanding.get? node).getD ∅

/-- The partitions reported missing so far, or those of the summary. -/
def missed (r : Round κ) : SortedSet PartitionId :=
  match r.summary with
  | some s => s.missed
  | none => SortedSet.unions r.missing.values

/-- The state of a round with its fields' names; `label` stands for its identity. -/
def describe (r : Round κ) (label : String) : String :=
  let topology := match r.topology with
    | some t => "Some(" ++ t.describe ++ ")"
    | none => "None"
  "SyncFuture \x7b round_id: " ++ label ++ ", topology_version: " ++ topology ++
    ", remaining_nodes: " ++ toString r.outstanding.size ++ ", done: " ++
    (if r.closed then "true" else "false") ++ " \x7d"

-- ============================================================================
-- Changes
-- ============================================================================

/-- Bind the round to the exchange of its plan. -/
def attach (r : Round κ) (e : Exchange) : Round κ :=
  { r with exchange := some e, attached := true }

/-- Await partitions from a node, which starts without misses. A node asked for nothing is
    not awaited. -/
def append (r : Round κ) (node : NodeId) (ps : SortedSet PartitionId) : Round κ :=
  if r.closed then r
  else
    { r with
      outstanding := if ps.isEmpty then r.outstanding else r.outstanding.insert node ps
      missing := r.missing.insert node ∅ }

/-- A partition that a node could not supply. -/
def markMissed (r : Round κ) (node : NodeId) (p : PartitionId) : Round κ :=
  if r.closed then r
  else { r with missing := r.missing.alter node fun old => (old.getD ∅).insert p }

/-- Close the round if it is bound and awaits nothing, taking the summary. -/
def settle (r : Round κ) : Round κ × Option Summary :=
  if r.closed || !r.attached || !r.outstanding.isEmpty then (r, none)
  else
    ({ r with closed := true, missing := ∅, cancelled := ∅ },
      some ⟨SortedSet.unions r.missing.values, r.cancelled⟩)

/-- Stop awaiting one partition from a node; a node with none left is not awaited. -/
def drain (r : Round κ) (node : NodeId) (p : PartitionId) : Round κ × Option Summary :=
  if r.closed then (r, none)
  else
    match r.outstanding.get? node with
    | none => r.settle
    | some ps =>
      let rest := ps.erase p
      settle { r with
        outstanding :=
          if rest.isEmpty then r.outstanding.erase node else r.outstanding.insert node rest }

/-- Give a node up. It counts as cancelled if it was still awaited. -/
def cancel (r : Round κ) (node : NodeId) : Round κ × Option Summary :=
  if r.closed then (r, none)
  else if r.outstanding.contains node then
    settle { r with
      outstanding := r.outstanding.erase node
      cancelled := r.cancelled.insert node }
  else r.settle

/-- Await nothing any more. -/
def complete (r : Round κ) : Round κ × Option Summary :=
  settle { r with attached := true, outstanding := ∅ }

/-- The exchange to force for a summary: that of the plan, if anything was missed. -/
def forced (r : Round κ) (s : Summary) : Option Exchange :=
  if s.missed.isEmpty then none else r.exchange

/-- Announce the summary, taking the continuations to run. -/
def announce (r : Round κ) (s : Summary) : Round κ × List κ :=
  match r.outcome.complete s with
  | none => (r, [])
  | some (outcome, ks) => ({ r with outcome }, ks)

/-- Register a continuation; the summary, if it is there, tells to run it now. -/
def onDone (r : Round κ) (k : κ) : Round κ × Option Summary :=
  let (outcome, now) := r.outcome.onDone k
  ({ r with outcome }, now)

end Round

end Rebalance
