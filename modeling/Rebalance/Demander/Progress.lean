/-
  Rebalance.Demander.Progress

  Changes to the rounds of a demander, with everything a change sets off. The
  change that closes a round forces the exchange that reassigns the misses, and
  then announces the summary to whatever waits for it. Giving a node up is the
  one answer to every problem with its stream.
-/
import Rebalance.Demander.State

namespace Rebalance
namespace Demander

/-- The meters count a round as settled only if it still counts as in flight. -/
def settleRound (d : Demander) (id : RoundId) (s : Summary) : Demander :=
  let d := d.measure (·.roundCompleted s.missed.size)
  let r := d.roundOf id
  if r.inFlight then (d.setRound id { r with inFlight := false }).measure Board.roundSettled
  else d

/-- Let one thing that waited for a round have its summary. It looks around; only the meters do
    more. -/
def runWait (d : Demander) (id : RoundId) (s : Summary) (w : RoundWait) : Demander :=
  let d := d.emit (.notified id w s d.site.glimpse)
  match w with
  | .settle => d.settleRound id s
  | .notify _ _ => d

/-- What follows when a round has closed with a summary. -/
def conclude (d : Demander) (id : RoundId) (s : Summary) : Demander :=
  let r := d.roundOf id
  let d := match r.round.forced s with
    | none => d
    | some e => d.emit (.dummy e true)
  let (round, waits) := r.round.announce s
  waits.foldl (fun d w => d.runWait id s w) (d.setRound id { r with round })

/-- Apply a change to a round, with what follows if that closes it. -/
def changeRound (d : Demander) (id : RoundId) (c : Round.Change) : Demander :=
  let r := d.roundOf id
  let (round, closed) := r.round.change c
  let d := d.setRound id { r with round }
  match closed with
  | none => d
  | some s => d.conclude id s

/-- Let something wait for a round to end; it need not wait if the round has. -/
def whenDone (d : Demander) (id : RoundId) (w : RoundWait) : Demander :=
  let r := d.roundOf id
  let (round, now) := r.round.onDone w
  let d := d.setRound id { r with round }
  match now with
  | none => d
  | some s => d.runWait id s w

/-- Give up the stream of a node. -/
def cancelNode (d : Demander) (id : RoundId) (node : NodeId) (reason : CancelReason) : Demander :=
  (d.changeRound id (.cancel node)).measure (·.streamCancelled reason.label)

/-- Note that a partition has to be fetched again, if it still belongs here. -/
def missOwned (d : Demander) (id : RoundId) (node : NodeId) (topology : Topology)
    (p : PartitionId) : Demander :=
  if d.owns p topology then
    (d.changeRound id (.miss node p)).measure Board.partitionMissed
  else d

/-- Give up every node awaited by a round whose topology is not the current one. -/
def cancelIfStale (d : Demander) (id : RoundId) : Demander :=
  let r := (d.roundOf id).round
  match r.topology with
  | none => d
  | some t =>
    if r.isDone || !d.site.affinity.changedFrom t then d
    else
      r.outstandingNodes.toList.foldl (fun d node => d.cancelNode id node .topologyChanged) d

/-- A node left the cluster: the current round does not wait for it. -/
def nodeLeft (d : Demander) (node : NodeId) : Demander :=
  if node ∈ d.currentRound.outstandingNodes then d.cancelNode d.current node .nodeLeft else d

/-- The topology changed: the current round does not go on if it was planned for another. -/
def topologyChanged (d : Demander) : Demander := d.cancelIfStale d.current

/-- A page from a node arrived but could not be read. -/
def unreadable (d : Demander) (node : NodeId) : Demander :=
  if d.stopping then d
  else if node ∈ d.currentRound.outstandingNodes then
    d.cancelNode d.current node .processingFault
  else d

end Demander
end Rebalance
