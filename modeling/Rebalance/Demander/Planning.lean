/-
  Rebalance.Demander.Planning

  From a plan to a round. Plans are processed one at a time, in the order they
  came, and each waits for the round before it to end. A plan without work, or
  behind the current topology, ends its round at once; for any other every node
  is awaited before the first demand goes out, and the demands are sent in
  ascending order of node and worker. A node to which a demand could not be
  sent is given up, its partitions to be fetched again.
-/
import Rebalance.Demander.Progress

namespace Rebalance
namespace Demander

-- ============================================================================
-- Sending demands
-- ============================================================================

/-- The demands to one node: one for each worker that has partitions. -/
def shipment (d : Demander) (node : NodeId) (demand : Demand) : Shipment where
  node := node
  topology := demand.topology
  parts := d.pool.workers.filterMap fun worker =>
    let part := d.pool.shard demand.partitions worker
    if part.isEmpty then none
    else some {
      target := node
      topic := d.pool.supplyTopic worker
      demand := demand.withPartitions part (d.pool.demandTopic worker) }

/-- The demands of a plan, node by node. -/
def shipments (d : Demander) (plan : Plan) : List Shipment :=
  plan.demands.toList.map fun e => d.shipment e.1 e.2

/-- The demands to a node are sent. If one of them could not be, what still belongs here has
    to be fetched again, and the node is given up. -/
def endShipment (d : Demander) (id : RoundId) (s : Shipment) : Demander :=
  match s.failure with
  | none => d
  | some cause =>
    let left := ((d.roundOf id).round.outstandingFrom s.node).toList
    let d := left.foldl (fun d p => d.missOwned id s.node s.topology p) d
    d.cancelNode id s.node (if cause.isNodeLeft then .nodeLeft else .sendFailed)

/-- Send the next demand; when none is left the plan is processed. -/
def dispatch (d : Demander) (id : JobId) (round : RoundId) : List Shipment → Demander
  | [] => d.finish id (.ok ())
  | s :: rest =>
    match s.parts with
    | [] => dispatch (d.endShipment round s) id round rest
    | r :: parts => d.park id (.sending round r { s with parts } rest)

/-- The transport has dealt with a demand. -/
def dispatched (d : Demander) (id : JobId) (round : RoundId) (s : Shipment)
    (rest : List Shipment) : Except Fault Unit → Demander
  | .ok () => (d.measure Board.demandSent).dispatch id round (s :: rest)
  | .error cause =>
    (d.measure Board.demandNotSent).dispatch id round
      ({ s with failure := some (s.failure.getD cause) } :: rest)

-- ============================================================================
-- Starting a round
-- ============================================================================

/-- End a round that has nothing to do. -/
def skipRound (d : Demander) (round : RoundId) : Demander :=
  let d := { d with current := round, plan := none }
  let d := d.setRound round { d.roundOf round with inFlight := false }
  (d.changeRound round .complete).measure Board.roundSkipped

/-- Make a plan current and await every node of it. -/
def installRound (d : Demander) (round : RoundId) (plan : Plan) : Demander :=
  let d := plan.demands.toList.foldl
    (fun d e => d.changeRound round (.append e.1 e.2.partitions)) d
  let d := d.measure Board.roundStarted
  let d := d.setRound round { d.roundOf round with inFlight := true }
  { d.whenDone round .settle with current := round, plan := some plan }

/-- Process a plan with a round that is not bound to one. -/
def launch (d : Demander) (id : JobId) (round : RoundId) (plan : Plan) : Demander :=
  let d := d.changeRound round (.attach plan.exchange)
  if plan.isEmpty || Key.below plan.topology d.site.affinity.current then
    (d.skipRound round).finish id (.ok ())
  else
    let plan := plan.stamp d.settings.timeout d.settings.batchSize
    let d := d.installRound round plan
    d.dispatch id round (d.shipments plan)

/-- Wait for the round before to end, unless the demander stops, which comes first. -/
def awaitRound (d : Demander) (id : JobId) (plan : Plan) (previous : RoundId) : Demander :=
  if d.stopping then d.finish id (.error .cancelled)
  else if (d.roundOf previous).round.isDone then
    let (d, round) := d.openRound
    d.launch id round plan
  else d.park id (.awaiting plan previous)

/-- Give a plan its turn. A round planned for another topology is not waited for; the first
    plan uses the round that is there. -/
def beginPlan (d : Demander) (id : JobId) (plan : Plan) : Demander :=
  let previous := d.current
  let d := d.cancelIfStale previous
  if (d.roundOf previous).round.attached then d.awaitRound id plan previous
  else d.launch id previous plan

/-- Whether it is the turn of a waiting plan: no other has it, and none came before. -/
def hasTurn (d : Demander) (id : JobId) : Bool :=
  !d.jobs.values.any Job.isPlanning &&
    ((d.jobs.toList.find? fun e => e.2.isQueued).map Prod.fst == some id)

/-- Give a waiting plan its turn if it has come. -/
def turn (d : Demander) (id : JobId) (plan : Plan) : Demander :=
  if d.hasTurn id then d.beginPlan id plan else d

-- ============================================================================
-- Adding a plan
-- ============================================================================

/-- Start on a plan. A recorded failure comes first; a demander that takes no part, or is
    stopping, ignores the plan; otherwise the schedule decides. -/
def startAdd (d : Demander) (id : JobId) (plan : Plan) (force : Bool) : Demander :=
  match d.takeFault with
  | (d, .error cause) => d.finish id (.error cause)
  | (d, .ok ()) =>
    if !d.settings.isActive || d.stopping then d.finish id (.ok ())
    else
      match d.schedule.startMode force with
      | .manual => d.finish id (.ok ())
      | .delayed delay =>
        match d.schedule.arm delay with
        | .error cause => d.finish id (.error cause)
        | .ok schedule => { d with schedule }.finish id (.ok ())
      | .immediate => (d.park id (.queued plan)).turn id plan

/-- A plan is to be processed. -/
def add (d : Demander) (plan : Plan) (force : Bool) : Demander :=
  let (d, id) := d.spawn
  d.startAdd id plan force

end Demander
end Rebalance
