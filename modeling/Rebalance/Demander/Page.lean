/-
  Rebalance.Demander.Page

  Taking in a page. Its partitions are worked through in ascending order, each
  under a reservation and a lock: the entries are written, and if the page is
  the last one of the partition, it is owned, reported and then taken off the
  round. The partitions that the supplier does not have follow, and unless the
  round is over the next page is asked for. A failure ends the page where it
  stands and gives its sender up.
-/
import Rebalance.Demander.Progress

namespace Rebalance
namespace Demander

/-- How far a page was worked through. -/
inductive Walked where
  /-- All its partitions are done. -/
  | finished
  /-- The lock of a partition, reserved already, was taken. -/
  | blocked (p : PartitionId) (entries : List Entry) (rest : List (PartitionId × List Entry))
  /-- Something failed. -/
  | failed (cause : Fault)

/-- A partition was loaded to its end: own it, count it and report it. -/
def ownAndReport (d : Demander) (job : PageJob) (p : PartitionId) : Demander :=
  let d := (d.onStore fun st => (st.own p).1).measure Board.partitionOwned
  { d with site := d.site.report (.partitionLoaded p job.discovery) }

/-- A partition was loaded to its end: own and report it, and take it off the round. The round
    comes last, since this may close it. -/
def ownLoaded (d : Demander) (job : PageJob) (p : PartitionId) : Demander :=
  (d.ownAndReport job p).changeRound job.round (.drain job.sender p)

/-- Write the entries of a partition whose reservation and lock are held, and give both
    back. -/
def load (d : Demander) (job : PageJob) (p : PartitionId) (entries : List Entry) :
    Demander × Except Fault Unit :=
  let (site, written) := d.site.takeInAll job.sender p entries
  let d := { d with site }
  let d := match written with
    | .ok () => if p ∈ job.page.last then d.ownLoaded job p else d
    | .error _ => d
  (d.onStore fun st => (st.unlock p).release p, written)

/-- Work through partitions in order. One that does not belong here, or is not being
    filled, is taken off the round untouched. -/
def walk (d : Demander) (job : PageJob) : List (PartitionId × List Entry) → Demander × Walked
  | [] => (d, .finished)
  | (p, entries) :: rest =>
    if !d.owns p job.demand.topology || d.site.store.base.state p != .moving then
      walk (d.changeRound job.round (.drain job.sender p)) job rest
    else
      match d.site.store.reserve p with
      | (_, false) => (d, .failed (.invariant (.unreservable p)))
      | (reserved, true) =>
        match reserved.base.tryLock p with
        | (_, false) =>
          ({ d with site := { d.site with store := reserved } }, .blocked p entries rest)
        | (locked, true) =>
          let store := { reserved with base := locked }
          match load { d with site := { d.site with store } } job p entries with
          | (d, .error cause) => (d, .failed cause)
          | (d, .ok ()) => walk d job rest

/-- Give up the sender of a page. A broken assumption is kept for the next call. -/
def failPage (d : Demander) (job : PageJob) (cause : Fault) : Demander :=
  if cause.isNodeLeft then d.cancelNode job.round job.sender .nodeLeft
  else
    let d := d.cancelNode job.round job.sender .processingFault
    if cause.isBreach then { d with fault := some (d.fault.getD cause) } else d

/-- The demand for the page after this one. -/
def nextRequest (d : Demander) (job : PageJob) : Request where
  target := job.sender
  topic := d.pool.supplyTopic job.worker
  demand := job.demand.continuation (d.pool.demandTopic job.worker)

/-- Deal with the partitions that the supplier does not have, and ask for the next page
    unless the round is over. -/
def endPage (d : Demander) (id : JobId) (job : PageJob) : Demander :=
  let missed := job.page.missed.toList
  let d := missed.foldl (fun d p => d.missOwned job.round job.sender job.demand.topology p) d
  let d := missed.foldl (fun d p => d.changeRound job.round (.drain job.sender p)) d
  if (d.roundOf job.round).round.isDone then d.finish id (.ok ())
  else
    d.park id (.replying job (d.nextRequest job))

/-- Go on with a page as far as it goes. -/
def workPage (d : Demander) (id : JobId) (job : PageJob)
    (todo : List (PartitionId × List Entry)) : Demander :=
  match d.walk job todo with
  | (d, .finished) => d.endPage id job
  | (d, .blocked p entries rest) => d.park id (.locking job p entries rest)
  | (d, .failed cause) => (d.failPage job cause).finish id (.ok ())

/-- Take in a page that nobody keeps out. It counts as received, and matters only if the current
    plan demands something from its sender. -/
def letIn (d : Demander) (id : JobId) (worker : WorkerId) (sender : NodeId) (page : Supply) :
    Demander :=
  let d := d.measure Board.pageReceived
  match d.plan with
  | none => d.finish id (.ok ())
  | some plan =>
    match plan.get? sender with
    | none => d.finish id (.ok ())
    | some demand =>
      if d.site.affinity.changedFrom demand.topology then
        (d.cancelNode d.current sender .topologyChanged).finish id (.ok ())
      else if page.classFault.isSome then
        (d.cancelNode d.current sender .classFault).finish id (.ok ())
      else
        d.workPage id
          { worker, sender, round := d.current, discovery := plan.exchange.discovery, demand, page }
          page.entries.toList

/-- Start on a page, unless the demander is stopping. In one go no gate keeps it out after that;
    `Gated` has the look and the gate apart. -/
def startPage (d : Demander) (id : JobId) (worker : WorkerId) (sender : NodeId) (page : Supply) :
    Demander :=
  if d.stopping then d.finish id (.ok ()) else d.letIn id worker sender page

/-- A page arrived on the topic of a worker. -/
def takePage (d : Demander) (worker : WorkerId) (sender : NodeId) (page : Supply) : Demander :=
  let (d, id) := d.spawn
  d.startPage id worker sender page

/-- Go on with a page that waited for a lock, if the lock is free. -/
def resumeLocking (d : Demander) (id : JobId) (job : PageJob) (p : PartitionId)
    (entries : List Entry) (rest : List (PartitionId × List Entry)) : Demander :=
  match d.site.store.base.tryLock p with
  | (_, false) => d
  | (base, true) =>
    match load (d.onStore fun _ => base) job p entries with
    | (d, .error cause) => (d.failPage job cause).finish id (.ok ())
    | (d, .ok ()) => d.workPage id job rest

/-- The transport has dealt with the continuation of a page. -/
def replied (d : Demander) (id : JobId) (job : PageJob) : Except Fault Unit → Demander
  | .ok () => (d.measure Board.demandSent).finish id (.ok ())
  | .error cause => (d.failPage job cause).finish id (.ok ())

end Demander
end Rebalance
