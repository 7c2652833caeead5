/-
  Rebalance.Demander.State

  The demander of one dataset on one node: it turns plans into demands, takes
  in the pages that come back, and keeps the progress of the current round.

  Whatever may have to wait is a job: a page that waits for the lock of a
  partition or for its continuation to be sent, a plan that waits for its turn,
  for the round before it or for its demands to be sent, and a stop that waits
  for the pages. A job holds exactly what is left of it to do, so a demander
  between two steps is a plain value.
-/
import Rebalance.Round.Change
import Rebalance.Site.Intake
import Rebalance.Schedule
import Rebalance.Settings

namespace Rebalance

-- ============================================================================
-- Rounds
-- ============================================================================

/-- A round, and whether it counts as in flight. -/
structure RoundRecord where
  round : Round RoundWait := {}
  inFlight : Bool := false

-- ============================================================================
-- Jobs
-- ============================================================================

/-- A job, by the order in which jobs came into being. -/
abbrev JobId := Nat

/-- A demand on its way to the supplier of one worker on a node. -/
structure Request where
  target : NodeId
  topic : Topic
  demand : Demand
deriving DecidableEq

/-- A page being taken in: where it came from, and the round and the demand it answers. -/
structure PageJob where
  worker : WorkerId
  sender : NodeId
  round : RoundId
  discovery : Discovery
  demand : Demand
  page : Supply

/-- The demands to one node that are still to be sent, and the first failure of those sent. -/
structure Shipment where
  node : NodeId
  topology : Topology
  parts : List Request
  failure : Option Fault := none

/-- What is left to do of something that has to wait. -/
inductive Job where
  /-- A page waits for the lock of a partition that it has reserved. -/
  | locking (job : PageJob) (p : PartitionId) (entries : List Entry)
      (rest : List (PartitionId × List Entry))
  /-- A page waits for its continuation to be sent. -/
  | replying (job : PageJob) (request : Request)
  /-- A plan waits for its turn. -/
  | queued (plan : Plan)
  /-- A plan waits for the round before it. -/
  | awaiting (plan : Plan) (previous : RoundId)
  /-- A plan waits for a demand to be sent. -/
  | sending (round : RoundId) (request : Request) (shipment : Shipment) (rest : List Shipment)
  /-- A stop waits for the pages. -/
  | stopping

namespace Job

/-- Whether a page is being taken in. -/
def isPage : Job → Bool
  | locking .. => true
  | replying .. => true
  | _ => false

/-- Whether a plan waits for its turn. -/
def isQueued : Job → Bool
  | queued _ => true
  | _ => false

/-- Whether a plan has its turn, so that the others wait. -/
def isPlanning : Job → Bool
  | awaiting .. => true
  | sending .. => true
  | _ => false

/-- What the transport is asked to send. -/
def request? : Job → Option Request
  | replying _ r => some r
  | sending _ r _ _ => some r
  | _ => none

end Job

-- ============================================================================
-- The demander
-- ============================================================================

/-- The demander of one dataset. `returns` lists the jobs that have ended, in the order they
    did, with what they returned. -/
structure Demander where
  settings : Settings
  site : Site
  schedule : Schedule
  rounds : List RoundRecord := [{}]
  current : RoundId := 0
  plan : Option Plan := none
  stopping : Bool := false
  topics : List Topic := []
  fault : Option Fault := none
  jobs : SortedMap JobId Job := ∅
  nextJob : JobId := 0
  returns : List (JobId × Except Fault Unit) := []

namespace Demander

/-- The workers of the dataset. -/
def pool (d : Demander) : WorkerPool := WorkerPool.ofSize d.settings.dataset d.settings.poolSize

/-- Move the meters. -/
def measure (d : Demander) (f : Board → Board) : Demander := { d with site := d.site.measure f }

/-- Note that something noticeable happened. -/
def emit (d : Demander) (e : Effect) : Demander := { d with site := d.site.emit e }

/-- Change the store. -/
def onStore (d : Demander) (f : Store → Store) : Demander := { d with site := d.site.onStore f }

/-- Whether a partition belongs to this node at a topology. -/
def owns (d : Demander) (p : PartitionId) (topology : Topology) : Bool :=
  d.site.affinity.isOwned p topology

/-! ## Rounds -/

/-- A round of this demander. -/
def roundOf (d : Demander) (id : RoundId) : RoundRecord := (d.rounds[id]?).getD {}

/-- Replace a round. -/
def setRound (d : Demander) (id : RoundId) (r : RoundRecord) : Demander :=
  { d with rounds := d.rounds.set id r }

/-- A fresh round, not yet current. -/
def openRound (d : Demander) : Demander × RoundId :=
  ({ d with rounds := d.rounds ++ [{}] }, d.rounds.length)

/-- The current round. -/
def currentRound (d : Demander) : Round RoundWait := (d.roundOf d.current).round

/-! ## Jobs -/

/-- The next job, which every call that may have to wait begins. -/
def spawn (d : Demander) : Demander × JobId := ({ d with nextJob := d.nextJob + 1 }, d.nextJob)

/-- A job that waits. -/
def job? (d : Demander) (id : JobId) : Option Job := d.jobs.get? id

/-- Let a job wait. -/
def park (d : Demander) (id : JobId) (j : Job) : Demander :=
  { d with jobs := d.jobs.insert id j }

/-- End a job with what it returns. -/
def finish (d : Demander) (id : JobId) (r : Except Fault Unit) : Demander :=
  { d with jobs := d.jobs.erase id, returns := d.returns ++ [(id, r)] }

/-- What the transport is asked to send, by job. -/
def requests (d : Demander) : List (JobId × Request) :=
  d.jobs.toList.filterMap fun e => e.2.request?.map fun r => (e.1, r)

/-- Whether pages are being taken in. -/
def isBusy (d : Demander) : Bool := d.jobs.values.any Job.isPage

/-- Take the recorded failure, if there is one, as the result of a call. -/
def takeFault (d : Demander) : Demander × Except Fault Unit :=
  match d.fault with
  | none => (d, .ok ())
  | some cause => ({ d with fault := none }, .error cause)

end Demander

end Rebalance
