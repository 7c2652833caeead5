/-
  Rebalance.Demander.Life

  How a demander comes into being and ends, and how its jobs go on. A job is
  ready when it can go on without the transport; `resume` lets it, and
  `answer` hands it what the transport says.
-/
import Rebalance.Demander.Page
import Rebalance.Demander.Planning

namespace Rebalance
namespace Demander

-- ============================================================================
-- Coming into being
-- ============================================================================

/-- Register topics in order, up to the first that is refused. Those before it stay
    registered. -/
def registerAll {σ : Type} (register : Topic → σ → Except Fault σ) :
    List Topic → σ → σ × Except Fault Unit
  | [], s => (s, .ok ())
  | t :: rest, s =>
    match register t s with
    | .error cause => (s, .error cause)
    | .ok s => registerAll register rest s

/-- A demander, listening on the topics of all workers. One that takes no part listens on
    none, and its first round is over. -/
def create {σ : Type} (settings : Settings) (site : Site)
    (register : Topic → σ → Except Fault σ) (s : σ) : σ × Except Fault Demander :=
  match settings.fault? with
  | some cause => (s, .error (.settings cause))
  | none =>
    let d : Demander := { settings, site, schedule := { delay := settings.delay } }
    if settings.isActive then
      let topics := d.pool.topics .demand
      match registerAll register topics s with
      | (s, .error cause) => (s, .error cause)
      | (s, .ok ()) => (s, .ok { d with topics })
    else (s, .ok (d.changeRound 0 .complete))

-- ============================================================================
-- Ending
-- ============================================================================

/-- The current round is left unfinished. -/
def abandonRound (d : Demander) : Demander :=
  let r := d.roundOf d.current
  if !r.round.isDone && r.inFlight then
    (d.setRound d.current { r with inFlight := false }).measure Board.roundAbandoned
  else d

/-- From now on the demander is stopping. -/
def raiseFlag (d : Demander) : Demander := { d with stopping := true }

/-- The demander gives up the topics that it listens on. -/
def dropTopics (d : Demander) : Demander := { d with topics := [] }

/-- Forget the exchange and the timer. -/
def stopSchedule (d : Demander) : Demander := { d with schedule := d.schedule.stop }

/-- A call ends, and returns the recorded failure if there is one. -/
def returnFault (d : Demander) (id : JobId) : Demander :=
  let (d, r) := d.takeFault
  d.finish id r

/-- End once no page is being taken in. -/
def endStop (d : Demander) (id : JobId) : Demander :=
  if d.isBusy then d else (d.dropTopics.stopSchedule).returnFault id

/-- The demander is to stop, and does all for which it need not wait; `Gated` has the steps apart. -/
def stop (d : Demander) : Demander :=
  let (d, id) := d.spawn
  ((d.raiseFlag.abandonRound).park id .stopping).endStop id

-- ============================================================================
-- Jobs going on
-- ============================================================================

/-- Whether a job can go on without the transport. -/
def isReady (d : Demander) (id : JobId) : Bool :=
  match d.job? id with
  | some (.locking _ p _ _) => (d.site.store.base.tryLock p).2
  | some (.queued _) => d.hasTurn id
  | some (.awaiting _ previous) => (d.roundOf previous).round.isDone || d.stopping
  | some .stopping => !d.isBusy
  | _ => false

/-- Let a job go on as far as it goes without the transport. -/
def resume (d : Demander) (id : JobId) : Demander :=
  match d.job? id with
  | some (.locking job p entries rest) => d.resumeLocking id job p entries rest
  | some (.queued plan) => d.turn id plan
  | some (.awaiting plan previous) => d.awaitRound id plan previous
  | some .stopping => d.endStop id
  | _ => d

/-- Note what the transport says to a request. -/
def noteAnswer (d : Demander) (q : Request) : Except Fault Unit → Demander
  | .ok () => d.emit (.sent (.demand q.demand) q.target q.topic q.demand.timeout)
  | .error cause => d.emit (.refused cause q.target q.topic)

/-- Hand a job the transport's answer to its request. -/
def answer (d : Demander) (id : JobId) (r : Except Fault Unit) : Demander :=
  match d.job? id with
  | some (.replying job q) => (d.noteAnswer q r).replied id job r
  | some (.sending round q s rest) => (d.noteAnswer q r).dispatched id round s rest r
  | _ => d

/-- The first job that can go on without the transport. -/
def firstReady (d : Demander) : Option JobId :=
  (d.jobs.toList.find? fun e => d.isReady e.1).map Prod.fst

/-! ## What is left to do -/

/-- The demands of a plan number at most the partitions it asks for. -/
def planWork (p : Plan) : Nat := p.demands.values.foldl (fun n d => n + d.partitions.size) 0

/-- An upper bound on the steps that a job can still make. -/
def jobWork : Job → Nat
  | .locking _ _ _ rest => rest.length + 2
  | .replying .. => 1
  | .queued plan => planWork plan + 2
  | .awaiting plan _ => planWork plan + 1
  | .sending _ _ s rest => rest.foldl (fun n s => n + s.parts.length) s.parts.length + 1
  | .stopping => 1

/-- An upper bound on the steps that all jobs together can still make. -/
def workload (d : Demander) : Nat := d.jobs.values.foldl (fun n j => n + jobWork j) 0

end Demander
end Rebalance
