/-
  Rebalance.Demander.Gate

  A demander whose calls run on several threads. `Demander.step` takes a page that
  arrives, and a call to stop, in one go, which is right as long as nothing else
  happens meanwhile. Here the points are apart at which they meet: a page looks
  whether the demander is stopping, then comes to the gate, and inside it is a job
  of the demander; a call to stop says that the demander is stopping, leaves the
  round, asks for the gate, has it to itself once no page is inside, gives the
  topics up one by one, and gives it back. Anything may happen in between.

  The gate lets pages in together, and none from the moment on that a stop asks
  for it until that stop has given it back. It does not look at the flag.
-/
import Rebalance.Demander.Run

namespace Rebalance

namespace Demander.Input

/-- Whether this is neither a page that arrives nor a call to stop. -/
def isAside : Input → Bool
  | .page .. => false
  | .stop => false
  | _ => true

/-- Whether the node around the demander changes. -/
def isSite : Input → Bool
  | .site _ => true
  | _ => false

end Demander.Input

open Demander (Input)

/-- A page whose handler found that the demander is not stopping, on its way to the gate. -/
structure Arrival where
  worker : WorkerId
  sender : NodeId
  page : Supply

/-- How far a call to stop has come. -/
inductive StopPhase where
  /-- It has begun. -/
  | called
  /-- The demander is stopping. -/
  | raised
  /-- The current round is left unfinished. -/
  | abandoned
  /-- It waits for the gate. -/
  | asking
  /-- It has the gate to itself, and some topics are still to be given up. -/
  | closing (left : List Topic)
  /-- The gate is given back. -/
  | released
  /-- The exchange and the timer are forgotten. -/
  | unarmed

namespace StopPhase

/-- Whether the call has the gate to itself. -/
def holds : StopPhase → Bool
  | closing _ => true
  | _ => false

/-- Whether the gate lets nobody in because of the call. -/
def shuts : StopPhase → Bool
  | asking => true
  | closing _ => true
  | _ => false

end StopPhase

/-- A demander, the topics on which the transport calls it, the pages on their way to its gate,
    and the calls to stop that have not returned. Pages inside the gate are among its jobs. -/
structure Gated where
  demander : Demander
  handlers : List Topic
  arrivals : SortedMap JobId Arrival := ∅
  stops : SortedMap JobId StopPhase := ∅

namespace Gated

/-- A demander that nobody has called yet. -/
def opened (d : Demander) : Gated := { demander := d, handlers := d.topics }

-- ============================================================================
-- Pages
-- ============================================================================

/-- A page is delivered, and looks whether the demander is stopping. -/
def arrive (g : Gated) (worker : WorkerId) (sender : NodeId) (page : Supply) : Gated :=
  let (d, id) := g.demander.spawn
  if d.stopping then { g with demander := d.finish id (.ok ()) }
  else { g with demander := d, arrivals := g.arrivals.insert id ⟨worker, sender, page⟩ }

/-- Whether the gate lets nobody in. -/
def isShut (g : Gated) : Bool := g.stops.values.any StopPhase.shuts

/-- A page comes to the gate. It is let in, and taken in as far as it goes, or it is dropped. -/
def enter (g : Gated) (id : JobId) : Gated :=
  match g.arrivals.get? id with
  | none => g
  | some a =>
    let d := g.demander
    { g with
      demander :=
        if g.isShut then d.finish id (.ok ()) else d.letIn id a.worker a.sender a.page
      arrivals := g.arrivals.erase id }

-- ============================================================================
-- Stops
-- ============================================================================

/-- The demander is told to stop. -/
def callStop (g : Gated) : Gated :=
  let (d, id) := g.demander.spawn
  { g with demander := d, stops := g.stops.insert id .called }

/-- Whether a call to stop has the gate to itself. -/
def isHeld (g : Gated) : Bool := g.stops.values.any StopPhase.holds

/-- A call to stop does something, and has come as far as `phase`. -/
def advance (g : Gated) (id : JobId) (phase : StopPhase) (f : Demander → Demander) : Gated :=
  { g with demander := f g.demander, stops := g.stops.insert id phase }

/-- A call to stop does what is next. It has to wait while pages are inside the gate, or another
    call has it. -/
def proceed (g : Gated) (id : JobId) : Gated :=
  match g.stops.get? id with
  | none => g
  | some .called => g.advance id .raised Demander.raiseFlag
  | some .raised => g.advance id .abandoned Demander.abandonRound
  | some .abandoned => g.advance id .asking fun d => d
  | some .asking =>
    if g.demander.isBusy || g.isHeld then g
    else g.advance id (.closing g.demander.topics) Demander.dropTopics
  | some (.closing (t :: left)) =>
    { g.advance id (.closing left) (fun d => d) with handlers := g.handlers.filter (· ≠ t) }
  | some (.closing []) => g.advance id .released fun d => d
  | some .released => g.advance id .unarmed Demander.stopSchedule
  | some .unarmed =>
    { g with demander := g.demander.returnFault id, stops := g.stops.erase id }

-- ============================================================================
-- Runs
-- ============================================================================

/-- Something that happens. -/
inductive Move where
  /-- A page is delivered. -/
  | arrive (worker : WorkerId) (sender : NodeId) (page : Supply)
  /-- A page comes to the gate. -/
  | enter (id : JobId)
  /-- The demander is told to stop. -/
  | callStop
  /-- A call to stop gets its chance to go on. -/
  | proceed (id : JobId)
  /-- Whatever else can happen to a demander. -/
  | aside (i : Input) (h : i.isAside = true)

/-- What becomes of it. -/
def step (g : Gated) : Move → Gated
  | .arrive worker sender page => g.arrive worker sender page
  | .enter id => g.enter id
  | .callStop => g.callStop
  | .proceed id => g.proceed id
  | .aside i _ => { g with demander := g.demander.step i }

/-- What becomes of it in a run. -/
def run (g : Gated) (moves : List Move) : Gated := moves.foldl step g

end Gated
end Rebalance
