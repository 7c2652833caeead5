/-
  Rebalance.Demander.Run

  Everything that can happen to a demander, as data: the calls of its owner,
  what the transport brings, a job that goes on, exchanges and time, and
  changes to the node around it. A run is a list of these, in the order in
  which they happened; whoever drives a demander does so through `step`.
-/
import Rebalance.Demander.Life

namespace Rebalance
namespace Demander

/-- Something that happens to a demander. -/
inductive Input where
  /-- A plan is added. -/
  | add (plan : Plan) (force : Bool)
  /-- A page arrives on the topic of a worker. -/
  | page (worker : WorkerId) (sender : NodeId) (page : Supply)
  /-- A page arrives that cannot be read. -/
  | unreadable (sender : NodeId)
  /-- A node left the cluster. -/
  | nodeLeft (node : NodeId)
  /-- The topology changed. -/
  | topologyChanged
  /-- The demander is to stop. -/
  | stop
  /-- A job gets its chance to go on. -/
  | resume (id : JobId)
  /-- The transport has dealt with the demand that a job waits for. -/
  | answer (id : JobId) (r : Except Fault Unit)
  /-- Someone wants to be told when the current round ends. -/
  | watch (tag : String)
  /-- An exchange begins, or is there already finished. -/
  | exchange (topology : Topology) (d : Discovery) (finished : Bool)
  /-- An exchange finishes. -/
  | exchanged (e : Exchange)
  /-- An exchange is the latest one. -/
  | remember (e : Exchange)
  /-- A preload exchange is wanted now. -/
  | forcePreload
  /-- Time passes, in milliseconds. -/
  | elapse (ms : Nat)
  /-- The timer goes without having fired. -/
  | disarm
  /-- The node around it changes. -/
  | site (c : Site.Change)

/-- Change the schedule, asking for the preload exchanges that are due. -/
def onSchedule (d : Demander) (f : Schedule → Schedule × List Exchange) : Demander :=
  let (schedule, due) := f d.schedule
  due.foldl (fun d e => d.emit (.preload e)) { d with schedule }

/-- The demander after something has happened to it. -/
def step (d : Demander) : Input → Demander
  | .add plan force => d.add plan force
  | .page worker sender page => d.takePage worker sender page
  | .unreadable sender => d.unreadable sender
  | .nodeLeft node => d.nodeLeft node
  | .topologyChanged => d.topologyChanged
  | .stop => d.stop
  | .resume id => d.resume id
  | .answer id r => d.answer id r
  | .watch tag => d.whenDone d.current (.notify tag d.currentRound.attached)
  | .exchange topology e finished => { d with schedule := (d.schedule.enter topology e finished).1 }
  | .exchanged e => d.onSchedule fun s => ((s.finish e).1, (s.finish e).2.1)
  | .remember e => { d with schedule := d.schedule.remember e }
  | .forcePreload => d.onSchedule Schedule.forcePreload
  | .elapse ms => d.onSchedule (·.elapse ms)
  | .disarm => { d with schedule := d.schedule.disarm.1 }
  | .site c => { d with site := d.site.change c }

/-- The demander after a run. -/
def run (d : Demander) (inputs : List Input) : Demander := inputs.foldl step d

end Demander
end Rebalance
