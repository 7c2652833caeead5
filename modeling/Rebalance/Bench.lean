/-
  Rebalance.Bench

  A demander on the bench: the transport is a list of rules that say which
  demands cannot be sent, pages are delivered by hand, and other datasets are
  names of rounds that can be declared done. Calls that may have to wait are
  tasks with a number. Between two calls the bench lets everything go on that
  can (`settle`), which ends because each step leaves less to do.
-/
import Rebalance.Demander.Run
import Rebalance.Demander.Startup

namespace Rebalance

/-- Which demands cannot be sent, and why. What is left open matches all. -/
structure SendRule where
  target : Option NodeId
  topic : Option String
  cause : Fault

/-- Whether a rule speaks about a demand. -/
def SendRule.fits (rule : SendRule) (r : Request) : Bool :=
  rule.target.all (· == r.target) && rule.topic.all (· == r.topic.text)

/-- A round of another dataset, by the order in which such rounds came into being. -/
abbrev ForeignRound := Nat

/-- A call that may have to wait. -/
inductive BenchTask where
  /-- A message was dealt with at once. -/
  | handled
  /-- A page is being taken in. -/
  | page (id : JobId)
  /-- A plan is added, or the demander is stopped. -/
  | call (id : JobId)
  /-- The demander waits for other datasets. -/
  | start (w : Startup ForeignRound)

/-- What a task returned. -/
inductive TaskResult where
  | nothing
  | settled (r : Except Fault Unit)
  | started (ok : Bool)

/-- A demander with its surroundings. `taken` are the topics that had a handler before it came,
    and `foreign` tells of each round of another dataset whether it is done. `held` is whether
    the owner still has the demander; `seen` are the rounds that were current after some call. -/
structure Bench where
  demander : Demander
  taken : List String := []
  rules : List SendRule := []
  named : SortedMap String Exchange := ∅
  foreign : List Bool := []
  foreignNames : SortedMap String ForeignRound := ∅
  tasks : SortedMap Nat BenchTask := ∅
  seen : List RoundId := []
  held : Bool := true

namespace Bench

-- ============================================================================
-- What can be seen
-- ============================================================================

/-- The topics that have a handler, as text, in ascending order. -/
def topics (b : Bench) : SortedSet String :=
  SortedSet.ofList (b.taken ++ b.demander.topics.map Topic.text)

/-- The result of a task, once it has one. -/
def result? (b : Bench) : BenchTask → Option TaskResult
  | .handled => some .nothing
  | .page id =>
    if b.demander.returns.any (·.1 == id) then some .nothing else none
  | .call id => (b.demander.returns.find? (·.1 == id)).map fun e => .settled e.2
  | .start w =>
    (w.outcome b.demander.stopping fun i => (b.foreign[i]?).getD false).map .started

/-- The tasks that have ended, with their results. -/
def finished (b : Bench) : List (Nat × TaskResult) :=
  b.tasks.toList.filterMap fun e => (b.result? e.2).map fun r => (e.1, r)

/-- The tasks that wait. -/
def pending (b : Bench) : List Nat :=
  (b.tasks.filter fun _ t => (b.result? t).isNone).keys.toList

/-- A demander is there as long as its owner has it or one of its calls goes on. -/
def isAlive (b : Bench) : Bool := b.held || !b.tasks.isEmpty

-- ============================================================================
-- Going on
-- ============================================================================

/-- Let something happen to the demander. -/
def step (b : Bench) (i : Demander.Input) : Bench := { b with demander := b.demander.step i }

/-- Answer a demand by the first rule that speaks about it. -/
def reply (b : Bench) (id : JobId) (r : Request) : Bench :=
  let result := match b.rules.find? (·.fits r) with
    | none => .ok ()
    | some rule => .error rule.cause
  b.step (.answer id result)

/-- One step, if one can be made: a demand is answered before any other job goes on. -/
def advance (b : Bench) : Option Bench :=
  match b.demander.requests with
  | (id, r) :: _ => some (b.reply id r)
  | [] => b.demander.firstReady.map fun id => b.step (.resume id)

/-- At most `fuel` steps. -/
def advanceFor (b : Bench) : Nat → Bench
  | 0 => b
  | fuel + 1 =>
    match b.advance with
    | none => b
    | some b => b.advanceFor fuel

/-- Let everything go on that can, and note which round is current then. Without an owner and
    without calls the demander is gone, and its timer with it. -/
def settle (b : Bench) : Bench :=
  let b := b.advanceFor b.demander.workload
  if b.held && b.seen.getLast? != some b.demander.current then
    { b with seen := b.seen ++ [b.demander.current] }
  else b

/-- Before a call: what was noticed before it, and the tasks that have ended, are past. -/
def clear (b : Bench) : Bench :=
  let tasks := b.tasks.filter fun _ t => (b.result? t).isNone
  let b := { b with tasks }.step (.site .forget)
  if b.isAlive then b else b.step .disarm

-- ============================================================================
-- Calls
-- ============================================================================

/-- Begin a task. -/
def enlist (b : Bench) (number : Nat) (t : BenchTask) : Bench :=
  { b with tasks := b.tasks.insert number t }

/-- Add a plan. -/
def add (b : Bench) (number : Nat) (plan : Plan) (force : Bool) : Bench :=
  (b.enlist number (.call b.demander.nextJob)).step (.add plan force)

/-- Stop the demander. -/
def stop (b : Bench) (number : Nat) : Bench :=
  (b.enlist number (.call b.demander.nextJob)).step .stop

/-- Hand the demander a page. -/
def takePage (b : Bench) (number : Nat) (worker : WorkerId) (sender : NodeId) (page : Supply) :
    Bench :=
  (b.enlist number (.page b.demander.nextJob)).step (.page worker sender page)

/-- Wait for other datasets. -/
def start (b : Bench) (number : Nat) (system ordered : Option String) : Bench :=
  let named (name : String) := b.foreignNames.get? name
  b.enlist number
    (.start (Startup.ofDependencies b.demander.settings (system.bind named) (ordered.bind named)))

/-- A round of another dataset begins. A name stands for the latest round that has it. -/
def beginForeign (b : Bench) (name : String) : Bench :=
  { b with
    foreign := b.foreign ++ [false]
    foreignNames := b.foreignNames.insert name b.foreign.length }

/-- A round of another dataset is done. -/
def endForeign (b : Bench) (name : String) : Bench :=
  match b.foreignNames.get? name with
  | none => b
  | some i => { b with foreign := b.foreign.set i true }

/-- The handler of a worker deals with a message, or with one that could not be read. Once the
    demander is gone it does nothing. -/
def handle (b : Bench) (number : Nat) (worker : WorkerId) (sender : NodeId)
    (message : Option Message) : Bench :=
  if !b.isAlive then b.enlist number .handled
  else
    match message with
    | some (.supply page) => b.takePage number worker sender page
    | some (.demand _) => b.enlist number .handled
    | none => (b.enlist number .handled).step (.unreadable sender)

/-- Something arrives on a topic. None if the topic has no handler; the handlers that were there
    before the demander do nothing with what they get. -/
def deliver (b : Bench) (number : Nat) (topic : String) (sender : NodeId)
    (message : Option Message) : Option Bench :=
  match b.demander.topics.find? (·.text == topic) with
  | some t => some (b.handle number t.worker sender message)
  | none => if topic ∈ b.taken then some (b.enlist number .handled) else none

/-- Begin an exchange, under a name if it has one. -/
def exchange (b : Bench) (topology : Topology) (d : Discovery) (finished : Bool)
    (name : Option String) : Bench × Exchange :=
  let e := (b.demander.schedule.enter topology d finished).2
  let named := match name with
    | none => b.named
    | some n => b.named.insert n e
  ({ b with named }.step (.exchange topology d finished), e)

/-- Finish a named exchange; tells whether it was still to finish. None for another name. -/
def exchanged (b : Bench) (name : String) : Option (Bench × Bool) :=
  (b.named.get? name).map fun e => (b.step (.exchanged e), (b.demander.schedule.finish e).2.2)

end Bench

end Rebalance
