/-
  Rebalance.Schedule

  When rounds start. With no delay, or when forced, a plan is processed at
  once; with a delay a timer is armed, and when it fires and the exchange it
  was armed for has finished, the manager is asked for a preload exchange;
  without a delay setting rounds only start on request. There is one timer,
  and arming it again replaces it.

  A timer that has fired stays in place until it is replaced or removed. Time
  is counted in milliseconds, and a delay is over when all of it has passed.
-/
import Rebalance.Exchange
import Rebalance.Fault

namespace Rebalance

/-- How a new plan is handled. -/
inductive StartMode where
  | immediate
  | delayed (delay : Span)
  | manual
deriving DecidableEq

/-- A timer with the exchange it was armed for. -/
structure Timer where
  deadline : Nat
  exchange : Exchange
  fired : Bool := false

/-- The delay setting, the latest exchange, the timer, the time, and the exchanges known. What
    waits in the book for an exchange to finish is a preload exchange for the one it names. -/
structure Schedule where
  delay : Option Span
  last : Option Exchange := none
  timer : Option Timer := none
  now : Nat := 0
  book : ExchangeBook Exchange := {}

namespace Schedule

/-- How a plan is handled, forced or not. -/
def startMode (s : Schedule) (force : Bool) : StartMode :=
  if force then .immediate
  else
    match s.delay with
    | none => .manual
    | some d => if d.isZero then .immediate else .delayed d

/-- Remember the latest exchange. -/
def remember (s : Schedule) (e : Exchange) : Schedule := { s with last := some e }

/-- Arm the timer for the latest exchange, replacing the one there is. A delay always
    follows an exchange. -/
def arm (s : Schedule) (delay : Span) : Except Fault Schedule :=
  match s.last with
  | none => .error (.invariant .delayWithoutExchange)
  | some e => .ok { s with timer := some { deadline := s.now + delay.coverMillis, exchange := e } }

/-- Ask for a preload exchange for `e` once it has finished; tells whether it is due now. -/
def preloadWhenDone (s : Schedule) (e : Exchange) : Schedule × List Exchange :=
  let (book, now) := s.book.onDone e e
  ({ s with book }, if now.isSome then [e] else [])

/-- Remove the timer; tells whether there was one. -/
def disarm (s : Schedule) : Schedule × Bool := ({ s with timer := none }, s.timer.isSome)

/-- Remove the timer and ask for a preload exchange for the latest exchange. -/
def forcePreload (s : Schedule) : Schedule × List Exchange :=
  let s := s.disarm.1
  match s.last with
  | none => (s, [])
  | some e => s.preloadWhenDone e

/-- Forget the latest exchange and remove the timer. -/
def stop (s : Schedule) : Schedule := { s with last := none, timer := none }

/-- Whether a timer is armed that has not fired. -/
def isPending (s : Schedule) : Bool :=
  match s.timer with
  | none => false
  | some t => !t.fired

/-- Fire the timer if its deadline has come. -/
def fireDue (s : Schedule) : Schedule × List Exchange :=
  match s.timer with
  | none => (s, [])
  | some t =>
    if t.fired || s.now < t.deadline then (s, [])
    else preloadWhenDone { s with timer := some { t with fired := true } } t.exchange

/-- Let time pass, and fire the timer if its deadline has come. -/
def elapse (s : Schedule) (ms : Nat) : Schedule × List Exchange :=
  fireDue { s with now := s.now + ms }

/-- Enter a new exchange into the book. -/
def enter (s : Schedule) (topology : Topology) (d : Discovery) (finished : Bool) :
    Schedule × Exchange :=
  let (book, e) := s.book.enter topology d finished
  ({ s with book }, e)

/-- Finish an exchange, taking the preload exchanges that waited for it; tells whether it was
    still to finish. -/
def finish (s : Schedule) (e : Exchange) : Schedule × List Exchange × Bool :=
  match s.book.complete e with
  | none => (s, [], false)
  | some (book, due) => ({ s with book }, due, true)

end Schedule

end Rebalance
