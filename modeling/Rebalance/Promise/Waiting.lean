/-
  Rebalance.Promise.Waiting

  Tasks that wait for a promise.  A task that finds no value sleeps until it is
  signalled.  A call that produces the value stores it without a signal, runs
  the continuations it released, and signals right before it returns: who comes
  in between finds the value, and who sleeps sleeps on.
-/
import Rebalance.Promise.Script
import Rebalance.Stack

namespace Rebalance
namespace Promise

variable {α τ : Type}

/-- A promise, and how often the tasks that wait for it were signalled. -/
structure Scene (τ α : Type) where
  promise : Promise α (Continuation τ α) := {}
  signals : Nat := 0

/-- One piece of work on a promise. -/
def Scene.work (s : Scene τ α) :
    Work τ α → Stack.Stage (Scene τ α) (Work τ α) × List (Note τ α)
  | .finish won =>
    (({ s with signals := if won then s.signals + 1 else s.signals }, []), [.returned won])
  | .run k =>
    match s.promise.value with
    | none => ((s, []), [])
    | some v => ((s, calls k.2), [.ran k.1 v])
  | .call (.onDone tag body) =>
    match s.promise.onDone (tag, body) with
    | (p, none) => (({ s with promise := p }, []), [])
    | (p, some _) => (({ s with promise := p }, [.run (tag, body)]), [])
  | .call (.complete v) =>
    match s.promise.complete v with
    | none => ((s, [.finish false]), [])
    | some (p, ks) => (({ s with promise := p }, runs ks ++ [.finish true]), [])

/-- A task that waits for a value: it sleeps, after so many signals, or it has resumed. -/
inductive Waiter (α : Type) where
  | asleep (seen : Nat)
  | resumed (value : α)

namespace Waiter

/-- Look for the value, and go to sleep without one. -/
def look (value : Option α) (signals : Nat) : Waiter α :=
  match value with
  | some v => .resumed v
  | none => .asleep signals

/-- A task gets its turn: it looks again if there was a signal. -/
def poll (value : Option α) (signals : Nat) : Waiter α → Waiter α
  | .resumed v => .resumed v
  | .asleep seen => if signals = seen then .asleep seen else look value signals

end Waiter

/-- A task that comes to wait for the promise. -/
def Scene.look (s : Scene τ α) : Waiter α := .look s.promise.value s.signals

/-- A task that waits for the promise gets its turn. -/
def Scene.poll (s : Scene τ α) (w : Waiter α) : Waiter α := w.poll s.promise.value s.signals

end Promise
end Rebalance
