/-
  Rebalance.Exchange.Script

  Calls on exchanges, made through handles.  As with a single promise, a
  continuation is named by a tag and holds the calls it will make, on any of
  the exchanges; who waits for an exchange is signalled when the call that
  finished it returns.
-/
import Rebalance.Exchange
import Rebalance.Promise.Waiting

namespace Rebalance
namespace ExchangeBook

variable {τ : Type}

/-- A call through a handle. -/
inductive Call (τ : Type) where
  | onDone (e : Exchange) (tag : τ) (body : List (Call τ))
  | complete (e : Exchange)

/-- A registered continuation: its tag and the calls it makes. -/
abbrev Continuation (τ : Type) := τ × List (Call τ)

/-- Pending work. -/
inductive Work (τ : Type) where
  | call (c : Call τ)
  | run (e : Exchange) (k : Continuation τ)
  | finish (e : Exchange) (won : Bool)

/-- Calls to be made in order. -/
def calls (cs : List (Call τ)) : List (Work τ) := cs.map Work.call

/-- Every exchange, and how often the tasks that wait for it were signalled. -/
structure Scene (τ : Type) where
  book : ExchangeBook (Continuation τ)
  signals : Nat → Nat := fun _ => 0

/-- Wake the tasks that wait for an exchange. -/
def Scene.signal (s : Scene τ) (e : Exchange) : Scene τ :=
  { s with signals := fun n => if n = e.number then s.signals n + 1 else s.signals n }

/-- One piece of work on exchanges. -/
def Scene.work (s : Scene τ) :
    Work τ → Stack.Stage (Scene τ) (Work τ) × List (Promise.Note τ Topology)
  | .finish e won => ((if won then s.signal e else s, []), [.returned won])
  | .run e k =>
    match (s.book.promise e).value with
    | none => ((s, []), [])
    | some t => ((s, calls k.2), [.ran k.1 t])
  | .call (.onDone e tag body) =>
    match s.book.onDone e (tag, body) with
    | (b, none) => (({ s with book := b }, []), [])
    | (b, some _) => (({ s with book := b }, [.run e (tag, body)]), [])
  | .call (.complete e) =>
    match s.book.complete e with
    | none => ((s, [.finish e false]), [])
    | some (b, ks) => (({ s with book := b }, ks.map (.run e) ++ [.finish e true]), [])

/-- A task that comes to wait through a handle. -/
def Scene.look (s : Scene τ) (e : Exchange) : Promise.Waiter Topology :=
  .look (s.book.promise e).value (s.signals e.number)

/-- A task that waits through a handle gets its turn. -/
def Scene.poll (s : Scene τ) (e : Exchange) (w : Promise.Waiter Topology) :
    Promise.Waiter Topology :=
  w.poll (s.book.promise e).value (s.signals e.number)

end ExchangeBook
end Rebalance
