/-
  Rebalance.Exchange

  Exchanges: the cluster-wide steps that compute a new topology after a
  membership change. A handle names an exchange and can be copied freely; the
  book holds, for each, whether it has finished and what waits for it, so
  copies of one handle share one fate.
-/
import Rebalance.Promise
import Rebalance.Entry

namespace Rebalance

/-- What happened to the membership. `forced` stands for an exchange requested locally. -/
inductive DiscoveryKind where
  | nodeJoined
  | nodeLeft
  | nodeFailed
  | forced
deriving DecidableEq

/-- The membership change behind an exchange. -/
structure Discovery where
  node : NodeId
  kind : DiscoveryKind
  time : Instant
deriving DecidableEq

/-- A handle to an exchange; handles of the same exchange have the same number. -/
structure Exchange where
  number : Nat
  topology : Topology
  discovery : Discovery
deriving DecidableEq

namespace DiscoveryKind

/-- The name of a kind. -/
def name : DiscoveryKind → String
  | nodeJoined => "joined"
  | nodeLeft => "left"
  | nodeFailed => "failed"
  | forced => "forced"

/-- All kinds. -/
def all : List DiscoveryKind := [nodeJoined, nodeLeft, nodeFailed, forced]

/-- The full name of a kind. -/
def describe : DiscoveryKind → String
  | nodeJoined => "NodeJoined"
  | nodeLeft => "NodeLeft"
  | nodeFailed => "NodeFailed"
  | forced => "Forced"

end DiscoveryKind

namespace Discovery

/-- The fields of a membership change with their names. -/
def describe (d : Discovery) : String :=
  "DiscoveryEvent \x7b node: " ++ toString d.node.toNat ++ ", kind: " ++ d.kind.describe ++
    ", timestamp_ms: " ++ toString d.time.toNat ++ " \x7d"

end Discovery

namespace Exchange

/-- Whether two handles refer to the same exchange. -/
def same (a b : Exchange) : Bool := a.number == b.number

/-- The fields of a handle with their names, and whether the exchange has finished. -/
def describe (e : Exchange) (done : Bool) : String :=
  "ExchangeHandle \x7b topology_version: " ++ e.topology.describe ++ ", discovery: " ++
    e.discovery.describe ++ ", done: " ++ (if done then "true" else "false") ++ " \x7d"

end Exchange

/-- The state of every exchange, by number. -/
structure ExchangeBook (κ : Type) where
  promises : List (Promise Topology κ) := []

namespace ExchangeBook

variable {κ : Type}

/-- Enter a new exchange, finished already or still to finish. -/
def enter (b : ExchangeBook κ) (topology : Topology) (discovery : Discovery) (finished : Bool) :
    ExchangeBook κ × Exchange :=
  (⟨b.promises ++ [{ value := if finished then some topology else none }]⟩,
    ⟨b.promises.length, topology, discovery⟩)

/-- What is known of an exchange. -/
def promise (b : ExchangeBook κ) (e : Exchange) : Promise Topology κ :=
  (b.promises[e.number]?).getD {}

/-- Whether an exchange has finished. -/
def isDone (b : ExchangeBook κ) (e : Exchange) : Bool := (b.promise e).isDone

/-- Finish an exchange, taking the continuations to run; none where it had finished. -/
def complete (b : ExchangeBook κ) (e : Exchange) : Option (ExchangeBook κ × List κ) :=
  match (b.promise e).complete e.topology with
  | none => none
  | some (p, ks) => some (⟨b.promises.set e.number p⟩, ks)

/-- Register a continuation; the topology, if it is there, tells to run it now. -/
def onDone (b : ExchangeBook κ) (e : Exchange) (k : κ) : ExchangeBook κ × Option Topology :=
  let (p, now) := (b.promise e).onDone k
  (⟨b.promises.set e.number p⟩, now)

end ExchangeBook

end Rebalance
