/-
  Rebalance.Plan

  Which partitions one round fetches from which node. All demands of a plan
  are made at the topology of its exchange.
-/
import Rebalance.Message
import Rebalance.Exchange

namespace Rebalance

/-- The demands of a round by node, and the exchange they were computed for. -/
structure Plan where
  demands : SortedMap NodeId Demand := ∅
  exchange : Exchange

namespace Plan

/-- The topology of a plan. -/
def topology (p : Plan) : Topology := p.exchange.topology

/-- Ask a node for more partitions. -/
def request (p : Plan) (node : NodeId) (ps : List PartitionId) : Plan :=
  { p with
    demands := p.demands.alter node fun old =>
      let d := old.getD (Demand.ofList [] p.topology)
      { d with partitions := (SortedSet.ofList ps).union d.partitions } }

/-- Give every demand the same timeout and page size. -/
def stamp (p : Plan) (timeout : Span) (batchSize : UInt64) : Plan :=
  { p with demands := p.demands.mapValues fun _ d => { d with timeout, batchSize } }

/-- The demand on a node, if there is one. -/
def get? (p : Plan) (node : NodeId) : Option Demand := p.demands.get? node

/-- The nodes that are asked for something, in ascending order. -/
def nodes (p : Plan) : List NodeId :=
  (p.demands.toList.filter fun e => !e.2.partitions.isEmpty).map Prod.fst

/-- Every partition that some node is asked for. -/
def partitions (p : Plan) : SortedSet PartitionId :=
  SortedSet.unions (p.demands.values.map Demand.partitions)

/-- Whether no node is asked for anything. -/
def isEmpty (p : Plan) : Bool := p.demands.values.all fun d => d.partitions.isEmpty

end Plan

end Rebalance
