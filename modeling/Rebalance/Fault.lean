/-
  Rebalance.Fault

  Everything that can go wrong, by cause, and the one wording of each cause.
  A failure that a collaborator reports in words of its own keeps those words.
-/
import Rebalance.Ident

namespace Rebalance

/-- Why a message did not reach its destination, or could not be read there. -/
inductive NetworkFault where
  | nodeLeft (node : NodeId)
  | noHandler (node : NodeId) (topic : String)
  | duplicateHandler (topic : String)
  | timeout (node : NodeId)
  | sendFailed (reason : String)
  | serialization (reason : String)
  | deserialization (reason : String)
  | unsupportedVersion (version : UInt16)
deriving DecidableEq

/-- Why the local store refused a write. -/
inductive StoreFault where
  | partitionNotFound (partition : PartitionId)
  | capacityExceeded (partition : PartitionId)
  | writeRejected (reason : String)
deriving DecidableEq

/-- What is wrong with the settings of a dataset. -/
inductive SettingFault where
  | noWorkers
  | noTimeout
  | noBatch
  | stated (reason : String)
deriving DecidableEq

/-- A broken assumption of the protocol. -/
inductive Breach where
  | unreservable (partition : PartitionId)
  | delayWithoutExchange
  | stated (reason : String)
deriving DecidableEq

/-- Any failure of a rebalancing operation. -/
inductive Fault where
  | entryNotApplied (node : NodeId) (partition : PartitionId) (key reason : String)
  | network (cause : NetworkFault)
  | storage (cause : StoreFault)
  | settings (cause : SettingFault)
  | invariant (cause : Breach)
  | cancelled
deriving DecidableEq

namespace NetworkFault

/-- The wording of a network fault. -/
def message : NetworkFault → String
  | nodeLeft n => "node left the cluster: " ++ toString n.toNat
  | noHandler n topic => "no handler for topic " ++ topic ++ " on node " ++ toString n.toNat
  | duplicateHandler topic => "handler already registered for topic " ++ topic
  | timeout n => "send to node " ++ toString n.toNat ++ " timed out"
  | sendFailed reason => "send failed: " ++ reason
  | serialization reason => "serialization error: " ++ reason
  | deserialization reason => "deserialization error: " ++ reason
  | unsupportedVersion v => "unsupported wire version: " ++ toString v.toNat

end NetworkFault

namespace StoreFault

/-- The wording of a store fault. -/
def message : StoreFault → String
  | partitionNotFound p => "partition not found: " ++ toString p.toNat
  | capacityExceeded p => "capacity exceeded for partition " ++ toString p.toNat
  | writeRejected reason => "write rejected: " ++ reason

end StoreFault

namespace SettingFault

/-- The wording of a fault in the settings. -/
def message : SettingFault → String
  | noWorkers => "pool_size must be at least 1"
  | noTimeout => "timeout must be positive"
  | noBatch => "batch_size must be positive"
  | stated reason => reason

end SettingFault

namespace Breach

/-- The wording of a broken assumption. -/
def message : Breach → String
  | unreservable p => "failed to reserve moving partition " ++ toString p.toNat
  | delayWithoutExchange => "delaying rebalance process without topology event"
  | stated reason => reason

end Breach

namespace NetworkFault

/-- The name of the cause, without its particulars. -/
def name : NetworkFault → String
  | nodeLeft _ => "NodeLeft"
  | noHandler _ _ => "NoHandler"
  | duplicateHandler _ => "DuplicateHandler"
  | timeout _ => "Timeout"
  | sendFailed _ => "SendFailed"
  | serialization _ => "Serialization"
  | deserialization _ => "Deserialization"
  | unsupportedVersion _ => "UnsupportedVersion"

end NetworkFault

namespace StoreFault

/-- The name of the cause, without its particulars. -/
def name : StoreFault → String
  | partitionNotFound _ => "PartitionNotFound"
  | capacityExceeded _ => "CapacityExceeded"
  | writeRejected _ => "WriteRejected"

end StoreFault

namespace Fault

/-- The name of a failure: where it arose and its cause, without its particulars. -/
def name : Fault → String
  | entryNotApplied .. => "Rebalance.EntryApplyFailed"
  | network cause => "Network." ++ cause.name
  | storage cause => "Storage." ++ cause.name
  | settings _ => "Config"
  | invariant _ => "Invariant"
  | cancelled => "Cancelled"

/-- The wording of a failure. -/
def message : Fault → String
  | entryNotApplied n p key reason =>
    "rebalance error: failed to cache rebalanced entry (will stop rebalancing) [node=" ++
      toString n.toNat ++ ", part=" ++ toString p.toNat ++ ", key=" ++ key ++ "]: " ++ reason
  | network cause => "network error: " ++ cause.message
  | storage cause => "storage error: " ++ cause.message
  | settings cause => "config error: " ++ cause.message
  | invariant cause => "invariant violated: " ++ cause.message
  | cancelled => "operation cancelled"

/-- Whether the peer is gone, so that its stream is given up quietly. -/
def isNodeLeft : Fault → Bool
  | network (.nodeLeft _) => true
  | _ => false

/-- Whether an assumption of the protocol was broken. -/
def isBreach : Fault → Bool
  | invariant _ => true
  | _ => false

end Fault

end Rebalance
