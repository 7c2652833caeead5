/-
  Rebalance.Wire.Codec

  Messages as bytes: the version of the format, which of the two messages it
  is, and the fields of the body in order. Sets and maps are written in
  ascending order and may be read in any; of a repeated map key the last
  value counts. The version is looked at before anything else, and bytes
  after the body are ignored.
-/
import Rebalance.Wire.Reader
import Rebalance.Message
import Rebalance.Fault

namespace Rebalance
namespace Wire

/-- The version of the format. -/
def version : UInt16 := 1

-- ============================================================================
-- Writing
-- ============================================================================

def putRole : Role → Bytes
  | .demand => putU32 0
  | .supply => putU32 1

def putTopic (t : Topic) : Bytes := putRole t.role ++ putU32 t.dataset ++ putU64 t.worker

def putTopology (t : Topology) : Bytes := putU64 t.major ++ putU32 t.minor

def putRevision (r : Revision) : Bytes := putU64 r.order ++ putU32 r.origin

def putPartitions (ps : SortedSet PartitionId) : Bytes := putList putU32 ps.toList

def putEntry (e : Entry) : Bytes :=
  putBytes e.key ++ putBytes e.value ++ putRevision e.revision ++ putOption putSpan e.ttl ++
    putOption putU64 e.expiresAt ++ putFlag e.internal

def putEntries (m : SortedMap PartitionId (List Entry)) : Bytes :=
  putList (fun pe => putU32 pe.1 ++ putList putEntry pe.2) m.toList

def putDemand (d : Demand) : Bytes :=
  putPartitions d.partitions ++ putTopology d.topology ++ putSpan d.timeout ++
    putU64 d.batchSize ++ putOption putTopic d.reply

def putSupply (s : Supply) : Bytes :=
  putU64 s.worker ++ putEntries s.entries ++ putPartitions s.last ++ putPartitions s.missed ++
    putOption putText s.classFault

def putMessage : Message → Bytes
  | .demand d => putU32 0 ++ putDemand d
  | .supply s => putU32 1 ++ putSupply s

/-- A message as bytes. -/
def encode (m : Message) : Bytes := putU16 version ++ putMessage m

-- ============================================================================
-- Reading
-- ============================================================================

def getRole : Reader Role := do
  let i ← getU32
  if i = 0 then pure .demand else if i = 1 then pure .supply else Reader.fail (.badVariant i)

def getTopic : Reader Topic := do
  let role ← getRole
  let dataset ← getU32
  let worker ← getU64
  pure ⟨role, dataset, worker⟩

def getTopology : Reader Topology := do
  let major ← getU64
  let minor ← getU32
  pure ⟨major, minor⟩

def getRevision : Reader Revision := do
  let order ← getU64
  let origin ← getU32
  pure ⟨order, origin⟩

def getPartitions : Reader (SortedSet PartitionId) := do
  let ps ← getList getU32
  pure (SortedSet.ofList ps)

def getEntry : Reader Entry := do
  let key ← getBytes
  let value ← getBytes
  let revision ← getRevision
  let ttl ← getOption getSpan
  let expiresAt ← getOption getU64
  let internal ← getFlag
  pure { key, value, revision, ttl, expiresAt, internal }

/-- A partition with its entries. -/
def getPartitionEntries : Reader (PartitionId × List Entry) := do
  let p ← getU32
  let es ← getList getEntry
  pure (p, es)

def getEntries : Reader (SortedMap PartitionId (List Entry)) := do
  let l ← getList getPartitionEntries
  pure (SortedMap.ofList l)

def getDemand : Reader Demand := do
  let partitions ← getPartitions
  let topology ← getTopology
  let timeout ← getSpan
  let batchSize ← getU64
  let reply ← getOption getTopic
  pure { partitions, topology, timeout, batchSize, reply }

def getSupply : Reader Supply := do
  let worker ← getU64
  let entries ← getEntries
  let last ← getPartitions
  let missed ← getPartitions
  let classFault ← getOption getText
  pure { worker, entries, last, missed, classFault }

def getMessage : Reader Message := do
  let i ← getU32
  if i = 0 then do
    let d ← getDemand
    pure (.demand d)
  else if i = 1 then do
    let s ← getSupply
    pure (.supply s)
  else Reader.fail (.badVariant i)

/-- The message at the front of the bytes. -/
def decode (bs : Bytes) : Except NetworkFault Message :=
  match getU16 bs with
  | .error e => .error (.deserialization e.message)
  | .ok (v, rest) =>
    if v = version then
      match getMessage rest with
      | .error e => .error (.deserialization e.message)
      | .ok (m, _) => .ok m
    else .error (.unsupportedVersion v)

end Wire
end Rebalance
