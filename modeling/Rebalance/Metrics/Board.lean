/-
  Rebalance.Metrics.Board

  The meters of one demander, what moves them, and their text in the
  Prometheus exposition format: for each meter a line of help, a line with
  its type and a line with its value. There the name of every meter begins
  with the name of the whole board.
-/
import Rebalance.Metrics.Meter

namespace Rebalance

/-- Why the stream of a node was given up. -/
inductive CancelReason where
  | topologyChanged
  | classFault
  | nodeLeft
  | processingFault
  | sendFailed
deriving DecidableEq

namespace CancelReason

/-- The label of a reason. -/
def label : CancelReason → String
  | topologyChanged => "topology_changed"
  | classFault => "class_error"
  | nodeLeft => "node_left"
  | processingFault => "processing_error"
  | sendFailed => "send_failed"

end CancelReason

/-- The meters of one demander. -/
structure Board where
  roundsStarted : Counter := ⟨"rounds_started", "Rebalance rounds started", 0⟩
  roundsCompleted : Counter := ⟨"rounds_completed", "Rebalance rounds completed", 0⟩
  roundsNoop : Counter := ⟨"rounds_noop", "Rebalance rounds with no work", 0⟩
  roundsAbandoned : Counter :=
    ⟨"rounds_abandoned", "Rebalance rounds abandoned on stop", 0⟩
  demandsSent : Counter := ⟨"demands_sent", "Demand messages sent", 0⟩
  demandSendFailures : Counter :=
    ⟨"demand_send_failures", "Demand messages that failed to send", 0⟩
  supplyReceived : Counter := ⟨"supply_received", "Supply messages received", 0⟩
  entriesApplied : Counter := ⟨"entries_applied", "Entries applied", 0⟩
  entriesSkipped : Counter := ⟨"entries_skipped", "Entries skipped", 0⟩
  entriesDropped : Counter := ⟨"entries_dropped", "Entries dropped over capacity", 0⟩
  partitionsOwned : Counter :=
    ⟨"partitions_owned", "Partitions transferred to owning state", 0⟩
  partitionsMissed : Counter :=
    ⟨"partitions_missed", "Partitions reported missed by suppliers", 0⟩
  activeRounds : Gauge := ⟨"active_rounds", "Rebalance rounds in flight", 0⟩
  lastRoundMissed : Gauge :=
    ⟨"last_round_missed", "Partitions missed by the last round", 0⟩
  cancellations : LabeledCounter :=
    { name := "cancellations_total", help := "Cancelled node streams", label := "reason" }

namespace Board

-- ============================================================================
-- What moves the meters
-- ============================================================================

/-- A round sent its demands and is in flight. -/
def roundStarted (b : Board) : Board :=
  { b with roundsStarted := b.roundsStarted.inc, activeRounds := b.activeRounds.inc }

/-- A round ended with a number of misses. -/
def roundCompleted (b : Board) (missed : Nat) : Board :=
  { b with
    roundsCompleted := b.roundsCompleted.inc
    lastRoundMissed := b.lastRoundMissed.set (Int64.ofNat missed) }

/-- A round is in flight no more. -/
def roundSettled (b : Board) : Board := { b with activeRounds := b.activeRounds.dec }

/-- A round was left unfinished on shutdown. -/
def roundAbandoned (b : Board) : Board :=
  roundSettled { b with roundsAbandoned := b.roundsAbandoned.inc }

/-- A round ended without sending anything. -/
def roundSkipped (b : Board) : Board := { b with roundsNoop := b.roundsNoop.inc }

/-- The stream of a node was given up. -/
def streamCancelled (b : Board) (reason : String) : Board :=
  { b with cancellations := b.cancellations.inc reason }

/-- A demand was sent. -/
def demandSent (b : Board) : Board := { b with demandsSent := b.demandsSent.inc }

/-- A demand could not be sent. -/
def demandNotSent (b : Board) : Board := { b with demandSendFailures := b.demandSendFailures.inc }

/-- A page arrived. -/
def pageReceived (b : Board) : Board := { b with supplyReceived := b.supplyReceived.inc }

/-- An entry was written. -/
def entryApplied (b : Board) : Board := { b with entriesApplied := b.entriesApplied.inc }

/-- An entry was passed over. -/
def entrySkipped (b : Board) : Board := { b with entriesSkipped := b.entriesSkipped.inc }

/-- An entry was refused for capacity. -/
def entryDropped (b : Board) : Board := { b with entriesDropped := b.entriesDropped.inc }

/-- A partition was loaded to its end. -/
def partitionOwned (b : Board) : Board := { b with partitionsOwned := b.partitionsOwned.inc }

/-- A partition has to be fetched again. -/
def partitionMissed (b : Board) : Board := { b with partitionsMissed := b.partitionsMissed.inc }

-- ============================================================================
-- Listing
-- ============================================================================

/-- The counts, in the order of the exposition. -/
def counters (b : Board) : List Counter :=
  [b.roundsStarted, b.roundsCompleted, b.roundsNoop, b.roundsAbandoned, b.demandsSent,
    b.demandSendFailures, b.supplyReceived, b.entriesApplied, b.entriesSkipped,
    b.entriesDropped, b.partitionsOwned, b.partitionsMissed]

/-- The gauges, in the order of the exposition. -/
def gauges (b : Board) : List Gauge := [b.activeRounds, b.lastRoundMissed]

/-- A count found by its name, raised by `n`. -/
def addTo (b : Board) (name : String) (n : UInt64) : Board :=
  let bump (c : Counter) : Counter := if c.name = name then c.add n else c
  { b with
    roundsStarted := bump b.roundsStarted
    roundsCompleted := bump b.roundsCompleted
    roundsNoop := bump b.roundsNoop
    roundsAbandoned := bump b.roundsAbandoned
    demandsSent := bump b.demandsSent
    demandSendFailures := bump b.demandSendFailures
    supplyReceived := bump b.supplyReceived
    entriesApplied := bump b.entriesApplied
    entriesSkipped := bump b.entriesSkipped
    entriesDropped := bump b.entriesDropped
    partitionsOwned := bump b.partitionsOwned
    partitionsMissed := bump b.partitionsMissed }

-- ============================================================================
-- Exposition text
-- ============================================================================

/-- The name of a meter in the exposition. -/
def fullName (name : String) : String := "rebalance_" ++ name

/-- The lines that introduce a meter. -/
def headText (name help kind : String) : String :=
  "# HELP " ++ name ++ " " ++ help ++ "\n# TYPE " ++ name ++ " " ++ kind ++ "\n"

/-- The lines of a count. -/
def counterText (c : Counter) : String :=
  let name := fullName c.name
  headText name c.help "counter" ++ name ++ " " ++ toString c.value.toNat ++ "\n"

/-- The lines of a gauge. -/
def gaugeText (g : Gauge) : String :=
  let name := fullName g.name
  headText name g.help "gauge" ++ name ++ " " ++ toString g.value.toInt ++ "\n"

/-- The lines of a count by label. -/
def labeledText (c : LabeledCounter) : String :=
  let name := fullName c.name
  headText name c.help "counter" ++
    String.join (c.series.toList.map fun e =>
      name ++ "\x7b" ++ c.label ++ "=\"" ++ e.1 ++ "\"\x7d " ++ toString e.2.toNat ++ "\n")

/-- All meters as text. -/
def exposition (b : Board) : String :=
  String.join (b.counters.map counterText) ++ String.join (b.gauges.map gaugeText) ++
    labeledText b.cancellations

end Board

end Rebalance
