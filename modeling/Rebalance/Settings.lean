/-
  Rebalance.Settings

  The settings of one dataset's rebalancing, their defaults, and when they
  are usable.
-/
import Rebalance.Span
import Rebalance.Fault

namespace Rebalance

/-- Settings of one dataset. `delay` is the time between a topology change and a round:
    zero starts rounds at once, `none` leaves them to an explicit request. -/
structure Settings where
  dataset : DatasetId := 0
  name : String := "default"
  enabled : Bool := true
  clientMode : Bool := false
  poolSize : UInt64 := 2
  delay : Option Span := some Span.zero
  timeout : Span := Span.ofSecs 10
  order : UInt32 := 0
  batchSize : UInt64 := 524288
  capacityWarnInterval : Span := Span.ofSecs 10
deriving DecidableEq

namespace Settings

/-- Whether this node takes part in rebalancing at all. -/
def isActive (s : Settings) : Bool := s.enabled && !s.clientMode

/-- The first thing that makes the settings unusable, if any. -/
def fault? (s : Settings) : Option SettingFault :=
  if s.poolSize = 0 then some .noWorkers
  else if s.timeout.isZero then some .noTimeout
  else if s.batchSize = 0 then some .noBatch
  else none

end Settings

end Rebalance
