/-
  Rebalance.Throttle

  Lets something through at most once per interval.
-/
import Rebalance.Span

namespace Rebalance

/-- When something was let through last, in nanoseconds of a running clock. -/
structure Throttle where
  interval : Span
  last : Option Nat := none

namespace Throttle

/-- Whether to let something through at `now`: nothing was yet, or the interval has passed. -/
def allow (t : Throttle) (now : Nat) : Throttle × Bool :=
  match t.last with
  | some before =>
    if now - before < t.interval.toNanos then (t, false) else ({ t with last := some now }, true)
  | none => ({ t with last := some now }, true)

end Throttle

end Rebalance
