/-
  Rebalance.Demander.Startup

  What a demander waits for before its first round: the first round of the
  system dataset, and then that of the datasets before it in order, if it has
  a place in the order at all.
-/
import Rebalance.Settings

namespace Rebalance

/-- The rounds a demander waits for, in this order. -/
structure Startup (ρ : Type) where
  rounds : List ρ

namespace Startup

variable {ρ : Type}

/-- Every dataset waits for the system dataset; only one with a positive order waits for the
    datasets before it. -/
def ofDependencies (settings : Settings) (system ordered : Option ρ) : Startup ρ :=
  ⟨system.toList ++ if 0 < settings.order.toNat then ordered.toList else []⟩

/-- Whether the first round may begin: at once where there is nothing to wait for, and never
    once the demander is stopping; otherwise nothing is known until all rounds are done. -/
def outcome (w : Startup ρ) (stopping : Bool) (done : ρ → Bool) : Option Bool :=
  if w.rounds.isEmpty then some true
  else if stopping then some false
  else if w.rounds.all done then some true
  else none

end Startup

end Rebalance
