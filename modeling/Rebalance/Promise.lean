/-
  Rebalance.Promise

  A value that is produced at most once. Continuations registered before are
  handed out by the call that produces it, in the order of registration; one
  registered later is handed back at once.
-/
import Rebalance.Sorted.Order

namespace Rebalance

universe u v

/-- A value that may still be to come, with the continuations waiting for it. -/
structure Promise (α : Type u) (κ : Type v) where
  value : Option α := none
  waiting : List κ := []

namespace Promise

variable {α : Type u} {κ : Type v}

/-- Whether the value is there. -/
def isDone (p : Promise α κ) : Bool := p.value.isSome

/-- Produce the value, taking the continuations to run; none where it is there already. -/
def complete (p : Promise α κ) (v : α) : Option (Promise α κ × List κ) :=
  match p.value with
  | some _ => none
  | none => some ({ value := some v, waiting := [] }, p.waiting)

/-- Register a continuation; the value, if it is there, tells to run it now. -/
def onDone (p : Promise α κ) (k : κ) : Promise α κ × Option α :=
  match p.value with
  | some v => (p, some v)
  | none => ({ p with waiting := p.waiting ++ [k] }, none)

/-- The state of a promise of a number, for diagnostics. -/
def describe (p : Promise UInt64 κ) : String :=
  let value := match p.value with
    | some v => "Some(" ++ toString v.toNat ++ ")"
    | none => "None"
  "Completion \x7b value: " ++ value ++ ", continuations: " ++ toString p.waiting.length ++ " \x7d"

end Promise

end Rebalance
