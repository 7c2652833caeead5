/-
  Rebalance.Span

  Lengths of time: whole seconds and a rest of nanoseconds below one second.
  `Span.ofParts?` is the only way from two unrestricted numbers, and it fails
  exactly when carrying whole seconds overflows the count of seconds.
-/
import Rebalance.Ident

namespace Rebalance

/-- Nanoseconds in a second. -/
def nanosPerSec : Nat := 1000000000

/-- A length of time. -/
structure Span where
  secs : UInt64
  nanos : UInt32
  nanos_lt : nanos.toNat < 1000000000 := by decide
deriving DecidableEq

namespace Span

/-- No time at all. -/
def zero : Span := ⟨0, 0, by decide⟩

instance : Inhabited Span := ⟨zero⟩

/-- Whether no time passes. -/
def isZero (d : Span) : Bool := d.secs == 0 && d.nanos == 0

/-- Whole seconds in the nanoseconds are carried over; fails when the seconds overflow. -/
def ofParts? (secs : UInt64) (nanos : UInt32) : Option Span :=
  let total := secs.toNat + nanos.toNat / 1000000000
  if total < UInt64.size then
    some {
      secs := UInt64.ofNat total
      nanos := UInt32.ofNat (nanos.toNat % 1000000000)
      nanos_lt := by
        have h : nanos.toNat % 1000000000 < 1000000000 := Nat.mod_lt _ (by decide)
        rw [UInt32.toNat_ofNat_of_lt' (Nat.lt_trans h (by decide))]
        exact h }
  else none

/-- A number of whole seconds. -/
def ofSecs (secs : UInt64) : Span := ⟨secs, 0, by decide⟩

/-- A number of milliseconds. -/
def ofMillis (ms : UInt64) : Span where
  secs := ms / 1000
  nanos := UInt32.ofNat (ms.toNat % 1000 * 1000000)
  nanos_lt := by
    have h : ms.toNat % 1000 < 1000 := Nat.mod_lt _ (by decide)
    have h' : ms.toNat % 1000 * 1000000 < 1000000000 := by omega
    rw [UInt32.toNat_ofNat_of_lt' (Nat.lt_trans h' (by decide))]
    exact h'

/-- All of it in nanoseconds. -/
def toNanos (d : Span) : Nat := d.secs.toNat * 1000000000 + d.nanos.toNat

/-- The whole milliseconds in it. -/
def millis (d : Span) : Nat := d.toNanos / 1000000

/-- The fewest milliseconds that cover it: a clock of whole milliseconds shows it
    elapsed no earlier. -/
def coverMillis (d : Span) : Nat := (d.toNanos + 999999) / 1000000

end Span

end Rebalance
