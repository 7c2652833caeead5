/-
  Rebalance.Metrics.Meter

  Single meters: counts that only grow, gauges that go both ways, and counts
  split by a label. Counts are 64-bit and gauges signed 64-bit numbers, and
  both wrap.
-/
import Rebalance.Sorted.Map

namespace Rebalance

/-- A count with its name and what it counts. -/
structure Counter where
  name : String
  help : String
  value : UInt64 := 0

namespace Counter

/-- Count `n` more. -/
def add (c : Counter) (n : UInt64) : Counter := { c with value := c.value + n }

/-- Count one more. -/
def inc (c : Counter) : Counter := c.add 1

end Counter

/-- A value that goes up and down. -/
structure Gauge where
  name : String
  help : String
  value : Int64 := 0

namespace Gauge

/-- Show another value. -/
def set (g : Gauge) (v : Int64) : Gauge := { g with value := v }

/-- One up. -/
def inc (g : Gauge) : Gauge := { g with value := g.value + 1 }

/-- One down. -/
def dec (g : Gauge) : Gauge := { g with value := g.value - 1 }

end Gauge

/-- Counts by the value of one label. -/
structure LabeledCounter where
  name : String
  help : String
  label : String
  series : SortedMap String UInt64 := ∅

namespace LabeledCounter

/-- Count one more under a label value. -/
def inc (c : LabeledCounter) (value : String) : LabeledCounter :=
  { c with series := c.series.alter value fun old => old.getD 0 + 1 }

/-- The count under a label value; one never counted has none. -/
def get (c : LabeledCounter) (value : String) : UInt64 := (c.series.get? value).getD 0

/-- The counts under all label values together. -/
def total (c : LabeledCounter) : UInt64 := c.series.values.foldr (· + ·) 0

end LabeledCounter

end Rebalance
