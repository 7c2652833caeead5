/-
  Rebalance.Entry

  A single entry of a partition as it travels between nodes, and when it has
  expired.
-/
import Rebalance.Span
import Rebalance.Version

namespace Rebalance

/-- Milliseconds on the wall clock, counted from the epoch. -/
abbrev Instant := UInt64

/-- An entry: its key and value, the revision that decides between two writes of one key,
    and when it expires. Internal entries are never reported as events. -/
structure Entry where
  key : Bytes
  value : Bytes
  revision : Revision
  ttl : Option Span := none
  expiresAt : Option Instant := none
  internal : Bool := false
deriving DecidableEq

namespace Entry

/-- The key as text. -/
def keyText (e : Entry) : String := Hex.text e.key

/-- Let the entry live for `ttl` from `now` on. The expiry is a 64-bit count of
    milliseconds and wraps like one. -/
def withTtl (e : Entry) (now : Instant) (ttl : Span) : Entry :=
  { e with ttl := some ttl, expiresAt := some (now + UInt64.ofNat ttl.millis) }

/-- An entry with an expiry has expired from that moment on. -/
def isExpired (e : Entry) (now : Instant) : Bool :=
  match e.expiresAt with
  | none => false
  | some t => decide (t.toNat ≤ now.toNat)

end Entry

end Rebalance
