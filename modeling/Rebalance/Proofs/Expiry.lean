/-
  Rebalance.Proofs.Expiry

  When an entry with a time to live expires.  The moment is a sum of milliseconds
  that is kept in 64 bits, and a span can hold more of them than that: `dueAt` is
  the sum itself, and an entry expires there exactly if the sum fits.  Beyond, what
  is left of the time to live is its remainder, or nothing at all.
-/
import Mathlib.Algebra.Group.Nat.Defs
import Rebalance.Entry

namespace Rebalance

theorem Span.millis_le_of_toNanos_le {d e : Span} (h : d.toNanos ≤ e.toNanos) :
    d.millis ≤ e.millis := Nat.div_le_div_right h

namespace Entry

/-- The moment at which an entry is to expire, without a bound on the milliseconds. -/
def dueAt (now : Instant) (ttl : Span) : Nat := now.toNat + ttl.millis

variable (e : Entry) (now : Instant) (ttl : Span)

-- ============================================================================
-- The moment that is noted
-- ============================================================================

/-- What is noted is the remainder of that moment. -/
theorem toNat_expiry : (now + UInt64.ofNat ttl.millis).toNat = dueAt now ttl % 2 ^ 64 := by
  rw [UInt64.toNat_add, UInt64.toNat_ofNat', Nat.add_mod_mod, dueAt]

theorem isExpired_withTtl (t : Instant) :
    (e.withTtl now ttl).isExpired t = true ↔ dueAt now ttl % 2 ^ 64 ≤ t.toNat := by
  rw [withTtl, isExpired, decide_eq_true_iff, toNat_expiry]

-- ============================================================================
-- When an entry has expired
-- ============================================================================

variable {now ttl}

/-- An expiry that fits is neither early nor late. -/
theorem isExpired_of_fits (hfits : dueAt now ttl < 2 ^ 64) (t : Instant) :
    (e.withTtl now ttl).isExpired t = true ↔ dueAt now ttl ≤ t.toNat := by
  rw [isExpired_withTtl, Nat.mod_eq_of_lt hfits]

/-- In every case an entry lives for the remainder of its time to live, unless even that does not
    fit any more: then it has expired from the start. -/
theorem isExpired_iff_rest {t : Instant} (ht : now ≤ t) :
    (e.withTtl now ttl).isExpired t = true ↔
      2 ^ 64 ≤ now.toNat + ttl.millis % 2 ^ 64 ∨ now.toNat + ttl.millis % 2 ^ 64 ≤ t.toNat := by
  have hnow := now.toNat_lt
  rw [UInt64.le_iff_toNat_le] at ht
  have hrest : dueAt now ttl % 2 ^ 64 = (now.toNat + ttl.millis % 2 ^ 64) % 2 ^ 64 := by
    rw [dueAt, Nat.add_mod_mod]
  rw [isExpired_withTtl, hrest]
  by_cases hfits : now.toNat + ttl.millis % 2 ^ 64 < 2 ^ 64
  · rw [Nat.mod_eq_of_lt hfits]
    exact ⟨.inr, fun h => h.resolve_left (Nat.not_le.mpr hfits)⟩
  · -- What is left over after the wrap is below `now`.
    refine iff_of_true ?_ (.inl (Nat.not_lt.mp hfits))
    omega

/-- An expiry that does not fit has passed at the last reading there is, at which some of the time to
    live is left. -/
theorem expired_early (hfits : 2 ^ 64 ≤ dueAt now ttl) :
    ∃ t : Instant, now ≤ t ∧ t.toNat - now.toNat < ttl.millis ∧
      (e.withTtl now ttl).isExpired t = true := by
  have hnow := now.toNat_lt
  have hlast : (UInt64.ofNat (2 ^ 64 - 1)).toNat = 2 ^ 64 - 1 := by decide
  rw [dueAt] at hfits
  refine ⟨UInt64.ofNat (2 ^ 64 - 1), ?_, ?_, (isExpired_withTtl e now ttl _).mpr ?_⟩
  · rw [UInt64.le_iff_toNat_le, hlast]
    omega
  · rw [hlast]
    omega
  · rw [hlast]
    exact Nat.le_sub_one_of_lt (Nat.mod_lt _ (by decide))

/-- A time to live is kept exactly if the milliseconds until then, counted from the epoch, fit into 64
    bits: then the moment is noted as it is, the entry has expired from that moment on and not before,
    and a shorter time to live expires no later.  Of any other time to live the entry gets what
    is left when all multiples of 2^64 milliseconds are taken off, or nothing. -/
theorem ttl_is_kept_iff (e : Entry) (now : Instant) (ttl : Span) :
    let lasting := e.withTtl now ttl
    ((∀ t, now ≤ t → t.toNat - now.toNat < ttl.millis → lasting.isExpired t = false) ↔
      dueAt now ttl < 2 ^ 64) ∧
    (dueAt now ttl < 2 ^ 64 →
      lasting.expiresAt.map UInt64.toNat = some (dueAt now ttl) ∧
      (∀ t, lasting.isExpired t = true ↔ dueAt now ttl ≤ t.toNat) ∧
      ∀ shorter : Span, shorter.toNanos ≤ ttl.toNanos →
        ∀ t, lasting.isExpired t = true → (e.withTtl now shorter).isExpired t = true) ∧
    ∀ t, now ≤ t → (lasting.isExpired t = true ↔
      2 ^ 64 ≤ now.toNat + ttl.millis % 2 ^ 64 ∨ now.toNat + ttl.millis % 2 ^ 64 ≤ t.toNat) := by
  intro lasting
  refine ⟨⟨fun hkept => ?_, fun hfits t hle hleft => ?_⟩, fun hfits => ⟨?_, ?_, ?_⟩,
    fun t => e.isExpired_iff_rest⟩
  · refine Nat.not_le.mp fun hfits => ?_
    obtain ⟨t, hle, hleft, hexpired⟩ := e.expired_early hfits
    rw [hkept t hle hleft] at hexpired
    cases hexpired
  · rw [UInt64.le_iff_toNat_le] at hle
    rw [Bool.eq_false_iff, Ne, e.isExpired_of_fits hfits, dueAt]
    omega
  · change some _ = _
    rw [toNat_expiry, Nat.mod_eq_of_lt hfits]
  · exact e.isExpired_of_fits hfits
  · intro shorter hshorter t hexpired
    have hdue : dueAt now shorter ≤ dueAt now ttl :=
      Nat.add_le_add_left (Span.millis_le_of_toNanos_le hshorter) _
    rw [e.isExpired_of_fits hfits] at hexpired
    rw [e.isExpired_of_fits (Nat.lt_of_le_of_lt hdue hfits)]
    exact Nat.le_trans hdue hexpired

/-- The longest time to live that fits at some reading of the clock is kept to the end, and
    nothing shorter expires later. -/
theorem ttl_is_kept_iff_longest :
    let e : Entry := { key := [107], value := [1], revision := ⟨1, 0⟩ }
    let now : Instant := 1780000000000
    let ttl : Span := ⟨18446742293709551, 615999999, by decide⟩
    dueAt now ttl = 2 ^ 64 - 1 ∧
      (∀ t, now ≤ t → t.toNat - now.toNat < ttl.millis →
        (e.withTtl now ttl).isExpired t = false) ∧
      ∀ t, (e.withTtl now ttl).isExpired t = true →
        (e.withTtl now (Span.ofSecs 3600)).isExpired t = true := by
  intro e now ttl
  have hdue : dueAt now ttl = 2 ^ 64 - 1 := by decide
  have hfits : dueAt now ttl < 2 ^ 64 := by rw [hdue]; decide
  obtain ⟨hkept, hexact, -⟩ := ttl_is_kept_iff e now ttl
  exact ⟨hdue, hkept.mpr hfits, (hexact hfits).2.2 (Span.ofSecs 3600) (by decide)⟩

/-- A time to live of 2^64 milliseconds, some 580 million years, is over at once, while one of an
    hour is not. -/
theorem longest_ttl_is_over_at_once :
    let e : Entry := { key := [107], value := [1], revision := ⟨1, 0⟩ }
    let now : Instant := 1780000000000
    let ttl : Span := ⟨18446744073709551, 616000000, by decide⟩
    now.toNat - now.toNat < ttl.millis ∧ (e.withTtl now ttl).isExpired now = true ∧
      (Span.ofSecs 3600).toNanos ≤ ttl.toNanos ∧
      (e.withTtl now (Span.ofSecs 3600)).isExpired now = false := by
  decide

end Entry
end Rebalance
