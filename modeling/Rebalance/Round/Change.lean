/-
  Rebalance.Round.Change

  The changes that a round goes through, as data, with what holds of all of
  them: a round closes once, the change that closes it yields the summary, and
  no change touches what was announced.
-/
import Rebalance.Round

namespace Rebalance
namespace Round

/-- A change to a round. -/
inductive Change where
  | attach (e : Exchange)
  | append (node : NodeId) (ps : SortedSet PartitionId)
  | drain (node : NodeId) (p : PartitionId)
  | miss (node : NodeId) (p : PartitionId)
  | cancel (node : NodeId)
  | complete

/-- Apply a change, taking the summary if it closes the round. -/
def change {κ : Type} (r : Round κ) : Change → Round κ × Option Summary
  | .attach e => (r.attach e, none)
  | .append node ps => (r.append node ps, none)
  | .drain node p => r.drain node p
  | .miss node p => (r.markMissed node p, none)
  | .cancel node => r.cancel node
  | .complete => r.complete

/-! ## A round closes once -/

theorem settle_closed {κ : Type} (r : Round κ) :
    r.settle.1.closed = (r.closed || r.settle.2.isSome) := by
  unfold settle
  split
  · simp
  · simp

theorem settle_summary {κ : Type} (r : Round κ) (h : r.settle.2.isSome = true) :
    r.closed = false := by
  unfold settle at h
  split at h
  · simp at h
  · simp_all

theorem change_closed {κ : Type} (r : Round κ) (c : Change) :
    (r.change c).1.closed = (r.closed || (r.change c).2.isSome) := by
  cases c with
  | attach e => simp [change, attach]
  | append node ps =>
    simp only [change, append]
    split <;> simp
  | drain node p =>
    simp only [change, drain]
    split
    · simp
    · split
      · exact settle_closed r
      · exact settle_closed _
  | miss node p =>
    simp only [change, markMissed]
    split <;> simp
  | cancel node =>
    simp only [change, cancel]
    split
    · simp
    · split
      · exact settle_closed _
      · exact settle_closed r
  | complete => exact settle_closed _

theorem change_summary {κ : Type} (r : Round κ) (c : Change)
    (h : (r.change c).2.isSome = true) : r.closed = false := by
  cases c with
  | attach e => simp [change] at h
  | append node ps => simp [change] at h
  | drain node p =>
    simp only [change, drain] at h
    split at h
    · simp at h
    · simp_all
  | miss node p => simp [change] at h
  | cancel node =>
    simp only [change, cancel] at h
    split at h
    · simp at h
    · simp_all
  | complete => exact settle_summary { r with attached := true, outstanding := ∅ } h

/-- A change closes only a round that is not done. -/
theorem open_of_closing {κ : Type} {r : Round κ} {c : Change} {s : Summary}
    (h : r.closed = r.isDone) (hs : (r.change c).2 = some s) : r.isDone = false :=
  h.symm.trans (change_summary r c (congrArg Option.isSome hs))

/-! ## What was announced stays -/

theorem change_waiting {κ : Type} (r : Round κ) (c : Change) :
    (r.change c).1.outcome = r.outcome := by
  have hs : ∀ r : Round κ, r.settle.1.outcome = r.outcome := by
    intro r
    unfold settle
    split <;> rfl
  cases c with
  | attach e => rfl
  | append node ps =>
    simp only [change, append]
    split <;> rfl
  | drain node p =>
    simp only [change, drain]
    split
    · rfl
    · split
      · exact hs r
      · exact hs _
  | miss node p =>
    simp only [change, markMissed]
    split <;> rfl
  | cancel node =>
    simp only [change, cancel]
    split
    · rfl
    · split
      · exact hs _
      · exact hs r
  | complete => exact hs _

/-! ## Only binding a round touches its exchange -/

theorem exchange_change {κ : Type} (r : Round κ) {c : Change} (hc : ∀ e, c ≠ .attach e) :
    (r.change c).1.exchange = r.exchange := by
  have hs : ∀ r : Round κ, r.settle.1.exchange = r.exchange := by
    intro r
    unfold settle
    split <;> rfl
  cases c with
  | attach e => exact absurd rfl (hc e)
  | append node ps =>
    simp only [change, append]
    split <;> rfl
  | miss node p =>
    simp only [change, markMissed]
    split <;> rfl
  | drain node p =>
    simp only [change, drain]
    split
    · rfl
    · split <;> exact hs _
  | cancel node =>
    simp only [change, cancel]
    split
    · rfl
    · split <;> exact hs _
  | complete => exact hs _

end Round
end Rebalance
