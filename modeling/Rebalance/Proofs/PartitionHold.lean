/-
  Rebalance.Proofs.PartitionHold

  How a page holds on to a partition.  It reserves the partition, takes its
  lock, works, and gives the lock and then the reservation back; between two
  steps it holds at most a reservation, while it waits for the lock.
  `Store.Handles` lists what the holder of a partition does to the store: it gives
  back what it has taken, and everything else leaves reservations and locks
  alone.  `Shared.handles` is the one invariant that follows: whatever the others
  hold, a store has that and the hold.
-/
import Mathlib.Logic.Relation
import Rebalance.Proofs.Repeated
import Rebalance.Proofs.Walk

namespace Rebalance
namespace Store

-- ============================================================================
-- Reservations and locks
-- ============================================================================

/-- How often a partition is reserved; one that is not there is not. -/
def reservations (s : Store) (p : PartitionId) : Nat := ((s.get? p).map (·.reservations)).getD 0

/-- Whether a partition is locked; one that is not there is not. -/
def isLocked (s : Store) (p : PartitionId) : Bool := (s.lock? p).getD false

/-- Two stores whose partitions are reserved and locked alike. -/
structure SamePins (s t : Store) : Prop where
  reservations : ∀ p, t.reservations p = s.reservations p
  isLocked : ∀ p, t.isLocked p = s.isLocked p

variable {s t u : Store}

namespace SamePins

theorem refl (s : Store) : SamePins s s := ⟨fun _ => rfl, fun _ => rfl⟩

theorem trans (h₁ : SamePins s t) (h₂ : SamePins t u) : SamePins s u where
  reservations p := (h₂.reservations p).trans (h₁.reservations p)
  isLocked p := (h₂.isLocked p).trans (h₁.isLocked p)

theorem of_get? (h : ∀ p, t.get? p = s.get? p) : SamePins s t where
  reservations p := by rw [Store.reservations, h p, Store.reservations]
  isLocked p := by rw [Store.isLocked, Store.isLocked, lock?, h p, lock?]

theorem of_eq (h : t = s) : SamePins s t := of_get? fun p => by rw [h]

end SamePins

theorem reservations_pos_iff {p : PartitionId} :
    0 < s.reservations p ↔ ∃ part, s.get? p = some part ∧ 0 < part.reservations := by
  unfold reservations
  cases s.get? p with
  | none => simp
  | some part => simp

section Effects

variable (s) (p q : PartitionId)

/-- A change of a partition counts its reservations anew; where there is none, nothing happens. -/
theorem reservations_modify {f : Partition → Partition} (n : Nat → Nat)
    (hf : ∀ x, (f x).reservations = n x.reservations) (hn : s.get? p = none → n 0 = 0) :
    (s.modify p f).reservations q = if q = p then n (s.reservations p) else s.reservations q := by
  unfold reservations
  rw [get?_modify]
  by_cases hq : q = p
  · rw [if_pos hq, if_pos hq]
    cases hp : s.get? p with
    | none => exact (hn hp).symm
    | some part => exact hf part
  · rw [if_neg hq, if_neg hq]

theorem reservations_modify_of_same {f : Partition → Partition}
    (hf : ∀ x, (f x).reservations = x.reservations) :
    (s.modify p f).reservations q = s.reservations q := by
  rw [reservations_modify s p q id hf fun _ => rfl]
  split
  · next hq => rw [hq, id]
  · rfl

theorem samePins_modify {f : Partition → Partition}
    (hr : ∀ x, (f x).reservations = x.reservations) (hl : ∀ x, (f x).locked = x.locked) :
    SamePins s (s.modify p f) where
  reservations q := reservations_modify_of_same s p q hr
  isLocked q := by rw [isLocked, lock?_modify s p q hl, isLocked]

theorem reserve_refused (h : (s.reserve p).2 = false) : (s.reserve p).1 = s := by
  unfold reserve at h ⊢
  split at h
  · rfl
  · rfl
  · cases h

theorem reservations_reserve (h : (s.reserve p).2 = true) :
    (s.reserve p).1.reservations q = s.reservations q + if q = p then 1 else 0 := by
  unfold reserve at h ⊢
  split at h
  · cases h
  · cases h
  · next st hst =>
    have hthere : s.get? p ≠ none := fun hp => by simp [state?, hp] at hst
    simp only
    rw [reservations_modify s p q (· + 1) (fun _ => rfl) fun hp => absurd hp hthere]
    by_cases hq : q = p
    · rw [if_pos hq, if_pos hq, hq]
    · rw [if_neg hq, if_neg hq, Nat.add_zero]

theorem isLocked_reserve : (s.reserve p).1.isLocked q = s.isLocked q := by
  rw [isLocked, lock?_reserve, isLocked]

theorem reservations_release :
    (s.release p).reservations q = s.reservations q - if q = p then 1 else 0 := by
  unfold release
  rw [reservations_modify s p q (· - 1) (fun _ => rfl) fun _ => rfl]
  by_cases hq : q = p
  · rw [if_pos hq, if_pos hq, hq]
  · rw [if_neg hq, if_neg hq, Nat.sub_zero]

theorem isLocked_release : (s.release p).isLocked q = s.isLocked q := by
  rw [isLocked, lock?_release, isLocked]

theorem reservations_unlock : (s.unlock p).reservations q = s.reservations q :=
  reservations_modify_of_same s p q fun _ => rfl

theorem isLocked_unlock : (s.unlock p).isLocked q = if q = p then false else s.isLocked q := by
  unfold isLocked
  rw [lock?_unlock]
  by_cases hq : q = p
  · rw [if_pos hq, if_pos hq]
    cases s.lock? p <;> rfl
  · rw [if_neg hq, if_neg hq]

/-- A lock is granted if nobody holds it. -/
theorem tryLock_granted : (s.tryLock p).2 = !s.isLocked p := by
  unfold tryLock isLocked lock?
  cases s.get? p with
  | none => rfl
  | some part =>
    cases h : part.locked with
    | true => simp [h]
    | false => simp [h]

theorem tryLock_refused (h : (s.tryLock p).2 = false) : (s.tryLock p).1 = s := by
  unfold tryLock at h ⊢
  split at h
  · cases h
  · split at h
    · next hl => simp [hl]
    · cases h

theorem reservations_tryLock : (s.tryLock p).1.reservations q = s.reservations q := by
  unfold tryLock
  split
  · rfl
  · split
    · rfl
    · exact reservations_modify_of_same s p q fun _ => rfl

/-- Of a partition that is there the lock is held once it was tried, by whoever holds it. -/
theorem isLocked_tryLock :
    (s.tryLock p).1.isLocked q =
      if q = p ∧ (s.get? p).isSome = true then true else s.isLocked q := by
  unfold tryLock isLocked lock?
  cases hp : s.get? p with
  | none => simp
  | some part =>
    by_cases hq : q = p
    · subst hq
      cases hl : part.locked with
      | true => simp [hp, hl]
      | false => simp [hl, get?_modify, hp]
    · cases hl : part.locked with
      | true => simp [hl, hq]
      | false => simp [hl, get?_modify, hq]

theorem samePins_own : SamePins s (s.own p).1 := by
  unfold own
  split
  · exact samePins_modify s p (fun _ => rfl) fun _ => rfl
  · exact .refl s

theorem samePins_discardIfEmpty (k : Bytes) : SamePins s (s.discardIfEmpty p k).1 := by
  unfold discardIfEmpty
  split
  · exact .refl s
  · split
    · exact .refl s
    · exact samePins_modify s p (fun _ => rfl) fun _ => rfl

end Effects

theorem samePins_settled (t : Store) (p : PartitionId) (e : Entry)
    (r : Except StoreFault InsertOutcome) : SamePins t (t.settled p e r) := by
  unfold settled
  split
  · exact samePins_modify t p (fun _ => rfl) fun _ => rfl
  · exact samePins_discardIfEmpty t p e.key
  · exact .refl t

/-- A write leaves reservations and locks alone. -/
theorem Insertion.samePins {p : PartitionId} {e : Entry} {r : Except StoreFault InsertOutcome}
    (h : Insertion s p e t r) : SamePins s t := by
  cases h with
  | absent | invalid | removed | alreadyNewer => exact .refl s
  | replaced | refused => exact samePins_modify s p (fun _ => rfl) fun _ => rfl
  | created =>
    have hput := samePins_modify s p (f := fun part =>
      { part with slots := part.slots.insert e.key ((s.slotFor p e.key).write e) })
      (fun _ => rfl) fun _ => rfl
    exact ⟨hput.reservations, hput.isLocked⟩

-- ============================================================================
-- A hold on a partition
-- ============================================================================

/-- What a page holds in a store: nothing, a partition that it has reserved, or one that it has
    reserved and locked. -/
inductive PartitionHold where
  | free
  | pinned (p : PartitionId)
  | locked (p : PartitionId)

namespace PartitionHold

/-- The reservations of a partition that belong to a hold. -/
def reserves : PartitionHold → PartitionId → Nat
  | free, _ => 0
  | pinned p, q => if q = p then 1 else 0
  | locked p, q => if q = p then 1 else 0

/-- Whether the lock of a partition belongs to a hold. -/
def locks : PartitionHold → PartitionId → Bool
  | locked p, q => decide (q = p)
  | _, _ => false

end PartitionHold

/-- One thing that a page does to a store, with the hold that it has before and after: it reserves a
    partition and then locks it, gives back what it has taken, or leaves reservations and locks
    alone. -/
inductive Handles : PartitionHold × Store → PartitionHold × Store → Prop where
  | reserve {s : Store} {p : PartitionId} (h : (s.reserve p).2 = true) :
      Handles (.free, s) (.pinned p, (s.reserve p).1)
  | lock {s : Store} {p : PartitionId} (h : (s.tryLock p).2 = true) :
      Handles (.pinned p, s) (.locked p, (s.tryLock p).1)
  | unlock {s : Store} {p : PartitionId} : Handles (.locked p, s) (.pinned p, s.unlock p)
  | release {s : Store} {p : PartitionId} : Handles (.pinned p, s) (.free, s.release p)
  | work {g : PartitionHold} {s t : Store} (h : SamePins s t) : Handles (g, s) (g, t)

/-- All that a page does to a store from one moment to another. -/
abbrev Handling : PartitionHold × Store → PartitionHold × Store → Prop := Relation.ReflTransGen Handles

/-- A store of which others hold so many reservations and such locks, and a hold is the rest. No
    lock is held twice. -/
structure Shared (reserved : PartitionId → Nat) (locked : PartitionId → Bool)
    (x : PartitionHold × Store) : Prop where
  reservations : ∀ p, x.2.reservations p = reserved p + x.1.reserves p
  isLocked : ∀ p, x.2.isLocked p = (locked p || x.1.locks p)
  apart : ∀ p, x.1.locks p = true → locked p = false

namespace Shared

variable {reserved : PartitionId → Nat} {locked : PartitionId → Bool} {x y : PartitionHold × Store}

/-- Whatever a page does, the others hold what they held. -/
theorem handles (h : Handles x y) (hx : Shared reserved locked x) : Shared reserved locked y := by
  cases h with
  | @reserve s p h =>
    refine ⟨fun q => ?_, fun q => ?_, nofun⟩
    · rw [reservations_reserve s p q h, hx.reservations q]
      rfl
    · rw [isLocked_reserve, hx.isLocked q]
      rfl
  | @lock s p h =>
    -- The lock was free, and the partition is there since it is reserved.
    have hfree : locked p = false := by
      rw [tryLock_granted, hx.isLocked p] at h
      simpa [PartitionHold.locks] using h
    have hthere : (s.get? p).isSome = true := by
      have hpos : 0 < s.reservations p := by
        rw [hx.reservations p]
        simp [PartitionHold.reserves]
      obtain ⟨part, hp, -⟩ := reservations_pos_iff.mp hpos
      rw [hp]
      rfl
    refine ⟨fun q => ?_, fun q => ?_, fun q hq => ?_⟩
    · rw [reservations_tryLock, hx.reservations q]
      rfl
    · rw [isLocked_tryLock, hx.isLocked q]
      by_cases hq : q = p
      · simp [hq, hthere, PartitionHold.locks]
      · simp [hq, PartitionHold.locks]
    · rw [of_decide_eq_true hq]
      exact hfree
  | @unlock s p =>
    have hfree : locked p = false := hx.apart p (by simp [PartitionHold.locks])
    refine ⟨fun q => ?_, fun q => ?_, nofun⟩
    · rw [reservations_unlock, hx.reservations q]
      rfl
    · rw [isLocked_unlock, hx.isLocked q]
      by_cases hq : q = p
      · simp [hq, hfree, PartitionHold.locks]
      · simp [hq, PartitionHold.locks]
  | @release s p =>
    refine ⟨fun q => ?_, fun q => ?_, nofun⟩
    · rw [reservations_release, hx.reservations q]
      exact Nat.add_sub_cancel _ _
    · rw [isLocked_release, hx.isLocked q]
      rfl
  | work h =>
    exact ⟨fun q => (h.reservations q).trans (hx.reservations q),
      fun q => (h.isLocked q).trans (hx.isLocked q), hx.apart⟩

theorem handling (h : Handling x y) (hx : Shared reserved locked x) :
    Shared reserved locked y := by
  induction h with
  | refl => exact hx
  | tail _ h ih => exact ih.handles h

/-- A store is shared with whoever holds nothing. -/
theorem of_free (s : Store) : Shared s.reservations s.isLocked (.free, s) :=
  ⟨fun _ => rfl, fun _ => by simp [PartitionHold.locks], nofun⟩

end Shared

/-- A page that has let go of everything has left reservations and locks as they were. -/
theorem samePins_of_handling (h : Handling (.free, s) (.free, t)) : SamePins s t := by
  have hshared := (Shared.of_free s).handling h
  refine ⟨fun p => ?_, fun p => ?_⟩
  · exact hshared.reservations p
  · rw [hshared.isLocked p]
    exact Bool.or_false _

end Store

/-- A reservation that is granted is one of the store itself. -/
theorem Tampered.reserve_granted {s : Tampered} {p : PartitionId} (h : (s.reserve p).2 = true) :
    (s.base.reserve p).2 = true ∧ (s.reserve p).1.base = (s.base.reserve p).1 := by
  unfold Tampered.reserve at h ⊢
  split at h
  · cases h
  · next hp => exact ⟨h, by rw [if_neg hp]⟩

namespace Site

-- ============================================================================
-- Taking entries in
-- ============================================================================

theorem samePins_takeIn (s : Site) (sender : NodeId) (p : PartitionId) (e : Entry) :
    Store.SamePins s.store.base (s.takeIn sender p e).1.store.base := by
  rw [takeIn_eq]
  split
  · exact .refl _
  · rw [base_settleWrite]
    refine Store.SamePins.trans ?_ (Store.samePins_settled _ p e _)
    rcases s.store.insertIfNewer_cases p e with ⟨reason, -, h⟩ | ⟨-, before, hb, -, hins⟩
    · rw [h]
      exact .refl _
    · refine Store.SamePins.trans ?_ hins.samePins
      rw [hb]
      split
      · exact Store.samePins_modify _ p (fun _ => rfl) fun _ => rfl
      · exact .refl _

theorem samePins_takeInAll (s : Site) (sender : NodeId) (p : PartitionId) (es : List Entry) :
    Store.SamePins s.store.base (s.takeInAll sender p es).1.store.base :=
  takeInAll_keeps s sender p (P := fun t => Store.SamePins s.store.base t.store.base)
    (fun _ h => h) (fun t e h => h.trans (samePins_takeIn t sender p e)) es (.refl _)

end Site

namespace Demander

open Store (PartitionHold Handles Handling SamePins)

-- ============================================================================
-- Working through a page
-- ============================================================================

/-- What a page holds that was worked through so far: nothing, or the reservation of the partition
    whose lock was taken. -/
def Walked.hold : Walked → PartitionHold
  | .blocked p _ _ => .pinned p
  | _ => .free

/-- A hold, and the store of a demander. -/
abbrev holding (d : Demander) (g : PartitionHold) : PartitionHold × Store := (g, d.site.store.base)

variable {d e : Demander} {job : PageJob} {p : PartitionId}

theorem Beside.samePins (h : Beside d e) : SamePins d.site.store.base e.site.store.base :=
  .of_eq (congrArg Tampered.base h.store)

/-- What is done about a page that leaves reservations and locks alone. -/
theorem handling_work (g : PartitionHold) (h : SamePins d.site.store.base e.site.store.base) :
    Handling (d.holding g) (e.holding g) := .single (.work h)

/-- A reservation that is granted pins its partition. -/
theorem handles_pinned (h : (d.site.store.reserve p).2 = true) :
    Handles (d.holding .free) ((d.pinned p).holding (.pinned p)) := by
  obtain ⟨hok, hbase⟩ := Tampered.reserve_granted h
  rw [holding, holding, show (d.pinned p).site.store.base = (d.site.store.base.reserve p).1 from hbase]
  exact .reserve hok

theorem samePins_ownAndReport (d : Demander) (job : PageJob) (p : PartitionId) :
    SamePins d.site.store.base (d.ownAndReport job p).site.store.base := by
  unfold ownAndReport
  rw [Site.store_report]
  exact Store.samePins_own d.site.store.base p

/-- A partition that can be reserved and locked. -/
theorem handling_locked (hr : (d.site.store.reserve p).2 = true)
    (hl : ((d.pinned p).site.store.base.tryLock p).2 = true) :
    Handling (d.holding .free) (((d.pinned p).withLock p).holding (.locked p)) :=
  .tail (.single (handles_pinned hr)) (.lock hl)

theorem handling_letGo (d : Demander) (p : PartitionId) :
    Handling (d.holding (.locked p)) ((d.letGo p).holding .free) := .tail (.single .unlock) .release

theorem samePins_takenIn (d : Demander) (job : PageJob) (p : PartitionId) (entries : List Entry) :
    SamePins d.site.store.base (d.takenIn job p entries).site.store.base :=
  Site.samePins_takeInAll d.site job.sender p entries

/-- A load works under the lock of its partition and lets go of it in the end. -/
theorem handling_load (d : Demander) (job : PageJob) (p : PartitionId) (entries : List Entry) :
    Handling (d.holding (.locked p)) ((d.load job p entries).1.holding .free) := by
  have hin := samePins_takenIn d job p entries
  rw [load_cases]
  split
  · have hown : SamePins d.site.store.base
        ((d.takenIn job p entries).ownLoaded job p).site.store.base := by
      rw [ownLoaded]
      exact (hin.trans (samePins_ownAndReport _ job p)).trans (beside_changeRound _ _ _).samePins
    exact (handling_work _ hown).trans (handling_letGo _ p)
  · exact (handling_work _ hin).trans (handling_letGo _ p)

/-- The work on a page begins and ends without a hold on anything, unless it waits for a lock: then
    it holds the reservation of the partition that it waits for. -/
theorem Walks.handling {todo : List (PartitionId × List Entry)} {w : Walked}
    (h : Walks job d todo e w) : Handling (d.holding .free) (e.holding w.hold) := by
  induction h with
  | finished => exact .refl
  | passed _ _ ih => exact (handling_work _ (beside_changeRound _ _ _).samePins).trans ih
  | unreservable => exact .refl
  | blocked _ _ hr => exact .single (handles_pinned hr)
  | failed _ _ hr hl => exact (handling_locked hr hl).trans (handling_load _ job _ _)
  | loaded _ _ hr hl _ _ ih =>
    exact ((handling_locked hr hl).trans (handling_load _ job _ _)).trans ih

theorem handling_walk (d : Demander) (job : PageJob) (todo : List (PartitionId × List Entry)) :
    Handling (d.holding .free) ((d.walk job todo).1.holding (d.walk job todo).2.hold) :=
  (walks d job todo).handling

/-- A page that goes on once the lock is free. -/
theorem handling_goOn (h : (d.site.store.base.tryLock p).2 = true) (job : PageJob)
    (entries : List Entry) (rest : List (PartitionId × List Entry)) :
    Handling (d.holding (.pinned p))
      ((d.goOn job p entries rest).1.holding (d.goOn job p entries rest).2.hold) := by
  have hload : Handling (d.holding (.pinned p))
      (((d.withLock p).load job p entries).1.holding .free) :=
    .head (.lock h) (handling_load (d.withLock p) job p entries)
  unfold goOn
  split
  · exact hload
  · exact hload.trans (handling_walk _ job rest)

-- ============================================================================
-- From step to step
-- ============================================================================

/-- What a job holds between two steps: the partition whose lock it waits for, reserved. -/
def holdOf (d : Demander) (id : JobId) : PartitionHold :=
  match (d.job? id).bind Job.waitsFor? with
  | some p => .pinned p
  | none => .free

theorem holdOf_of_job? {id : JobId} {j : Job} (h : d.job? id = some j) :
    d.holdOf id = match j.waitsFor? with
      | some p => .pinned p
      | none => .free := by
  rw [holdOf, h, Option.bind_some]

theorem holdOf_of_none {id : JobId} (h : d.job? id = none) : d.holdOf id = .free := by
  rw [holdOf, h, Option.bind_none]

/-- Only a page waits for a lock. -/
theorem holdOf_of_not_page {id : JobId} (h : ∀ j, d.job? id = some j → j.page? = none) :
    d.holdOf id = .free := by
  cases hj : d.job? id with
  | none => exact holdOf_of_none hj
  | some j =>
    rw [holdOf_of_job? hj]
    have hp := h j hj
    cases j with
    | locking => cases hp
    | _ => rfl

/-- A page that was worked through as far as it goes holds what the work left it with. -/
theorem holdOf_afterWalk (id : JobId) (job : PageJob) (x : Demander × Walked) :
    (afterWalk id job x).holdOf id = x.2.hold := by
  obtain ⟨e, w⟩ := x
  cases w with
  | finished =>
    change (e.endPage id job).holdOf id = .free
    rw [endPage_eq]
    split
    · exact holdOf_of_none ((job?_finish _ _ _ _).trans (if_pos rfl))
    · exact holdOf_of_job? ((job?_park _ _ _ _).trans (if_pos rfl))
  | blocked p entries rest => exact holdOf_of_job? ((job?_park _ _ _ _).trans (if_pos rfl))
  | failed cause => exact holdOf_of_none ((job?_finish _ _ _ _).trans (if_pos rfl))

theorem handling_afterWalk {g : PartitionHold} (id : JobId) {x : Demander × Walked}
    (h : Handling (d.holding g) (x.1.holding x.2.hold)) :
    Handling (d.holding g)
      ((afterWalk id job x).holding ((afterWalk id job x).holdOf id)) := by
  rw [holdOf_afterWalk]
  exact h.trans (handling_work _ (.of_eq (congrArg Tampered.base (site_afterWalk id job x).1)))

end Demander
end Rebalance
