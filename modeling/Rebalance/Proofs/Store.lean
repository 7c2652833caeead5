/-
  Rebalance.Proofs.Store

  What each operation of a store does to the three views that everything else
  is said in: the state of a partition, the slot of a key, and the recorded
  evictions.  No operation of a rebalance takes anything back that is stored:
  `Store.Grows` says so for one step and composes along any number of them.
-/
import Rebalance.Partition.Tampered

namespace Rebalance

namespace Revision

theorem atMost_refl (r : Revision) : r.atMost r = true := by
  simp [atMost, Key.below_irrefl]

theorem atMost_trans {a b c : Revision} (h₁ : a.atMost b = true) (h₂ : b.atMost c = true) :
    a.atMost c = true := by
  simp only [atMost, Bool.not_eq_true'] at *
  exact Key.not_below_trans h₁ h₂

/-- Of two revisions one is at most the other. -/
theorem atMost_of_not_atMost {a b : Revision} (h : a.atMost b = false) : b.atMost a = true := by
  simp only [atMost, Bool.not_eq_false'] at h
  simp only [atMost, Bool.not_eq_true']
  exact Key.below_asymm h

end Revision

namespace Store

variable (s : Store) (p q : PartitionId) (k key : Bytes)

-- ============================================================================
-- Views of a changed partition
-- ============================================================================

theorem get?_modify (f : Partition → Partition) :
    (s.modify p f).get? q = if q = p then (s.get? p).map f else s.get? q := by
  unfold modify
  cases h : s.get? p with
  | none =>
    by_cases hq : q = p
    · simp [hq, h]
    · simp [hq]
  | some part => simp [get?]

@[simp] theorem evictions_modify (f : Partition → Partition) :
    (s.modify p f).evictions = s.evictions := by
  unfold modify; split <;> rfl

@[simp] theorem capacity_modify (f : Partition → Partition) :
    (s.modify p f).capacity = s.capacity := by
  unfold modify; split <;> rfl

@[simp] theorem count_modify (f : Partition → Partition) : (s.modify p f).count = s.count := by
  unfold modify; split <;> rfl

/-- A change of a partition that keeps its state keeps every state. -/
theorem state?_modify {f : Partition → Partition} (hf : ∀ x, (f x).state = x.state) :
    (s.modify p f).state? q = s.state? q := by
  unfold state?
  rw [get?_modify]
  by_cases hq : q = p
  · rw [if_pos hq, hq, Option.map_map]
    congr 1
    funext x
    exact hf x
  · rw [if_neg hq]

/-- A change of a partition that keeps its slots keeps every slot. -/
theorem slot?_modify {f : Partition → Partition} (hf : ∀ x, (f x).slots = x.slots) :
    (s.modify p f).slot? q k = s.slot? q k := by
  unfold slot?
  rw [get?_modify]
  by_cases hq : q = p
  · rw [if_pos hq, hq]
    cases s.get? p with
    | none => rfl
    | some x => simp [hf]
  · rw [if_neg hq]

theorem state_eq_moving_iff : s.state p = .moving ↔ s.state? p = some .moving := by
  unfold state
  cases s.state? p <;> simp

-- ============================================================================
-- States
-- ============================================================================

theorem state?_setState (st : PartitionState) :
    (s.setState p st).state? q = if q = p then (s.state? p).map fun _ => st else s.state? q := by
  unfold state? setState
  rw [get?_modify]
  by_cases hq : q = p
  · simp [hq, Function.comp_def]
  · simp [hq]

@[simp] theorem slot?_setState (st : PartitionState) :
    (s.setState p st).slot? q k = s.slot? q k := slot?_modify s p q k fun _ => rfl

/-- Owning moves a partition on from moving, and does nothing else. -/
theorem state?_own :
    (s.own p).1.state? q =
      if q = p ∧ s.state? p = some .moving then some .owning else s.state? q := by
  unfold own
  by_cases h : s.state? p = some .moving
  · rw [if_pos h, state?_setState, h]
    by_cases hq : q = p
    · simp [hq]
    · simp [hq]
  · simp [h]

/-- Once a partition is to be owned, it is not moving any more. -/
theorem state?_own_ne_moving : (s.own p).1.state? p ≠ some .moving := by
  rw [state?_own]
  by_cases h : s.state? p = some .moving
  · simp [h]
  · simp [h]

@[simp] theorem slot?_own : (s.own p).1.slot? q k = s.slot? q k := by
  unfold own
  split
  · simp
  · rfl

-- ============================================================================
-- Reservations and locks
-- ============================================================================

@[simp] theorem state?_unlock : (s.unlock p).state? q = s.state? q :=
  state?_modify s p q fun _ => rfl

@[simp] theorem slot?_unlock : (s.unlock p).slot? q k = s.slot? q k :=
  slot?_modify s p q k fun _ => rfl

@[simp] theorem state?_release : (s.release p).state? q = s.state? q :=
  state?_modify s p q fun _ => rfl

@[simp] theorem slot?_release : (s.release p).slot? q k = s.slot? q k :=
  slot?_modify s p q k fun _ => rfl

@[simp] theorem state?_reserve : (s.reserve p).1.state? q = s.state? q := by
  unfold reserve
  split
  · rfl
  · rfl
  · exact state?_modify s p q fun _ => rfl

@[simp] theorem slot?_reserve : (s.reserve p).1.slot? q k = s.slot? q k := by
  unfold reserve
  split
  · rfl
  · rfl
  · exact slot?_modify s p q k fun _ => rfl

@[simp] theorem state?_tryLock : (s.tryLock p).1.state? q = s.state? q := by
  unfold tryLock
  split
  · rfl
  · split
    · rfl
    · exact state?_modify s p q fun _ => rfl

@[simp] theorem slot?_tryLock : (s.tryLock p).1.slot? q k = s.slot? q k := by
  unfold tryLock
  split
  · rfl
  · split
    · rfl
    · exact slot?_modify s p q k fun _ => rfl

-- ============================================================================
-- Slots
-- ============================================================================

theorem state?_modifySlots (f : SortedMap Bytes Slot → SortedMap Bytes Slot) :
    (s.modifySlots p f).state? q = s.state? q := state?_modify s p q fun _ => rfl

theorem slot?_modifySlots (f : SortedMap Bytes Slot → SortedMap Bytes Slot) :
    (s.modifySlots p f).slot? q k =
      if q = p then (s.get? p).bind fun part => (f part.slots).get? k else s.slot? q k := by
  unfold slot? modifySlots
  rw [get?_modify]
  by_cases hq : q = p
  · rw [if_pos hq, if_pos hq]
    exact Option.bind_map
  · simp [hq]

/-- The slot of a key after one slot was put into a partition that is there. -/
theorem slot?_putSlot {part : Partition} (h : s.get? p = some part) (slot : Slot) :
    (s.modifySlots p (·.insert key slot)).slot? q k =
      if q = p ∧ k = key then some slot else s.slot? q k := by
  rw [slot?_modifySlots]
  by_cases hq : q = p
  · subst hq
    by_cases hk : k = key
    · simp [h, hk]
    · simp [h, hk, slot?]
  · simp [hq]

@[simp] theorem state?_track : (s.track p key).state? q = s.state? q :=
  state?_modify s p q fun _ => rfl

@[simp] theorem slot?_track : (s.track p key).slot? q k = s.slot? q k :=
  slot?_modify s p q k fun _ => rfl

@[simp] theorem state?_discardIfEmpty :
    (s.discardIfEmpty p key).1.state? q = s.state? q := by
  unfold discardIfEmpty
  split
  · rfl
  · split
    · rfl
    · exact state?_modifySlots s p q _

/-- The value of a slot is never discarded. -/
theorem slot?_discardIfEmpty :
    (s.discardIfEmpty p key).1.slot? q k =
      if q = p ∧ k = key ∧ (s.slot? p key).all (·.value.isNone) then none else s.slot? q k := by
  unfold discardIfEmpty
  cases h : s.slot? p key with
  | none =>
    by_cases hq : q = p ∧ k = key
    · rw [hq.1, hq.2, h]; simp
    · simp only [Option.all_none, and_true, if_neg hq]
  | some slot =>
    cases hv : slot.value with
    | some v => simp [hv]
    | none =>
      simp only [hv, Option.isSome_none, Bool.false_eq_true, if_false]
      rw [slot?_modifySlots]
      by_cases hq : q = p
      · subst hq
        by_cases hk : k = key
        · subst hk
          cases hp : s.get? q <;> simp [hv]
        · cases hp : s.get? q <;> simp [hk, slot?, hp]
      · simp [hq]

-- ============================================================================
-- The conditional insert
-- ============================================================================

/-- Whether the store takes no new keys. -/
def isFull (s : Store) : Bool := s.capacity.any (· ≤ s.count)

/-- The slot that a write of a key finds: a fresh one where there is none. -/
def slotFor (s : Store) (p : PartitionId) (key : Bytes) : Slot := (s.slot? p key).getD {}

/-- Everything a conditional insert can do, with what it finds before. -/
inductive Insertion (s : Store) (p : PartitionId) (e : Entry) :
    Store → Except StoreFault InsertOutcome → Prop where
  | absent (h : s.get? p = none) : Insertion s p e s (.error (.partitionNotFound p))
  | invalid (part : Partition) (h : s.get? p = some part)
      (ha : part.state.acceptsWrites = false) : Insertion s p e s (.ok .partitionInvalid)
  | removed (ho : (s.slotFor p e.key).obsolete = true) : Insertion s p e s (.ok .removed)
  | alreadyNewer (v : Bytes) (hv : (s.slotFor p e.key).value = some v)
      (hr : e.revision.atMost (s.slotFor p e.key).revision = true) :
      Insertion s p e s (.ok .alreadyNewer)
  | replaced (part : Partition) (v : Bytes) (h : s.get? p = some part)
      (ho : (s.slotFor p e.key).obsolete = false) (hv : (s.slotFor p e.key).value = some v)
      (hr : e.revision.atMost (s.slotFor p e.key).revision = false) :
      Insertion s p e (s.modifySlots p (·.insert e.key ((s.slotFor p e.key).write e)))
        (.ok .inserted)
  | refused (part : Partition) (h : s.get? p = some part)
      (ho : (s.slotFor p e.key).obsolete = false) (hv : (s.slotFor p e.key).value = none)
      (hf : s.isFull = true) :
      Insertion s p e (s.modifySlots p (·.insert e.key (s.slotFor p e.key)))
        (.error (.capacityExceeded p))
  | created (part : Partition) (h : s.get? p = some part)
      (ho : (s.slotFor p e.key).obsolete = false) (hv : (s.slotFor p e.key).value = none)
      (hf : s.isFull = false) :
      Insertion s p e
        { s.modifySlots p (·.insert e.key ((s.slotFor p e.key).write e)) with
          count := s.count + 1 }
        (.ok .inserted)

theorem insertIfNewer_insertion (s : Store) (p : PartitionId) (e : Entry) :
    Insertion s p e (s.insertIfNewer p e).1 (s.insertIfNewer p e).2 := by
  unfold insertIfNewer
  cases h : s.get? p with
  | none => exact .absent h
  | some part =>
    have hslot : (part.slots.get? e.key).getD {} = s.slotFor p e.key := by
      simp [slotFor, slot?, h]
    simp only [hslot]
    cases ha : part.state.acceptsWrites with
    | false => exact .invalid part h ha
    | true =>
      cases ho : (s.slotFor p e.key).obsolete with
      | true => exact .removed ho
      | false =>
        cases hv : (s.slotFor p e.key).value with
        | some v =>
          cases hr : e.revision.atMost (s.slotFor p e.key).revision with
          | true => exact .alreadyNewer v hv hr
          | false => exact .replaced part v h ho hv hr
        | none =>
          have hfull : s.capacity.any (fun c => decide (c ≤ s.count)) = s.isFull := rfl
          cases hf : s.isFull with
          | true =>
            simp only [hfull, hf]
            exact .refused part h ho hv hf
          | false =>
            simp only [hfull, hf]
            exact .created part h ho hv hf

-- ============================================================================
-- Reading
-- ============================================================================

theorem read_of_slot?_eq {s t : Store} {p : PartitionId} {k : Bytes}
    (h : t.slot? p k = s.slot? p k) : t.read p k = s.read p k := by
  simp [read, h]

theorem read_eq_some_iff {s : Store} {p : PartitionId} {k v : Bytes} {r : Revision} :
    s.read p k = some (v, r) ↔
      (s.slotFor p k).value = some v ∧ (s.slotFor p k).revision = r := by
  unfold read slotFor
  cases s.slot? p k with
  | none => simp
  | some slot =>
    simp only [Option.bind_some, Option.map_eq_some_iff, Prod.mk.injEq, Option.getD_some]
    constructor
    · rintro ⟨a, ha, rfl, hr⟩
      exact ⟨ha, hr⟩
    · rintro ⟨ha, hr⟩
      exact ⟨v, ha, rfl, hr⟩

theorem read_eq_none_iff {s : Store} {p : PartitionId} {k : Bytes} :
    s.read p k = none ↔ (s.slotFor p k).value = none := by
  unfold read slotFor
  cases s.slot? p k <;> simp

-- ============================================================================
-- Nothing stored is taken back
-- ============================================================================

/-- What no operation of a rebalance undoes: recorded evictions stay, no partition starts to
    move, removed keys stay removed, stored revisions do not fall, and a full store takes no
    new key. -/
structure Grows (s t : Store) : Prop where
  evictions : t.evictions = s.evictions
  capacity : t.capacity = s.capacity
  count : s.count ≤ t.count
  moving : ∀ p, t.state? p = some .moving → s.state? p = some .moving
  obsolete : ∀ p k, (s.slotFor p k).obsolete = true → (t.slotFor p k).obsolete = true
  held : ∀ p k v r, s.read p k = some (v, r) →
    ∃ v' r', t.read p k = some (v', r') ∧ r.atMost r' = true
  full : s.isFull = true → ∀ p k, s.read p k = none → t.read p k = none

namespace Grows

theorem refl (s : Store) : Grows s s where
  evictions := rfl
  capacity := rfl
  count := Nat.le_refl _
  moving _ h := h
  obsolete _ _ h := h
  held _ _ v r h := ⟨v, r, h, Revision.atMost_refl r⟩
  full _ _ _ h := h

theorem isFull {s t : Store} (h : Grows s t) (hf : s.isFull = true) : t.isFull = true := by
  unfold Store.isFull at *
  rw [h.capacity]
  cases hc : s.capacity with
  | none => simp [hc] at hf
  | some c =>
    have := h.count
    simp only [hc, Option.any_some, decide_eq_true_eq] at *
    omega

theorem trans {s t u : Store} (h₁ : Grows s t) (h₂ : Grows t u) : Grows s u where
  evictions := h₂.evictions.trans h₁.evictions
  capacity := h₂.capacity.trans h₁.capacity
  count := Nat.le_trans h₁.count h₂.count
  moving p h := h₁.moving p (h₂.moving p h)
  obsolete p k h := h₂.obsolete p k (h₁.obsolete p k h)
  held p k v r h := by
    obtain ⟨v', r', h', hr⟩ := h₁.held p k v r h
    obtain ⟨v'', r'', h'', hr'⟩ := h₂.held p k v' r' h'
    exact ⟨v'', r'', h'', Revision.atMost_trans hr hr'⟩
  full hf p k h := h₂.full (h₁.isFull hf) p k (h₁.full hf p k h)

/-- A change that keeps slots, evictions, capacity and count, and moves no partition into
    moving, undoes nothing. -/
theorem of_slots {s t : Store} (he : t.evictions = s.evictions) (hc : t.capacity = s.capacity)
    (hn : t.count = s.count) (hm : ∀ p, t.state? p = some .moving → s.state? p = some .moving)
    (hs : ∀ p k, t.slot? p k = s.slot? p k) : Grows s t where
  evictions := he
  capacity := hc
  count := Nat.le_of_eq hn.symm
  moving := hm
  obsolete p k h := by
    rw [slotFor, hs p k]
    exact h
  held p k v r h := ⟨v, r, (read_of_slot?_eq (hs p k)).trans h, Revision.atMost_refl r⟩
  full _ p k h := (read_of_slot?_eq (hs p k)).trans h

end Grows

theorem grows_modify (s : Store) (p : PartitionId) {f : Partition → Partition}
    (hs : ∀ x, (f x).slots = x.slots) (hm : ∀ x, (f x).state = x.state) :
    Grows s (s.modify p f) := by
  apply Grows.of_slots (by simp) (by simp) (by simp)
  · intro q h
    rw [state?_modify s p q hm] at h
    exact h
  · intro q k
    exact slot?_modify s p q k hs

theorem grows_unlock (s : Store) (p : PartitionId) : Grows s (s.unlock p) :=
  grows_modify s p (fun _ => rfl) fun _ => rfl

theorem grows_release (s : Store) (p : PartitionId) : Grows s (s.release p) :=
  grows_modify s p (fun _ => rfl) fun _ => rfl

theorem grows_reserve (s : Store) (p : PartitionId) : Grows s (s.reserve p).1 := by
  unfold reserve
  split
  · exact .refl s
  · exact .refl s
  · exact grows_modify s p (fun _ => rfl) fun _ => rfl

theorem grows_tryLock (s : Store) (p : PartitionId) : Grows s (s.tryLock p).1 := by
  unfold tryLock
  split
  · exact .refl s
  · split
    · exact .refl s
    · exact grows_modify s p (fun _ => rfl) fun _ => rfl

theorem grows_track (s : Store) (p : PartitionId) (key : Bytes) : Grows s (s.track p key) :=
  grows_modify s p (fun _ => rfl) fun _ => rfl

theorem grows_setState (s : Store) (p : PartitionId) {st : PartitionState} (h : st ≠ .moving) :
    Grows s (s.setState p st) := by
  apply Grows.of_slots
  · simp [setState]
  · simp [setState]
  · simp [setState]
  · intro q hq
    rw [state?_setState] at hq
    by_cases hqp : q = p
    · rw [if_pos hqp] at hq
      cases hp : s.state? p with
      | none => simp [hp] at hq
      | some old => simp [hp, h] at hq
    · rw [if_neg hqp] at hq
      exact hq
  · intro q k
    exact slot?_setState s p q k st

/-- Moving on to a state that takes writes or not, but never to moving. -/
theorem state?_setState_ne (s : Store) {p q : PartitionId} (st : PartitionState) (h : q ≠ p) :
    (s.setState p st).state? q = s.state? q := by
  rw [state?_setState, if_neg h]

theorem grows_own (s : Store) (p : PartitionId) : Grows s (s.own p).1 := by
  unfold own
  split
  · exact grows_setState s p (by decide)
  · exact .refl s

end Store

end Rebalance
