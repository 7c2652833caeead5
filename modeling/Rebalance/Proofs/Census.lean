/-
  Rebalance.Proofs.Census

  The count of a store and the values that are in it.  A store keeps its count
  apart from the slots, and several operations fill, overwrite, empty and
  remove slots.  For each of them `stored` says how many values there are
  afterwards, and so `Counted`, that the count is that number, holds of every
  store that any operations made of an empty one (`Made.counted`).  `holding`
  lists the places of the values, and `Tallied` is what a count that is right
  can be relied on for (`count_is_number_of_values`).  The work on an entry is
  a few operations of the store (`takeIn_operations`).
-/
import Mathlib.Algebra.GroupWithZero.Nat
import Rebalance.Proofs.Intake

namespace Rebalance

-- ============================================================================
-- Sums over a map
-- ============================================================================

namespace SortedMap

universe u v

variable {κ : Type u} {ν : Type v} [Key κ] [DecidableEq κ]

/-- What a measure comes to at one key of a map. -/
def weightAt (f : ν → Nat) (m : SortedMap κ ν) (k : κ) : Nat := (m.get? k).elim 0 f

omit [Key κ] in
theorem filter_ne_of_not_mem {l : List (κ × ν)} {k : κ} (h : k ∉ l.map Prod.fst) :
    l.filter (fun e => !decide (e.1 = k)) = l := by
  rw [List.filter_eq_self]
  intro e he
  have hne : e.1 ≠ k := fun heq => h (heq ▸ List.mem_map_of_mem he)
  simpa using hne

/-- Of a sum over a map the part of one key can be taken away. -/
theorem sum_erase (f : ν → Nat) (m : SortedMap κ ν) (k : κ) :
    ((m.erase k).values.map f).sum + m.weightAt f k = (m.values.map f).sum := by
  obtain ⟨l, hl⟩ := m
  unfold values erase filter weightAt get?
  induction l with
  | nil => rfl
  | cons x l ih =>
    obtain ⟨k', v⟩ := x
    rw [List.map_cons, List.pairwise_cons] at hl
    by_cases hk : k' = k
    · subst hk
      have hmem : k' ∉ l.map Prod.fst := fun hmem => Key.ne_of_below (hl.1 k' hmem) rfl
      simp [find, filter_ne_of_not_mem hmem, Nat.add_comm]
    · have := ih hl.2
      simp only [ne_eq, decide_not] at this
      simp only [find, hk, if_false, List.map_cons, List.sum_cons, ne_eq, decide_not, decide_false,
        Bool.not_false, List.filter_cons_of_pos]
      omega

/-- A value put into a map takes the part of the one that was there. -/
theorem sum_insert (f : ν → Nat) (m : SortedMap κ ν) (k : κ) (v : ν) :
    ((m.insert k v).values.map f).sum + m.weightAt f k = (m.values.map f).sum + f v := by
  have hins := sum_erase f (m.insert k v) k
  have hold := sum_erase f m k
  have hnew : (m.insert k v).weightAt f k = f v := by
    rw [weightAt, get?_insert_self]
    rfl
  rw [erase_insert, hnew] at hins
  omega

end SortedMap

-- ============================================================================
-- How many values are stored
-- ============================================================================

/-- One for a slot that holds a value. -/
def Slot.weight (s : Slot) : Nat := if s.value.isSome then 1 else 0

/-- How many slots of a partition hold a value. -/
def Partition.stored (part : Partition) : Nat := part.live.length

/-- How many slots of a store hold a value. -/
def Store.stored (s : Store) : Nat := (s.partitions.values.map Partition.stored).sum

theorem Partition.stored_eq (part : Partition) :
    part.stored = (part.slots.values.map Slot.weight).sum := by
  unfold stored live SortedMap.values
  induction part.slots.toList with
  | nil => rfl
  | cons x l ih =>
    cases hv : x.2.value with
    | none => simp [hv, ih, Slot.weight]
    | some v => simp [hv, ih, Slot.weight, Nat.add_comm]

/-- The entries of a partition are the slots of it that hold a value. -/
theorem Partition.length_entries (part : Partition) : part.entries.length = part.stored :=
  List.length_map ..

namespace Store

variable (s : Store) (p : PartitionId) (k : Bytes)

/-- The part that one key has in what is stored. -/
def storedAt : Nat := (s.slot? p k).elim 0 Slot.weight

theorem storedAt_eq : s.storedAt p k = (s.slotFor p k).weight := by
  unfold storedAt slotFor
  cases s.slot? p k <;> rfl

/-- A change of a partition that keeps how much is stored in it. -/
theorem stored_modify_of_same {f : Partition → Partition}
    (h : ∀ part, s.get? p = some part → (f part).stored = part.stored) :
    (s.modify p f).stored = s.stored := by
  unfold modify
  cases hp : s.get? p with
  | none => rfl
  | some part =>
    have hsum := SortedMap.sum_insert Partition.stored s.partitions p (f part)
    have hold : s.partitions.weightAt Partition.stored p = part.stored := by
      rw [SortedMap.weightAt, show s.partitions.get? p = some part from hp]
      rfl
    rw [h part hp, hold] at hsum
    exact Nat.add_right_cancel hsum

/-- A change of the slots of a partition that is there, by what it does to its own. -/
theorem stored_modifySlots {part : Partition} (hp : s.get? p = some part)
    (f : SortedMap Bytes Slot → SortedMap Bytes Slot) :
    (s.modifySlots p f).stored + (part.slots.values.map Slot.weight).sum =
      s.stored + ((f part.slots).values.map Slot.weight).sum := by
  have hsum := SortedMap.sum_insert Partition.stored s.partitions p
    { part with slots := f part.slots }
  have hold : s.partitions.weightAt Partition.stored p = part.stored := by
    rw [SortedMap.weightAt, show s.partitions.get? p = some part from hp]
    rfl
  rw [hold, Partition.stored_eq, Partition.stored_eq] at hsum
  unfold modifySlots modify
  rw [hp]
  exact hsum

theorem storedAt_of_get? {part : Partition} (hp : s.get? p = some part) :
    s.storedAt p k = part.slots.weightAt Slot.weight k := by
  rw [storedAt, slot?, hp]
  rfl

/-- A slot that is put into place counts instead of the one it replaces. -/
theorem stored_putSlot {part : Partition} (hp : s.get? p = some part) (slot : Slot) :
    (s.modifySlots p (·.insert k slot)).stored + s.storedAt p k = s.stored + slot.weight := by
  have hpart := stored_modifySlots s p hp (·.insert k slot)
  have hslots := SortedMap.sum_insert Slot.weight part.slots k slot
  rw [storedAt_of_get? s p k hp]
  omega

/-- A slot that is removed counts no more. -/
theorem stored_eraseSlot :
    (s.modifySlots p (·.erase k)).stored + s.storedAt p k = s.stored := by
  cases hp : s.get? p with
  | none =>
    have hsame : s.modifySlots p (·.erase k) = s := by rw [modifySlots, modify, hp]
    rw [hsame, storedAt, slot?, hp]
    rfl
  | some part =>
    have hpart := stored_modifySlots s p hp (·.erase k)
    have hslots := SortedMap.sum_erase Slot.weight part.slots k
    rw [storedAt_of_get? s p k hp]
    omega

theorem storedAt_eq_one {s : Store} {p : PartitionId} {k : Bytes} {slot : Slot}
    (h : s.slot? p k = some slot) (hv : slot.value.isSome = true) : s.storedAt p k = 1 := by
  simp [storedAt, h, Slot.weight, hv]

theorem storedAt_eq_zero {s : Store} {p : PartitionId} {k : Bytes} {slot : Slot}
    (h : s.slot? p k = some slot) (hv : slot.value.isSome = false) : s.storedAt p k = 0 := by
  simp [storedAt, h, Slot.weight, hv]

theorem isSome_read (s : Store) (p : PartitionId) (k : Bytes) :
    (s.read p k).isSome = true ↔ s.storedAt p k = 1 := by
  unfold read storedAt
  cases s.slot? p k with
  | none => simp
  | some slot => cases hv : slot.value <;> simp [Slot.weight, hv]

theorem storedAt_le : s.storedAt p k ≤ 1 := by
  rw [storedAt_eq, Slot.weight]
  split
  · exact Nat.le_refl 1
  · exact Nat.zero_le 1

-- ============================================================================
-- Operations
-- ============================================================================

/-- What can be done to a store from outside. -/
inductive Operation where
  | create (p : PartitionId) (st : PartitionState)
  | setState (p : PartitionId) (st : PartitionState)
  | put (p : PartitionId) (e : Entry)
  | insertIfNewer (p : PartitionId) (e : Entry)
  | evict (p : PartitionId) (k : Bytes)
  | markObsolete (p : PartitionId) (k : Bytes)
  | discardIfEmpty (p : PartitionId) (k : Bytes)
  | own (p : PartitionId)
  | reserve (p : PartitionId)
  | release (p : PartitionId)
  | tryLock (p : PartitionId)
  | unlock (p : PartitionId)
  | track (p : PartitionId) (k : Bytes)

/-- A store after an operation; what the operation answers is left out. -/
def operate (s : Store) : Operation → Store
  | .create p st => s.create p st
  | .setState p st => s.setState p st
  | .put p e => s.put p e
  | .insertIfNewer p e => (s.insertIfNewer p e).1
  | .evict p k => s.evict p k
  | .markObsolete p k => s.markObsolete p k
  | .discardIfEmpty p k => (s.discardIfEmpty p k).1
  | .own p => (s.own p).1
  | .reserve p => (s.reserve p).1
  | .release p => s.release p
  | .tryLock p => (s.tryLock p).1
  | .unlock p => s.unlock p
  | .track p k => s.track p k

/-- A store after some operations. -/
def operateAll (s : Store) (ops : List Operation) : Store := ops.foldl operate s

theorem operateAll_append (s : Store) (ops more : List Operation) :
    s.operateAll (ops ++ more) = (s.operateAll ops).operateAll more := List.foldl_append

/-- A store that some operations made of an empty one. -/
def Made (s : Store) : Prop := ∃ capacity ops, s = operateAll { capacity } ops

theorem made_empty (capacity : Option Nat) : Made { capacity } := ⟨capacity, [], rfl⟩

theorem Made.operateAll {s : Store} (h : s.Made) (ops : List Operation) :
    (s.operateAll ops).Made := by
  obtain ⟨capacity, before, rfl⟩ := h
  exact ⟨capacity, before ++ ops, (operateAll_append _ before ops).symm⟩

-- ============================================================================
-- The count is right
-- ============================================================================

/-- The count of a store is the number of its values. -/
def Counted (s : Store) : Prop := s.count = s.stored

variable {s p k}

/-- A change that keeps count and values. -/
theorem Counted.of_same {t : Store} (h : s.Counted) (hc : t.count = s.count)
    (hs : t.stored = s.stored) : t.Counted := by
  rw [Counted, hc, hs]
  exact h

theorem Counted.modify (h : s.Counted) {f : Partition → Partition}
    (hf : ∀ x, (f x).slots = x.slots) : (s.modify p f).Counted := by
  refine h.of_same (count_modify s p f) (stored_modify_of_same s p fun part _ => ?_)
  rw [Partition.stored_eq, Partition.stored_eq, hf]

theorem counted_empty (capacity : Option Nat) : Counted { capacity } := rfl

theorem Counted.create (h : s.Counted) (st : PartitionState) : (s.create p st).Counted := by
  cases hp : s.get? p with
  | none =>
    have hsum := SortedMap.sum_insert Partition.stored s.partitions p { state := st }
    have hold : s.partitions.weightAt Partition.stored p = 0 := by
      rw [SortedMap.weightAt, show s.partitions.get? p = none from hp]
      rfl
    rw [hold] at hsum
    unfold Store.create
    rw [hp]
    exact h.of_same rfl hsum
  | some part =>
    have hset : s.create p st = s.setState p st := by
      rw [Store.create, setState, Store.modify, hp]
    rw [hset]
    exact h.modify fun _ => rfl

theorem Counted.setState (h : s.Counted) (st : PartitionState) : (s.setState p st).Counted :=
  h.modify fun _ => rfl

theorem Counted.put (h : s.Counted) (e : Entry) : (s.put p e).Counted := by
  unfold Store.put
  cases hp : s.get? p with
  | none => exact h
  | some part =>
    have hput := stored_putSlot s p e.key hp (({} : Slot).write e)
    have hone : (({} : Slot).write e).weight = 1 := rfl
    have hread := isSome_read s p e.key
    have hle := storedAt_le s p e.key
    rw [Counted] at h
    rw [hone] at hput
    change (if (s.read p e.key).isSome = true then s.count else s.count + 1) = _
    by_cases hr : (s.read p e.key).isSome = true
    · rw [if_pos hr, h]
      have := hread.mp hr
      change s.stored = (s.modifySlots p _).stored
      omega
    · rw [if_neg hr, h]
      have : s.storedAt p e.key ≠ 1 := fun hone => hr (hread.mpr hone)
      change s.stored + 1 = (s.modifySlots p _).stored
      omega

/-- An eviction takes from the count what the slot held, which is never more than there is. -/
theorem Counted.evict (h : s.Counted) : (s.evict p k).Counted := by
  unfold Store.evict
  cases hslot : s.slot? p k with
  | none => exact h
  | some slot =>
    have herase := stored_eraseSlot s p k
    rw [Counted] at h
    change (if slot.value.isSome = true then s.count - 1 else s.count) =
      (s.modifySlots p (·.erase k)).stored
    cases hv : slot.value.isSome with
    | true =>
      rw [storedAt_eq_one hslot hv] at herase
      rw [if_pos rfl, h]
      omega
    | false =>
      rw [storedAt_eq_zero hslot hv] at herase
      rw [if_neg Bool.false_ne_true, h]
      omega

theorem Counted.markObsolete (h : s.Counted) : (s.markObsolete p k).Counted := by
  cases hp : s.get? p with
  | none =>
    have hsame : s.markObsolete p k = s := by
      rw [Store.markObsolete, modifySlots, Store.modify, hp]
    rw [hsame]
    exact h
  | some part =>
    have hmark : s.markObsolete p k =
        s.modifySlots p (·.insert k { s.slotFor p k with obsolete := true }) := by
      have hslot : part.slots.get? k = s.slot? p k := by rw [slot?, hp]; rfl
      rw [Store.markObsolete, modifySlots, modifySlots, Store.modify, Store.modify, hp]
      simp only [SortedMap.alter, hslot, slotFor]
    have hput := stored_putSlot s p k hp { s.slotFor p k with obsolete := true }
    have hweight : Slot.weight { s.slotFor p k with obsolete := true } = s.storedAt p k :=
      (storedAt_eq s p k).symm
    rw [hweight] at hput
    rw [hmark]
    exact h.of_same (count_modify s p _) (Nat.add_right_cancel hput)

/-- Only a slot without a value is discarded. -/
theorem Counted.discardIfEmpty (h : s.Counted) : (s.discardIfEmpty p k).1.Counted := by
  unfold Store.discardIfEmpty
  cases hslot : s.slot? p k with
  | none => exact h
  | some slot =>
    cases hv : slot.value.isSome with
    | true => simpa [hv] using h
    | false =>
      have herase := stored_eraseSlot s p k
      rw [storedAt_eq_zero hslot hv] at herase
      simp only [hv, Bool.false_eq_true, if_false]
      exact h.of_same (count_modify s p _) herase

theorem Counted.own (h : s.Counted) : (s.own p).1.Counted := by
  unfold Store.own
  split
  · exact h.setState _
  · exact h

theorem Counted.reserve (h : s.Counted) : (s.reserve p).1.Counted := by
  unfold Store.reserve
  split
  · exact h
  · exact h
  · exact h.modify fun _ => rfl

theorem Counted.tryLock (h : s.Counted) : (s.tryLock p).1.Counted := by
  unfold Store.tryLock
  split
  · exact h
  · split
    · exact h
    · exact h.modify fun _ => rfl

theorem Insertion.counted {t : Store} {e : Entry} {r : Except StoreFault InsertOutcome}
    (hi : Insertion s p e t r) (h : s.Counted) : t.Counted := by
  have hone : ((s.slotFor p e.key).write e).weight = 1 := rfl
  cases hi with
  | absent => exact h
  | invalid => exact h
  | removed => exact h
  | alreadyNewer => exact h
  | replaced part v hp ho hv hr =>
    have hput := stored_putSlot s p e.key hp ((s.slotFor p e.key).write e)
    rw [storedAt_eq, hone, Slot.weight, hv] at hput
    exact h.of_same (count_modify s p _) (Nat.add_right_cancel hput)
  | refused part hp ho hv hf =>
    have hput := stored_putSlot s p e.key hp (s.slotFor p e.key)
    rw [storedAt_eq] at hput
    exact h.of_same (count_modify s p _) (Nat.add_right_cancel hput)
  | created part hp ho hv hf =>
    have hput := stored_putSlot s p e.key hp ((s.slotFor p e.key).write e)
    rw [storedAt_eq, hone, Slot.weight, hv] at hput
    rw [Counted] at h
    change s.count + 1 = (s.modifySlots p _).stored
    rw [h]
    exact hput.symm

/-- Every operation keeps the count right. -/
theorem Counted.operate (h : s.Counted) (op : Operation) : (s.operate op).Counted := by
  cases op with
  | create p st => exact h.create st
  | setState p st => exact h.setState st
  | put p e => exact h.put e
  | insertIfNewer p e => exact (insertIfNewer_insertion s p e).counted h
  | evict p k => exact h.evict
  | markObsolete p k => exact h.markObsolete
  | discardIfEmpty p k => exact h.discardIfEmpty
  | own p => exact h.own
  | reserve p => exact h.reserve
  | release p => exact h.modify fun _ => rfl
  | tryLock p => exact h.tryLock
  | unlock p => exact h.modify fun _ => rfl
  | track p k => exact h.modify fun _ => rfl

theorem Counted.operateAll (h : s.Counted) (ops : List Operation) :
    (s.operateAll ops).Counted := by
  induction ops generalizing s with
  | nil => exact h
  | cons op ops ih => exact ih (h.operate op)

theorem Made.counted (h : s.Made) : s.Counted := by
  obtain ⟨capacity, ops, rfl⟩ := h
  exact (counted_empty capacity).operateAll ops

-- ============================================================================
-- The places that hold a value
-- ============================================================================

/-- The keys that hold a value, with their partitions. -/
def holding (s : Store) : List (PartitionId × Bytes) :=
  s.partitions.toList.flatMap fun e => e.2.live.map fun l => (e.1, l.1)

theorem mem_holding : (p, k) ∈ s.holding ↔ (s.read p k).isSome = true := by
  unfold holding
  simp only [List.mem_flatMap, List.mem_map, Partition.live, List.mem_filterMap, Prod.mk.injEq]
  constructor
  · rintro ⟨⟨q, part⟩, hpart, ⟨key, v, slot⟩, ⟨⟨key', slot'⟩, hslot, hv⟩, rfl, rfl⟩
    obtain ⟨w, hw, he⟩ := Option.map_eq_some_iff.mp hv
    simp only [Prod.mk.injEq] at he
    obtain ⟨rfl, rfl, rfl⟩ := he
    have hget : s.slot? q key' = some slot' := by
      rw [slot?, get?, SortedMap.get?_eq_some_iff.mpr hpart]
      exact SortedMap.get?_eq_some_iff.mpr hslot
    have hval : slot'.value = some w := hw
    rw [read, hget, Option.bind_some, hval]
    rfl
  · intro hread
    obtain ⟨⟨v, r⟩, hv⟩ := Option.isSome_iff_exists.mp hread
    obtain ⟨slot, hslot, hval⟩ := Option.bind_eq_some_iff.mp hv
    obtain ⟨part, hpart, hkey⟩ := Option.bind_eq_some_iff.mp hslot
    obtain ⟨w, hw, -⟩ := Option.map_eq_some_iff.mp hval
    refine ⟨(p, part), SortedMap.get?_eq_some_iff.mp hpart, (k, w, slot), ⟨(k, slot), ?_, ?_⟩,
      rfl, rfl⟩
    · exact SortedMap.get?_eq_some_iff.mp hkey
    · rw [hw]
      rfl

/-- No place is listed twice: partitions differ from each other, and so do the keys of each. -/
theorem nodup_holding (s : Store) : s.holding.Nodup := by
  unfold holding List.Nodup
  rw [List.pairwise_flatMap]
  constructor
  · rintro ⟨q, part⟩ -
    rw [List.pairwise_map, Partition.live]
    refine List.Pairwise.filterMap _ ?_ (List.pairwise_map.mp part.slots.ordered)
    rintro ⟨a, x⟩ ⟨b, y⟩ hab u hu v hv heq
    obtain ⟨_, -, rfl⟩ := Option.map_eq_some_iff.mp hu
    obtain ⟨_, -, rfl⟩ := Option.map_eq_some_iff.mp hv
    exact Key.ne_of_below hab (congrArg Prod.snd heq)
  · refine (List.pairwise_map.mp s.partitions.ordered).imp ?_
    rintro ⟨a, x⟩ ⟨b, y⟩ hab u hu v hv rfl
    obtain ⟨_, -, ha⟩ := List.mem_map.mp hu
    obtain ⟨_, -, hb⟩ := List.mem_map.mp hv
    exact Key.ne_of_below hab ((congrArg Prod.fst ha).trans (congrArg Prod.fst hb).symm)

theorem length_holding (s : Store) : s.holding.length = s.stored := by
  unfold holding stored SortedMap.values
  rw [List.length_flatMap, List.map_map]
  exact congrArg List.sum (List.map_congr_left fun e _ => List.length_map ..)

/-- The entries of all partitions together are as many as the values. -/
theorem sum_entries (s : Store) :
    (s.partitions.keys.toList.map fun p => (s.entries p).length).sum = s.stored := by
  unfold stored SortedMap.values SortedMap.keys
  rw [List.map_map, List.map_map]
  refine congrArg List.sum (List.map_congr_left fun e he => ?_)
  have hget : s.get? e.1 = some e.2 := SortedMap.get?_eq_some_iff.mpr he
  change (s.entries e.1).length = e.2.stored
  rw [entries, hget]
  exact e.2.length_entries

theorem entries_of_not_mem (h : p ∉ s.partitions.keys) : s.entries p = [] := by
  have hnone : s.get? p = none := by
    cases hp : s.get? p with
    | none => rfl
    | some part => exact absurd (SortedMap.mem_keys_iff.mpr (Option.isSome_of_eq_some hp)) h
  rw [entries, hnone]

-- ============================================================================
-- What the count says
-- ============================================================================

/-- Where a value is stored there is at least one to be counted. -/
theorem Counted.count_evict (h : s.Counted) (hv : (s.read p k).isSome = true) :
    (s.evict p k).count + 1 = s.count := by
  have hone := (isSome_read s p k).mp hv
  have herase := stored_eraseSlot s p k
  obtain ⟨⟨v, r⟩, hread⟩ := Option.isSome_iff_exists.mp hv
  obtain ⟨slot, hslot, hval⟩ := Option.bind_eq_some_iff.mp hread
  obtain ⟨w, hw, -⟩ := Option.map_eq_some_iff.mp hval
  rw [Counted] at h
  unfold Store.evict
  simp only [hslot, hw, Option.isSome_some, if_true]
  omega

theorem count_evict_of_none (h : s.read p k = none) : (s.evict p k).count = s.count := by
  unfold evict
  cases hslot : s.slot? p k with
  | none => rfl
  | some slot =>
    have hnone : slot.value = none := by
      have := read_eq_none_iff.mp h
      rwa [slotFor, hslot] at this
    simp only [hnone, Option.isSome_none, Bool.false_eq_true, if_false]

/-- What the count of a store can be relied on for. -/
structure Tallied (s : Store) : Prop where
  /-- It is how many places hold a value, -/
  count : s.count = s.holding.length
  /-- each of which is listed once, -/
  once : s.holding.Nodup
  /-- and which are those where a value is read. -/
  held : ∀ p k, (p, k) ∈ s.holding ↔ (s.read p k).isSome = true
  /-- It is how many entries the partitions have together, -/
  entries : s.count = (s.partitions.keys.toList.map fun p => (s.entries p).length).sum
  /-- where one that is not there has none. -/
  absent : ∀ p, p ∉ s.partitions.keys → s.entries p = []
  /-- Evicting a value takes one off, and there is one to take, -/
  evicted : ∀ p k, (s.read p k).isSome = true → (s.evict p k).count + 1 = s.count
  /-- while evicting anything else takes nothing off. -/
  spared : ∀ p k, s.read p k = none → (s.evict p k).count = s.count

/-- Whatever is done to a store: its count is the number of values in it, and never has to go
    below zero. -/
theorem count_is_number_of_values (capacity : Option Nat) (ops : List Operation) :
    (operateAll { capacity } ops).Tallied where
  count := by
    rw [length_holding]
    exact (counted_empty capacity).operateAll ops
  once := nodup_holding _
  held _ _ := mem_holding
  entries := by
    rw [sum_entries]
    exact (counted_empty capacity).operateAll ops
  absent _ := entries_of_not_mem
  evicted _ _ := ((counted_empty capacity).operateAll ops).count_evict
  spared _ _ := count_evict_of_none

end Store

-- ============================================================================
-- The operations of an intake
-- ============================================================================

namespace Site

variable (s : Site) (sender : NodeId) (p : PartitionId) (e : Entry)

/-- Writing an entry that reaches a store is at most two operations of it. -/
theorem insert_operations :
    ∃ ops, (s.store.insertIfNewer p e).1.base = s.store.base.operateAll ops := by
  unfold Tampered.insertIfNewer
  cases s.store.rejected.get? e.key with
  | some reason => exact ⟨[], rfl⟩
  | none =>
    by_cases hk : e.key ∈ s.store.invalidating
    · refine ⟨[.setState p .invalid, .insertIfNewer p e], ?_⟩
      simp only [if_pos hk]
      rfl
    · refine ⟨[.insertIfNewer p e], ?_⟩
      simp only [if_neg hk]
      rfl

theorem settleWrite_operations (r : Except StoreFault InsertOutcome) :
    ∃ ops, (s.settleWrite sender p e r).1.store.base = s.store.base.operateAll ops := by
  rw [store_settleWrite]
  split
  · exact ⟨[.track p e.key], rfl⟩
  · exact ⟨[.discardIfEmpty p e.key], rfl⟩
  · exact ⟨[], rfl⟩

/-- Taking in an entry does nothing to a store that its operations could not do. -/
theorem takeIn_operations :
    ∃ ops, (s.takeIn sender p e).1.store.base = s.store.base.operateAll ops := by
  rw [takeIn_eq]
  split
  · exact ⟨[], rfl⟩
  · obtain ⟨before, hbefore⟩ := insert_operations s p e
    obtain ⟨after, hafter⟩ := settleWrite_operations
      { s with store := (s.store.insertIfNewer p e).1 } sender p e (s.store.insertIfNewer p e).2
    refine ⟨before ++ after, hafter.trans ?_⟩
    rw [hbefore, Store.operateAll_append]

end Site
end Rebalance
