/-
  Rebalance.Proofs.Ceiling

  A store with a capacity while entries come in and other things are done to
  it.  The store sees whether it is full by a count that it keeps apart, and
  makes the slot of a new key before it asks; taking the slot away again is a
  second call.  `Site.Within` is what one entry that is handed in can come to
  at the ceiling, and `Store.Tidy` that no slot is left empty.  Both hold
  after anything that was done before (`capacity_is_kept`).
-/
import Rebalance.Proofs.Census
import Rebalance.Proofs.Meters
import Rebalance.Proofs.Winner
import Rebalance.Proofs.Repeated

namespace Rebalance
namespace Store

variable {s t : Store} {p : PartitionId} {e : Entry} {k : Bytes}

-- ============================================================================
-- Stores without empty slots
-- ============================================================================

/-- Every slot holds a value or marks a removed key. -/
def Tidy (s : Store) : Prop :=
  ∀ p k slot, s.slot? p k = some slot → slot.value.isSome = true ∨ slot.obsolete = true

theorem tidy_empty (capacity : Option Nat) : Tidy { capacity } := by
  intro p k slot hslot
  rw [slot?] at hslot
  cases hslot

/-- Slots that are there afterwards were there before, or are not empty. -/
theorem Tidy.of_slot? (h : s.Tidy) (hs : ∀ q k slot, t.slot? q k = some slot →
    s.slot? q k = some slot ∨ slot.value.isSome = true ∨ slot.obsolete = true) : t.Tidy := by
  intro q k slot hslot
  rcases hs q k slot hslot with hold | hnew
  · exact h q k slot hold
  · exact hnew

/-- A change that keeps all slots. -/
theorem Tidy.of_same (h : s.Tidy) (hs : ∀ q k, t.slot? q k = s.slot? q k) : t.Tidy :=
  h.of_slot? fun q k _ hslot => .inl ((hs q k).symm.trans hslot)

/-- In a tidy store a key that may be written and holds nothing has no slot. -/
theorem Tidy.slot?_eq_none (h : s.Tidy) (ho : (s.slotFor p k).obsolete = false)
    (hv : (s.slotFor p k).value = none) : s.slot? p k = none := by
  cases hslot : s.slot? p k with
  | none => rfl
  | some slot =>
    have hfor : s.slotFor p k = slot := by rw [slotFor, hslot]; rfl
    rw [hfor] at ho hv
    rcases h p k slot hslot with hsome | hobs
    · rw [hv] at hsome
      cases hsome
    · rw [ho] at hobs
      cases hobs

theorem slot?_create (st : PartitionState) (q : PartitionId) :
    (s.create p st).slot? q k = s.slot? q k := by
  cases hp : s.get? p with
  | none =>
    unfold create slot?
    rw [hp]
    by_cases hq : q = p
    · simp [get?, hq, show s.partitions.get? p = none from hp]
    · simp [get?, hq]
  | some part =>
    have hset : s.create p st = s.setState p st := by rw [create, setState, modify, hp]
    rw [hset, slot?_setState]

theorem slot?_eraseSlot (key : Bytes) (q : PartitionId) :
    (s.modifySlots p (·.erase key)).slot? q k =
      if q = p ∧ k = key then none else s.slot? q k := by
  rw [slot?_modifySlots]
  by_cases hq : q = p
  · subst hq
    by_cases hk : k = key
    · cases hp : s.get? q <;> simp [hk]
    · cases hp : s.get? q <;> simp [hk, slot?, hp]
  · simp [hq]

theorem Tidy.putSlot (h : s.Tidy) {part : Partition} (hp : s.get? p = some part) {slot : Slot}
    (hslot : slot.value.isSome = true ∨ slot.obsolete = true) :
    (s.modifySlots p (·.insert k slot)).Tidy := by
  refine h.of_slot? fun q k' slot' hput => ?_
  rw [slot?_putSlot s p q k' k hp] at hput
  by_cases hqk : q = p ∧ k' = k
  · rw [if_pos hqk, Option.some.injEq] at hput
    exact .inr (hput ▸ hslot)
  · rw [if_neg hqk] at hput
    exact .inl hput

theorem Tidy.eraseSlot (h : s.Tidy) : (s.modifySlots p (·.erase k)).Tidy := by
  refine h.of_slot? fun q k' slot herase => ?_
  rw [slot?_eraseSlot] at herase
  split at herase
  · cases herase
  · exact .inl herase

theorem Tidy.put (h : s.Tidy) : (s.put p e).Tidy := by
  unfold Store.put
  cases hp : s.get? p with
  | none => exact h
  | some part =>
    have hput : (s.modifySlots p (·.insert e.key (({} : Slot).write e))).Tidy := h.putSlot hp (.inl rfl)
    exact hput

theorem Tidy.evict (h : s.Tidy) : (s.evict p k).Tidy := by
  unfold Store.evict
  split
  · exact h
  · exact h.eraseSlot (p := p) (k := k)

theorem Tidy.markObsolete (h : s.Tidy) : (s.markObsolete p k).Tidy := by
  refine h.of_slot? fun q k' slot hmark => ?_
  rw [Store.markObsolete, slot?_modifySlots] at hmark
  by_cases hq : q = p
  · subst hq
    obtain ⟨part, hp, halter⟩ := Option.bind_eq_some_iff.mp (by rwa [if_pos rfl] at hmark)
    rw [SortedMap.get?_alter] at halter
    split at halter
    · rw [Option.some.injEq] at halter
      exact .inr (.inr (by rw [← halter]))
    · refine .inl ?_
      rw [slot?, hp]
      exact halter
  · rw [if_neg hq] at hmark
    exact .inl hmark

theorem Tidy.discardIfEmpty (h : s.Tidy) : (s.discardIfEmpty p k).1.Tidy := by
  refine h.of_slot? fun q k' slot hslot => ?_
  rw [slot?_discardIfEmpty] at hslot
  split at hslot
  · cases hslot
  · exact .inl hslot

/-- A conditional insert by itself: what it may leave behind its caller has to take away. -/
def Operation.isBareInsert : Operation → Bool
  | .insertIfNewer .. => true
  | _ => false

/-- No other operation leaves an empty slot behind. -/
theorem Tidy.operate (h : s.Tidy) {op : Operation} (hop : op.isBareInsert = false) :
    (s.operate op).Tidy := by
  cases op with
  | create p st => exact h.of_same fun q k => slot?_create st q
  | setState p st => exact h.of_same fun q k => slot?_setState s p q k st
  | put p e => exact h.put
  | insertIfNewer p e => cases hop
  | evict p k => exact h.evict
  | markObsolete p k => exact h.markObsolete
  | discardIfEmpty p k => exact h.discardIfEmpty
  | own p => exact h.of_same fun q k => slot?_own s p q k
  | reserve p => exact h.of_same fun q k => slot?_reserve s p q k
  | release p => exact h.of_same fun q k => slot?_release s p q k
  | tryLock p => exact h.of_same fun q k => slot?_tryLock s p q k
  | unlock p => exact h.of_same fun q k => slot?_unlock s p q k
  | track p key => exact h.of_same fun q k => slot?_track s p q k key

-- ============================================================================
-- The ceiling
-- ============================================================================

theorem capacity_create (st : PartitionState) : (s.create p st).capacity = s.capacity := by
  unfold create
  split <;> rfl

theorem capacity_put : (s.put p e).capacity = s.capacity := by
  unfold put
  split
  · rfl
  · exact capacity_modify s p _

theorem capacity_evict : (s.evict p k).capacity = s.capacity := by
  unfold evict
  split
  · rfl
  · exact capacity_modify s p _

/-- No operation changes the capacity. -/
theorem capacity_operate (op : Operation) : (s.operate op).capacity = s.capacity := by
  cases op with
  | create p st => exact capacity_create st
  | setState p st => exact capacity_modify s p _
  | put p e => exact capacity_put
  | insertIfNewer p e => exact (insertIfNewer_insertion s p e).grows.capacity
  | evict p k => exact capacity_evict
  | markObsolete p k => exact capacity_modify s p _
  | discardIfEmpty p k => exact (only_discardIfEmpty s p k).capacity
  | own p => exact (grows_own s p).capacity
  | reserve p => exact (grows_reserve s p).capacity
  | release p => exact capacity_modify s p _
  | tryLock p => exact (grows_tryLock s p).capacity
  | unlock p => exact capacity_modify s p _
  | track p k => exact capacity_modify s p _

theorem capacity_operateAll (ops : List Operation) :
    (s.operateAll ops).capacity = s.capacity := by
  induction ops generalizing s with
  | nil => rfl
  | cons op ops ih => exact ih.trans (capacity_operate op)

/-- A conditional insert counts one more only below the ceiling. -/
theorem Insertion.count_le {r : Except StoreFault InsertOutcome} (h : Insertion s p e t r) {c : Nat}
    (hc : s.capacity = some c) : t.count ≤ max c s.count := by
  cases h with
  | created part hp ho hv hf =>
    rw [isFull, hc] at hf
    have hroom : s.count < c := by simpa using hf
    change s.count + 1 ≤ max c s.count
    omega
  | replaced => rw [modifySlots, count_modify]; omega
  | refused => rw [modifySlots, count_modify]; omega
  | _ => omega

/-- What is refused for capacity is a key without a value that was not removed. -/
theorem Insertion.of_refused {c : PartitionId} (h : Insertion s p e t (.error (.capacityExceeded c))) :
    ∃ part, s.get? p = some part ∧ (s.slotFor p e.key).obsolete = false ∧
      (s.slotFor p e.key).value = none ∧
      t = s.modifySlots p (·.insert e.key (s.slotFor p e.key)) := by
  cases h with
  | refused part hp ho hv hf => exact ⟨part, hp, ho, hv, rfl⟩

/-- The partition that a refusal names is the one that was to be written to. -/
theorem Insertion.refused_at {q : PartitionId}
    (h : Insertion s p e t (.error (.capacityExceeded q))) : q = p := by
  cases h with
  | refused => rfl

/-- A key that holds a value is written whether or not there is room, if the entry is later. -/
theorem Insertion.held?_of_later {r : Except StoreFault InsertOutcome} (h : Insertion s p e t r)
    {part : Partition} (hp : s.get? p = some part) (hst : part.state.acceptsWrites = true)
    (hkept : (s.slotFor p e.key).obsolete = false) {old : Held} (hold : s.held? p e.key = some old)
    (hr : e.revision.atMost old.revision = false) :
    (t.settled p e r).held? p e.key = some e.held := by
  obtain ⟨v, hv, rfl⟩ := Option.map_eq_some_iff.mp hold
  cases h with
  | absent hn => rw [hp] at hn; cases hn
  | invalid part' hp' ha =>
    rw [hp, Option.some.injEq] at hp'
    rw [← hp', hst] at ha
    cases ha
  | removed ho => rw [hkept] at ho; cases ho
  | alreadyNewer w hw hle => rw [hr] at hle; cases hle
  | replaced part' w hp' ho hw hle =>
    change ((s.modifySlots p _).track p e.key).held? p e.key = _
    rw [held?, slotFor, slot?_track, slot?_putSlot s p p e.key e.key hp', if_pos ⟨rfl, rfl⟩]
    rfl
  | refused part' hp' ho hn hf => rw [hv] at hn; cases hn
  | created part' hp' ho hn hf => rw [hv] at hn; cases hn

/-- A conditional insert and what follows it leave no empty slot behind. -/
theorem Insertion.tidy {r : Except StoreFault InsertOutcome} (h : Insertion s p e t r)
    (ht : s.Tidy) : (t.settled p e r).Tidy := by
  cases h with
  | absent => exact ht
  | invalid => exact ht
  | removed => exact ht
  | alreadyNewer => exact ht
  | replaced part v hp ho hv hr =>
    exact (ht.putSlot hp (.inl rfl)).of_same fun q k => slot?_track _ p q k e.key
  | refused part hp ho hv hf =>
    have hnone := ht.slot?_eq_none ho hv
    have hfresh : s.slotFor p e.key = {} := by rw [slotFor, hnone, Option.getD_none]
    rw [hfresh]
    change (Store.discardIfEmpty _ p e.key).1.Tidy
    rw [discard_putSlot hp hnone]
    exact ht
  | created part hp ho hv hf =>
    have hput : (s.modifySlots p (·.insert e.key ((s.slotFor p e.key).write e))).Tidy :=
      ht.putSlot hp (.inl rfl)
    exact hput.of_same fun q k => slot?_track _ p q k e.key

theorem insertIfNewer_of_invalid (h : s.state? p = some .invalid) :
    s.insertIfNewer p e = (s, .ok .partitionInvalid) := by
  obtain ⟨part, hp, hst⟩ := Option.map_eq_some_iff.mp h
  unfold insertIfNewer
  rw [hp]
  simp [hst, PartitionState.acceptsWrites]

end Store

namespace Tampered

variable {s : Tampered} {p : PartitionId} {e : Entry}

/-- A refusal for capacity comes from the store itself, as it was. -/
theorem insertion_of_refused {c : PartitionId}
    (h : (s.insertIfNewer p e).2 = .error (.capacityExceeded c)) :
    (s.insertIfNewer p e).1 = { s with base := (s.insertIfNewer p e).1.base } ∧
      Store.Insertion s.base p e (s.insertIfNewer p e).1.base (.error (.capacityExceeded c)) := by
  rcases s.insertIfNewer_cases p e with ⟨reason, -, hr⟩ | ⟨-, before, hb, hbase, hi⟩
  · rw [hr] at h
    cases h
  · rw [h] at hi
    refine ⟨hbase, ?_⟩
    by_cases hk : e.key ∈ s.invalidating
    · -- A key that takes its partition away finds it taken away, and is not refused.
      rw [if_pos hk] at hb
      have hpart : (s.base.get? p).isSome = true := by
        obtain ⟨part, hp, -⟩ := hi.of_refused
        rw [hb, Store.setState, Store.get?_modify, if_pos rfl] at hp
        simpa using congrArg Option.isSome hp
      obtain ⟨part, hpart⟩ := Option.isSome_iff_exists.mp hpart
      have hstate : before.state? p = some .invalid := by
        rw [hb, Store.state?_setState, if_pos rfl, Store.state?, hpart]
        rfl
      have hanswer : (s.insertIfNewer p e).2 = (before.insertIfNewer p e).2 := by
        unfold insertIfNewer
        cases hrej : s.rejected.get? e.key with
        | some reason =>
          rw [insertIfNewer, hrej] at h
          cases h
        | none =>
          rw [hb]
          simp only [if_pos hk]
      rw [hanswer, Store.insertIfNewer_of_invalid hstate] at h
      cases h
    · rw [if_neg hk] at hb
      rw [← hb]
      exact hi

/-- A key that is neither rejected nor takes its partition away goes to the store itself. -/
theorem insertIfNewer_eq (hr : s.rejected.get? e.key = none) (hk : e.key ∉ s.invalidating) :
    s.insertIfNewer p e = ({ s with base := (s.base.insertIfNewer p e).1 },
      (s.base.insertIfNewer p e).2) := by
  unfold insertIfNewer
  simp only [hr, if_neg hk]

end Tampered

namespace Site

variable {s : Site} {p : PartitionId} {o : Offer} {c : Nat}

-- ============================================================================
-- One entry at the ceiling
-- ============================================================================

/-- How many values a site stores. -/
def stored (s : Site) : Nat := s.store.base.stored

/-- An entry that is handed in reaches the store, which refuses it for capacity. -/
def Refuses (s : Site) (p : PartitionId) (o : Offer) : Prop :=
  o.Fresh ∧ s.accepts p o.entry = true ∧
    (s.store.insertIfNewer p o.entry).2 = .error (.capacityExceeded p)

/-- Nothing but the revision speaks against writing an entry. -/
structure Writes (s : Site) (p : PartitionId) (o : Offer) : Prop where
  fresh : o.Fresh
  accepted : s.accepts p o.entry = true
  taken : s.store.rejected.get? o.entry.key = none
  quiet : o.entry.key ∉ s.store.invalidating
  present : ∃ part, s.store.base.get? p = some part ∧ part.state.acceptsWrites = true
  kept : (s.store.base.slotFor p o.entry.key).obsolete = false

/-- What an entry that is handed to a site comes to under a ceiling of `c` values. -/
structure Within (c : Nat) (s : Site) (p : PartitionId) (o : Offer) : Prop where
  /-- The store counts what it stores. -/
  counted : (s.takeOffer p o).1.store.base.count = (s.takeOffer p o).1.stored
  /-- What is stored does not rise above the ceiling. -/
  bounded : (s.takeOffer p o).1.stored ≤ max c s.stored
  /-- A key that holds a value is not refused for capacity. -/
  roomy : (s.held? p o.entry.key).isSome = true → ¬s.Refuses p o
  /-- Its value gives way to a later one. -/
  upgraded : ∀ old, s.held? p o.entry.key = some old → s.Writes p o →
    o.entry.revision.atMost old.revision = false →
      (s.takeOffer p o).1.held? p o.entry.key = some o.entry.held
  /-- What is refused for capacity is counted as dropped, and nothing else is. -/
  dropped : s.Refuses p o → (s.takeOffer p o).1.board = s.board.entryDropped
  undropped : ¬s.Refuses p o →
    (s.takeOffer p o).1.board.entriesDropped = s.board.entriesDropped

theorem takeOffer_eq :
    s.takeOffer p o =
      if o.entry.isExpired o.now = true ∨ s.accepts p o.entry = false then
        ((s.change (.clock o.now)).measure Board.entrySkipped, .ok .more)
      else
        settleWrite { s.change (.clock o.now) with store := (s.store.insertIfNewer p o.entry).1 }
          o.sender p o.entry (s.store.insertIfNewer p o.entry).2 :=
  takeIn_eq (s.change (.clock o.now)) o.sender p o.entry

/-- An entry that is neither expired nor turned away goes to the store. -/
theorem takeOffer_of_fresh (hfresh : o.Fresh) (haccepted : s.accepts p o.entry = true) :
    s.takeOffer p o =
      settleWrite { s.change (.clock o.now) with store := (s.store.insertIfNewer p o.entry).1 }
        o.sender p o.entry (s.store.insertIfNewer p o.entry).2 := by
  have hpass : ¬(o.entry.isExpired o.now = true ∨ s.accepts p o.entry = false) := by
    rw [show o.entry.isExpired o.now = false from hfresh, haccepted]
    decide
  rw [takeOffer_eq, if_neg hpass]

theorem takeOffer_of_refuses (h : s.Refuses p o) :
    s.takeOffer p o =
      (({ s.change (.clock o.now) with store := (s.store.insertIfNewer p o.entry).1 }.onStore
        fun st => (st.discardIfEmpty p o.entry.key).1).measure Board.entryDropped, .ok .more) := by
  rw [takeOffer_of_fresh h.1 h.2.1, h.2.2]
  rfl

/-- Only a refusal for capacity is counted as dropped. -/
theorem entriesDropped_settleWrite (s : Site) (sender : NodeId) (p : PartitionId) (e : Entry)
    {r : Except StoreFault InsertOutcome} (h : ∀ c, r ≠ .error (.capacityExceeded c)) :
    (s.settleWrite sender p e r).1.board.entriesDropped = s.board.entriesDropped := by
  unfold settleWrite
  split
  · split
    · rfl
    · rw [board_report]
      rfl
  · rfl
  · rfl
  · rfl
  · next c => exact absurd rfl (h c)
  · rfl


theorem count_settleWrite (s : Site) (sender : NodeId) (p : PartitionId) (e : Entry)
    (r : Except StoreFault InsertOutcome) :
    (s.settleWrite sender p e r).1.store.base.count = s.store.base.count := by
  rw [store_settleWrite]
  split
  · exact Store.count_modify _ p _
  · unfold Store.discardIfEmpty
    split
    · rfl
    · split
      · rfl
      · exact Store.count_modify _ p _
  · rfl

/-- One entry raises the count only below the ceiling. -/
theorem count_takeOffer (hc : s.store.base.capacity = some c) :
    (s.takeOffer p o).1.store.base.count ≤ max c s.store.base.count := by
  rw [takeOffer_eq]
  split
  · exact Nat.le_max_right _ _
  · rw [count_settleWrite]
    rcases s.store.insertIfNewer_cases p o.entry with ⟨reason, -, hr⟩ | ⟨-, before, hb, -, hi⟩
    · rw [hr]
      exact Nat.le_max_right _ _
    · have hsame : before.capacity = s.store.base.capacity ∧ before.count = s.store.base.count := by
        rw [hb]
        split
        · exact ⟨Store.capacity_modify _ p _, Store.count_modify _ p _⟩
        · exact ⟨rfl, rfl⟩
      have hle := hi.count_le (hsame.1.trans hc)
      rwa [hsame.2] at hle

theorem not_refuses_of_held (h : (s.held? p o.entry.key).isSome = true) : ¬s.Refuses p o := by
  rintro ⟨-, -, hrefused⟩
  obtain ⟨-, hi⟩ := Tampered.insertion_of_refused hrefused
  obtain ⟨part, -, -, hv, -⟩ := hi.of_refused
  rw [held?, Store.held?, Slot.held?, hv] at h
  cases h

/-- A later entry for a key that holds a value is written whether or not there is room. -/
theorem held?_of_later {old : Held} (hold : s.held? p o.entry.key = some old) (hw : s.Writes p o)
    (hr : o.entry.revision.atMost old.revision = false) :
    (s.takeOffer p o).1.held? p o.entry.key = some o.entry.held := by
  obtain ⟨part, hp, hst⟩ := hw.present
  rw [takeOffer_of_fresh hw.fresh hw.accepted, Tampered.insertIfNewer_eq hw.taken hw.quiet, held?,
    base_settleWrite]
  exact (Store.insertIfNewer_insertion s.store.base p o.entry).held?_of_later hp hst hw.kept hold hr

/-- Whatever is not a refusal for capacity is not counted as dropped. -/
theorem entriesDropped_takeOffer (h : ¬s.Refuses p o) :
    (s.takeOffer p o).1.board.entriesDropped = s.board.entriesDropped := by
  rw [takeOffer_eq]
  by_cases hpass : o.entry.isExpired o.now = true ∨ s.accepts p o.entry = false
  · rw [if_pos hpass]
    rfl
  · rw [if_neg hpass, entriesDropped_settleWrite]
    · rfl
    · intro q hq
      rw [(Tampered.insertion_of_refused hq).2.refused_at] at hq
      rw [not_or, Bool.not_eq_true, Bool.not_eq_false] at hpass
      exact h ⟨hpass.1, hpass.2, hq⟩

/-- What an entry comes to at a store with a capacity that any operations made. -/
theorem within_takeOffer (hm : s.store.base.Made) (hc : s.store.base.capacity = some c)
    (p : PartitionId) (o : Offer) : s.Within c p o := by
  have hcounted : (s.takeOffer p o).1.store.base.Counted := by
    obtain ⟨ops, hops⟩ := takeIn_operations (s.change (.clock o.now)) o.sender p o.entry
    rw [takeOffer, hops]
    exact (hm.operateAll ops).counted
  refine ⟨hcounted, ?_, not_refuses_of_held, fun _ => held?_of_later, fun h => ?_,
    entriesDropped_takeOffer⟩
  · rw [stored, stored, ← hcounted, ← hm.counted]
    exact count_takeOffer hc
  · rw [takeOffer_of_refuses h]
    rfl

-- ============================================================================
-- No empty slots
-- ============================================================================

/-- In a tidy store an entry that is refused for capacity comes to nothing but its count. -/
theorem takeOffer_of_refuses_tidy (ht : s.store.base.Tidy) (h : s.Refuses p o) :
    (s.takeOffer p o).1 = (s.change (.clock o.now)).measure Board.entryDropped := by
  rw [takeOffer_of_refuses h]
  obtain ⟨hstore, hi⟩ := Tampered.insertion_of_refused h.2.2
  obtain ⟨part, hp, ho, hv, hbase⟩ := hi.of_refused
  have hnone := ht.slot?_eq_none ho hv
  have hfresh : s.store.base.slotFor p o.entry.key = {} := by
    rw [Store.slotFor, hnone]
    rfl
  have hback : (((s.store.insertIfNewer p o.entry).1.base).discardIfEmpty p o.entry.key).1 =
      s.store.base := by
    rw [hbase, hfresh]
    exact Store.discard_putSlot hp hnone
  have hwhole : (s.store.insertIfNewer p o.entry).1.onBase
      (fun st => (st.discardIfEmpty p o.entry.key).1) = s.store := by
    rw [Tampered.onBase, hback, hstore]
  simp only [onStore, hwhole]
  rfl

theorem tidy_takeOffer (ht : s.store.base.Tidy) : (s.takeOffer p o).1.store.base.Tidy := by
  rw [takeOffer_eq]
  split
  · exact ht
  · rw [base_settleWrite]
    rcases s.store.insertIfNewer_cases p o.entry with ⟨reason, -, hr⟩ | ⟨-, before, hb, -, hi⟩
    · rw [hr]
      exact ht
    · refine hi.tidy ?_
      rw [hb]
      split
      · exact ht.of_same fun q k => Store.slot?_setState _ p q k .invalid
      · exact ht

-- ============================================================================
-- Any run of entries and operations
-- ============================================================================

/-- What happens to a site: an entry is handed in, the filter changes, or something else is done
    to its store. -/
inductive Deed where
  | offer (p : PartitionId) (o : Offer)
  | filter (f : Option LoadFilter)
  | operation (op : Store.Operation)

/-- A site after a deed. -/
def perform (s : Site) : Deed → Site
  | .offer p o => (s.takeOffer p o).1
  | .filter f => s.change (.filter f)
  | .operation op => s.onStore (·.operate op)

/-- A site after some deeds. -/
def performAll (s : Site) (deeds : List Deed) : Site := deeds.foldl perform s

theorem perform_operations (d : Deed) :
    ∃ ops, (s.perform d).store.base = s.store.base.operateAll ops := by
  cases d with
  | offer p o => exact takeIn_operations (s.change (.clock o.now)) o.sender p o.entry
  | filter f => exact ⟨[], rfl⟩
  | operation op => exact ⟨[op], rfl⟩

/-- Deeds come to operations of the store. -/
theorem performAll_operations (deeds : List Deed) :
    ∃ ops, (s.performAll deeds).store.base = s.store.base.operateAll ops := by
  induction deeds generalizing s with
  | nil => exact ⟨[], rfl⟩
  | cons d deeds ih =>
    obtain ⟨first, hfirst⟩ := perform_operations (s := s) d
    obtain ⟨rest, hrest⟩ := ih (s := s.perform d)
    refine ⟨first ++ rest, hrest.trans ?_⟩
    rw [hfirst, Store.operateAll_append]

/-- Deeds among which a conditional insert is only made for an entry that is handed in. -/
def Proper (deeds : List Deed) : Prop := ∀ op, .operation op ∈ deeds → op.isBareInsert = false

theorem tidy_performAll {deeds : List Deed} (ht : s.store.base.Tidy) (hp : Proper deeds) :
    (s.performAll deeds).store.base.Tidy := by
  induction deeds generalizing s with
  | nil => exact ht
  | cons d deeds ih =>
    refine ih (s := s.perform d) ?_ fun op hop => hp op (List.mem_cons_of_mem d hop)
    cases d with
    | offer p o => exact tidy_takeOffer ht
    | filter f => exact ht
    | operation op => exact ht.operate (hp op List.mem_cons_self)

/-- Over a store that any operations made with a capacity, whatever was done before: no entry
    raises what is stored above the ceiling, no key that holds a value is refused for want of
    room, and its value gives way to a later one. If no slot was empty at first, none is in the
    end, and an entry that is refused for capacity changes nothing in the store. -/
theorem capacity_is_kept (hm : s.store.base.Made) (hc : s.store.base.capacity = some c)
    (deeds : List Deed) :
    (∀ before p o after, deeds = before ++ .offer p o :: after →
      (s.performAll before).Within c p o) ∧
    (s.store.base.Tidy → Proper deeds →
      (s.performAll deeds).store.base.Tidy ∧
      ∀ before p o after, deeds = before ++ .offer p o :: after →
        (s.performAll before).Refuses p o →
        ((s.performAll before).takeOffer p o).1 =
          ((s.performAll before).change (.clock o.now)).measure Board.entryDropped) := by
  refine ⟨fun before p o after _ => ?_, fun ht hproper => ⟨tidy_performAll ht hproper, ?_⟩⟩
  · obtain ⟨ops, hops⟩ := performAll_operations (s := s) before
    refine within_takeOffer ?_ ?_ p o
    · rw [hops]
      exact hm.operateAll ops
    · rw [hops, Store.capacity_operateAll]
      exact hc
  · rintro before p o after rfl hrefused
    refine takeOffer_of_refuses_tidy (tidy_performAll ht fun op hop => ?_) hrefused
    exact hproper op (List.mem_append_left _ hop)

/-- A store for one value gets a key, a second one that is refused, the first one again at a
    later revision, and, once that was evicted, the second one. -/
theorem room_for_one :
    let at_ (key : UInt8) (order : UInt64) : Entry :=
      { key := [key], value := [order.toUInt8], revision := ⟨order, 0⟩ }
    let s : Site := {
      node := 2
      store := { base := { capacity := some 1 } }
      affinity := Affinity.start ⟨1, 0⟩ (SortedSet.ofList [3])
      clock := 0 }
    let first : List Deed := [.operation (.create 3 .moving), .offer 3 ⟨5, 10, at_ 7 1⟩]
    let deeds : List Deed := first ++ .offer 3 ⟨5, 20, at_ 8 1⟩ ::
      [.offer 3 ⟨5, 30, at_ 7 2⟩, .operation (.evict 3 [7]), .offer 3 ⟨5, 40, at_ 8 1⟩]
    (s.performAll first).Refuses 3 ⟨5, 20, at_ 8 1⟩ ∧
    (s.performAll first).Within 1 3 ⟨5, 20, at_ 8 1⟩ ∧
    ((s.performAll first).takeOffer 3 ⟨5, 20, at_ 8 1⟩).1.store = (s.performAll first).store ∧
    (s.performAll deeds).store.base.Tidy ∧
    (s.performAll deeds).held? 3 [8] = some ⟨[1], ⟨1, 0⟩, none⟩ := by
  intro at_ s first deeds
  have hproper : Proper deeds := by
    intro op hop
    simp only [deeds, first, List.cons_append, List.nil_append, List.mem_cons, List.not_mem_nil,
      or_false, Deed.operation.injEq, reduceCtorEq, false_or] at hop
    rcases hop with rfl | rfl <;> rfl
  have hrefuses : (s.performAll first).Refuses 3 ⟨5, 20, at_ 8 1⟩ := ⟨rfl, rfl, rfl⟩
  obtain ⟨hwithin, htidy⟩ := capacity_is_kept (s := s) (Store.made_empty (some 1)) rfl deeds
  obtain ⟨hend, hback⟩ := htidy (Store.tidy_empty (some 1)) hproper
  refine ⟨hrefuses, hwithin first 3 _ _ rfl, ?_, hend, by decide +kernel⟩
  rw [hback first 3 _ _ rfl hrefuses]
  rfl

end Site
end Rebalance
