/-
  Rebalance.Proofs.Repeated

  Taking in the same entries again.  An entry that was not turned down with a
  failure is one that the store has no use for from then on, and an entry that
  failed fails again: `takeInAll_again` says that the same entries, whenever
  they come again and nothing was taken back in between, change nothing but
  meters and end as they did.  The second reservation and the second lock of
  the partition leave no trace either.
-/
import Rebalance.Proofs.Merge

namespace Rebalance
namespace Store

-- ============================================================================
-- Changes that cancel out
-- ============================================================================

section Modify

variable (s : Store) (p : PartitionId)

theorem modify_modify (f g : Partition → Partition) :
    (s.modify p f).modify p g = s.modify p fun part => g (f part) := by
  have hget := get?_modify s p p f
  rw [if_pos rfl] at hget
  cases hp : s.get? p with
  | none =>
    have hf : s.modify p f = s := by rw [modify, hp]
    rw [hf, modify, modify, hp]
  | some part =>
    rw [hp] at hget
    rw [modify, hget, modify, modify, hp]
    simp only [Option.map_some]
    congr 1
    apply SortedMap.ext
    intro q
    by_cases hq : q = p
    · simp [hq]
    · simp [hq]

/-- A change that leaves a partition as it is leaves the store as it is. -/
theorem modify_of_same {f : Partition → Partition}
    (h : ∀ part, s.get? p = some part → f part = part) : s.modify p f = s := by
  unfold modify
  cases hp : s.get? p with
  | none => rfl
  | some part =>
    simp only [h part hp]
    have hsame : s.partitions.insert p part = s.partitions := by
      apply SortedMap.ext
      intro q
      rw [SortedMap.get?_insert]
      by_cases hq : q = p
      · rw [if_pos hq, hq]
        exact hp.symm
      · rw [if_neg hq]
    rw [hsame]

/-- Reserving and locking a partition that is being filled, and giving both back. -/
theorem release_unlock_tryLock_reserve (hm : s.state? p = some .moving)
    (hl : s.lock? p ≠ some true) :
    ((((s.reserve p).1.tryLock p).1).unlock p).release p = s := by
  obtain ⟨part, hp, -⟩ := Option.map_eq_some_iff.mp hm
  have hfree : part.locked = false := by
    rw [lock?, hp] at hl
    simpa using hl
  have hreserve : (s.reserve p).1 =
      s.modify p fun part => { part with reservations := part.reservations + 1 } := by
    unfold reserve
    rw [hm]
  have hlock : ((s.reserve p).1.tryLock p).1 = (s.reserve p).1.modify p ({ · with locked := true }) := by
    have hget : (s.reserve p).1.get? p =
        some { part with reservations := part.reservations + 1 } := by
      rw [hreserve, get?_modify, if_pos rfl, hp]
      rfl
    unfold tryLock
    rw [hget]
    simp [hfree]
  rw [hlock, hreserve, unlock, release, modify_modify, modify_modify, modify_modify]
  refine modify_of_same s p fun part' hp' => ?_
  rw [hp, Option.some.injEq] at hp'
  subst hp'
  cases part
  cases hfree
  rfl

end Modify

-- ============================================================================
-- Entries that a store has no use for
-- ============================================================================

/-- A store has no use for an entry: its key was removed, the store is full and has no slot for
    it, or it is held at its revision or a later one. -/
def Dismisses (s : Store) (p : PartitionId) (e : Entry) : Prop :=
  (s.slotFor p e.key).obsolete = true ∨ (s.isFull = true ∧ s.slot? p e.key = none) ∨
    ∃ v r, s.read p e.key = some (v, r) ∧ e.revision.atMost r = true

/-- A store that only grew, and where it is full has no slot more in a partition. -/
structure Fills (p : PartitionId) (s t : Store) : Prop extends Grows s t where
  state : t.state? p = s.state? p
  vacant : s.isFull = true → ∀ k, s.slot? p k = none → t.slot? p k = none

variable {p : PartitionId} {s t u : Store} {e : Entry}

namespace Fills

theorem refl (p : PartitionId) (s : Store) : Fills p s s := ⟨.refl s, rfl, fun _ _ h => h⟩

theorem trans (h₁ : Fills p s t) (h₂ : Fills p t u) : Fills p s u where
  toGrows := h₁.toGrows.trans h₂.toGrows
  state := h₂.state.trans h₁.state
  vacant hf k h := h₂.vacant (h₁.toGrows.isFull hf) k (h₁.vacant hf k h)

/-- A store that grew elsewhere only. -/
theorem of_get? (h : Grows s t) (hp : t.get? p = s.get? p) : Fills p s t where
  toGrows := h
  state := congrArg (Option.map Partition.state) hp
  vacant _ k hk := by
    rw [slot?, hp]
    exact hk

/-- A change that leaves state and slots of all partitions alone. -/
theorem modify (s : Store) (p q : PartitionId) {f : Partition → Partition}
    (hs : ∀ x, (f x).slots = x.slots) (hm : ∀ x, (f x).state = x.state) :
    Fills p s (s.modify q f) where
  toGrows := grows_modify s q hs hm
  state := state?_modify s q p hm
  vacant _ k hk := (slot?_modify s q p k hs).trans hk

theorem reserve (s : Store) (p q : PartitionId) : Fills p s (s.reserve q).1 := by
  unfold Store.reserve
  split
  · exact .refl p s
  · exact .refl p s
  · exact .modify s p q (fun _ => rfl) fun _ => rfl

theorem release (s : Store) (p q : PartitionId) : Fills p s (s.release q) :=
  .modify s p q (fun _ => rfl) fun _ => rfl

theorem unlock (s : Store) (p q : PartitionId) : Fills p s (s.unlock q) :=
  .modify s p q (fun _ => rfl) fun _ => rfl

theorem tryLock (s : Store) (p q : PartitionId) : Fills p s (s.tryLock q).1 := by
  unfold Store.tryLock
  split
  · exact .refl p s
  · split
    · exact .refl p s
    · exact .modify s p q (fun _ => rfl) fun _ => rfl

end Fills

/-- What a store has no use for it has no use for later either. -/
theorem Dismisses.fills (h : s.Dismisses p e) (hf : Fills p s t) : t.Dismisses p e := by
  rcases h with h | ⟨hfull, hn⟩ | ⟨v, r, hv, hr⟩
  · exact .inl (hf.obsolete p e.key h)
  · exact .inr (.inl ⟨hf.isFull hfull, hf.vacant hfull e.key hn⟩)
  · obtain ⟨v', r', hv', hr'⟩ := hf.held p e.key v r hv
    exact .inr (.inr ⟨v', r', hv', Revision.atMost_trans hr hr'⟩)

/-- An empty slot that was put into place and then discarded is gone. -/
theorem slot?_discard_putSlot {part : Partition} (hp : s.get? p = some part) (k key : Bytes)
    {slot : Slot} (hv : slot.value = none) :
    ((s.modifySlots p (·.insert key slot)).discardIfEmpty p key).1.slot? p k =
      if k = key then none else s.slot? p k := by
  rw [slot?_discardIfEmpty, slot?_putSlot s p p key key hp, slot?_putSlot s p p k key hp]
  by_cases hk : k = key
  · simp [hk, hv]
  · simp [hk]

/-- Where there was no slot, discarding the one that was put there leaves the store as it was. -/
theorem discard_putSlot {part : Partition} (hp : s.get? p = some part) {k : Bytes}
    (hn : s.slot? p k = none) :
    ((s.modifySlots p (·.insert k {})).discardIfEmpty p k).1 = s := by
  have hslot := slot?_putSlot s p p k k hp {}
  rw [if_pos ⟨rfl, rfl⟩] at hslot
  have hgone : part.slots.get? k = none := by
    rw [slot?, hp] at hn
    exact hn
  unfold discardIfEmpty
  rw [hslot]
  change ((s.modifySlots p _).modifySlots p _) = s
  unfold modifySlots
  rw [modify_modify]
  refine modify_of_same s p fun part' hp' => ?_
  rw [hp, Option.some.injEq] at hp'
  subst hp'
  simp only [SortedMap.erase_insert, SortedMap.erase_of_none hgone]

/-- What becomes of a store by a write and what follows it: a written key is tracked, and an
    empty slot that a refused write left is discarded. -/
def settled (t : Store) (p : PartitionId) (e : Entry) : Except StoreFault InsertOutcome → Store
  | .ok .inserted => t.track p e.key
  | .error (.capacityExceeded _) => (t.discardIfEmpty p e.key).1
  | _ => t

theorem state?_settled (t : Store) (p q : PartitionId) (e : Entry)
    (r : Except StoreFault InsertOutcome) : (t.settled p e r).state? q = t.state? q := by
  unfold settled
  split
  · exact state?_track t p q e.key
  · exact state?_discardIfEmpty t p q e.key
  · rfl

/-- A written entry is of no use again. -/
theorem dismisses_of_written (h : t.slotFor p e.key = (s.slotFor p e.key).write e) :
    (t.track p e.key).Dismisses p e := by
  refine .inr (.inr ⟨e.value, e.revision, ?_, Revision.atMost_refl _⟩)
  rw [read_of_slot?_eq (slot?_track t p p e.key e.key), read_eq_some_iff, h]
  exact ⟨rfl, rfl⟩

/-- What a write into a partition that is being filled can come to. -/
theorem Insertion.outcome {r : Except StoreFault InsertOutcome} (h : Insertion s p e t r)
    (hm : s.state? p = some .moving) :
    r = .ok .inserted ∨ r = .ok .removed ∨ r = .ok .alreadyNewer ∨
      r = .error (.capacityExceeded p) := by
  cases h with
  | absent hp =>
    rw [Store.state?, hp] at hm
    cases hm
  | invalid part hp ha =>
    rw [Store.state?, hp, Option.map_some, Option.some.injEq] at hm
    rw [hm] at ha
    cases ha
  | replaced | created => exact .inl rfl
  | removed => exact .inr (.inl rfl)
  | alreadyNewer => exact .inr (.inr (.inl rfl))
  | refused => exact .inr (.inr (.inr rfl))

/-- An entry that reached a partition being filled is of no use again. -/
theorem Insertion.dismisses {r : Except StoreFault InsertOutcome} (h : Insertion s p e t r)
    (hm : s.state? p = some .moving) : (t.settled p e r).Dismisses p e := by
  have hput : ∀ {part : Partition}, s.get? p = some part → ∀ slot,
      (s.modifySlots p (·.insert e.key slot)).slotFor p e.key = slot := by
    intro part hp slot
    rw [slotFor_putSlot hp, if_pos ⟨rfl, rfl⟩]
  have hout := h.outcome hm
  cases h with
  | absent | invalid => simp at hout
  | removed ho => exact .inl ho
  | alreadyNewer v hv hr => exact .inr (.inr ⟨v, _, read_eq_some_iff.mpr ⟨hv, rfl⟩, hr⟩)
  | replaced part v hp ho hv hr => exact dismisses_of_written (hput hp _)
  | created part hp ho hv hf => exact dismisses_of_written (hput hp _)
  | refused part hp ho hv hf =>
    refine .inr (.inl ⟨?_, ?_⟩)
    · refine (grows_discardIfEmpty ?_).isFull ?_
      · rw [hput hp]
        exact ho
      · simpa [isFull, modifySlots] using hf
    · exact (slot?_discard_putSlot hp e.key e.key hv).trans (if_pos rfl)

/-- A write takes nothing back, and in a full store it leaves no slot where there was none. -/
theorem Insertion.fills {r : Except StoreFault InsertOutcome} (h : Insertion s p e t r) :
    Fills p s (t.settled p e r) := by
  have hgrows := h.grows
  have hstate := (state?_settled t p p e r).trans (h.state? p)
  cases h with
  | absent | invalid | removed | alreadyNewer => exact .refl p s
  | replaced part v hp ho hv hr =>
    refine ⟨hgrows.trans (grows_track _ p e.key), hstate, fun _ k hk => ?_⟩
    have hne : k ≠ e.key := by
      rintro rfl
      rw [slotFor, hk] at hv
      cases hv
    change (Store.track _ p e.key).slot? p k = none
    rw [slot?_track, slot?_putSlot s p p k e.key hp, if_neg fun h => hne h.2]
    exact hk
  | refused part hp ho hv hf =>
    have hdiscard : Grows _ ((s.modifySlots p (·.insert e.key (s.slotFor p e.key))).discardIfEmpty
        p e.key).1 := grows_discardIfEmpty <| by
      rw [slotFor_putSlot hp, if_pos ⟨rfl, rfl⟩]
      exact ho
    refine ⟨hgrows.trans hdiscard, hstate, fun _ k hk => ?_⟩
    refine (slot?_discard_putSlot hp k e.key hv).trans ?_
    rw [hk]
    exact ite_self none
  | created part hp ho hv hf =>
    refine ⟨hgrows.trans (grows_track _ p e.key), hstate, fun hfull => ?_⟩
    rw [hf] at hfull
    cases hfull

theorem only_discardIfEmpty (s : Store) (p : PartitionId) (k : Bytes) :
    Only p s (s.discardIfEmpty p k).1 := by
  unfold discardIfEmpty
  split
  · exact .refl p s
  · split
    · exact .refl p s
    · exact only_modify s p _

/-- A write touches no other partition. -/
theorem Insertion.only {r : Except StoreFault InsertOutcome} (h : Insertion s p e t r) :
    Only p s (t.settled p e r) := by
  cases h with
  | absent | invalid | removed | alreadyNewer => exact .refl p s
  | replaced => exact (only_modify s p _).trans (only_modify _ p _)
  | refused =>
    have hput : Only p s (s.modifySlots p (·.insert e.key (s.slotFor p e.key))) :=
      only_modify s p _
    exact hput.trans (only_discardIfEmpty _ p e.key)
  | created =>
    have hput := only_modify s p fun part =>
      { part with slots := part.slots.insert e.key ((s.slotFor p e.key).write e) }
    have hcount : Only p s { s.modifySlots p (·.insert e.key ((s.slotFor p e.key).write e)) with
        count := s.count + 1 } := ⟨hput.others, hput.evictions, hput.capacity⟩
    exact hcount.trans (only_modify _ p _)

/-- A write that the store has no use for leaves it as it is. -/
theorem Insertion.of_dismissed {r : Except StoreFault InsertOutcome} (h : Insertion s p e t r)
    (hm : s.state? p = some .moving) (hd : s.Dismisses p e) :
    t.settled p e r = s ∧
      (r = .ok .removed ∨ r = .ok .alreadyNewer ∨ r = .error (.capacityExceeded p)) := by
  -- Without a value and without a mark of removal, only want of room speaks against an entry.
  have hvacant : (s.slotFor p e.key).obsolete = false → (s.slotFor p e.key).value = none →
      s.isFull = true ∧ s.slot? p e.key = none := by
    intro ho hv
    rcases hd with h | h | ⟨v, r, hread, -⟩
    · rw [ho] at h
      cases h
    · exact h
    · rw [read_eq_none_iff.mpr hv] at hread
      cases hread
  have hout := h.outcome hm
  cases h with
  | absent | invalid => simp at hout
  | removed ho => exact ⟨rfl, .inl rfl⟩
  | alreadyNewer v hv hr => exact ⟨rfl, .inr (.inl rfl)⟩
  | replaced part v hp ho hv hr =>
    rcases hd with h | ⟨-, h⟩ | ⟨v', r', hread, hle⟩
    · rw [ho] at h
      cases h
    · rw [slotFor, h] at hv
      cases hv
    · rw [(read_eq_some_iff.mp hread).2, hle] at hr
      cases hr
  | refused part hp ho hv hf =>
    have hn := (hvacant ho hv).2
    refine ⟨?_, .inr (.inr rfl)⟩
    have hfresh : s.slotFor p e.key = {} := by rw [slotFor, hn, Option.getD_none]
    rw [hfresh]
    exact discard_putSlot hp hn
  | created part hp ho hv hf =>
    rw [(hvacant ho hv).1] at hf
    cases hf

end Store

namespace Site

-- ============================================================================
-- Entries that come again
-- ============================================================================

/-- A site at a later moment, as far as it decides about entries of a partition: it filters and
    rejects as before, the entries are expired or not as before, and its store only filled up. -/
structure Later (p : PartitionId) (es : List Entry) (s t : Site) : Prop where
  filter : t.filter = s.filter
  rejected : t.store.rejected = s.store.rejected
  invalidating : t.store.invalidating = s.store.invalidating
  expiry : ∀ e ∈ es, e.isExpired t.clock = e.isExpired s.clock
  fills : Store.Fills p s.store.base t.store.base

/-- An entry is passed over: it was evicted, it is expired or turned away, or it would not be
    rejected but the store has no use for it. -/
def Passes (s : Site) (p : PartitionId) (e : Entry) : Prop :=
  s.store.base.loadPermitted p e.key e.revision = false ∨ e.isExpired s.clock = true ∨
    s.accepts p e = false ∨
    (s.store.rejected.get? e.key = none ∧ s.store.base.Dismisses p e)

/-- An entry gets as far as the store, which rejects it. -/
structure Fails (s : Site) (p : PartitionId) (e : Entry) (reason : String) : Prop where
  permitted : s.store.base.loadPermitted p e.key e.revision = true
  fresh : e.isExpired s.clock = false
  accepted : s.accepts p e = true
  rejected : s.store.rejected.get? e.key = some reason

variable {s t u : Site} {p : PartitionId} {e : Entry} {es rest : List Entry} {reason : String}

namespace Later

theorem refl (p : PartitionId) (es : List Entry) (s : Site) : Later p es s s :=
  ⟨rfl, rfl, rfl, fun _ _ => rfl, .refl p _⟩

theorem trans (h₁ : Later p es s t) (h₂ : Later p es t u) : Later p es s u where
  filter := h₂.filter.trans h₁.filter
  rejected := h₂.rejected.trans h₁.rejected
  invalidating := h₂.invalidating.trans h₁.invalidating
  expiry e he := (h₂.expiry e he).trans (h₁.expiry e he)
  fills := h₁.fills.trans h₂.fills

theorem of_alike (ha : s.Alike t) (hf : Store.Fills p s.store.base t.store.base) :
    Later p es s t :=
  ⟨ha.filter, ha.rejected, ha.invalidating, fun _ _ => by rw [ha.clock], hf⟩

/-- The meters decide about no entry. -/
theorem measured (h : Later p es s t) (board : Board) : Later p es s { t with board } :=
  ⟨h.filter, h.rejected, h.invalidating, h.expiry, h.fills⟩

theorem of_cons (h : Later p (e :: es) s t) : Later p es s t :=
  ⟨h.filter, h.rejected, h.invalidating, fun x hx => h.expiry x (List.mem_cons_of_mem e hx),
    h.fills⟩

theorem accepts (h : Later p es s t) (e : Entry) : t.accepts p e = s.accepts p e := by
  rw [Site.accepts, h.filter]
  rfl

theorem loadPermitted (h : Later p es s t) (e : Entry) :
    t.store.base.loadPermitted p e.key e.revision = s.store.base.loadPermitted p e.key e.revision := by
  rw [Store.loadPermitted, h.fills.evictions]
  rfl

theorem passes (h : Later p es s t) (he : e ∈ es) (hp : s.Passes p e) : t.Passes p e := by
  unfold Passes
  rw [h.loadPermitted, h.expiry e he, h.accepts, h.rejected]
  exact hp.imp_right (Or.imp_right (Or.imp_right (And.imp_right (·.fills h.fills))))

theorem fails (h : Later p es s t) (he : e ∈ es) (hf : s.Fails p e reason) : t.Fails p e reason where
  permitted := (h.loadPermitted e).trans hf.permitted
  fresh := (h.expiry e he).trans hf.fresh
  accepted := (h.accepts e).trans hf.accepted
  rejected := (congrArg (·.get? e.key) h.rejected).trans hf.rejected

end Later

variable (sender : NodeId)

theorem base_settleWrite (s : Site) (p : PartitionId) (e : Entry)
    (r : Except StoreFault InsertOutcome) :
    (s.settleWrite sender p e r).1.store.base = s.store.base.settled p e r :=
  store_settleWrite s sender p e r

/-- Other entries of the partition may follow. -/
theorem verdict_settleWrite {r : Except StoreFault InsertOutcome}
    (hr : r = .ok .inserted ∨ r = .ok .removed ∨ r = .ok .alreadyNewer ∨
      r = .error (.capacityExceeded p)) : (s.settleWrite sender p e r).2 = .ok .more := by
  rcases hr with rfl | rfl | rfl | rfl <;> rfl

/-- A write that left the store as it was moves nothing but meters. -/
theorem settleWrite_of_no_use {base : Store} {r : Except StoreFault InsertOutcome}
    (hr : r = .ok .removed ∨ r = .ok .alreadyNewer ∨ r = .error (.capacityExceeded p))
    (hs : base.settled p e r = s.store.base) :
    ∃ board, settleWrite { s with store := { s.store with base } } sender p e r =
      ({ s with board }, .ok .more) := by
  have hsite : ∀ base' : Store, base' = s.store.base →
      ({ s with store := { s.store with base := base' } } : Site) = s := by
    rintro _ rfl
    rfl
  rcases hr with rfl | rfl | rfl
  · refine ⟨s.board.entrySkipped, ?_⟩
    exact Prod.ext (congrArg (measure · Board.entrySkipped) (hsite base hs)) rfl
  · refine ⟨s.board.entrySkipped, ?_⟩
    exact Prod.ext (congrArg (measure · Board.entrySkipped) (hsite base hs)) rfl
  · refine ⟨s.board.entryDropped, ?_⟩
    exact Prod.ext (congrArg (measure · Board.entryDropped) (hsite _ hs)) rfl

/-- An intake touches no other partition. -/
theorem only_takeIn (s : Site) (p : PartitionId) (e : Entry) :
    Store.Only p s.store.base (s.takeIn sender p e).1.store.base := by
  rw [takeIn_eq]
  split
  · exact .refl p _
  · rw [base_settleWrite]
    rcases s.store.insertIfNewer_cases p e with ⟨reason, -, h⟩ | ⟨-, before, hb, -, hins⟩
    · rw [h]
      exact .refl p _
    · refine Store.Only.trans ?_ hins.only
      rw [hb]
      split
      · exact Store.only_modify _ p _
      · exact .refl p _

theorem only_takeInAll (s : Site) (p : PartitionId) (es : List Entry) :
    Store.Only p s.store.base (s.takeInAll sender p es).1.store.base :=
  takeInAll_keeps s sender p (P := fun t => Store.Only p s.store.base t.store.base)
    (fun _ h => h) (fun t e h => h.trans (only_takeIn sender t p e)) es (.refl p _)

/-- A rejected entry ends the intake where it stands. -/
theorem takeInAll_of_fails (h : s.Fails p e reason) :
    s.takeInAll sender p (e :: rest) =
      (s, .error (.entryNotApplied sender p e.keyText (StoreFault.writeRejected reason).message)) := by
  have htake : s.takeIn sender p e =
      (s, .error (.entryNotApplied sender p e.keyText (StoreFault.writeRejected reason).message)) := by
    rw [takeIn_eq, if_neg (by simp [h.fresh, h.accepted]), Tampered.insertIfNewer, h.rejected]
    rfl
  rw [takeInAll, h.permitted, htake]
  rfl

theorem takeInAll_of_more (hl : s.store.base.loadPermitted p e.key e.revision = true)
    (h : s.takeIn sender p e = (t, .ok .more)) :
    s.takeInAll sender p (e :: rest) = t.takeInAll sender p rest := by
  rw [takeInAll, hl, h]
  rfl

theorem takeInAll_of_not_permitted (hl : s.store.base.loadPermitted p e.key e.revision = false) :
    s.takeInAll sender p (e :: rest) = (s.measure Board.entrySkipped).takeInAll sender p rest := by
  rw [takeInAll, hl]
  rfl

/-- An entry that reaches the store of a partition being filled, and is not rejected. -/
theorem takeIn_cases (hi : s.store.invalidating = ∅) (hx : e.isExpired s.clock = false)
    (ha : s.accepts p e = true) (hr : s.store.rejected.get? e.key = none) :
    ∃ base r, Store.Insertion s.store.base p e base r ∧
      s.takeIn sender p e = settleWrite { s with store := { s.store with base } } sender p e r := by
  rcases s.store.insertIfNewer_cases p e with ⟨reason, h, -⟩ | ⟨-, before, hb, hstore, hins⟩
  · rw [hr] at h
    cases h
  · rw [hi, if_neg (SortedSet.not_mem_empty e.key)] at hb
    subst hb
    refine ⟨_, _, hins, ?_⟩
    rw [takeIn_eq, if_neg (by simp [hx, ha]), ← hstore]

/-- An entry that is passed over moves nothing but meters. -/
theorem takeInAll_of_passes (hi : s.store.invalidating = ∅)
    (hm : s.store.base.state? p = some .moving) (h : s.Passes p e) :
    ∃ board, s.takeInAll sender p (e :: rest) =
      ({ s with board } : Site).takeInAll sender p rest := by
  cases hl : s.store.base.loadPermitted p e.key e.revision with
  | false => exact ⟨_, takeInAll_of_not_permitted sender hl⟩
  | true =>
    by_cases hx : e.isExpired s.clock = true ∨ s.accepts p e = false
    · refine ⟨_, takeInAll_of_more sender (t := s.measure Board.entrySkipped) hl ?_⟩
      rw [takeIn_eq, if_pos hx]
    · simp only [not_or, Bool.not_eq_true, Bool.not_eq_false] at hx
      obtain ⟨hr, hd⟩ : s.store.rejected.get? e.key = none ∧ s.store.base.Dismisses p e := by
        rcases h with h | h | h | h
        · rw [hl] at h
          cases h
        · rw [hx.1] at h
          cases h
        · rw [hx.2] at h
          cases h
        · exact h
      obtain ⟨base, r, hins, htake⟩ := takeIn_cases sender hi hx.1 hx.2 hr
      obtain ⟨hsame, hres⟩ := hins.of_dismissed hm hd
      obtain ⟨board, hsettle⟩ := settleWrite_of_no_use sender hres hsame
      exact ⟨board, takeInAll_of_more sender hl (htake.trans hsettle)⟩

/-- An entry that comes to a partition being filled is rejected, or it is to be passed over from
    then on. -/
theorem takeInAll_cons_cases (hi : s.store.invalidating = ∅)
    (hm : s.store.base.state? p = some .moving) (e : Entry) (rest : List Entry) :
    (∃ reason, s.Fails p e reason) ∨
      ∃ t, s.takeInAll sender p (e :: rest) = t.takeInAll sender p rest ∧
        s.Alike t ∧ Store.Fills p s.store.base t.store.base ∧ t.Passes p e := by
  have hskip := alike_measure s Board.entrySkipped
  cases hl : s.store.base.loadPermitted p e.key e.revision with
  | false =>
    exact .inr ⟨_, takeInAll_of_not_permitted sender hl, hskip, .refl p _, .inl hl⟩
  | true =>
    cases hx : e.isExpired s.clock with
    | true =>
      refine .inr ⟨s.measure Board.entrySkipped, takeInAll_of_more sender hl ?_, hskip,
        .refl p _, .inr (.inl hx)⟩
      rw [takeIn_eq, if_pos (.inl hx)]
    | false =>
      cases ha : s.accepts p e with
      | false =>
        refine .inr ⟨s.measure Board.entrySkipped, takeInAll_of_more sender hl ?_, hskip,
          .refl p _, .inr (.inr (.inl ha))⟩
        rw [takeIn_eq, if_pos (.inr ha)]
      | true =>
        cases hr : s.store.rejected.get? e.key with
        | some reason => exact .inl ⟨reason, hl, hx, ha, hr⟩
        | none =>
          obtain ⟨base, r, hins, htake⟩ := takeIn_cases sender hi hx ha hr
          have halike := alike_takeIn s sender p e
          have hstore : (s.takeIn sender p e).1.store.base = base.settled p e r := by
            rw [htake, base_settleWrite]
          have hmore : (s.takeIn sender p e).2 = .ok .more := by
            rw [htake, verdict_settleWrite sender (hins.outcome hm)]
          refine .inr ⟨(s.takeIn sender p e).1, takeInAll_of_more sender hl (Prod.ext rfl hmore),
            halike, ?_, .inr (.inr (.inr ⟨?_, ?_⟩))⟩
          · rw [hstore]
            exact hins.fills
          · rw [halike.rejected]
            exact hr
          · rw [hstore]
            exact hins.dismisses hm

/-- Taking entries in leads to a later moment of the site. -/
theorem later_takeInAll {w : Except Fault Unit} {all : List Entry} (hi : s.store.invalidating = ∅)
    (hm : s.store.base.state? p = some .moving) (h : s.takeInAll sender p es = (t, w)) :
    Later p all s t := by
  induction es generalizing s with
  | nil =>
    cases h
    exact .refl p all _
  | cons e rest ih =>
    rcases takeInAll_cons_cases sender hi hm e rest with ⟨reason, hf⟩ | ⟨v, hv, halike, hfills, -⟩
    · rw [takeInAll_of_fails sender hf] at h
      cases h
      exact .refl p all _
    · rw [hv] at h
      exact (Later.of_alike halike hfills).trans
        (ih (halike.invalidating.trans hi) (hfills.state.trans hm) h)

/-- The same entries again change nothing but meters, and end as they did. -/
theorem takeInAll_again {w : Except Fault Unit} (hi : s.store.invalidating = ∅)
    (hm : s.store.base.state? p = some .moving) (h : s.takeInAll sender p es = (t, w))
    (hl : Later p es t u) : ∃ board, u.takeInAll sender p es = ({ u with board }, w) := by
  induction es generalizing s u with
  | nil =>
    cases h
    exact ⟨u.board, rfl⟩
  | cons e rest ih =>
    rcases takeInAll_cons_cases sender hi hm e rest with
      ⟨reason, hf⟩ | ⟨v, hv, halike, hfills, hpass⟩
    · rw [takeInAll_of_fails sender hf] at h
      cases h
      exact ⟨u.board, takeInAll_of_fails sender (hl.fails List.mem_cons_self hf)⟩
    · rw [hv] at h
      have hiv := halike.invalidating.trans hi
      have hmv := hfills.state.trans hm
      have hvt : Later p (e :: rest) v t := later_takeInAll sender hiv hmv h
      have hvu := hvt.trans hl
      obtain ⟨board, hu⟩ : ∃ board, u.takeInAll sender p (e :: rest) =
          ({ u with board } : Site).takeInAll sender p rest :=
        takeInAll_of_passes sender (hvu.invalidating.trans hiv) (hvu.fills.state.trans hmv)
          (hvu.passes List.mem_cons_self hpass)
      obtain ⟨board', hrest⟩ := ih hiv hmv h (u := { u with board }) (hl.of_cons.measured board)
      exact ⟨board', hu.trans hrest⟩

end Site
end Rebalance
