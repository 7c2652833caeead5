/-
  Rebalance.Proofs.Merge

  Taking in entries is a merge in which the later revision wins. A partition
  takes an entry if it accepts writes and the store has neither a capacity nor
  an eviction or a removal that speaks against it; it then holds the entry, or
  what it held before at the same or a later revision. Nothing but the
  partition changes.
-/
import Rebalance.Proofs.Intake

namespace Rebalance

-- ============================================================================
-- Merging
-- ============================================================================

namespace Entry

/-- What a key holds after the entry was merged with what it held before. -/
def mergedWith (e : Entry) : Option (Bytes × Revision) → Bytes × Revision
  | some (v, r) => if e.revision.atMost r then (v, r) else (e.value, e.revision)
  | none => (e.value, e.revision)

/-- What a key holds after some entries were merged, one after another. -/
def mergeAll (k : Bytes) (old : Option (Bytes × Revision)) (es : List Entry) :
    Option (Bytes × Revision) :=
  es.foldl (fun o e => if k = e.key then some (e.mergedWith o) else o) old

variable {k : Bytes} {old : Option (Bytes × Revision)} {es : List Entry}

theorem mergeAll_cons (e : Entry) :
    mergeAll k old (e :: es) =
      mergeAll k (if k = e.key then some (e.mergedWith old) else old) es := rfl

theorem mergeAll_of_not_mem (h : k ∉ es.map key) : mergeAll k old es = old := by
  induction es generalizing old with
  | nil => rfl
  | cons e es ih =>
    rw [List.map_cons, List.mem_cons, not_or] at h
    rw [mergeAll_cons, if_neg h.1]
    exact ih h.2

/-- Of entries with different keys each is merged with what its key held at first. -/
theorem mergeAll_of_mem {e : Entry} (hn : (es.map key).Nodup) (he : e ∈ es) :
    mergeAll e.key old es = some (e.mergedWith old) := by
  induction es generalizing old with
  | nil => cases he
  | cons x es ih =>
    rw [List.map_cons, List.nodup_cons] at hn
    rw [mergeAll_cons]
    rcases List.mem_cons.mp he with rfl | he
    · rw [if_pos rfl]
      exact mergeAll_of_not_mem hn.1
    · have hne : e.key ≠ x.key := by
        intro heq
        exact hn.1 (heq ▸ List.mem_map_of_mem he)
      rw [if_neg hne]
      exact ih hn.2 he

end Entry

namespace Store

/-- The keys of a partition are different. -/
theorem entries_keys_nodup (s : Store) (p : PartitionId) :
    ((s.entries p).map Entry.key).Nodup := by
  unfold entries
  split
  · exact List.nodup_nil
  · next part _ =>
    have hsub : (part.entries.map Entry.key).Sublist (part.slots.toList.map Prod.fst) := by
      rw [Partition.entries, List.map_map, Partition.live]
      induction part.slots.toList with
      | nil => exact .slnil
      | cons x l ih =>
        cases hv : x.2.value with
        | none =>
          rw [List.filterMap_cons_none (by rw [hv]; rfl), List.map_cons]
          exact ih.cons _
        | some v =>
          rw [List.filterMap_cons_some (by rw [hv]; rfl), List.map_cons, List.map_cons]
          exact ih.cons_cons _
    exact hsub.nodup (part.slots.ordered.imp fun h => Key.ne_of_below h)

-- ============================================================================
-- One partition at a time
-- ============================================================================

/-- Whether a partition is locked. -/
def lock? (s : Store) (p : PartitionId) : Option Bool := (s.get? p).map (·.locked)

/-- Two stores that differ at most in one partition, and in how many values they hold. -/
structure Only (p : PartitionId) (s t : Store) : Prop where
  others : ∀ q, q ≠ p → t.get? q = s.get? q
  evictions : t.evictions = s.evictions
  capacity : t.capacity = s.capacity

namespace Only

variable {p : PartitionId} {s t u : Store}

theorem refl (p : PartitionId) (s : Store) : Only p s s := ⟨fun _ _ => rfl, rfl, rfl⟩

theorem trans (h₁ : Only p s t) (h₂ : Only p t u) : Only p s u where
  others q hq := (h₂.others q hq).trans (h₁.others q hq)
  evictions := h₂.evictions.trans h₁.evictions
  capacity := h₂.capacity.trans h₁.capacity

variable {q : PartitionId}

theorem state? (h : Only p s t) (hq : q ≠ p) : t.state? q = s.state? q := by
  rw [Store.state?, h.others q hq]
  rfl

theorem lock? (h : Only p s t) (hq : q ≠ p) : t.lock? q = s.lock? q := by
  rw [Store.lock?, h.others q hq]
  rfl

theorem slot? (h : Only p s t) (hq : q ≠ p) (k : Bytes) : t.slot? q k = s.slot? q k := by
  rw [Store.slot?, h.others q hq]
  rfl

theorem read (h : Only p s t) (hq : q ≠ p) (k : Bytes) : t.read q k = s.read q k :=
  read_of_slot?_eq (h.slot? hq k)

theorem slotFor (h : Only p s t) (hq : q ≠ p) (k : Bytes) : t.slotFor q k = s.slotFor q k := by
  rw [Store.slotFor, h.slot? hq k]
  rfl

end Only

theorem only_modify (s : Store) (p : PartitionId) (f : Partition → Partition) :
    Only p s (s.modify p f) where
  others q hq := by rw [get?_modify, if_neg hq]
  evictions := evictions_modify s p f
  capacity := capacity_modify s p f

theorem only_own (s : Store) (p : PartitionId) : Only p s (s.own p).1 := by
  unfold own
  split
  · exact only_modify s p _
  · exact .refl p s

theorem only_reserve (s : Store) (p : PartitionId) : Only p s (s.reserve p).1 := by
  unfold reserve
  split
  · exact .refl p s
  · exact .refl p s
  · exact only_modify s p _

theorem only_tryLock (s : Store) (p : PartitionId) : Only p s (s.tryLock p).1 := by
  unfold tryLock
  split
  · exact .refl p s
  · split
    · exact .refl p s
    · exact only_modify s p _

section Locks

variable (s : Store) (p q : PartitionId)

theorem lock?_modify {f : Partition → Partition} (hf : ∀ x, (f x).locked = x.locked) :
    (s.modify p f).lock? q = s.lock? q := by
  unfold lock?
  rw [get?_modify]
  by_cases hq : q = p
  · subst hq
    rw [if_pos rfl, Option.map_map]
    exact congrArg (fun g => (s.get? q).map g) (funext hf)
  · rw [if_neg hq]

theorem lock?_unlock :
    (s.unlock p).lock? q = if q = p then (s.lock? p).map fun _ => false else s.lock? q := by
  unfold lock? unlock
  rw [get?_modify]
  by_cases hq : q = p
  · rw [if_pos hq, if_pos hq, Option.map_map, Option.map_map]
    rfl
  · rw [if_neg hq, if_neg hq]

theorem lock?_release : (s.release p).lock? q = s.lock? q := lock?_modify s p q fun _ => rfl

theorem lock?_reserve : (s.reserve p).1.lock? q = s.lock? q := by
  unfold reserve
  split
  · rfl
  · rfl
  · exact lock?_modify s p q fun _ => rfl

/-- A lock that nobody holds can be taken. -/
theorem tryLock_free (h : s.lock? p ≠ some true) : (s.tryLock p).2 = true := by
  unfold tryLock
  split
  · rfl
  · next part hp =>
    rw [lock?, hp] at h
    split
    · next hl => exact absurd (congrArg some hl) h
    · rfl

/-- A partition that is there, and not gone, can be reserved. -/
theorem reserve_moving (h : s.state? p = some .moving) : (s.reserve p).2 = true := by
  unfold reserve
  rw [h]

end Locks

-- ============================================================================
-- Merging into a partition
-- ============================================================================

/-- Nothing speaks against writes to a partition. -/
structure Takes (s : Store) (p : PartitionId) : Prop where
  accepts : ∃ st, s.state? p = some st ∧ st.acceptsWrites = true
  roomy : s.capacity = none
  evictions : ∀ k, s.evictions.get? (p, k) = none
  obsolete : ∀ k, (s.slotFor p k).obsolete = false

/-- A partition that takes entries after it was merged with some. -/
structure Merged (p : PartitionId) (es : List Entry) (s t : Store) : Prop where
  only : Only p s t
  state : t.state? p = s.state? p
  lock : t.lock? p = s.lock? p
  obsolete : ∀ k, (t.slotFor p k).obsolete = (s.slotFor p k).obsolete
  read : ∀ k, t.read p k = Entry.mergeAll k (s.read p k) es

theorem Takes.of_same {p : PartitionId} {s t : Store} (h : s.Takes p) (ho : Only p s t)
    (hs : t.state? p = s.state? p)
    (hb : ∀ k, (t.slotFor p k).obsolete = (s.slotFor p k).obsolete) : t.Takes p where
  accepts := by
    obtain ⟨st, hst, ha⟩ := h.accepts
    exact ⟨st, hs.trans hst, ha⟩
  roomy := ho.capacity.trans h.roomy
  evictions k := by
    rw [ho.evictions]
    exact h.evictions k
  obsolete k := (hb k).trans (h.obsolete k)

theorem Merged.takes {p : PartitionId} {es : List Entry} {s t : Store} (h : Merged p es s t)
    (ht : s.Takes p) : t.Takes p := ht.of_same h.only h.state h.obsolete

theorem Merged.refl (p : PartitionId) (s : Store) : Merged p [] s s :=
  ⟨.refl p s, rfl, rfl, fun _ => rfl, fun _ => rfl⟩

theorem Merged.cons {p : PartitionId} {e : Entry} {es : List Entry} {s t u : Store}
    (h₁ : Merged p [e] s t) (h₂ : Merged p es t u) : Merged p (e :: es) s u where
  only := h₁.only.trans h₂.only
  state := h₂.state.trans h₁.state
  lock := h₂.lock.trans h₁.lock
  obsolete k := (h₂.obsolete k).trans (h₁.obsolete k)
  read k := by
    rw [h₂.read k, h₁.read k]
    rfl

/-- A change that leaves slots, state and lock alone is a merge of nothing. -/
theorem Merged.then_same {p : PartitionId} {es : List Entry} {s t u : Store} (h : Merged p es s t)
    (ho : Only p t u) (hs : u.state? p = t.state? p) (hl : u.lock? p = t.lock? p)
    (hk : ∀ k, u.slot? p k = t.slot? p k) : Merged p es s u where
  only := h.only.trans ho
  state := hs.trans h.state
  lock := hl.trans h.lock
  obsolete k := by
    rw [← h.obsolete k, slotFor, slotFor, hk]
  read k := by
    rw [← h.read k]
    exact read_of_slot?_eq (hk k)

/-- The slot with an entry that wins is put into place. -/
theorem merged_putSlot {s : Store} {p : PartitionId} {part : Partition} {e : Entry}
    (hp : s.get? p = some part) (hm : e.mergedWith (s.read p e.key) = (e.value, e.revision)) :
    Merged p [e] s (s.modifySlots p (·.insert e.key ((s.slotFor p e.key).write e))) where
  only := only_modify s p _
  state := state?_modifySlots s p p _
  lock := lock?_modify s p p fun _ => rfl
  obsolete k := by
    rw [slotFor_putSlot hp]
    by_cases hk : p = p ∧ k = e.key
    · rw [if_pos hk, hk.2]
      rfl
    · rw [if_neg hk]
  read k := by
    rw [read_eq_slotFor, slotFor_putSlot hp, Entry.mergeAll_cons]
    by_cases hk : k = e.key
    · rw [if_pos ⟨rfl, hk⟩, if_pos hk, hk, hm]
      rfl
    · rw [if_neg (fun h => hk h.2), if_neg hk, ← read_eq_slotFor]
      rfl

/-- A partition that takes entries is merged with the one to be written. -/
theorem Insertion.merges {s t : Store} {p : PartitionId} {e : Entry}
    {r : Except StoreFault InsertOutcome} (h : Insertion s p e t r) (ht : s.Takes p) :
    (r = .ok .inserted ∨ r = .ok .alreadyNewer) ∧ Merged p [e] s t := by
  obtain ⟨st, hst, ha⟩ := ht.accepts
  cases h with
  | absent hp =>
    have hnone : s.state? p = none := congrArg (Option.map Partition.state) hp
    rw [hnone] at hst
    cases hst
  | invalid part hp hb =>
    have hstate : s.state? p = some part.state := congrArg (Option.map Partition.state) hp
    rw [hstate, Option.some.injEq] at hst
    rw [hst, ha] at hb
    cases hb
  | removed ho =>
    rw [ht.obsolete] at ho
    cases ho
  | alreadyNewer v hv hr =>
    refine ⟨.inr rfl, .refl p s, rfl, rfl, fun _ => rfl, ?_⟩
    intro k
    rw [Entry.mergeAll_cons]
    by_cases hk : k = e.key
    · have hread : s.read p e.key = some (v, (s.slotFor p e.key).revision) :=
        read_eq_some_iff.mpr ⟨hv, rfl⟩
      rw [if_pos hk, hk, hread, Entry.mergedWith, if_pos hr]
      rfl
    · rw [if_neg hk]
      rfl
  | replaced part v hp _ hv hr =>
    refine ⟨.inl rfl, merged_putSlot hp ?_⟩
    have hread : s.read p e.key = some (v, (s.slotFor p e.key).revision) :=
      read_eq_some_iff.mpr ⟨hv, rfl⟩
    rw [hread, Entry.mergedWith, hr]
    rfl
  | refused part hp ho hv hf =>
    rw [isFull, ht.roomy] at hf
    cases hf
  | created part hp _ hv _ =>
    have hread : s.read p e.key = none := read_eq_none_iff.mpr hv
    have hm : Merged p [e] s (s.modifySlots p (·.insert e.key ((s.slotFor p e.key).write e))) :=
      merged_putSlot hp (by rw [hread]; rfl)
    exact ⟨.inl rfl, ⟨hm.only.others, hm.only.evictions, hm.only.capacity⟩, hm.state, hm.lock,
      hm.obsolete, hm.read⟩

end Store

namespace Site

-- ============================================================================
-- Merging at a site
-- ============================================================================

/-- Nothing at a site speaks against entries of a partition. -/
structure Receptive (s : Site) (p : PartitionId) : Prop where
  filter : s.filter = none
  rejected : s.store.rejected = ∅
  invalidating : s.store.invalidating = ∅
  takes : s.store.base.Takes p

variable {s : Site} {p : PartitionId}

theorem Receptive.later {t : Site} (h : s.Receptive p) (ha : s.Alike t)
    (ht : t.store.base.Takes p) : t.Receptive p where
  filter := ha.filter.trans h.filter
  rejected := ha.rejected.trans h.rejected
  invalidating := ha.invalidating.trans h.invalidating
  takes := ht

theorem takeIn_merges (h : s.Receptive p) (sender : NodeId) {e : Entry}
    (hx : e.isExpired s.clock = false) :
    (s.takeIn sender p e).2 = .ok .more ∧
      Store.Merged p [e] s.store.base (s.takeIn sender p e).1.store.base := by
  have hpass : ¬ (e.isExpired s.clock = true ∨ s.accepts p e = false) := by
    rw [hx, accepts, h.filter]
    simp
  rw [takeIn_eq, if_neg hpass]
  rcases s.store.insertIfNewer_cases p e with ⟨reason, hr, -⟩ | ⟨-, before, hb, -, hins⟩
  · rw [h.rejected] at hr
    cases hr
  · rw [h.invalidating, if_neg (SortedSet.not_mem_empty e.key)] at hb
    subst hb
    obtain ⟨hres, hm⟩ := hins.merges h.takes
    rcases hres with hres | hres
    · rw [hres]
      refine ⟨rfl, ?_⟩
      rw [store_settleWrite]
      exact hm.then_same (Store.only_modify _ p _) (Store.state?_track _ p p e.key)
        (Store.lock?_modify _ p p fun _ => rfl) fun k => Store.slot?_track _ p p k e.key
    · rw [hres]
      exact ⟨rfl, hm⟩

/-- Entries are taken in as a merge, whatever keys they have. -/
theorem takeInAll_merges (h : s.Receptive p) (sender : NodeId) {es : List Entry}
    (hx : ∀ e ∈ es, e.isExpired s.clock = false) :
    (s.takeInAll sender p es).2 = .ok () ∧
      Store.Merged p es s.store.base (s.takeInAll sender p es).1.store.base := by
  induction es generalizing s with
  | nil => exact ⟨rfl, .refl p _⟩
  | cons e es ih =>
    have hpermitted : s.store.base.loadPermitted p e.key e.revision = true := by
      rw [Store.loadPermitted, h.takes.evictions]
    obtain ⟨hok, hm⟩ := takeIn_merges h sender (hx e List.mem_cons_self)
    have halike : s.Alike (s.takeIn sender p e).1 := alike_takeIn s sender p e
    have hrest : ∀ x ∈ es, x.isExpired (s.takeIn sender p e).1.clock = false := by
      intro x hx'
      rw [halike.clock]
      exact hx x (List.mem_cons_of_mem e hx')
    obtain ⟨hok', hm'⟩ := ih (h.later halike (hm.takes h.takes)) hrest
    have hstep : s.takeInAll sender p (e :: es) =
        (s.takeIn sender p e).1.takeInAll sender p es := by
      rw [takeInAll, hpermitted]
      simp only [Bool.not_true, Bool.false_eq_true, if_false]
      split
      · next h => rw [h]
      · next h =>
        rw [h] at hok
        cases hok
      · next h =>
        rw [h] at hok
        cases hok
    rw [hstep]
    exact ⟨hok', hm.cons hm'⟩

end Site
end Rebalance
