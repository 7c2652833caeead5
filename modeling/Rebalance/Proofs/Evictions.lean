/-
  Rebalance.Proofs.Evictions

  What a store remembers of an eviction.  Evicting a key notes the revision
  that its slot had, in the place of what was noted before, so a key counts as
  evicted at the revision that its last eviction found (`evictedAt`).  That is
  a later one as long as the key is only written at later revisions.  A slot
  that is empty, or only marks a removed key, has the revision of a slot that
  was never written, and to evict it makes the store forget:
  `eviction_lasts_iff` says exactly when an eviction is remembered, and
  `evicted_key_comes_back` that it need not be.
-/
import Rebalance.Proofs.Ceiling

namespace Rebalance

/-- The slot was never written. -/
structure Slot.Blank (slot : Slot) : Prop where
  value : slot.value = none
  revision : slot.revision = Revision.initial

namespace Store

variable (s : Store) (p : PartitionId) (k : Bytes)

-- ============================================================================
-- What is noted
-- ============================================================================

/-- The revision that an operation notes for a key, if it evicts it. -/
def evictedBy : Operation → Option Revision
  | .evict q key => if q = p ∧ key = k then (s.slot? p k).map (·.revision) else none
  | _ => none

/-- The revisions that some operations note for a key, in order. -/
def evictedAt (s : Store) (p : PartitionId) (k : Bytes) : List Operation → List Revision
  | [] => []
  | op :: ops => (s.evictedBy p k op).toList ++ (s.operate op).evictedAt p k ops

theorem noted_evict (q : PartitionId) (key : Bytes) :
    (s.evict q key).evictions.get? (p, k) =
      (s.evictedBy p k (.evict q key)).or (s.evictions.get? (p, k)) := by
  unfold evict
  by_cases hk : q = p ∧ key = k
  · obtain ⟨rfl, rfl⟩ := hk
    cases h : s.slot? q key <;> simp [evictedBy, h]
  · have hne : ¬(p, k) = (q, key) := fun h =>
      hk ⟨(congrArg Prod.fst h).symm, (congrArg Prod.snd h).symm⟩
    cases h : s.slot? q key with
    | none => simp [evictedBy, hk]
    | some slot => simp [evictedBy, hk, hne]

theorem evictions_create (q : PartitionId) (st : PartitionState) :
    (s.create q st).evictions = s.evictions := by
  unfold create
  split <;> rfl

theorem evictions_put (q : PartitionId) (e : Entry) : (s.put q e).evictions = s.evictions := by
  unfold put
  split
  · rfl
  · exact evictions_modify s q _

/-- Only an eviction changes what is noted. -/
theorem evictions_operate {op : Operation} (h : ∀ q key, op ≠ .evict q key) :
    (s.operate op).evictions = s.evictions := by
  cases op with
  | create q st => exact evictions_create s q st
  | setState q st => exact evictions_modify s q _
  | put q e => exact evictions_put s q e
  | insertIfNewer q e => exact (insertIfNewer_insertion s q e).grows.evictions
  | evict q key => exact absurd rfl (h q key)
  | markObsolete q key => exact evictions_modify s q _
  | discardIfEmpty q key => exact (only_discardIfEmpty s q key).evictions
  | own q => exact (grows_own s q).evictions
  | reserve q => exact (grows_reserve s q).evictions
  | release q => exact evictions_modify s q _
  | tryLock q => exact (grows_tryLock s q).evictions
  | unlock q => exact evictions_modify s q _
  | track q key => exact evictions_modify s q _

theorem noted_operate (op : Operation) :
    (s.operate op).evictions.get? (p, k) = (s.evictedBy p k op).or (s.evictions.get? (p, k)) := by
  by_cases h : ∃ q key, op = .evict q key
  · obtain ⟨q, key, rfl⟩ := h
    exact noted_evict s p k q key
  · have hne : ∀ q key, op ≠ .evict q key := fun q key heq => h ⟨q, key, heq⟩
    rw [evictions_operate s hne]
    cases op with
    | evict q key => exact absurd rfl (hne q key)
    | _ => rfl

theorem evictedAt_append (ops more : List Operation) :
    s.evictedAt p k (ops ++ more) =
      s.evictedAt p k ops ++ (s.operateAll ops).evictedAt p k more := by
  induction ops generalizing s with
  | nil => rfl
  | cons op ops ih =>
    rw [List.cons_append, evictedAt, evictedAt, ih, List.append_assoc]
    rfl

/-- What is noted for a key is what its last eviction found. -/
theorem noted_operateAll (ops : List Operation) :
    (s.operateAll ops).evictions.get? (p, k) =
      (s.evictedAt p k ops).getLast?.or (s.evictions.get? (p, k)) := by
  induction ops generalizing s with
  | nil => rfl
  | cons op ops ih =>
    rw [evictedAt, List.getLast?_append, Option.or_assoc]
    refine (ih (s.operate op)).trans ?_
    rw [noted_operate]
    cases s.evictedBy p k op <;> rfl

/-- Every revision that is noted was found by an eviction of the key. -/
theorem mem_evictedAt_iff (r : Revision) (ops : List Operation) :
    r ∈ s.evictedAt p k ops ↔
      ∃ first rest found, ops = first ++ .evict p k :: rest ∧
        (s.operateAll first).slot? p k = some found ∧ found.revision = r := by
  constructor
  · intro h
    induction ops generalizing s with
    | nil => cases h
    | cons op ops ih =>
      rcases List.mem_append.mp h with hnow | hlater
      · have hop := Option.mem_toList.mp hnow
        cases op with
        | evict q key =>
          rw [evictedBy] at hop
          split at hop
          · next hk =>
            obtain ⟨rfl, rfl⟩ := hk
            obtain ⟨found, hfound, hr⟩ := Option.map_eq_some_iff.mp hop
            exact ⟨[], ops, found, rfl, hfound, hr⟩
          · cases hop
        | _ => cases hop
      · obtain ⟨first, rest, found, rfl, hfound, hr⟩ := ih (s.operate op) hlater
        exact ⟨op :: first, rest, found, rfl, hfound, hr⟩
  · rintro ⟨first, rest, found, rfl, hfound, rfl⟩
    rw [evictedAt_append, evictedAt, evictedBy, if_pos ⟨rfl, rfl⟩, hfound]
    simp

-- ============================================================================
-- What an eviction can find
-- ============================================================================

/-- An operation writes a key at a revision, whether or not something is stored. -/
def Operation.Writes (p : PartitionId) (k : Bytes) (r : Revision) : Operation → Prop
  | .put q e => q = p ∧ e.key = k ∧ e.revision = r
  | .insertIfNewer q e => q = p ∧ e.key = k ∧ e.revision = r
  | _ => False

/-- Where the slot of a key has its contents from, `s` being the store before. -/
inductive Origin (s : Store) (p : PartitionId) (k : Bytes) (slot : Slot) : Prop where
  | blank (h : slot.Blank)
  | kept (old : Slot) (h : s.slot? p k = some old) (hv : slot.value = old.value)
      (hr : slot.revision = old.revision)

variable {s p k}

theorem Origin.of_same {t : Store} {slot : Slot} (h : t.slot? p k = s.slot? p k)
    (hslot : t.slot? p k = some slot) : Origin s p k slot :=
  .kept slot (h ▸ hslot) rfl rfl

/-- The slot that a write would find is blank or was there. -/
theorem origin_slotFor (s : Store) (p : PartitionId) (k : Bytes) :
    Origin s p k (s.slotFor p k) := by
  unfold slotFor
  cases h : s.slot? p k with
  | none => exact .blank ⟨rfl, rfl⟩
  | some old => exact .kept old h rfl rfl

theorem slot?_put {q : PartitionId} {e : Entry} {slot : Slot}
    (h : (s.put q e).slot? p k = some slot) :
    s.slot? p k = some slot ∨ q = p ∧ e.key = k ∧ e.revision = slot.revision := by
  unfold put at h
  cases hq : s.get? q with
  | none =>
    simp only [hq] at h
    exact .inl h
  | some part =>
    simp only [hq] at h
    change (s.modifySlots q (·.insert e.key (({} : Slot).write e))).slot? p k = _ at h
    rw [slot?_putSlot s q p k e.key hq] at h
    split at h
    · next hk =>
      rw [Option.some.injEq] at h
      exact .inr ⟨hk.1.symm, hk.2.symm, by rw [← h]; rfl⟩
    · exact .inl h

theorem slot?_evict {q : PartitionId} {key : Bytes} {slot : Slot}
    (h : (s.evict q key).slot? p k = some slot) : s.slot? p k = some slot := by
  unfold evict at h
  cases hq : s.slot? q key with
  | none =>
    simp only [hq] at h
    exact h
  | some old =>
    simp only [hq] at h
    change (s.modifySlots q (·.erase key)).slot? p k = _ at h
    rw [slot?_eraseSlot] at h
    split at h
    · cases h
    · exact h

theorem Origin.putSlot {q : PartitionId} {key : Bytes} {part : Partition} {new slot : Slot}
    (hq : s.get? q = some part) (hnew : Origin s q key new)
    (h : (s.modifySlots q (·.insert key new)).slot? p k = some slot) : Origin s p k slot := by
  rw [slot?_putSlot s q p k key hq] at h
  split at h
  · next hk =>
    obtain ⟨rfl, rfl⟩ := hk
    rw [Option.some.injEq] at h
    exact h ▸ hnew
  · exact .kept slot h rfl rfl

/-- What a conditional insert leaves in a slot was there, is blank, or is the entry. -/
theorem Insertion.origin {q : PartitionId} {e : Entry} {t : Store} {slot : Slot}
    {r : Except StoreFault InsertOutcome} (hi : Insertion s q e t r)
    (h : t.slot? p k = some slot) :
    Origin s p k slot ∨ q = p ∧ e.key = k ∧ e.revision = slot.revision := by
  have written : ∀ {part : Partition}, s.get? q = some part →
      (s.modifySlots q (·.insert e.key ((s.slotFor q e.key).write e))).slot? p k = some slot →
      Origin s p k slot ∨ q = p ∧ e.key = k ∧ e.revision = slot.revision := by
    intro part hq hput
    rw [slot?_putSlot s q p k e.key hq] at hput
    split at hput
    · next hk =>
      rw [Option.some.injEq] at hput
      exact .inr ⟨hk.1.symm, hk.2.symm, by rw [← hput]; rfl⟩
    · exact .inl (.kept slot hput rfl rfl)
  cases hi with
  | refused part hq => exact .inl (.putSlot hq (origin_slotFor s q e.key) h)
  | replaced part v hq => exact written hq h
  | created part hq => exact written hq h
  | _ => exact .inl (.kept slot h rfl rfl)

theorem Origin.markObsolete {q : PartitionId} {key : Bytes} {slot : Slot}
    (h : (s.markObsolete q key).slot? p k = some slot) : Origin s p k slot := by
  rw [Store.markObsolete, slot?_modifySlots] at h
  by_cases hq : p = q
  · subst hq
    obtain ⟨part, hp, halter⟩ := Option.bind_eq_some_iff.mp (by rwa [if_pos rfl] at h)
    have hslot : part.slots.get? k = s.slot? p k := by rw [slot?, hp]; rfl
    rw [SortedMap.get?_alter] at halter
    split at halter
    · next hk =>
      subst hk
      rw [Option.some.injEq] at halter
      rw [← halter, hslot]
      cases hold : s.slot? p k with
      | none => exact .blank ⟨rfl, rfl⟩
      | some old => exact .kept old hold rfl rfl
    · exact .kept slot (hslot ▸ halter) rfl rfl
  · rw [if_neg hq] at h
    exact .kept slot h rfl rfl

/-- Whatever an operation leaves in a slot was there, is blank, or was written by it. -/
theorem origin_operate {op : Operation} {slot : Slot}
    (h : (s.operate op).slot? p k = some slot) :
    Origin s p k slot ∨ op.Writes p k slot.revision := by
  cases op with
  | create q st => exact .inl (.of_same (slot?_create st p) h)
  | setState q st => exact .inl (.of_same (slot?_setState s q p k st) h)
  | put q e =>
    rcases slot?_put h with hold | hw
    · exact .inl (.kept slot hold rfl rfl)
    · exact .inr hw
  | insertIfNewer q e => exact (insertIfNewer_insertion s q e).origin h
  | evict q key => exact .inl (.kept slot (slot?_evict h) rfl rfl)
  | markObsolete q key => exact .inl (.markObsolete h)
  | discardIfEmpty q key =>
    refine .inl (.kept slot ?_ rfl rfl)
    change (s.discardIfEmpty q key).1.slot? p k = some slot at h
    rw [slot?_discardIfEmpty] at h
    split at h
    · cases h
    · exact h
  | own q => exact .inl (.of_same (slot?_own s q p k) h)
  | reserve q => exact .inl (.of_same (slot?_reserve s q p k) h)
  | release q => exact .inl (.of_same (slot?_release s q p k) h)
  | tryLock q => exact .inl (.of_same (slot?_tryLock s q p k) h)
  | unlock q => exact .inl (.of_same (slot?_unlock s q p k) h)
  | track q key => exact .inl (.of_same (slot?_track s q p k key) h)

theorem Origin.before {op : Operation} {slot : Slot} (h : Origin (s.operate op) p k slot) :
    Origin s p k slot ∨ op.Writes p k slot.revision := by
  cases h with
  | blank hb => exact .inl (.blank hb)
  | kept old hold hv hr =>
    rcases origin_operate hold with ho | hw
    · cases ho with
      | blank hb => exact .inl (.blank ⟨hv.trans hb.value, hr.trans hb.revision⟩)
      | kept older hs hv' hr' => exact .inl (.kept older hs (hv.trans hv') (hr.trans hr'))
    · exact .inr (hr ▸ hw)

/-- Along any operations, too. -/
theorem origin_operateAll {ops : List Operation} {slot : Slot}
    (h : (s.operateAll ops).slot? p k = some slot) :
    Origin s p k slot ∨ ∃ op ∈ ops, op.Writes p k slot.revision := by
  induction ops generalizing s with
  | nil => exact .inl (.kept slot h rfl rfl)
  | cons op ops ih =>
    rcases ih (s := s.operate op) h with ho | ⟨later, hmem, hw⟩
    · rcases ho.before with hs | hw
      · exact .inl hs
      · exact .inr ⟨op, List.mem_cons_self, hw⟩
    · exact .inr ⟨later, List.mem_cons_of_mem op hmem, hw⟩

theorem slot?_evict_self (s : Store) (p : PartitionId) (k : Bytes) :
    (s.evict p k).slot? p k = none := by
  unfold evict
  cases h : s.slot? p k with
  | none => exact h
  | some slot =>
    change (s.modifySlots p (·.erase k)).slot? p k = none
    rw [slot?_eraseSlot, if_pos ⟨rfl, rfl⟩]

/-- What is found of a key that was evicted was never written, or has been written since. -/
theorem found_of_evicted {ops : List Operation} {found : Slot}
    (h : ((s.evict p k).operateAll ops).slot? p k = some found) :
    found.Blank ∨ ∃ op ∈ ops, op.Writes p k found.revision := by
  rcases origin_operateAll h with ho | hw
  · cases ho with
    | blank hb => exact .inl hb
    | kept old hold =>
      rw [slot?_evict_self] at hold
      cases hold
  · exact .inr hw

-- ============================================================================
-- How long an eviction is remembered
-- ============================================================================

theorem loadPermitted_of_noted {r : Revision} (h : s.evictions.get? (p, k) = some r)
    (w : Revision) : s.loadPermitted p k w = Key.below r w := by
  rw [loadPermitted, h]

/-- After an eviction the key counts as evicted at what its last eviction found. -/
theorem loadPermitted_since {slot : Slot} (h : s.slot? p k = some slot) (ops : List Operation)
    (w : Revision) :
    ((s.evict p k).operateAll ops).loadPermitted p k w =
      Key.below (((s.evict p k).evictedAt p k ops).getLast?.getD slot.revision) w := by
  refine loadPermitted_of_noted ?_ w
  have hnow : (s.evict p k).evictions.get? (p, k) = some slot.revision := by
    rw [noted_evict, evictedBy, if_pos ⟨rfl, rfl⟩, h]
    rfl
  rw [noted_operateAll, hnow]
  cases ((s.evict p k).evictedAt p k ops).getLast? <;> rfl

/-- At every moment of some operations what is noted is at least `v`, if no eviction among them
    found less. -/
theorem atMost_noted {v : Revision} {ops : List Operation}
    (h : ∀ r ∈ s.evictedAt p k ops, v.atMost r = true) :
    v.atMost ((s.evictedAt p k ops).getLast?.getD v) = true := by
  cases hlast : (s.evictedAt p k ops).getLast? with
  | none => exact Revision.atMost_refl v
  | some r => exact h r (List.mem_of_getLast? hlast)

/-- An eviction is remembered at every moment that follows exactly if no later eviction of the
    key finds an earlier revision; what is permitted is always what is later than the last
    eviction found.  A slot at an earlier revision is one that was never written, or was
    written at that revision since.  While an entry is not permitted, a page that brings it is
    taken in without it. -/
theorem eviction_lasts_iff {slot : Slot} (hslot : s.slot? p k = some slot)
    (after : List Operation) :
    let evicted := s.evict p k
    let noted := (evicted.evictedAt p k after).getLast?.getD slot.revision
    ((∀ first rest, after = first ++ rest → ∀ w, w.atMost slot.revision = true →
        (evicted.operateAll first).loadPermitted p k w = false) ↔
      ∀ first rest found, after = first ++ .evict p k :: rest →
        (evicted.operateAll first).slot? p k = some found →
        slot.revision.atMost found.revision = true) ∧
    (∀ w, (evicted.operateAll after).loadPermitted p k w = Key.below noted w) ∧
    (∀ first rest found, after = first ++ .evict p k :: rest →
      (evicted.operateAll first).slot? p k = some found →
      found.Blank ∨ ∃ op ∈ first, op.Writes p k found.revision) ∧
    (∀ site : Site, site.store.base = evicted.operateAll after → ∀ sender e rest, e.key = k →
      e.revision.atMost noted = true →
      site.takeInAll sender p (e :: rest) =
        (site.measure Board.entrySkipped).takeInAll sender p rest) := by
  intro evicted noted
  refine ⟨⟨?_, ?_⟩, loadPermitted_since hslot after, fun first rest found _ => found_of_evicted,
    ?_⟩
  · rintro hall first rest found rfl hfound
    have hnow := hall (first ++ [.evict p k]) rest (by simp) slot.revision (Revision.atMost_refl _)
    rw [loadPermitted_since hslot, evictedAt_append, evictedAt, evictedBy, if_pos ⟨rfl, rfl⟩,
      hfound] at hnow
    simpa [evictedAt, Revision.atMost] using hnow
  · rintro hfound first rest rfl w hw
    have hlater : ∀ r ∈ evicted.evictedAt p k first, slot.revision.atMost r = true := by
      intro r hr
      obtain ⟨start, mid, found, rfl, hslot', rfl⟩ := (mem_evictedAt_iff evicted p k r first).mp hr
      exact hfound start (mid ++ rest) found (by simp) hslot'
    rw [loadPermitted_since hslot]
    simpa [Revision.atMost] using Revision.atMost_trans hw (atMost_noted hlater)
  · rintro site hsite sender e rest rfl hle
    refine Site.takeInAll_of_not_permitted sender ?_
    rw [hsite, loadPermitted_since hslot]
    simpa [Revision.atMost] using hle

/-- A key is written at revision 5 and evicted, and again at revision 7, while another key is
    marked as removed: it stays evicted. -/
theorem eviction_lasts_iff_rewritten :
    let at_ (order : UInt64) : Entry := { key := [7], value := [1], revision := ⟨order, 0⟩ }
    let s := operateAll {} [.create 3 .owning, .put 3 (at_ 5)]
    let after : List Operation := [.put 3 (at_ 7), .evict 3 [7], .markObsolete 3 [8]]
    s.slot? 3 [7] = some (({} : Slot).write (at_ 5)) ∧
      (∀ first rest, after = first ++ rest → ∀ w, w.atMost ⟨5, 0⟩ = true →
        ((s.evict 3 [7]).operateAll first).loadPermitted 3 [7] w = false) ∧
      ∀ w, ((s.evict 3 [7]).operateAll after).loadPermitted 3 [7] w = Key.below ⟨7, 0⟩ w := by
  intro at_ s after
  have hslot : s.slot? 3 [7] = some (({} : Slot).write (at_ 5)) := by decide +kernel
  obtain ⟨hlasts, hpermitted, -, -⟩ := eviction_lasts_iff hslot after
  refine ⟨hslot, hlasts.mpr ?_, fun w => (hpermitted w).trans (congrArg (Key.below · w) ?_)⟩
  · intro first rest found hafter hfound
    have hlater : ∀ r ∈ (s.evict 3 [7]).evictedAt 3 [7] after, Revision.atMost ⟨5, 0⟩ r = true := by
      decide +kernel
    exact hlater _
      ((mem_evictedAt_iff _ 3 [7] _ after).mpr ⟨first, rest, found, hafter, hfound, rfl⟩)
  · decide +kernel

/-- A store forgets: a key is written at revision 5 and evicted, and an entry at revision 5 may
    not be loaded.  When the key is then marked as removed, or written at revision 3, and
    evicted again, such an entry may be loaded. -/
theorem evicted_key_comes_back :
    let at_ (order : UInt64) : Entry := { key := [7], value := [1], revision := ⟨order, 0⟩ }
    let s := operateAll {} [.create 3 .owning, .put 3 (at_ 5)]
    s.read 3 [7] = some ([1], ⟨5, 0⟩) ∧
      (s.evict 3 [7]).loadPermitted 3 [7] ⟨5, 0⟩ = false ∧
      ((s.evict 3 [7]).operateAll [.markObsolete 3 [7], .evict 3 [7]]).loadPermitted 3 [7] ⟨5, 0⟩ =
        true ∧
      ((s.evict 3 [7]).operateAll [.put 3 (at_ 3), .evict 3 [7]]).loadPermitted 3 [7] ⟨5, 0⟩ =
        true := by
  decide +kernel

end Store
end Rebalance
