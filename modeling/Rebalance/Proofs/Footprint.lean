/-
  Rebalance.Proofs.Footprint

  What a page may change in a store.  `Store.Footprint` lists it: of the
  partitions that are due, slots of keys that the page brings, by writes that
  the evictions permit and that are later than what is there, the tracking of
  such keys, and the step from moving to owning where the page is the last one;
  of any other partition nothing but reservations and locks.  Footprints add up,
  so it is enough to look at one entry (`footprint_takeIn`) and at owning
  (`footprint_own`).
-/
import Rebalance.Proofs.Fates

namespace Rebalance

-- ============================================================================
-- Slots that are written to
-- ============================================================================

/-- A page brings an entry for a partition. -/
def Supply.Brings (page : Supply) (p : PartitionId) (e : Entry) : Prop :=
  ∃ es, page.entries.get? p = some es ∧ e ∈ es

namespace Slot

/-- What can become of the slot of a key by handing entries to the store: an entry is written where
    the key is not marked as removed and nothing as late is stored, and one that is refused may take
    a slot away that stores nothing. -/
inductive Rewritten (may : Entry → Prop) : Option Slot → Option Slot → Prop where
  | same (old : Option Slot) : Rewritten may old old
  | write {old new : Option Slot} (e : Entry) (hmay : may e)
      (hkept : (old.getD {}).obsolete = false)
      (hlater : ∀ v, (old.getD {}).value = some v → e.revision.atMost (old.getD {}).revision = false)
      (hrest : Rewritten may (some ((old.getD {}).write e)) new) : Rewritten may old new
  | discard {old new : Option Slot} (e : Entry) (hmay : may e)
      (hkept : (old.getD {}).obsolete = false) (hempty : (old.getD {}).value = none)
      (hrest : Rewritten may none new) : Rewritten may old new

namespace Rewritten

variable {may : Entry → Prop} {a b c : Option Slot}

theorem trans (h₁ : Rewritten may a b) (h₂ : Rewritten may b c) : Rewritten may a c := by
  induction h₁ with
  | same => exact h₂
  | write e hmay hkept hlater _ ih => exact .write e hmay hkept hlater (ih h₂)
  | discard e hmay hkept hempty _ ih => exact .discard e hmay hkept hempty (ih h₂)

theorem mono {may' : Entry → Prop} (h : Rewritten may a b) (hsub : ∀ e, may e → may' e) :
    Rewritten may' a b := by
  induction h with
  | same old => exact .same old
  | write e hmay hkept hlater _ ih => exact .write e (hsub e hmay) hkept hlater ih
  | discard e hmay hkept hempty _ ih => exact .discard e (hsub e hmay) hkept hempty ih

/-- A stored value is not removed, and its revision does not fall. -/
theorem stays (h : Rewritten may a b) {v : Bytes} (hv : (a.getD {}).value = some v) :
    ∃ v', (b.getD {}).value = some v' ∧ (a.getD {}).revision.atMost (b.getD {}).revision = true := by
  induction h generalizing v with
  | same old => exact ⟨v, hv, Revision.atMost_refl _⟩
  | write e _ _ hlater _ ih =>
    obtain ⟨v', hv', hle⟩ := ih (v := e.value) rfl
    exact ⟨v', hv', Revision.atMost_trans (Revision.atMost_of_not_atMost (hlater v hv)) hle⟩
  | discard _ _ _ hempty _ _ => cases hempty.symm.trans hv

end Rewritten
end Slot

namespace Store

-- ============================================================================
-- What a store has of a partition
-- ============================================================================

/-- What a store has of a partition, its reservations and its lock apart. -/
def contents (s : Store) (p : PartitionId) :
    Option (PartitionState × SortedMap Bytes Slot × SortedSet Bytes) :=
  (s.get? p).map fun part => (part.state, part.slots, part.tracked)

variable {s t u : Store} {p q : PartitionId}

theorem contents_of_get? (h : t.get? q = s.get? q) : t.contents q = s.contents q :=
  congrArg (Option.map _) h

theorem state?_of_contents (h : t.contents q = s.contents q) : t.state? q = s.state? q := by
  have hview : ∀ r : Store, r.state? q = (r.contents q).map (·.1) := fun r => by
    rw [state?, contents, Option.map_map]
    rfl
  rw [hview, hview, h]

theorem slot?_of_contents (h : t.contents q = s.contents q) (k : Bytes) :
    t.slot? q k = s.slot? q k := by
  have hview : ∀ r : Store, r.slot? q k = (r.contents q).bind fun c => c.2.1.get? k := fun r => by
    rw [slot?, contents, Option.bind_map]
    rfl
  rw [hview, hview, h]

theorem tracked_of_contents (h : t.contents q = s.contents q) : t.tracked q = s.tracked q := by
  have hview : ∀ r : Store, r.tracked q = ((r.contents q).map (·.2.2)).getD ∅ := fun r => by
    rw [tracked, contents, Option.map_map]
    rfl
  rw [hview, hview, h]

/-- Reservations and locks are not among the contents. -/
theorem contents_modify (s : Store) (p q : PartitionId) {f : Partition → Partition}
    (hf : ∀ x, (f x).state = x.state ∧ (f x).slots = x.slots ∧ (f x).tracked = x.tracked) :
    (s.modify p f).contents q = s.contents q := by
  unfold contents
  rw [get?_modify]
  by_cases hq : q = p
  · rw [if_pos hq, hq, Option.map_map]
    congr 1
    funext x
    obtain ⟨hstate, hslots, htracked⟩ := hf x
    simp only [Function.comp_apply, hstate, hslots, htracked]
  · rw [if_neg hq]

theorem contents_reserve (s : Store) (p q : PartitionId) :
    (s.reserve p).1.contents q = s.contents q := by
  unfold reserve
  split
  · rfl
  · rfl
  · exact contents_modify s p q fun _ => ⟨rfl, rfl, rfl⟩

theorem contents_tryLock (s : Store) (p q : PartitionId) :
    (s.tryLock p).1.contents q = s.contents q := by
  unfold tryLock
  split
  · rfl
  · split
    · rfl
    · exact contents_modify s p q fun _ => ⟨rfl, rfl, rfl⟩

theorem contents_letGo (s : Store) (p q : PartitionId) :
    ((s.unlock p).release p).contents q = s.contents q := by
  have hrelease : ((s.unlock p).release p).contents q = (s.unlock p).contents q :=
    contents_modify _ p q fun _ => ⟨rfl, rfl, rfl⟩
  exact hrelease.trans (contents_modify s p q fun _ => ⟨rfl, rfl, rfl⟩)

theorem loadPermitted_of_evictions (h : t.evictions = s.evictions) (q : PartitionId) (k : Bytes)
    (r : Revision) : t.loadPermitted q k r = s.loadPermitted q k r := by
  unfold loadPermitted
  rw [h]

-- ============================================================================
-- Footprints
-- ============================================================================

/-- An entry that a page may write to a key of a partition: the page brings it, and the key was not
    evicted at its revision or a later one. -/
structure MayWrite (s : Store) (page : Supply) (q : PartitionId) (k : Bytes) (e : Entry) : Prop where
  brought : page.Brings q e
  key : e.key = k
  permitted : s.loadPermitted q k e.revision = true

/-- All that a page may change in a store to which some partitions are due. -/
structure Footprint (page : Supply) (due : PartitionId → Prop) (s t : Store) : Prop where
  evictions : t.evictions = s.evictions
  /-- Of a partition that is not due nothing is changed. -/
  elsewhere : ∀ q, ¬ due q → t.contents q = s.contents q
  /-- A slot is changed by entries that the page may write to its key. -/
  slots : ∀ q k, Slot.Rewritten (s.MayWrite page q k) (s.slot? q k) (t.slot? q k)
  /-- Keys are tracked from then on only if the page brings an entry for them. -/
  tracked : ∀ q k, k ∈ t.tracked q → k ∈ s.tracked q ∨ ∃ e, s.MayWrite page q k e
  stillTracked : ∀ q k, k ∈ s.tracked q → k ∈ t.tracked q
  /-- A state is changed from moving to owning only, and only at the end of a partition. -/
  states : ∀ q, t.state? q = s.state? q ∨
    s.state? q = some .moving ∧ t.state? q = some .owning ∧ q ∈ page.last

variable {page : Supply} {due : PartitionId → Prop}

theorem MayWrite.of_evictions {k : Bytes} {e : Entry} (h : t.MayWrite page q k e)
    (he : t.evictions = s.evictions) : s.MayWrite page q k e :=
  ⟨h.brought, h.key, (loadPermitted_of_evictions he q k e.revision).symm.trans h.permitted⟩

namespace Footprint

/-- Nothing but reservations and locks was changed. -/
theorem of_contents (he : t.evictions = s.evictions) (hc : ∀ q, t.contents q = s.contents q) :
    Footprint page due s t where
  evictions := he
  elsewhere q _ := hc q
  slots q k := by
    rw [slot?_of_contents (hc q) k]
    exact .same _
  tracked q k h := by
    rw [tracked_of_contents (hc q)] at h
    exact .inl h
  stillTracked q k h := by
    rw [tracked_of_contents (hc q)]
    exact h
  states q := .inl (state?_of_contents (hc q))

theorem refl (s : Store) : Footprint page due s s := of_contents rfl fun _ => rfl

theorem trans (h₁ : Footprint page due s t) (h₂ : Footprint page due t u) :
    Footprint page due s u where
  evictions := h₂.evictions.trans h₁.evictions
  elsewhere q hq := (h₂.elsewhere q hq).trans (h₁.elsewhere q hq)
  slots q k := (h₁.slots q k).trans ((h₂.slots q k).mono fun _ h => h.of_evictions h₁.evictions)
  tracked q k h := by
    rcases h₂.tracked q k h with h | ⟨e, he⟩
    · exact h₁.tracked q k h
    · exact .inr ⟨e, he.of_evictions h₁.evictions⟩
  stillTracked q k h := h₂.stillTracked q k (h₁.stillTracked q k h)
  states q := by
    rcases h₂.states q with h | ⟨hm, ho, hlast⟩
    · rw [h]
      exact h₁.states q
    · rcases h₁.states q with h | ⟨-, hown, -⟩
      · exact .inr ⟨h.symm.trans hm, ho, hlast⟩
      · cases hm.symm.trans hown

theorem mono {due' : PartitionId → Prop} (h : Footprint page due s t)
    (hsub : ∀ q, due q → due' q) : Footprint page due' s t :=
  { h with elsewhere := fun q hq => h.elsewhere q fun hdue => hq (hsub q hdue) }

/-- A stored value is neither removed nor replaced by an earlier one. -/
theorem stays (h : Footprint page due s t) {q : PartitionId} {k v : Bytes} {r : Revision}
    (hr : s.read q k = some (v, r)) :
    ∃ v' r', t.read q k = some (v', r') ∧ r.atMost r' = true := by
  obtain ⟨hv, rfl⟩ := read_eq_some_iff.mp hr
  obtain ⟨v', hv', hle⟩ := (h.slots q k).stays hv
  exact ⟨v', _, read_eq_some_iff.mpr ⟨hv', rfl⟩, hle⟩

end Footprint

-- ============================================================================
-- One write
-- ============================================================================

variable {e : Entry} {r : Except StoreFault InsertOutcome}

/-- A write and what follows it leave other slots alone, and may rewrite that of the entry. -/
theorem Insertion.rewritten (h : Insertion s p e t r) (hmay : s.MayWrite page p e.key e)
    (q : PartitionId) (k : Bytes) :
    Slot.Rewritten (s.MayWrite page q k) (s.slot? q k) ((t.settled p e r).slot? q k) := by
  cases h with
  | absent | invalid | removed | alreadyNewer => exact .same _
  | replaced part v hp ho hv hr =>
    change Slot.Rewritten _ _ ((Store.track _ p e.key).slot? q k)
    rw [slot?_track, slot?_putSlot s p q k e.key hp]
    by_cases hqk : q = p ∧ k = e.key
    · obtain ⟨rfl, rfl⟩ := hqk
      rw [if_pos ⟨rfl, rfl⟩]
      exact .write e hmay ho (fun _ _ => hr) (.same _)
    · rw [if_neg hqk]
      exact .same _
  | created part hp ho hv hf =>
    have hput : (Store.track { s.modifySlots p (·.insert e.key ((s.slotFor p e.key).write e)) with
        count := s.count + 1 } p e.key).slot? q k = _ :=
      (slot?_track _ p q k e.key).trans (slot?_putSlot s p q k e.key hp _)
    change Slot.Rewritten _ _ ((Store.track _ p e.key).slot? q k)
    rw [hput]
    by_cases hqk : q = p ∧ k = e.key
    · obtain ⟨rfl, rfl⟩ := hqk
      rw [if_pos ⟨rfl, rfl⟩]
      exact .write e hmay ho (fun v hsome => by cases hv.symm.trans hsome) (.same _)
    · rw [if_neg hqk]
      exact .same _
  | refused part hp ho hv hf =>
    change Slot.Rewritten _ _ ((Store.discardIfEmpty _ p e.key).1.slot? q k)
    by_cases hqk : q = p ∧ k = e.key
    · obtain ⟨rfl, rfl⟩ := hqk
      rw [slot?_discard_putSlot hp e.key e.key hv, if_pos rfl]
      exact .discard e hmay ho hv (.same _)
    · rw [slot?_discardIfEmpty, if_neg fun h => hqk ⟨h.1, h.2.1⟩, slot?_putSlot s p q k e.key hp,
        if_neg hqk]
      exact .same _

theorem Insertion.footprint (h : Insertion s p e t r) (hdue : due p)
    (hmay : s.MayWrite page p e.key e) : Footprint page due s (t.settled p e r) where
  evictions := h.only.evictions
  elsewhere q hq := contents_of_get? (h.only.others q (by rintro rfl; exact hq hdue))
  slots := h.rewritten hmay
  tracked q k hk := by
    rcases (h.tracked_settled q k).mp hk with hk | ⟨b, hb, -, rfl, rfl⟩
    · exact .inl hk
    · obtain ⟨f, -, rfl⟩ := Option.map_eq_some_iff.mp (Option.mem_toList.mp hb)
      exact .inr ⟨e, hmay⟩
  stillTracked q k hk := (h.tracked_settled q k).mpr (.inl hk)
  states q := .inl ((state?_settled t p q e r).trans (h.state? q))

/-- A partition is owned at its end. -/
theorem footprint_own (s : Store) (hdue : due p) (hlast : p ∈ page.last) :
    Footprint page due s (s.own p).1 where
  evictions := (only_own s p).evictions
  elsewhere q hq := contents_of_get? ((only_own s p).others q (by rintro rfl; exact hq hdue))
  slots q k := by
    rw [slot?_own]
    exact .same _
  tracked q k h := .inl (by rwa [tracked_own] at h)
  stillTracked q k h := by rwa [tracked_own]
  states q := by
    rw [state?_own]
    by_cases hq : q = p ∧ s.state? p = some .moving
    · obtain ⟨rfl, hm⟩ := hq
      exact .inr ⟨hm, if_pos ⟨rfl, hm⟩, hlast⟩
    · exact .inl (if_neg hq)

end Store

-- ============================================================================
-- Entries and partitions of a page
-- ============================================================================

namespace Site

variable {s : Site} {page : Supply} {due : PartitionId → Prop} {p : PartitionId}

theorem footprint_takeIn (sender : NodeId) {e : Entry} (hi : s.store.invalidating = ∅)
    (hdue : due p) (hb : page.Brings p e)
    (hl : s.store.base.loadPermitted p e.key e.revision = true) :
    Store.Footprint page due s.store.base (s.takeIn sender p e).1.store.base := by
  rw [takeIn_eq]
  split
  · exact .refl _
  · rw [base_settleWrite]
    rcases s.store.insertIfNewer_cases p e with ⟨reason, -, h⟩ | ⟨-, before, hbefore, -, hins⟩
    · rw [h]
      exact .refl _
    · rw [hi, if_neg (SortedSet.not_mem_empty e.key)] at hbefore
      rw [hbefore] at hins
      exact hins.footprint hdue ⟨hb, rfl, hl⟩

theorem footprint_takeInAll (sender : NodeId) {es : List Entry} (hi : s.store.invalidating = ∅)
    (hdue : due p) (hb : ∀ e ∈ es, page.Brings p e) :
    Store.Footprint page due s.store.base (s.takeInAll sender p es).1.store.base := by
  induction es generalizing s with
  | nil => exact .refl _
  | cons e rest ih =>
    have hrest : ∀ e ∈ rest, page.Brings p e := fun x hx => hb x (List.mem_cons_of_mem e hx)
    cases hl : s.store.base.loadPermitted p e.key e.revision with
    | false =>
      rw [takeInAll_of_not_permitted sender hl]
      exact ih (s := s.measure Board.entrySkipped) hi hrest
    | true =>
      have hone := footprint_takeIn sender hi hdue (hb e List.mem_cons_self) hl
      have hstill := ((alike_takeIn s sender p e).invalidating).trans hi
      rw [takeInAll, hl]
      simp only [Bool.not_true, Bool.false_eq_true, if_false]
      split
      · next hr =>
        rw [hr] at hone hstill
        exact hone.trans (ih hstill hrest)
      · next hr =>
        rw [hr] at hone
        exact hone
      · next hr =>
        rw [hr] at hone
        exact hone

end Site

namespace Demander

variable {job : PageJob} {due : PartitionId → Prop} {p : PartitionId}

theorem footprint_pinned (d : Demander) (p : PartitionId) :
    Store.Footprint job.page due d.site.store.base (d.pinned p).site.store.base := by
  refine .of_contents (only_pinned d p).evictions fun q => ?_
  change (d.site.store.reserve p).1.base.contents q = _
  unfold Tampered.reserve
  split
  · rfl
  · exact Store.contents_reserve _ p q

theorem footprint_withLock (d : Demander) (p : PartitionId) :
    Store.Footprint job.page due d.site.store.base (d.withLock p).site.store.base :=
  .of_contents (Store.only_tryLock _ p).evictions fun q => Store.contents_tryLock _ p q

/-- A load touches nothing but the slots it is to fill and the state of the partition. -/
theorem footprint_load (d : Demander) {es : List Entry} (hi : d.site.store.invalidating = ∅)
    (hdue : due p) (hb : ∀ e ∈ es, job.page.Brings p e) :
    Store.Footprint job.page due d.site.store.base (d.load job p es).1.site.store.base := by
  have hin : Store.Footprint job.page due d.site.store.base (d.takenIn job p es).site.store.base :=
    Site.footprint_takeInAll job.sender hi hdue hb
  have hletGo : ∀ e : Demander,
      Store.Footprint job.page due e.site.store.base (e.letGo p).site.store.base := fun e =>
    .of_contents (((Store.only_modify _ p _).trans (Store.only_modify _ p _)).evictions) fun q =>
      Store.contents_letGo _ p q
  rw [load_cases]
  split
  · next hc =>
    simp only [completes, Bool.and_eq_true, decide_eq_true_eq] at hc
    refine (hin.trans ?_).trans (hletGo _)
    rw [ownLoaded, (beside_changeRound _ _ _).store, ownAndReport, Site.store_report]
    exact Store.footprint_own _ hdue hc.2
  · exact hin.trans (hletGo _)

end Demander
end Rebalance
