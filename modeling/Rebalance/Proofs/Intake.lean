/-
  Rebalance.Proofs.Intake

  What taking in entries does to a site.  Whatever becomes of an entry, the
  store only grows, and of everything else only meters, recorder and trace
  move.  An intake that ends well leaves every entry accounted for: it was
  expired or turned away, or the store says why it need not be written, or the
  store holds its key at its revision or a later one.
-/
import Rebalance.Proofs.Store
import Rebalance.Site.Intake

namespace Rebalance

-- ============================================================================
-- Entries that are accounted for
-- ============================================================================

/-- The store answers for an entry: it was evicted at its revision or later, its key was
    removed, there is no room for it, or it is held at its revision or a later one. -/
def Store.Answers (s : Store) (p : PartitionId) (e : Entry) : Prop :=
  s.loadPermitted p e.key e.revision = false ∨ (s.slotFor p e.key).obsolete = true ∨
    (s.isFull = true ∧ s.read p e.key = none) ∨
    ∃ v r, s.read p e.key = some (v, r) ∧ e.revision.atMost r = true

/-- What a store answers for stays answered for as the store grows. -/
theorem Store.Answers.grows {s t : Store} {p : PartitionId} {e : Entry} (h : s.Answers p e)
    (hg : s.Grows t) : t.Answers p e := by
  rcases h with h | h | ⟨hf, hn⟩ | ⟨v, r, hv, hr⟩
  · refine .inl ?_
    rw [Store.loadPermitted, hg.evictions]
    exact h
  · exact .inr (.inl (hg.obsolete p e.key h))
  · exact .inr (.inr (.inl ⟨hg.isFull hf, hg.full hf p e.key hn⟩))
  · obtain ⟨v', r', hv', hr'⟩ := hg.held p e.key v r hv
    exact .inr (.inr (.inr ⟨v', r', hv', Revision.atMost_trans hr hr'⟩))

namespace Store

-- ============================================================================
-- One write
-- ============================================================================

/-- The slot that a write finds, after some slot was put there. -/
theorem slotFor_putSlot {s : Store} {p : PartitionId} {part : Partition}
    (h : s.get? p = some part) (key : Bytes) (slot : Slot) (q : PartitionId) (k : Bytes) :
    (s.modifySlots p (·.insert key slot)).slotFor q k =
      if q = p ∧ k = key then slot else s.slotFor q k := by
  unfold slotFor
  rw [slot?_putSlot s p q k key h]
  by_cases hq : q = p ∧ k = key
  · simp [hq]
  · simp [hq]

theorem read_eq_slotFor (s : Store) (p : PartitionId) (k : Bytes) :
    s.read p k = (s.slotFor p k).value.map fun v => (v, (s.slotFor p k).revision) := by
  unfold read slotFor
  cases s.slot? p k <;> rfl

/-- Putting a slot in the place of one that holds no more than it undoes nothing. -/
theorem grows_putSlot {s : Store} {p : PartitionId} {part : Partition}
    (h : s.get? p = some part) (key : Bytes) (slot : Slot)
    (ho : (s.slotFor p key).obsolete = true → slot.obsolete = true)
    (hv : ∀ v, (s.slotFor p key).value = some v →
      slot.value.isSome = true ∧ (s.slotFor p key).revision.atMost slot.revision = true)
    (hf : s.isFull = true → (s.slotFor p key).value = none → slot.value = none) :
    s.Grows (s.modifySlots p (·.insert key slot)) where
  evictions := by simp [modifySlots]
  capacity := by simp [modifySlots]
  count := by simp [modifySlots]
  moving q hq := by
    rw [state?_modifySlots] at hq
    exact hq
  obsolete q k hq := by
    rw [slotFor_putSlot h]
    by_cases hqk : q = p ∧ k = key
    · rw [if_pos hqk]
      rw [hqk.1, hqk.2] at hq
      exact ho hq
    · rw [if_neg hqk]
      exact hq
  held q k v r hr := by
    rw [read_eq_slotFor, slotFor_putSlot h]
    by_cases hqk : q = p ∧ k = key
    · rw [hqk.1, hqk.2] at hr
      obtain ⟨hval, hrev⟩ := read_eq_some_iff.mp hr
      obtain ⟨hsome, hle⟩ := hv v hval
      obtain ⟨v', hv'⟩ := Option.isSome_iff_exists.mp hsome
      rw [if_pos hqk, hv']
      exact ⟨v', slot.revision, rfl, hrev ▸ hle⟩
    · rw [if_neg hqk, ← read_eq_slotFor]
      exact ⟨v, r, hr, Revision.atMost_refl r⟩
  full hfull q k hq := by
    rw [read_eq_none_iff, slotFor_putSlot h]
    by_cases hqk : q = p ∧ k = key
    · rw [hqk.1, hqk.2] at hq
      rw [if_pos hqk]
      exact hf hfull (read_eq_none_iff.mp hq)
    · rw [if_neg hqk]
      exact read_eq_none_iff.mp hq

theorem Grows.setCount {s t : Store} (h : s.Grows t) {n : Nat} (hn : s.count ≤ n) :
    s.Grows { t with count := n } where
  evictions := h.evictions
  capacity := h.capacity
  count := hn
  moving := h.moving
  obsolete := h.obsolete
  held := h.held
  full := h.full

/-- A conditional insert undoes nothing. -/
theorem Insertion.grows {s t : Store} {p : PartitionId} {e : Entry}
    {r : Except StoreFault InsertOutcome} (h : Insertion s p e t r) : s.Grows t := by
  cases h with
  | absent => exact .refl s
  | invalid => exact .refl s
  | removed => exact .refl s
  | alreadyNewer => exact .refl s
  | replaced part v hp ho hv hr =>
    apply grows_putSlot hp
    · intro h
      simpa [Slot.write] using h
    · intro v' _
      exact ⟨rfl, Revision.atMost_of_not_atMost hr⟩
    · intro _ hn
      rw [hn] at hv
      cases hv
  | refused part hp ho hv hf =>
    apply grows_putSlot hp
    · exact id
    · intro v' hv'
      rw [hv'] at hv
      cases hv
    · intro _ hn
      exact hn
  | created part hp ho hv hf =>
    -- The slot is put as in a full store, but the store counts one value more.
    refine Grows.setCount (t := s.modifySlots p _) (grows_putSlot hp _ _ ?_ ?_ ?_) (by omega)
    · intro h
      simpa [Slot.write] using h
    · intro v' hv'
      rw [hv'] at hv
      cases hv
    · intro hfull
      rw [hfull] at hf
      cases hf

/-- No state changes by a conditional insert. -/
theorem Insertion.state? {s t : Store} {p : PartitionId} {e : Entry}
    {r : Except StoreFault InsertOutcome} (h : Insertion s p e t r) (q : PartitionId) :
    t.state? q = s.state? q := by
  cases h with
  | replaced => exact state?_modifySlots s p q _
  | refused => exact state?_modifySlots s p q _
  | created => exact state?_modifySlots s p q _
  | _ => rfl

/-- Removing an empty slot that nobody marked undoes nothing. -/
theorem grows_discardIfEmpty {s : Store} {p : PartitionId} {key : Bytes}
    (ho : (s.slotFor p key).obsolete = false) : s.Grows (s.discardIfEmpty p key).1 := by
  have hslot : ∀ q k, (s.discardIfEmpty p key).1.slotFor q k =
      if q = p ∧ k = key ∧ (s.slot? p key).all (·.value.isNone) then {} else s.slotFor q k := by
    intro q k
    unfold slotFor
    rw [slot?_discardIfEmpty]
    split <;> rfl
  have hcount : (s.discardIfEmpty p key).1.count = s.count ∧
      (s.discardIfEmpty p key).1.capacity = s.capacity ∧
      (s.discardIfEmpty p key).1.evictions = s.evictions := by
    unfold discardIfEmpty
    split
    · exact ⟨rfl, rfl, rfl⟩
    · split
      · exact ⟨rfl, rfl, rfl⟩
      · simp [modifySlots]
  refine ⟨hcount.2.2, hcount.2.1, Nat.le_of_eq hcount.1.symm, ?_, ?_, ?_, ?_⟩
  · intro q hq
    rw [state?_discardIfEmpty] at hq
    exact hq
  · intro q k hq
    rw [hslot]
    by_cases hc : q = p ∧ k = key ∧ (s.slot? p key).all (·.value.isNone) = true
    · rw [hc.1, hc.2.1, ho] at hq
      cases hq
    · rw [if_neg hc]
      exact hq
  · intro q k v r hq
    rw [read_eq_slotFor, hslot]
    by_cases hc : q = p ∧ k = key ∧ (s.slot? p key).all (·.value.isNone) = true
    · obtain ⟨hqp, hkk, hall⟩ := hc
      rw [hqp, hkk, read] at hq
      cases hs : s.slot? p key with
      | none => simp [hs] at hq
      | some slot =>
        rw [hs] at hall hq
        cases hv : slot.value <;> simp [hv] at hall hq
    · rw [if_neg hc, ← read_eq_slotFor]
      exact ⟨v, r, hq, Revision.atMost_refl r⟩
  · intro _ q k hq
    rw [read_eq_none_iff, hslot]
    split
    · rfl
    · exact read_eq_none_iff.mp hq

end Store

-- ============================================================================
-- Stores that misbehave
-- ============================================================================

namespace Tampered

variable (s : Tampered) (p : PartitionId) (e : Entry)

/-- A write of a misbehaving store is refused, or it is a write of the store itself, with the
    partition taken away first if the key asks for it. -/
theorem insertIfNewer_cases :
    (∃ reason, s.rejected.get? e.key = some reason ∧
      s.insertIfNewer p e = (s, .error (.writeRejected reason))) ∨
    (s.rejected.get? e.key = none ∧
      ∃ before, before = (if e.key ∈ s.invalidating then s.base.setState p .invalid else s.base) ∧
        (s.insertIfNewer p e).1 = { s with base := (s.insertIfNewer p e).1.base } ∧
        Store.Insertion before p e (s.insertIfNewer p e).1.base (s.insertIfNewer p e).2) := by
  unfold insertIfNewer
  cases h : s.rejected.get? e.key with
  | some reason => exact .inl ⟨reason, rfl, rfl⟩
  | none => exact .inr ⟨rfl, _, rfl, rfl, Store.insertIfNewer_insertion _ p e⟩

theorem insertIfNewer_grows : s.base.Grows (s.insertIfNewer p e).1.base := by
  rcases s.insertIfNewer_cases p e with ⟨reason, -, h⟩ | ⟨-, before, hb, -, hi⟩
  · rw [h]
    exact .refl _
  · have hbefore : s.base.Grows before := by
      rw [hb]
      split
      · exact Store.grows_setState s.base p (by decide)
      · exact .refl _
    exact hbefore.trans hi.grows

end Tampered

namespace Site

-- ============================================================================
-- What an intake leaves alone
-- ============================================================================

/-- Two sites that differ at most in what is stored, measured, recorded and noticed. -/
structure Alike (s t : Site) : Prop where
  node : t.node = s.node
  affinity : t.affinity = s.affinity
  clock : t.clock = s.clock
  filter : t.filter = s.filter
  unreservable : t.store.unreservable = s.store.unreservable
  rejected : t.store.rejected = s.store.rejected
  invalidating : t.store.invalidating = s.store.invalidating

namespace Alike

theorem refl (s : Site) : Alike s s := ⟨rfl, rfl, rfl, rfl, rfl, rfl, rfl⟩

theorem trans {s t u : Site} (h₁ : Alike s t) (h₂ : Alike t u) : Alike s u :=
  ⟨h₂.node.trans h₁.node, h₂.affinity.trans h₁.affinity, h₂.clock.trans h₁.clock,
    h₂.filter.trans h₁.filter, h₂.unreservable.trans h₁.unreservable,
    h₂.rejected.trans h₁.rejected, h₂.invalidating.trans h₁.invalidating⟩

theorem accepts {s t : Site} (h : Alike s t) (p : PartitionId) (e : Entry) :
    t.accepts p e = s.accepts p e := by
  simp only [Site.accepts, h.filter]

end Alike

theorem alike_measure (s : Site) (f : Board → Board) : Alike s (s.measure f) :=
  ⟨rfl, rfl, rfl, rfl, rfl, rfl, rfl⟩

theorem alike_onStore (s : Site) (f : Store → Store) : Alike s (s.onStore f) :=
  ⟨rfl, rfl, rfl, rfl, rfl, rfl, rfl⟩

theorem alike_report (s : Site) (e : Event) : Alike s (s.report e) := by
  unfold report
  split
  · exact ⟨rfl, rfl, rfl, rfl, rfl, rfl, rfl⟩
  · exact .refl s

@[simp] theorem store_report (s : Site) (e : Event) : (s.report e).store = s.store := by
  unfold report
  split <;> rfl

variable (s : Site) (sender : NodeId) (p : PartitionId) (e : Entry)

theorem alike_settleWrite (r : Except StoreFault InsertOutcome) :
    Alike s (s.settleWrite sender p e r).1 := by
  unfold settleWrite
  split
  · have h : Alike s ((s.onStore (·.track p e.key)).measure Board.entryApplied) :=
      (alike_onStore s _).trans (alike_measure _ _)
    split
    · exact h
    · exact h.trans (alike_report _ (.objectLoaded p e.key sender e.value))
  all_goals exact ⟨rfl, rfl, rfl, rfl, rfl, rfl, rfl⟩

theorem alike_insert : Alike s { s with store := (s.store.insertIfNewer p e).1 } := by
  rcases s.store.insertIfNewer_cases p e with ⟨reason, -, h⟩ | ⟨-, before, -, hb, -⟩
  · rw [h]
    exact .refl s
  · rw [hb]
    exact ⟨rfl, rfl, rfl, rfl, rfl, rfl, rfl⟩

/-- An entry that is neither expired nor turned away goes to the store. -/
theorem takeIn_eq :
    s.takeIn sender p e =
      if e.isExpired s.clock = true ∨ s.accepts p e = false then
        (s.measure Board.entrySkipped, .ok .more)
      else
        settleWrite { s with store := (s.store.insertIfNewer p e).1 } sender p e
          (s.store.insertIfNewer p e).2 := by
  unfold takeIn
  cases e.isExpired s.clock with
  | true => simp
  | false =>
    cases s.accepts p e with
    | true => simp
    | false => simp

theorem alike_takeIn : Alike s (s.takeIn sender p e).1 := by
  rw [takeIn_eq]
  split
  · exact alike_measure s _
  · exact (alike_insert s p e).trans (alike_settleWrite _ sender p e _)

/-- What passing an entry over and taking one in both keep, the intake of a partition keeps. -/
theorem takeInAll_keeps {P : Site → Prop} (hskip : ∀ s, P s → P (s.measure Board.entrySkipped))
    (htake : ∀ s e, P s → P (s.takeIn sender p e).1) (es : List Entry) (h : P s) :
    P (s.takeInAll sender p es).1 := by
  induction es generalizing s with
  | nil => exact h
  | cons e rest ih =>
    rw [takeInAll]
    split
    · exact ih (s.measure Board.entrySkipped) (hskip s h)
    · have htaken := htake s e h
      split
      · next hr =>
        rw [hr] at htaken
        exact ih _ htaken
      · next hr =>
        rw [hr] at htaken
        exact htaken
      · next hr =>
        rw [hr] at htaken
        exact htaken

theorem alike_takeInAll (es : List Entry) : Alike s (s.takeInAll sender p es).1 :=
  takeInAll_keeps s sender p (fun _ h => h.trans (alike_measure _ _))
    (fun _ e h => h.trans (alike_takeIn _ sender p e)) es (.refl s)

-- ============================================================================
-- The store of an intake
-- ============================================================================

/-- The store after a write was settled: a written key is tracked, and the empty slot of a
    refused one is removed. -/
theorem store_settleWrite (r : Except StoreFault InsertOutcome) :
    (s.settleWrite sender p e r).1.store.base =
      match r with
      | .ok .inserted => s.store.base.track p e.key
      | .error (.capacityExceeded _) => (s.store.base.discardIfEmpty p e.key).1
      | _ => s.store.base := by
  unfold settleWrite
  split
  · split
    · rfl
    · simp [onStore, Tampered.onBase, measure]
  · rfl
  · rfl
  · rfl
  · rfl
  · next h =>
    split
    · next hr => simp_all
    · next hr => simp_all
    · rfl

/-- What the store does for one entry that reaches it. -/
theorem grows_settleWrite {before after : Store} {r : Except StoreFault InsertOutcome}
    (h : Store.Insertion before p e after r) (ha : s.store.base = after) :
    after.Grows (s.settleWrite sender p e r).1.store.base := by
  rw [store_settleWrite, ha]
  cases h with
  | refused part hp ho hv hf =>
    apply Store.grows_discardIfEmpty
    rw [Store.slotFor_putSlot hp, if_pos ⟨rfl, rfl⟩]
    exact ho
  | replaced => exact Store.grows_track _ p e.key
  | created => exact Store.grows_track _ p e.key
  | _ => exact .refl _

theorem grows_takeIn : s.store.base.Grows (s.takeIn sender p e).1.store.base := by
  rw [takeIn_eq]
  by_cases hx : e.isExpired s.clock = true ∨ s.accepts p e = false
  · rw [if_pos hx]
    exact .refl _
  · rw [if_neg hx]
    have hg := s.store.insertIfNewer_grows p e
    rcases s.store.insertIfNewer_cases p e with ⟨reason, -, h⟩ | ⟨-, before, -, hb, hi⟩
    · rw [h]
      exact .refl _
    · exact hg.trans (grows_settleWrite { s with store := (s.store.insertIfNewer p e).1 }
        sender p e hi rfl)

theorem grows_takeInAll (es : List Entry) :
    s.store.base.Grows (s.takeInAll sender p es).1.store.base :=
  takeInAll_keeps s sender p (P := fun t => s.store.base.Grows t.store.base) (fun _ h => h)
    (fun _ e h => h.trans (grows_takeIn _ sender p e)) es (.refl _)

-- ============================================================================
-- The partition of an intake
-- ============================================================================

theorem state?_settleWrite (r : Except StoreFault InsertOutcome) (q : PartitionId) :
    (s.settleWrite sender p e r).1.store.base.state? q = s.store.base.state? q := by
  rw [store_settleWrite]
  split
  · exact Store.state?_track _ p q e.key
  · exact Store.state?_discardIfEmpty _ p q e.key
  · rfl

/-- Only a key that invalidates its partition changes a state, and only that one. -/
theorem state?_takeIn (q : PartitionId) (h : q ≠ p ∨ e.key ∉ s.store.invalidating) :
    (s.takeIn sender p e).1.store.base.state? q = s.store.base.state? q := by
  rw [takeIn_eq]
  by_cases hx : e.isExpired s.clock = true ∨ s.accepts p e = false
  · rw [if_pos hx]
    rfl
  · rw [if_neg hx, state?_settleWrite]
    rcases s.store.insertIfNewer_cases p e with ⟨reason, -, hr⟩ | ⟨-, before, hb, -, hi⟩
    · rw [hr]
    · refine (hi.state? q).trans ?_
      rw [hb]
      by_cases hk : e.key ∈ s.store.invalidating
      · rw [if_pos hk]
        exact Store.state?_setState_ne _ _ (h.resolve_right fun hn => hn hk)
      · rw [if_neg hk]

theorem state?_takeInAll (es : List Entry) (q : PartitionId)
    (h : q ≠ p ∨ s.store.invalidating = ∅) :
    (s.takeInAll sender p es).1.store.base.state? q = s.store.base.state? q := by
  induction es generalizing s with
  | nil => rfl
  | cons e rest ih =>
    rw [takeInAll]
    split
    · exact ih (s.measure Board.entrySkipped) h
    · have hs : (s.takeIn sender p e).1.store.base.state? q = s.store.base.state? q :=
        state?_takeIn s sender p e q (h.imp_right fun hi => by simp [hi])
      have hi := (alike_takeIn s sender p e).invalidating
      split
      · next hr =>
        rw [hr] at hs hi
        exact (ih _ (h.imp_right fun h => hi.trans h)).trans hs
      · next hr =>
        rw [hr] at hs
        exact hs
      · next hr =>
        rw [hr] at hs
        exact hs

-- ============================================================================
-- Nothing is lost by an intake that ends well
-- ============================================================================

/-- What a write that did not fail leaves behind answers for the entry. -/
theorem answers_of_insertion {before after : Store} {r : Except StoreFault InsertOutcome}
    {v : Verdict} (h : Store.Insertion before p e after r) (ha : s.store.base = after)
    (hm : before.state? p = some .moving)
    (hok : (s.settleWrite sender p e r).2 = .ok v) :
    v = .more ∧ (s.settleWrite sender p e r).1.store.base.Answers p e := by
  have hg := grows_settleWrite s sender p e h ha
  cases h with
  | absent hp =>
    simp [Store.state?, hp] at hm
  | invalid part hp hacc =>
    simp only [Store.state?, hp, Option.map_some, Option.some.injEq] at hm
    simp [hm, PartitionState.acceptsWrites] at hacc
  | removed ho =>
    simp only [settleWrite, Except.ok.injEq] at hok
    exact ⟨hok.symm, Store.Answers.grows (.inr (.inl ho)) hg⟩
  | alreadyNewer w hv hr =>
    simp only [settleWrite, Except.ok.injEq] at hok
    refine ⟨hok.symm, Store.Answers.grows (.inr (.inr (.inr ?_))) hg⟩
    exact ⟨w, _, Store.read_eq_some_iff.mpr ⟨hv, rfl⟩, hr⟩
  | replaced part w hp ho hv hr =>
    simp only [settleWrite, Except.ok.injEq] at hok
    refine ⟨hok.symm, Store.Answers.grows (.inr (.inr (.inr ?_))) hg⟩
    refine ⟨e.value, e.revision, ?_, Revision.atMost_refl _⟩
    rw [Store.read_eq_some_iff, Store.slotFor_putSlot hp, if_pos ⟨rfl, rfl⟩]
    exact ⟨rfl, rfl⟩
  | created part hp ho hv hf =>
    simp only [settleWrite, Except.ok.injEq] at hok
    refine ⟨hok.symm, Store.Answers.grows (.inr (.inr (.inr ?_))) hg⟩
    refine ⟨e.value, e.revision, ?_, Revision.atMost_refl _⟩
    have hput := Store.slotFor_putSlot hp e.key ((before.slotFor p e.key).write e) p e.key
    rw [if_pos ⟨rfl, rfl⟩] at hput
    exact Store.read_eq_some_iff.mpr ⟨congrArg Slot.value hput, congrArg Slot.revision hput⟩
  | refused part hp ho hv hf =>
    simp only [settleWrite, Except.ok.injEq] at hok
    refine ⟨hok.symm, Store.Answers.grows (.inr (.inr (.inl ?_))) hg⟩
    constructor
    · simpa [Store.isFull, Store.modifySlots] using hf
    · rw [Store.read_eq_none_iff, Store.slotFor_putSlot hp, if_pos ⟨rfl, rfl⟩]
      exact hv

/-- An entry that was taken in without a failure, into a partition that is being filled, was
    expired or turned away, or the store answers for it. -/
theorem takeIn_answers {t : Site} {v : Verdict} (hk : e.key ∉ s.store.invalidating)
    (hm : s.store.base.state? p = some .moving) (h : s.takeIn sender p e = (t, .ok v)) :
    v = .more ∧ (e.isExpired s.clock = true ∨ s.accepts p e = false ∨
      t.store.base.Answers p e) := by
  rw [takeIn_eq] at h
  by_cases hx : e.isExpired s.clock = true ∨ s.accepts p e = false
  · rw [if_pos hx, Prod.mk.injEq, Except.ok.injEq] at h
    exact ⟨h.2.symm, hx.imp_right .inl⟩
  · rw [if_neg hx] at h
    rcases s.store.insertIfNewer_cases p e with ⟨reason, -, hr⟩ | ⟨-, before, hb, -, hi⟩
    · rw [hr] at h
      simp [settleWrite] at h
    · rw [if_neg hk] at hb
      have ha := answers_of_insertion { s with store := (s.store.insertIfNewer p e).1 } sender p e
        (v := v) hi rfl (by rw [hb]; exact hm)
      rw [h] at ha
      obtain ⟨hv, hans⟩ := ha rfl
      exact ⟨hv, .inr (.inr hans)⟩

/-- Of the entries of a partition that is being filled none is lost if taking them in ends
    without a failure. -/
theorem takeInAll_answers {t : Site} {es : List Entry} (hi : s.store.invalidating = ∅)
    (hm : s.store.base.state? p = some .moving) (h : s.takeInAll sender p es = (t, .ok ())) :
    ∀ e ∈ es, e.isExpired s.clock = true ∨ s.accepts p e = false ∨ t.store.base.Answers p e := by
  induction es generalizing s with
  | nil => simp
  | cons x rest ih =>
    rw [takeInAll] at h
    split at h
    · next hp =>
      -- The entry was evicted; what follows keeps the record of it.
      have hg := grows_takeInAll (s.measure Board.entrySkipped) sender p rest
      rw [h] at hg
      intro e he
      rcases List.mem_cons.mp he with rfl | he
      · have hp : s.store.base.loadPermitted p e.key e.revision = false := by simpa using hp
        exact .inr (.inr (Store.Answers.grows (.inl hp) hg))
      · exact ih (s.measure Board.entrySkipped) hi hm h e he
    · have hk : x.key ∉ s.store.invalidating := by simp [hi]
      split at h
      · next u hr =>
        have hu := (alike_takeIn s sender p x)
        have hstate := state?_takeIn s sender p x p (.inr hk)
        rw [hr] at hu hstate
        have hg := grows_takeInAll u sender p rest
        rw [h] at hg
        intro e he
        rcases List.mem_cons.mp he with rfl | he
        · exact (takeIn_answers s sender p e hk hm hr).2.imp_right
            (Or.imp_right fun ha => ha.grows hg)
        · have := ih u (hu.invalidating.trans hi) (hstate.trans hm) h e he
          rwa [hu.clock, hu.accepts] at this
      · next u hr =>
        have := (takeIn_answers s sender p x hk hm hr).1
        cases this
      · cases h

end Site
end Rebalance
