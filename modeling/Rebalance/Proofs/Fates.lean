/-
  Rebalance.Proofs.Fates

  What becomes of received entries.  An entry that reaches its turn is written,
  passed over or dropped, unless it finds its partition taken away or the
  store fails to write it; `Site.fate?` says which, from what the site and the
  store are like at its turn.  An intake books the entries up to the first one
  without a fate (`Site.bookings`), and `Site.Accounts` is what some bookings
  come to: each moves one meter, a written one is held and tracked from then
  on, and its event is recorded unless it is internal.
-/
import Rebalance.Proofs.Ceiling
import Rebalance.Proofs.Cut

namespace Rebalance

/-- What becomes of an entry that is accounted for. -/
inductive Fate where
  /-- It was written. -/
  | written
  /-- It was not needed or not wanted. -/
  | skipped
  /-- There was no room for it. -/
  | dropped
deriving DecidableEq

/-- The meter that counts a fate moves on. -/
def Fate.count : Fate → Board → Board
  | .written => Board.entryApplied
  | .skipped => Board.entrySkipped
  | .dropped => Board.entryDropped

/-- An entry of a partition that is accounted for. -/
structure Booking where
  partition : PartitionId
  entry : Entry
  fate : Fate

namespace Booking

/-- The event of a written entry; an internal one has none. -/
def event? (sender : NodeId) (b : Booking) : Option Event :=
  if b.fate = .written ∧ b.entry.internal = false then
    some (.objectLoaded b.partition b.entry.key sender b.entry.value)
  else none

/-- The entry was written under a key of a partition. -/
def Writes (b : Booking) (q : PartitionId) (k : Bytes) : Prop :=
  b.fate = .written ∧ b.partition = q ∧ b.entry.key = k

instance (b : Booking) (q : PartitionId) (k : Bytes) : Decidable (b.Writes q k) :=
  inferInstanceAs (Decidable (_ ∧ _ ∧ _))

/-- How many entries came to a fate, as a meter counts them. -/
def tally (f : Fate) (bs : List Booking) : UInt64 := UInt64.ofNat (bs.countP (·.fate = f))

/-- What a key holds after some entries, of what it held before. -/
def latest (q : PartitionId) (k : Bytes) (bs : List Booking) (old : Option Held) : Option Held :=
  bs.foldl (fun held b => if b.Writes q k then some b.entry.held else held) old

variable {bs cs : List Booking}

@[simp] theorem tally_nil (f : Fate) : tally f [] = 0 := rfl

theorem tally_append (f : Fate) : tally f (bs ++ cs) = tally f bs + tally f cs := by
  rw [tally, List.countP_append, UInt64.ofNat_add]
  rfl

/-- Every entry comes to one of the three fates. -/
theorem tally_all :
    tally .written bs + tally .skipped bs + tally .dropped bs = UInt64.ofNat bs.length := by
  have hall : bs.countP (·.fate = .written) + bs.countP (·.fate = .skipped) +
      bs.countP (·.fate = .dropped) = bs.length := by
    induction bs with
    | nil => rfl
    | cons b bs ih =>
      rw [List.countP_cons, List.countP_cons, List.countP_cons, List.length_cons]
      cases b.fate <;> simp <;> omega
  rw [tally, tally, tally, ← UInt64.ofNat_add, ← UInt64.ofNat_add, hall]

theorem latest_append (q : PartitionId) (k : Bytes) (old : Option Held) :
    latest q k (bs ++ cs) old = latest q k cs (latest q k bs old) := List.foldl_append

end Booking

-- ============================================================================
-- Events of entries
-- ============================================================================

/-- The event of an entry that the recorder is handed. -/
def Effect.object? : Effect → Option Event
  | recorded (.objectLoaded p k n v) => some (.objectLoaded p k n v)
  | _ => none

/-- The events of entries that were recorded, in order. -/
def objectsOf (es : List Effect) : List Event := es.filterMap Effect.object?

theorem objectsOf_append (es fs : List Effect) :
    objectsOf (es ++ fs) = objectsOf es ++ objectsOf fs := List.filterMap_append

/-- Where no partition is touched, no entry is reported. -/
theorem objectsOf_within {done : List PartitionId} {es : List Effect}
    (h : ∀ x ∈ es, x.Within [] done) : objectsOf es = [] := by
  rw [objectsOf, List.filterMap_eq_nil_iff]
  intro x hx
  have hw := h x hx
  cases x with
  | recorded event =>
    cases event with
    | objectLoaded => exact absurd hw List.not_mem_nil
    | partitionLoaded => rfl
  | _ => rfl

/-- The three meters that count entries. -/
def Board.entryCounts (b : Board) : UInt64 × UInt64 × UInt64 :=
  (b.entriesApplied.value, b.entriesSkipped.value, b.entriesDropped.value)

theorem Board.blind_entryCounts : Board.Blind Board.entryCounts where
  completed _ _ := rfl
  settled _ := rfl
  missed _ := rfl
  messages := by
    rintro b _ ⟨_, _, _, rfl⟩
    rfl
  cancelled _ _ _ := rfl

-- ============================================================================
-- What a store does about an entry
-- ============================================================================

/-- The fate that the answer of a store stands for. -/
def Fate.of? : Except StoreFault InsertOutcome → Option Fate
  | .ok .inserted => some .written
  | .ok .alreadyNewer => some .skipped
  | .ok .removed => some .skipped
  | .error (.capacityExceeded _) => some .dropped
  | _ => none

/-- The bookings of an entry to which a store gave an answer. -/
def Booking.of (p : PartitionId) (e : Entry) (r : Except StoreFault InsertOutcome) : List Booking :=
  ((Fate.of? r).map (Booking.mk p e)).toList

namespace Store

/-- The keys of a partition that are known to the eviction policy. -/
def tracked (s : Store) (p : PartitionId) : SortedSet Bytes :=
  ((s.get? p).map Partition.tracked).getD ∅

/-- What a store makes of an entry that reaches it: nothing can be said of a partition that takes no
    writes. -/
def fate? (s : Store) (p : PartitionId) (e : Entry) : Option Fate :=
  if (s.state p).acceptsWrites = false then none
  else if (s.slotFor p e.key).obsolete then some .skipped
  else if (s.slotFor p e.key).value.isSome then
    if e.revision.atMost (s.slotFor p e.key).revision then some .skipped else some .written
  else if s.isFull then some .dropped
  else some .written

theorem fate?_eq (s : Store) (p : PartitionId) (e : Entry) :
    s.fate? p e = Fate.of? (s.insertIfNewer p e).2 := by
  unfold fate? insertIfNewer
  cases hp : s.get? p with
  | none =>
    have hstate : s.state p = .invalid := by rw [state, state?, hp]; rfl
    rw [hstate]
    rfl
  | some part =>
    have hstate : s.state p = part.state := by rw [state, state?, hp]; rfl
    have hslot : (part.slots.get? e.key).getD {} = s.slotFor p e.key := by
      simp [slotFor, slot?, hp]
    have hfull : s.capacity.any (fun c => decide (c ≤ s.count)) = s.isFull := rfl
    simp only [hstate, hslot, hfull]
    cases part.state.acceptsWrites with
    | false => rfl
    | true =>
      cases (s.slotFor p e.key).obsolete with
      | true => rfl
      | false =>
        cases (s.slotFor p e.key).value.isSome with
        | true => cases e.revision.atMost (s.slotFor p e.key).revision <;> rfl
        | false => cases s.isFull <;> rfl

variable (s : Store) (p q : PartitionId) (k : Bytes)

theorem tracked_modify {f : Partition → Partition} (hf : ∀ x, (f x).tracked = x.tracked) :
    (s.modify p f).tracked q = s.tracked q := by
  unfold tracked
  rw [get?_modify]
  by_cases hq : q = p
  · rw [if_pos hq, hq]
    cases s.get? p with
    | none => rfl
    | some x => exact hf x
  · rw [if_neg hq]

theorem mem_tracked_track {part : Partition} (hp : s.get? p = some part) (key : Bytes) :
    k ∈ (s.track p key).tracked q ↔ k ∈ s.tracked q ∨ (q = p ∧ k = key) := by
  unfold track tracked
  rw [get?_modify]
  by_cases hq : q = p
  · subst hq
    rw [if_pos rfl, hp]
    change k ∈ part.tracked.insert key ↔ k ∈ part.tracked ∨ (q = q ∧ k = key)
    rw [SortedSet.mem_insert, or_comm]
    simp
  · rw [if_neg hq]
    simp [hq]

@[simp] theorem tracked_own : (s.own p).1.tracked q = s.tracked q := by
  unfold own
  split
  · exact tracked_modify s p q fun _ => rfl
  · rfl

@[simp] theorem tracked_reserve : (s.reserve p).1.tracked q = s.tracked q := by
  unfold reserve
  split
  · rfl
  · rfl
  · exact tracked_modify s p q fun _ => rfl

@[simp] theorem tracked_tryLock : (s.tryLock p).1.tracked q = s.tracked q := by
  unfold tryLock
  split
  · rfl
  · split
    · rfl
    · exact tracked_modify s p q fun _ => rfl

@[simp] theorem tracked_unlock : (s.unlock p).tracked q = s.tracked q :=
  tracked_modify s p q fun _ => rfl

@[simp] theorem tracked_release : (s.release p).tracked q = s.tracked q :=
  tracked_modify s p q fun _ => rfl

theorem tracked_discardIfEmpty (key : Bytes) :
    (s.discardIfEmpty p key).1.tracked q = s.tracked q := by
  unfold discardIfEmpty
  split
  · rfl
  · split
    · rfl
    · exact tracked_modify s p q fun _ => rfl

variable {s p q k} {t : Store} {e : Entry} {r : Except StoreFault InsertOutcome}

theorem held?_of_slot? (h : t.slot? q k = s.slot? q k) : t.held? q k = s.held? q k := by
  rw [held?, slotFor, h]
  rfl

/-- What keys hold after a write and what follows it. -/
theorem Insertion.held?_settled (h : Insertion s p e t r) (q : PartitionId) (k : Bytes) :
    (t.settled p e r).held? q k =
      Booking.latest q k (Booking.of p e r) (s.held? q k) := by
  have hwrite : ∀ {part : Partition} {slot : Slot}, s.get? p = some part →
      ((s.modifySlots p (·.insert e.key slot)).held? q k =
        if p = q ∧ e.key = k then slot.held? else s.held? q k) := by
    intro part slot hp
    rw [held?, slotFor_putSlot hp]
    by_cases hqk : p = q ∧ e.key = k
    · rw [if_pos hqk, if_pos ⟨hqk.1.symm, hqk.2.symm⟩]
    · rw [if_neg hqk, if_neg fun h => hqk ⟨h.1.symm, h.2.symm⟩]
      rfl
  have hbook : Booking.latest q k (Booking.of p e (.ok .inserted)) (s.held? q k) =
      if p = q ∧ e.key = k then some e.held else s.held? q k := by
    simp [Booking.latest, Booking.of, Fate.of?, Booking.Writes]
  cases h with
  | absent => rfl
  | invalid => rfl
  | removed => rfl
  | alreadyNewer => rfl
  | replaced part v hp ho hv hr =>
    rw [hbook]
    exact (held?_of_slot? (slot?_track _ p q k e.key)).trans (hwrite hp)
  | created part hp ho hv hf =>
    rw [hbook]
    exact (held?_of_slot? (slot?_track _ p q k e.key)).trans (hwrite hp)
  | refused part hp ho hv hf =>
    change (Store.discardIfEmpty _ p e.key).1.held? q k = s.held? q k
    by_cases hqk : p = q ∧ e.key = k
    · obtain ⟨rfl, rfl⟩ := hqk
      have hold : s.held? p e.key = none := by rw [held?, Slot.held?, hv]; rfl
      rw [hold, held?, slotFor, slot?_discard_putSlot hp e.key e.key hv, if_pos rfl]
      rfl
    · have hput : (s.modifySlots p (·.insert e.key (s.slotFor p e.key))).held? q k = s.held? q k :=
        (hwrite hp).trans (if_neg hqk)
      refine Eq.trans (held?_of_slot? ?_) hput
      rw [slot?_discardIfEmpty, if_neg fun h => hqk ⟨h.1.symm, h.2.1.symm⟩]

/-- What is tracked after a write and what follows it. -/
theorem Insertion.tracked_settled (h : Insertion s p e t r) (q : PartitionId) (k : Bytes) :
    k ∈ (t.settled p e r).tracked q ↔
      k ∈ s.tracked q ∨ ∃ b ∈ Booking.of p e r, b.Writes q k := by
  have hput : ∀ slot, (s.modifySlots p (·.insert e.key slot)).tracked q = s.tracked q :=
    fun _ => tracked_modify s p q fun _ => rfl
  have hget : ∀ {part : Partition} {f : SortedMap Bytes Slot → SortedMap Bytes Slot},
      s.get? p = some part →
      (s.modifySlots p f).get? p = some { part with slots := f part.slots } := by
    intro part f hp
    rw [modifySlots, get?_modify, if_pos rfl, hp]
    rfl
  have hbook : (∃ b ∈ Booking.of p e (.ok .inserted), b.Writes q k) ↔ (q = p ∧ k = e.key) := by
    simp [Booking.of, Fate.of?, Booking.Writes, eq_comm]
  have hnone : ∀ r : Except StoreFault InsertOutcome, r ≠ .ok .inserted →
      ¬∃ b ∈ Booking.of p e r, b.Writes q k := by
    rintro r hr ⟨b, hb, hw, -⟩
    obtain ⟨f, hf, rfl⟩ := Option.map_eq_some_iff.mp (Option.mem_toList.mp hb)
    have hf' : Fate.of? r = some .written := hf.trans (congrArg some hw)
    unfold Fate.of? at hf'
    split at hf' <;> first | exact hr rfl | cases hf'
  cases h with
  | absent => exact (or_iff_left (hnone _ (by rintro ⟨⟩))).symm
  | invalid => exact (or_iff_left (hnone _ (by rintro ⟨⟩))).symm
  | removed => exact (or_iff_left (hnone _ (by rintro ⟨⟩))).symm
  | alreadyNewer => exact (or_iff_left (hnone _ (by rintro ⟨⟩))).symm
  | replaced part v hp ho hv hr =>
    rw [hbook]
    change k ∈ (Store.track _ p e.key).tracked q ↔ _
    rw [mem_tracked_track _ p q k (hget hp), hput]
  | created part hp ho hv hf =>
    rw [hbook]
    refine (mem_tracked_track { s.modifySlots p _ with count := s.count + 1 } p q k
      (hget hp) e.key).trans ?_
    exact Iff.of_eq (congrArg (k ∈ · ∨ _) (hput _))
  | refused part hp ho hv hf =>
    rw [or_iff_left (hnone _ (by rintro ⟨⟩))]
    change k ∈ (Store.discardIfEmpty _ p e.key).1.tracked q ↔ _
    rw [tracked_discardIfEmpty, hput]

end Store

namespace Site

-- ============================================================================
-- What becomes of an entry
-- ============================================================================

/-- What becomes of an entry at its turn. One that was evicted at its revision or later, has expired
    or is turned away is passed over; of one whose write is rejected, or takes the partition away,
    nothing is said, and about the others the store decides. -/
def fate? (s : Site) (p : PartitionId) (e : Entry) : Option Fate :=
  if s.store.base.loadPermitted p e.key e.revision = false ∨ e.isExpired s.clock = true ∨
      s.accepts p e = false then some .skipped
  else if (s.store.rejected.get? e.key).isSome ∨ e.key ∈ s.store.invalidating then none
  else s.store.base.fate? p e

/-- The entries of a partition that an intake accounts for: those up to the first one that finds the
    partition taken away or that the store fails to write. -/
def bookings (s : Site) (sender : NodeId) (p : PartitionId) : List Entry → List Booking
  | [] => []
  | e :: rest =>
    match s.fate? p e with
    | none => []
    | some f => ⟨p, e, f⟩ :: (s.takeInAll sender p [e]).1.bookings sender p rest

/-- What some bookings come to between two sites. -/
structure Accounts (sender : NodeId) (s t : Site) (bs : List Booking) : Prop where
  /-- Each is counted once, under its fate. -/
  applied : t.board.entriesApplied.value = s.board.entriesApplied.value + Booking.tally .written bs
  skipped : t.board.entriesSkipped.value = s.board.entriesSkipped.value + Booking.tally .skipped bs
  dropped : t.board.entriesDropped.value = s.board.entriesDropped.value + Booking.tally .dropped bs
  /-- The events of the written ones are recorded, in order, if the recorder wants them. -/
  events : ∃ es, t.trace = s.trace ++ es ∧ objectsOf es =
    if s.recorder.isRecordable .objectLoaded then bs.filterMap (Booking.event? sender) else []
  enabled : t.recorder.enabled = s.recorder.enabled
  /-- The keys of the written ones are tracked from then on. -/
  tracked : ∀ q k, k ∈ t.store.base.tracked q ↔
    k ∈ s.store.base.tracked q ∨ ∃ b ∈ bs, b.Writes q k
  /-- A key holds what was written last, and what it held before if nothing was. -/
  held : ∀ q k, t.held? q k = Booking.latest q k bs (s.held? q k)

variable {s t u : Site} {sender : NodeId} {p : PartitionId} {e : Entry} {bs cs : List Booking}

namespace Accounts

/-- Between two sites no entry was counted, reported, tracked or written. -/
theorem nothing (hb : t.board.entryCounts = s.board.entryCounts)
    (he : ∃ es, t.trace = s.trace ++ es ∧ objectsOf es = [])
    (hr : t.recorder.enabled = s.recorder.enabled)
    (ht : ∀ q, t.store.base.tracked q = s.store.base.tracked q)
    (hh : ∀ q k, t.held? q k = s.held? q k) : Accounts sender s t [] where
  applied := (congrArg Prod.fst hb).trans (UInt64.add_zero _).symm
  skipped := (congrArg (·.2.1) hb).trans (UInt64.add_zero _).symm
  dropped := (congrArg (·.2.2) hb).trans (UInt64.add_zero _).symm
  events := by
    obtain ⟨es, htrace, hes⟩ := he
    refine ⟨es, htrace, ?_⟩
    rw [hes, List.filterMap_nil, ite_self]
  enabled := hr
  tracked q k := by simp [ht]
  held q k := hh q k

theorem refl (sender : NodeId) (s : Site) : Accounts sender s s [] :=
  nothing rfl ⟨[], (List.append_nil _).symm, rfl⟩ rfl (fun _ => rfl) fun _ _ => rfl

theorem trans (h₁ : Accounts sender s t bs) (h₂ : Accounts sender t u cs) :
    Accounts sender s u (bs ++ cs) where
  applied := by rw [h₂.applied, h₁.applied, Booking.tally_append, UInt64.add_assoc]
  skipped := by rw [h₂.skipped, h₁.skipped, Booking.tally_append, UInt64.add_assoc]
  dropped := by rw [h₂.dropped, h₁.dropped, Booking.tally_append, UInt64.add_assoc]
  events := by
    obtain ⟨es, htrace, hes⟩ := h₁.events
    obtain ⟨fs, htrace', hfs⟩ := h₂.events
    refine ⟨es ++ fs, by rw [htrace', htrace, List.append_assoc], ?_⟩
    rw [objectsOf_append, hes, hfs]
    simp only [Recorder.isRecordable, h₁.enabled]
    by_cases hk : EventKind.objectLoaded ∈ s.recorder.enabled <;> simp [hk]
  enabled := h₂.enabled.trans h₁.enabled
  tracked q k := by
    rw [h₂.tracked, h₁.tracked, or_assoc]
    simp only [List.mem_append, or_and_right, exists_or]
  held q k := by rw [h₂.held, h₁.held, Booking.latest_append]

/-- The store moves on without a slot or a tracked key being touched. -/
theorem onStore (f : Store → Store) (ht : ∀ q, (f s.store.base).tracked q = s.store.base.tracked q)
    (hs : ∀ q k, (f s.store.base).slot? q k = s.store.base.slot? q k) :
    Accounts sender s (s.onStore f) [] :=
  nothing rfl ⟨[], (List.append_nil _).symm, rfl⟩ rfl ht fun q k => Store.held?_of_slot? (hs q k)

end Accounts

/-- One entry was accounted for. -/
theorem Accounts.single {f : Fate} (hb : t.board = f.count s.board)
    (he : ∃ es, t.trace = s.trace ++ es ∧ objectsOf es = if s.recorder.isRecordable .objectLoaded then
      [⟨p, e, f⟩].filterMap (Booking.event? sender) else [])
    (hr : t.recorder.enabled = s.recorder.enabled)
    (ht : ∀ q k, k ∈ t.store.base.tracked q ↔
      k ∈ s.store.base.tracked q ∨ ∃ b ∈ [Booking.mk p e f], b.Writes q k)
    (hh : ∀ q k, t.held? q k = Booking.latest q k [⟨p, e, f⟩] (s.held? q k)) :
    Accounts sender s t [⟨p, e, f⟩] where
  applied := by rw [hb]; cases f <;> first | rfl | exact (UInt64.add_zero _).symm
  skipped := by rw [hb]; cases f <;> first | rfl | exact (UInt64.add_zero _).symm
  dropped := by rw [hb]; cases f <;> first | rfl | exact (UInt64.add_zero _).symm
  events := he
  enabled := hr
  tracked := ht
  held := hh

/-- The event of an entry is recorded if the recorder wants it. -/
theorem report_object (s : Site) (sender : NodeId) (p : PartitionId) (k v : Bytes) :
    (∃ es, (s.report (.objectLoaded p k sender v)).trace = s.trace ++ es ∧
      objectsOf es =
        if s.recorder.isRecordable .objectLoaded then [.objectLoaded p k sender v] else []) ∧
      (s.report (.objectLoaded p k sender v)).recorder.enabled = s.recorder.enabled := by
  by_cases h : s.recorder.isRecordable .objectLoaded = true
  · have hs : s.report (.objectLoaded p k sender v) =
        { s with recorder := s.recorder.record (.objectLoaded p k sender v) }.emit
          (.recorded (.objectLoaded p k sender v)) := if_pos h
    rw [hs, if_pos h]
    exact ⟨⟨_, rfl, rfl⟩, Recorder.enabled_record _ _⟩
  · have hs : s.report (.objectLoaded p k sender v) = s := if_neg h
    rw [hs, if_neg h]
    exact ⟨⟨[], (List.append_nil _).symm, rfl⟩, rfl⟩

/-- A written entry is counted, and its event recorded. -/
theorem settleWrite_inserted (s : Site) (sender : NodeId) (p : PartitionId) (e : Entry) :
    (s.settleWrite sender p e (.ok .inserted)).1.board = s.board.entryApplied ∧
      (∃ es, (s.settleWrite sender p e (.ok .inserted)).1.trace = s.trace ++ es ∧
        objectsOf es = if s.recorder.isRecordable .objectLoaded then
          [⟨p, e, .written⟩].filterMap (Booking.event? sender) else []) ∧
      (s.settleWrite sender p e (.ok .inserted)).1.recorder.enabled = s.recorder.enabled := by
  unfold settleWrite
  cases hint : e.internal with
  | true =>
    refine ⟨rfl, ⟨[], (List.append_nil _).symm, ?_⟩, rfl⟩
    simp [Booking.event?, hint, objectsOf]
  | false =>
    have hevent : [Booking.mk p e .written].filterMap (Booking.event? sender) =
        [.objectLoaded p e.key sender e.value] := by simp [Booking.event?, hint]
    obtain ⟨hes, hen⟩ := report_object ((s.onStore (·.track p e.key)).measure Board.entryApplied)
      sender p e.key e.value
    rw [hevent]
    exact ⟨board_report _ _, hes, hen⟩

/-- What the answer of a store comes to. The store is as it was after the write, and nothing else of
    the site has moved yet. -/
theorem accounts_settleWrite (store : Tampered) (r : Except StoreFault InsertOutcome)
    (htracked : ∀ q k, k ∈ (store.base.settled p e r).tracked q ↔
      k ∈ s.store.base.tracked q ∨ ∃ b ∈ Booking.of p e r, b.Writes q k)
    (hheld : ∀ q k, (store.base.settled p e r).held? q k =
      Booking.latest q k (Booking.of p e r) (s.held? q k)) :
    Accounts sender s (settleWrite { s with store } sender p e r).1 (Booking.of p e r) := by
  have hbase := base_settleWrite sender { s with store } p e r
  have htracked' : ∀ q k, k ∈ (settleWrite { s with store } sender p e r).1.store.base.tracked q ↔
      k ∈ s.store.base.tracked q ∨ ∃ b ∈ Booking.of p e r, b.Writes q k := fun q k => by
    rw [hbase]
    exact htracked q k
  have hheld' : ∀ q k, (settleWrite { s with store } sender p e r).1.held? q k =
      Booking.latest q k (Booking.of p e r) (s.held? q k) := fun q k => by
    rw [held?, hbase]
    exact hheld q k
  -- An entry that is not written is not reported.
  have hquiet : ∀ f : Fate, f ≠ .written → ∃ es, s.trace = s.trace ++ es ∧ objectsOf es =
      if s.recorder.isRecordable .objectLoaded then
        [Booking.mk p e f].filterMap (Booking.event? sender) else [] := by
    rintro f hf
    refine ⟨[], (List.append_nil _).symm, ?_⟩
    rw [List.filterMap_cons_none (by simp [Booking.event?, hf]), List.filterMap_nil, ite_self]
    rfl
  have hnothing : Booking.of p e r = [] →
      (settleWrite { s with store } sender p e r).1 = { s with store } →
      Accounts sender s (settleWrite { s with store } sender p e r).1 (Booking.of p e r) := by
    intro hnil hsame
    rw [hnil, hsame] at htracked' hheld'
    rw [hnil, hsame]
    exact ⟨(UInt64.add_zero _).symm, (UInt64.add_zero _).symm, (UInt64.add_zero _).symm,
      ⟨[], (List.append_nil _).symm, by rw [List.filterMap_nil, ite_self]; rfl⟩, rfl, htracked',
      hheld'⟩
  cases r with
  | ok outcome =>
    cases outcome with
    | inserted =>
      obtain ⟨hboard, hes, hen⟩ := settleWrite_inserted { s with store } sender p e
      exact .single hboard hes hen htracked' hheld'
    | alreadyNewer => exact .single rfl (hquiet .skipped (by rintro ⟨⟩)) rfl htracked' hheld'
    | removed => exact .single rfl (hquiet .skipped (by rintro ⟨⟩)) rfl htracked' hheld'
    | partitionInvalid => exact hnothing rfl rfl
  | error fault =>
    cases fault with
    | capacityExceeded q =>
      exact .single rfl (hquiet .dropped (by rintro ⟨⟩)) rfl htracked' hheld'
    | partitionNotFound q => exact hnothing rfl rfl
    | writeRejected reason => exact hnothing rfl rfl

-- ============================================================================
-- One entry
-- ============================================================================

/-- An entry that is neither passed over nor rejected is given the fate that the store's answer
    stands for. -/
theorem fate?_eq (hl : s.store.base.loadPermitted p e.key e.revision = true)
    (hx : e.isExpired s.clock = false) (ha : s.accepts p e = true) :
    s.fate? p e = Fate.of? (s.store.insertIfNewer p e).2 := by
  unfold fate?
  rw [if_neg (by simp [hl, hx, ha])]
  cases hr : s.store.rejected.get? e.key with
  | some reason =>
    rw [if_pos (.inl rfl), Tampered.insertIfNewer, hr]
    rfl
  | none =>
    by_cases hk : e.key ∈ s.store.invalidating
    · rw [if_pos (.inr hk)]
      rcases Tampered.insertIfNewer_of_invalidating (p := p) hr hk with h | h
      · rw [h]
        rfl
      · rw [h]
        rfl
    · rw [if_neg (by simp [hk]), Tampered.insertIfNewer_eq hr hk]
      exact Store.fate?_eq s.store.base p e

/-- What taking in an entry comes to that goes to the store. -/
theorem accounts_insert (s : Site) (sender : NodeId) (p : PartitionId) (e : Entry) :
    Accounts sender s (settleWrite { s with store := (s.store.insertIfNewer p e).1 } sender p e
      (s.store.insertIfNewer p e).2).1 (Booking.of p e (s.store.insertIfNewer p e).2) := by
  rcases s.store.insertIfNewer_cases p e with ⟨reason, -, hr⟩ | ⟨-, before, hb, -, hi⟩
  · rw [hr]
    exact accounts_settleWrite s.store _ (fun q k => by simp [Booking.of, Fate.of?, Store.settled])
      fun q k => rfl
  · have htracked : ∀ q, before.tracked q = s.store.base.tracked q := by
      intro q
      rw [hb]
      split
      · exact Store.tracked_modify _ p q fun _ => rfl
      · rfl
    have hheld : ∀ q k, before.held? q k = s.held? q k := by
      intro q k
      rw [hb]
      split
      · exact Store.held?_of_slot? (Store.slot?_setState _ p q k .invalid)
      · rfl
    refine accounts_settleWrite _ _ (fun q k => ?_) fun q k => ?_
    · rw [hi.tracked_settled, htracked]
    · rw [hi.held?_settled, hheld]

/-- An entry that is passed over before it gets to the store. -/
theorem accounts_skip (s : Site) (sender : NodeId) (p : PartitionId) (e : Entry) :
    Accounts sender s (s.measure Board.entrySkipped) [⟨p, e, .skipped⟩] := by
  refine .single rfl ⟨[], (List.append_nil _).symm, ?_⟩ rfl (fun q k => ?_) fun q k => rfl
  · rw [List.filterMap_cons_none rfl, List.filterMap_nil, ite_self]
    rfl
  · simp [Booking.Writes, measure]

/-- Further entries follow after an answer that stands for a fate, and only then. -/
theorem verdict_iff (s : Site) (sender : NodeId) (p : PartitionId) (e : Entry)
    (r : Except StoreFault InsertOutcome) :
    (s.settleWrite sender p e r).2 = .ok .more ↔ (Fate.of? r).isSome = true := by
  cases r with
  | ok outcome => cases outcome <;> simp [settleWrite, Fate.of?]
  | error fault => cases fault <;> simp [settleWrite, Fate.of?]

theorem takeInAll_of_last (hl : s.store.base.loadPermitted p e.key e.revision = true)
    (h : (s.takeIn sender p e).2 ≠ .ok .more) (rest : List Entry) :
    s.takeInAll sender p (e :: rest) = s.takeInAll sender p [e] := by
  rw [takeInAll, takeInAll, hl]
  simp only [Bool.not_true, Bool.false_eq_true, if_false]
  split
  · next hr => exact absurd (congrArg Prod.snd hr) h
  · rfl
  · rfl

/-- How the intake of an entry goes on: it is passed over at once, or the store decides. -/
theorem takeIn_accounts (s : Site) (sender : NodeId) (p : PartitionId) (e : Entry) :
    Accounts sender s (s.takeInAll sender p [e]).1 ((s.fate? p e).map (Booking.mk p e)).toList ∧
      ∀ rest, s.takeInAll sender p (e :: rest) =
        if (s.fate? p e).isSome then (s.takeInAll sender p [e]).1.takeInAll sender p rest
        else s.takeInAll sender p [e] := by
  cases hl : s.store.base.loadPermitted p e.key e.revision with
  | false =>
    have hf : s.fate? p e = some .skipped := if_pos (.inl hl)
    have hgo : ∀ rest, s.takeInAll sender p (e :: rest) =
        (s.measure Board.entrySkipped).takeInAll sender p rest :=
      fun rest => takeInAll_of_not_permitted sender hl
    rw [hf, hgo []]
    exact ⟨accounts_skip s sender p e, hgo⟩
  | true =>
    have hmore : ∀ t, s.takeIn sender p e = (t, .ok .more) → ∀ rest,
        s.takeInAll sender p (e :: rest) = t.takeInAll sender p rest :=
      fun t ht rest => takeInAll_of_more sender hl ht
    by_cases hx : e.isExpired s.clock = true ∨ s.accepts p e = false
    · have hf : s.fate? p e = some .skipped := if_pos (.inr hx)
      have hgo := hmore (s.measure Board.entrySkipped) (by rw [takeIn_eq, if_pos hx])
      rw [hf, hgo []]
      exact ⟨accounts_skip s sender p e, hgo⟩
    · have htake := takeIn_eq s sender p e
      rw [if_neg hx] at htake
      simp only [not_or, Bool.not_eq_true, Bool.not_eq_false] at hx
      have haccounts := accounts_insert s sender p e
      have hverdict := verdict_iff { s with store := (s.store.insertIfNewer p e).1 } sender p e
        (s.store.insertIfNewer p e).2
      rw [← htake] at haccounts hverdict
      rw [fate?_eq hl hx.1 hx.2]
      by_cases hv : (s.takeIn sender p e).2 = .ok .more
      · have hgo := hmore (s.takeIn sender p e).1 (Prod.ext rfl hv)
        rw [hgo []]
        exact ⟨haccounts, fun rest => (hgo rest).trans (if_pos (hverdict.mp hv)).symm⟩
      · have hsame : (s.takeInAll sender p [e]).1 = (s.takeIn sender p e).1 := by
          rw [takeInAll, hl]
          simp only [Bool.not_true, Bool.false_eq_true, if_false]
          split
          · next hr => exact absurd (congrArg Prod.snd hr) hv
          · next hr => rw [hr]
          · next hr => rw [hr]
        rw [hsame]
        exact ⟨haccounts, fun rest => (takeInAll_of_last hl hv rest).trans
          (if_neg fun h => hv (hverdict.mpr h)).symm⟩

/-- An intake comes to what it books. -/
theorem accounts_takeInAll (s : Site) (sender : NodeId) (p : PartitionId) (es : List Entry) :
    Accounts sender s (s.takeInAll sender p es).1 (s.bookings sender p es) := by
  induction es generalizing s with
  | nil => exact .refl sender s
  | cons e rest ih =>
    obtain ⟨haccounts, hgo⟩ := takeIn_accounts s sender p e
    rw [hgo, bookings]
    cases hf : s.fate? p e with
    | none =>
      rw [hf] at haccounts
      exact haccounts
    | some f =>
      rw [hf] at haccounts
      exact haccounts.trans (ih _)

end Site
end Rebalance
