/-
  Rebalance.Proofs.Winner

  Entries that arrive again, or in another order.  Taking in an entry lets the
  later revision win, and of two writes at one revision the one that was there
  first.  So what a key holds after any number of entries is said by
  `Held.Prevails` about what it held before and those entries, in any order:
  `later_revision_wins` draws the consequences for repeats and permutations.
-/
import Rebalance.Proofs.Merge

namespace Rebalance

-- ============================================================================
-- Which write wins
-- ============================================================================

/-- What a key holds: a value, its revision and when it expires. -/
structure Held where
  value : Bytes
  revision : Revision
  expiresAt : Option Instant
deriving DecidableEq

namespace Held

/-- Of two writes of a key the second one counts if it is later than the first. -/
def against (new : Held) : Option Held → Held
  | some old => if new.revision.atMost old.revision then old else new
  | none => new

/-- What a key holds after some writes, one after another. -/
def latest (old : Option Held) (writes : List Held) : Option Held :=
  writes.foldl (fun held new => some (new.against held)) old

/-- One of the writes is later than all before it, and none after it is later. -/
def Wins (writes : List Held) (w : Held) : Prop :=
  ∃ before after, writes = before ++ w :: after ∧
    (∀ x ∈ before, w.revision.atMost x.revision = false) ∧
    ∀ x ∈ after, x.revision.atMost w.revision = true

/-- A key holds the write that wins, and nothing if there is none. -/
def Prevails (writes : List Held) : Option Held → Prop
  | some w => Wins writes w
  | none => writes = []

/-- Writes at one revision are the same. -/
def Agree (writes : List Held) : Prop :=
  ∀ x ∈ writes, ∀ y ∈ writes, x.revision = y.revision → x = y

variable {writes others : List Held} {old : Option Held} {w x : Held}

theorem Wins.mem (h : Wins writes w) : w ∈ writes := by
  obtain ⟨before, after, rfl, -, -⟩ := h
  exact List.mem_append_right before List.mem_cons_self

/-- The write that wins is as late as any. -/
theorem Wins.atMost (h : Wins writes w) (hx : x ∈ writes) : x.revision.atMost w.revision = true := by
  obtain ⟨before, after, rfl, hbefore, hafter⟩ := h
  rcases List.mem_append.mp hx with hx | hx
  · exact Revision.atMost_of_not_atMost (hbefore x hx)
  · rcases List.mem_cons.mp hx with rfl | hx
    · exact Revision.atMost_refl _
    · exact hafter x hx

/-- One more write wins if it is later than the one that won so far. -/
theorem Wins.snoc (h : Wins writes w) (new : Held) :
    Wins (writes ++ [new]) (new.against (some w)) := by
  have hmost : ∀ x ∈ writes, x.revision.atMost w.revision = true := fun x => h.atMost
  cases hnew : new.revision.atMost w.revision with
  | true =>
    obtain ⟨before, after, rfl, hbefore, hafter⟩ := h
    rw [against, hnew, if_pos rfl]
    refine ⟨before, after ++ [new], by simp, hbefore, fun x hx => ?_⟩
    rcases List.mem_append.mp hx with hx | hx
    · exact hafter x hx
    · rw [List.mem_singleton.mp hx]
      exact hnew
  | false =>
    rw [against, hnew, if_neg Bool.false_ne_true]
    refine ⟨writes, [], rfl, fun x hx => ?_, fun x hx => absurd hx List.not_mem_nil⟩
    -- A write that is not later than the winner is not as late as the new one either.
    cases hle : new.revision.atMost x.revision with
    | false => rfl
    | true => exact absurd (Revision.atMost_trans hle (hmost x hx)) (by rw [hnew]; decide)

theorem Prevails.snoc (h : Prevails writes old) (new : Held) :
    Prevails (writes ++ [new]) (some (new.against old)) := by
  cases old with
  | some w => exact Wins.snoc h new
  | none =>
    have hnil : writes = [] := h
    rw [hnil]
    exact ⟨[], [], rfl, fun x hx => absurd hx List.not_mem_nil,
      fun x hx => absurd hx List.not_mem_nil⟩

theorem prevails_start (old : Option Held) : Prevails old.toList old := by
  cases old with
  | none => rfl
  | some w =>
    exact ⟨[], [], rfl, fun x hx => absurd hx List.not_mem_nil,
      fun x hx => absurd hx List.not_mem_nil⟩

/-- After more writes a key holds the one that wins among all. -/
theorem Prevails.latest (h : Prevails writes old) (more : List Held) :
    Prevails (writes ++ more) (latest old more) := by
  induction more generalizing writes old with
  | nil =>
    rw [List.append_nil]
    exact h
  | cons new more ih =>
    have hall : writes ++ new :: more = writes ++ [new] ++ more := by simp
    rw [hall]
    exact ih (h.snoc new)

/-- What is held is as late as any write. -/
theorem Prevails.atMost (h : Prevails writes old) (hx : x ∈ writes) :
    ∃ y, old = some y ∧ x.revision.atMost y.revision = true := by
  cases old with
  | some w => exact ⟨w, rfl, Wins.atMost h hx⟩
  | none =>
    have hnil : writes = [] := h
    rw [hnil] at hx
    exact absurd hx List.not_mem_nil

/-- Of writes that agree the same one wins in every order. -/
theorem Prevails.of_perm {o o' : Option Held} (h : Prevails writes o) (h' : Prevails others o')
    (hp : others.Perm writes) (ha : Agree writes) : o' = o := by
  cases o with
  | none =>
    have hnil : writes = [] := h
    rw [hnil, List.perm_nil] at hp
    cases o' with
    | none => rfl
    | some w =>
      have hw : Wins others w := h'
      rw [hp] at hw
      exact absurd hw.mem List.not_mem_nil
  | some w =>
    have hw : Wins writes w := h
    obtain ⟨w', rfl, hle⟩ := h'.atMost (hp.mem_iff.mpr hw.mem)
    have hw' : w' ∈ writes := hp.mem_iff.mp (Wins.mem h')
    have hle' : w'.revision.atMost w.revision = true := hw.atMost hw'
    have hrev : w'.revision = w.revision := by
      rw [Revision.atMost, Bool.not_eq_true'] at hle hle'
      exact Key.eq_of_not_below hle hle'
    rw [ha w' hw' w hw.mem hrev]

end Held

-- ============================================================================
-- Entries as writes
-- ============================================================================

/-- What a key holds once an entry was written to it. -/
def Entry.held (e : Entry) : Held := ⟨e.value, e.revision, e.expiresAt⟩

/-- What a slot holds, if it is not empty. -/
def Slot.held? (s : Slot) : Option Held := s.value.map fun v => ⟨v, s.revision, s.expiresAt⟩

namespace Store

/-- What a key of a partition holds. -/
def held? (s : Store) (p : PartitionId) (k : Bytes) : Option Held := (s.slotFor p k).held?

/-- What a key holds, and then what some entries would have it hold. -/
def candidates (s : Store) (p : PartitionId) (k : Bytes) (es : List Entry) : List Held :=
  (s.held? p k).toList ++ (es.filter (·.key = k)).map Entry.held

/-- A partition that nothing but a later revision keeps from being written to. -/
structure Writable (s : Store) (p : PartitionId) : Prop where
  state : s.state? p = some .moving ∨ s.state? p = some .owning
  roomy : s.capacity = none

/-- One write to a partition: it counts if it is later than what the key holds. -/
structure Written (p : PartitionId) (e : Entry) (s t : Store) : Prop where
  only : Only p s t
  state : t.state? p = s.state? p
  obsolete : ∀ k, (t.slotFor p k).obsolete = (s.slotFor p k).obsolete
  held : ∀ k, t.held? p k = if k = e.key then some (e.held.against (s.held? p k)) else s.held? p k

variable {s t u : Store} {p : PartitionId} {e : Entry}

theorem Writable.later (h : s.Writable p) (ho : Only p s t) (hs : t.state? p = s.state? p) :
    t.Writable p := ⟨by rw [hs]; exact h.state, ho.capacity.trans h.roomy⟩

/-- A change that leaves slots and state alone does not matter. -/
theorem Written.then_same (h : Written p e s t) (ho : Only p t u) (hs : u.state? p = t.state? p)
    (hk : ∀ k, u.slot? p k = t.slot? p k) : Written p e s u where
  only := h.only.trans ho
  state := hs.trans h.state
  obsolete k := by
    rw [← h.obsolete k, slotFor, slotFor, hk]
  held k := by
    rw [← h.held k, held?, held?, slotFor, slotFor, hk]

/-- The slot with an entry that is later is put into place. -/
theorem written_putSlot {part : Partition} (hp : s.get? p = some part)
    (hover : e.held.against (s.held? p e.key) = e.held) :
    Written p e s (s.modifySlots p (·.insert e.key ((s.slotFor p e.key).write e))) where
  only := only_modify s p _
  state := state?_modifySlots s p p _
  obsolete k := by
    rw [slotFor_putSlot hp]
    by_cases hk : p = p ∧ k = e.key
    · rw [if_pos hk, hk.2]
      rfl
    · rw [if_neg hk]
  held k := by
    rw [held?, slotFor_putSlot hp]
    by_cases hk : k = e.key
    · rw [if_pos ⟨rfl, hk⟩, if_pos hk, hk, hover]
      rfl
    · rw [if_neg fun h => hk h.2, if_neg hk]
      rfl

/-- Where a partition can be written to and the key was not removed, an insertion is a write. If
    it was not to be made, the store stays as it is. -/
theorem Insertion.writes {r : Except StoreFault InsertOutcome} (h : Insertion s p e t r)
    (hw : s.Writable p) (ho : (s.slotFor p e.key).obsolete = false) :
    Written p e s t ∧ (r = .ok .inserted ∨ r = .ok .alreadyNewer) ∧
      ∀ x, s.held? p e.key = some x → e.revision.atMost x.revision = true →
        r = .ok .alreadyNewer ∧ t = s := by
  cases h with
  | absent hp =>
    have hnone : s.state? p = none := congrArg (Option.map Partition.state) hp
    rcases hw.state with hst | hst <;> cases hnone.symm.trans hst
  | invalid part hp hb =>
    have hstate : s.state? p = some part.state := congrArg (Option.map Partition.state) hp
    rcases hw.state with hst | hst <;>
      · rw [Option.some.inj (hstate.symm.trans hst)] at hb
        cases hb
  | removed hr => cases ho.symm.trans hr
  | alreadyNewer v hv hr =>
    refine ⟨⟨.refl p s, rfl, fun _ => rfl, fun k => ?_⟩, .inr rfl, fun _ _ _ => ⟨rfl, rfl⟩⟩
    by_cases hk : k = e.key
    · have hheld : s.held? p k =
          some ⟨v, (s.slotFor p e.key).revision, (s.slotFor p e.key).expiresAt⟩ := by
        rw [hk, held?, Slot.held?, hv]
        rfl
      rw [if_pos hk, hheld, Held.against]
      exact congrArg some (if_pos hr).symm
    · rw [if_neg hk]
  | replaced part v hp _ hv hr =>
    have hheld : s.held? p e.key =
        some ⟨v, (s.slotFor p e.key).revision, (s.slotFor p e.key).expiresAt⟩ := by
      rw [held?, Slot.held?, hv]
      rfl
    refine ⟨written_putSlot hp ?_, .inl rfl, fun x hx hle => ?_⟩
    · rw [hheld, Held.against]
      exact if_neg (by rw [Entry.held, hr]; decide)
    · obtain rfl := Option.some.inj (hheld.symm.trans hx)
      cases hr.symm.trans hle
  | refused part hp _ hv hf =>
    rw [isFull, hw.roomy] at hf
    cases hf
  | created part hp _ hv _ =>
    have hheld : s.held? p e.key = none := by
      rw [held?, Slot.held?, hv]
      rfl
    have hput := written_putSlot (e := e) hp (by rw [hheld]; rfl)
    refine ⟨⟨⟨hput.only.others, hput.only.evictions, hput.only.capacity⟩, hput.state,
      hput.obsolete, hput.held⟩, .inl rfl, fun x hx => ?_⟩
    cases hheld.symm.trans hx

end Store

-- ============================================================================
-- Entries at a site
-- ============================================================================

/-- An entry that is handed to a site: who sent it, and the moment when it is. -/
structure Offer where
  sender : NodeId
  now : Instant
  entry : Entry

/-- The entry has not expired when it is handed over. -/
def Offer.Fresh (o : Offer) : Prop := o.entry.isExpired o.now = false

namespace Site

/-- Take in an entry at its moment. -/
def takeOffer (s : Site) (p : PartitionId) (o : Offer) : Site × Except Fault Verdict :=
  (s.change (.clock o.now)).takeIn o.sender p o.entry

/-- Take in entries, one after another. -/
def takeOffers (s : Site) (p : PartitionId) (offers : List Offer) : Site :=
  offers.foldl (fun s o => (s.takeOffer p o).1) s

/-- What a key of a partition holds. -/
def held? (s : Site) (p : PartitionId) (k : Bytes) : Option Held := s.store.base.held? p k

/-- A site that lets all entries of a partition through to a store that takes them. -/
structure Accepting (s : Site) (p : PartitionId) : Prop where
  filter : s.filter = none
  rejected : s.store.rejected = ∅
  invalidating : s.store.invalidating = ∅
  writable : s.store.base.Writable p

/-- The keys of some entries were not removed from a partition. -/
def Keeps (s : Site) (p : PartitionId) (offers : List Offer) : Prop :=
  ∀ o ∈ offers, (s.store.base.slotFor p o.entry.key).obsolete = false

variable {s : Site} {p : PartitionId} {o : Offer} {offers : List Offer}

/-- An entry that is taken in is written if it is to be, and if not, the store stays as it is. -/
theorem takeOffer_writes (h : s.Accepting p) (hx : o.Fresh)
    (ho : (s.store.base.slotFor p o.entry.key).obsolete = false) :
    (s.takeOffer p o).2 = .ok .more ∧ (s.takeOffer p o).1.Accepting p ∧
      Store.Written p o.entry s.store.base (s.takeOffer p o).1.store.base ∧
      ∀ x, s.held? p o.entry.key = some x → o.entry.revision.atMost x.revision = true →
        (s.takeOffer p o).1.store = s.store := by
  have halike : (s.change (.clock o.now)).Alike (s.takeOffer p o).1 :=
    alike_takeIn (s.change (.clock o.now)) o.sender p o.entry
  have haccepting : ∀ {t : Store}, Store.Written p o.entry s.store.base t →
      (s.takeOffer p o).1.store.base = t → (s.takeOffer p o).1.Accepting p := by
    rintro t hwritten rfl
    exact ⟨halike.filter.trans h.filter, halike.rejected.trans h.rejected,
      halike.invalidating.trans h.invalidating, h.writable.later hwritten.only hwritten.state⟩
  have hpass : ¬ (o.entry.isExpired (s.change (.clock o.now)).clock = true ∨
      (s.change (.clock o.now)).accepts p o.entry = false) := by
    have hfilter : (s.change (.clock o.now)).filter = none := h.filter
    rw [accepts, hfilter]
    change ¬ (o.entry.isExpired o.now = true ∨ true = false)
    rw [show o.entry.isExpired o.now = false from hx]
    decide
  have htake : s.takeOffer p o =
      settleWrite { s.change (.clock o.now) with store := (s.store.insertIfNewer p o.entry).1 }
        o.sender p o.entry (s.store.insertIfNewer p o.entry).2 := by
    rw [takeOffer, takeIn_eq, if_neg hpass]
    rfl
  rcases s.store.insertIfNewer_cases p o.entry with ⟨reason, hr, -⟩ | ⟨-, before, hb, hstore, hins⟩
  · rw [h.rejected] at hr
    cases hr
  · rw [h.invalidating, if_neg (SortedSet.not_mem_empty o.entry.key)] at hb
    subst hb
    obtain ⟨hwritten, hres, hsame⟩ := hins.writes h.writable ho
    have hbase := congrArg (fun x => x.1.store.base) htake
    rw [store_settleWrite] at hbase
    refine ⟨?_, ?_⟩
    · rcases hres with hres | hres <;>
        · rw [htake, hres]
          rfl
    · have hall : Store.Written p o.entry s.store.base (s.takeOffer p o).1.store.base := by
        rw [hbase]
        rcases hres with hres | hres
        · rw [hres]
          exact hwritten.then_same (Store.only_modify _ p _) (Store.state?_track _ p p _)
            fun k => Store.slot?_track _ p p k _
        · rw [hres]
          exact hwritten
      refine ⟨haccepting hall rfl, hall, fun x hx hle => ?_⟩
      obtain ⟨hr, ht⟩ := hsame x hx hle
      rw [htake, hr]
      change (s.store.insertIfNewer p o.entry).1 = s.store
      rw [hstore, ht]

/-- Entries that are taken in one after another are written one after another. -/
theorem takeOffers_writes (h : s.Accepting p) (hx : ∀ o ∈ offers, o.Fresh)
    (ho : s.Keeps p offers) :
    (s.takeOffers p offers).Accepting p ∧
      Store.Only p s.store.base (s.takeOffers p offers).store.base ∧
      (∀ k, ((s.takeOffers p offers).store.base.slotFor p k).obsolete =
        (s.store.base.slotFor p k).obsolete) ∧
      ∀ k, (s.takeOffers p offers).held? p k = Held.latest (s.held? p k)
        (((offers.map (·.entry)).filter (·.key = k)).map Entry.held) := by
  induction offers generalizing s with
  | nil => exact ⟨h, .refl p _, fun _ => rfl, fun _ => rfl⟩
  | cons o offers ih =>
    obtain ⟨-, hacc, hwritten, -⟩ :=
      takeOffer_writes h (hx o List.mem_cons_self) (ho o List.mem_cons_self)
    obtain ⟨hacc', honly, hobs, hheld⟩ := ih hacc (fun o' h' => hx o' (List.mem_cons_of_mem o h'))
      fun o' h' => (hwritten.obsolete _).trans (ho o' (List.mem_cons_of_mem o h'))
    refine ⟨hacc', hwritten.only.trans honly, fun k => (hobs k).trans (hwritten.obsolete k),
      fun k => (hheld k).trans ?_⟩
    rw [show (s.takeOffer p o).1.held? p k = _ from hwritten.held k, List.map_cons]
    by_cases hk : k = o.entry.key
    · rw [if_pos hk, List.filter_cons_of_pos (by simpa using hk.symm)]
      rfl
    · rw [if_neg hk, List.filter_cons_of_neg (by simpa using Ne.symm hk)]
      rfl

/-- Entries that are no later than what their keys hold change nothing that is stored. -/
theorem takeOffers_of_atMost (h : s.Accepting p) (hx : ∀ o ∈ offers, o.Fresh)
    (ho : s.Keeps p offers) (hle : ∀ o ∈ offers, ∃ x, s.held? p o.entry.key = some x ∧
      o.entry.revision.atMost x.revision = true) :
    (s.takeOffers p offers).store = s.store := by
  induction offers generalizing s with
  | nil => rfl
  | cons o offers ih =>
    obtain ⟨x, hheld, hrev⟩ := hle o List.mem_cons_self
    obtain ⟨-, hacc, -, hsame⟩ :=
      takeOffer_writes h (hx o List.mem_cons_self) (ho o List.mem_cons_self)
    have hstore := hsame x hheld hrev
    have hrest : (s.takeOffers p (o :: offers)).store = (s.takeOffer p o).1.store := by
      refine ih hacc (fun o' h' => hx o' (List.mem_cons_of_mem o h')) ?_ ?_
      · intro o' h'
        rw [hstore]
        exact ho o' (List.mem_cons_of_mem o h')
      · intro o' h'
        rw [held?, hstore]
        exact hle o' (List.mem_cons_of_mem o h')
    exact hrest.trans hstore

/-- A key holds the write that wins among what it held and the entries for it. -/
theorem takeOffers_prevails (h : s.Accepting p) (hx : ∀ o ∈ offers, o.Fresh) (ho : s.Keeps p offers)
    (k : Bytes) :
    Held.Prevails (s.store.base.candidates p k (offers.map (·.entry)))
      ((s.takeOffers p offers).held? p k) := by
  obtain ⟨-, -, -, hheld⟩ := takeOffers_writes h hx ho
  rw [hheld k]
  exact (Held.prevails_start _).latest _

/-- An entry is among the writes of its key. -/
theorem mem_candidates (s : Store) (p : PartitionId) (ho : o ∈ offers) :
    o.entry.held ∈ s.candidates p o.entry.key (offers.map (·.entry)) := by
  refine List.mem_append_right _ (List.mem_map_of_mem (List.mem_filter.mpr ⟨?_, ?_⟩))
  · exact List.mem_map_of_mem ho
  · simp

/-- Whether keys were removed does not depend on who sends the entries, and when. -/
theorem Keeps.of_entries {other : List Offer} (h : s.Keeps p offers)
    (hsub : ∀ e ∈ other.map (·.entry), e ∈ offers.map (·.entry)) : s.Keeps p other := by
  intro o hmem
  obtain ⟨o', h', heq⟩ := List.mem_map.mp (hsub o.entry (List.mem_map_of_mem hmem))
  rw [← heq]
  exact h o' h'

/-- The same entries again change nothing that is stored. -/
theorem takeOffers_again (h : s.Accepting p) (hx : ∀ o ∈ offers, o.Fresh) (ho : s.Keeps p offers)
    {again : List Offer} (heq : again.map (·.entry) = offers.map (·.entry))
    (hfresh : ∀ o ∈ again, o.Fresh) :
    ((s.takeOffers p offers).takeOffers p again).store = (s.takeOffers p offers).store := by
  obtain ⟨hacc, -, hobs, -⟩ := takeOffers_writes h hx ho
  refine takeOffers_of_atMost hacc hfresh (fun o hmem => ?_) fun o hmem => ?_
  · rw [hobs]
    exact ho.of_entries (fun e he => heq ▸ he) o hmem
  · obtain ⟨o', h', hentry⟩ :=
      List.mem_map.mp (heq ▸ List.mem_map_of_mem (f := fun o : Offer => o.entry) hmem)
    rw [← hentry]
    exact (takeOffers_prevails h hx ho o'.entry.key).atMost (mem_candidates _ p h')

/-- The same entries in another order leave the same, if those of one key and revision agree. -/
theorem takeOffers_perm (h : s.Accepting p) (hx : ∀ o ∈ offers, o.Fresh) (ho : s.Keeps p offers)
    {other : List Offer} (hperm : (other.map (·.entry)).Perm (offers.map (·.entry)))
    (hfresh : ∀ o ∈ other, o.Fresh) {k : Bytes}
    (hagree : Held.Agree (s.store.base.candidates p k (offers.map (·.entry)))) :
    (s.takeOffers p other).held? p k = (s.takeOffers p offers).held? p k := by
  have hkeeps : s.Keeps p other := ho.of_entries fun e he => hperm.mem_iff.mp he
  refine (takeOffers_prevails h hx ho k).of_perm (takeOffers_prevails h hfresh hkeeps k) ?_ hagree
  exact List.Perm.append_left _ ((hperm.filter _).map _)

/-- Entries of a partition that takes writes are merged: every key holds the write with the
    latest revision among what it held and the entries for it, the first of them if there are
    several. So no revision falls, the same entries again change nothing that is stored, and
    entries that agree leave the same in every order. -/
theorem later_revision_wins (h : s.Accepting p) (hx : ∀ o ∈ offers, o.Fresh)
    (ho : s.Keeps p offers) :
    let es := offers.map (·.entry)
    let t := s.takeOffers p offers
    (∀ before o after, offers = before ++ o :: after →
      ((s.takeOffers p before).takeOffer p o).2 = .ok .more) ∧
    (∀ q, q ≠ p → t.store.base.get? q = s.store.base.get? q) ∧
    (∀ k, Held.Prevails (s.store.base.candidates p k es) (t.held? p k)) ∧
    (∀ k x, s.held? p k = some x →
      ∃ y, t.held? p k = some y ∧ x.revision.atMost y.revision = true) ∧
    (∀ again : List Offer, again.map (·.entry) = es → (∀ o ∈ again, o.Fresh) →
      (t.takeOffers p again).store = t.store) ∧
    ∀ other : List Offer, (other.map (·.entry)).Perm es → (∀ o ∈ other, o.Fresh) →
      (∀ k, Held.Agree (s.store.base.candidates p k es)) →
      ∀ k, (s.takeOffers p other).held? p k = t.held? p k := by
  intro es t
  have hprevails := takeOffers_prevails h hx ho
  refine ⟨?_, (takeOffers_writes h hx ho).2.1.others, hprevails, fun k x hxk => ?_,
    fun again heq hfresh => takeOffers_again h hx ho heq hfresh,
    fun other hperm hfresh hagree k => takeOffers_perm h hx ho hperm hfresh (hagree k)⟩
  · rintro before o after rfl
    have hmem : o ∈ before ++ o :: after := List.mem_append_right _ List.mem_cons_self
    obtain ⟨hacc, -, hobs, -⟩ := takeOffers_writes h
      (fun o' h' => hx o' (List.mem_append_left _ h')) fun o' h' => ho o' (List.mem_append_left _ h')
    exact (takeOffer_writes hacc (hx o hmem) ((hobs _).trans (ho o hmem))).1
  · refine (hprevails k).atMost (List.mem_append_left _ ?_)
    rw [show s.store.base.held? p k = some x from hxk]
    exact List.mem_singleton_self x

/-- A key that is held at one revision gets an older entry, a later one, and that one again; in
    the other order the same is left. -/
theorem late_entry_wins_twice :
    let at_ (order : UInt64) : Entry := { key := [7], value := [order.toUInt8], revision := ⟨order, 0⟩ }
    let s : Site := {
      node := 2
      store := { base := (({} : Store).create 3 .moving).put 3 (at_ 2) }
      affinity := Affinity.start ⟨1, 0⟩ (SortedSet.ofList [3])
      clock := 0 }
    let offers : List Offer := [⟨5, 10, at_ 1⟩, ⟨6, 20, at_ 4⟩, ⟨5, 30, at_ 4⟩]
    (s.Accepting 3 ∧ (∀ o ∈ offers, o.Fresh) ∧ s.Keeps 3 offers ∧
      ∀ k, Held.Agree (s.store.base.candidates 3 k (offers.map (·.entry)))) ∧
    (s.takeOffers 3 offers).held? 3 [7] = some ⟨[4], ⟨4, 0⟩, none⟩ ∧
    ((s.takeOffers 3 offers).takeOffers 3 offers).store = (s.takeOffers 3 offers).store ∧
    ∀ k, (s.takeOffers 3 offers.reverse).held? 3 k = (s.takeOffers 3 offers).held? 3 k := by
  intro at_ s offers
  have haccepting : s.Accepting 3 := ⟨rfl, rfl, rfl, .inl rfl, rfl⟩
  have hall : ∀ o ∈ offers, o.Fresh ∧ (s.store.base.slotFor 3 o.entry.key).obsolete = false := by
    intro o ho
    simp only [offers, List.mem_cons, List.not_mem_nil, or_false] at ho
    rcases ho with rfl | rfl | rfl <;> exact ⟨rfl, rfl⟩
  have hfresh : ∀ o ∈ offers, o.Fresh := fun o ho => (hall o ho).1
  have hkeeps : s.Keeps 3 offers := fun o ho => (hall o ho).2
  have hagree : ∀ k, Held.Agree (s.store.base.candidates 3 k (offers.map (·.entry))) := by
    intro k
    by_cases hk : k = [7]
    · subst hk
      unfold Held.Agree
      decide
    · -- Nothing is held under any other key, and no entry is for it.
      have hnone : s.store.base.slotFor 3 k = {} := by
        change (SortedMap.find k [([7], ({} : Slot).write (at_ 2))]).getD {} = {}
        rw [SortedMap.find, if_neg (Ne.symm hk)]
        rfl
      have hempty : s.store.base.candidates 3 k (offers.map (·.entry)) = [] := by
        rw [Store.candidates, Store.held?, hnone]
        simp [offers, at_, Ne.symm hk, Slot.held?]
      rw [hempty]
      exact fun x hx => absurd hx List.not_mem_nil
  obtain ⟨-, -, -, -, hagain, hother⟩ := later_revision_wins haccepting hfresh hkeeps
  refine ⟨⟨haccepting, hfresh, hkeeps, hagree⟩, by decide, hagain offers rfl hfresh, ?_⟩
  exact hother offers.reverse ((List.reverse_perm offers).map _)
    (fun o ho => hfresh o (List.mem_reverse.mp ho)) hagree

end Site
end Rebalance
