/-
  Rebalance.Proofs.Calm

  A page at a demander that nothing disturbs.  Where no entry is turned away,
  no lock is held and no partition is unreservable, a page is worked through to
  its end.  What the walk did can then be said partition by partition: one that
  belongs here and is being filled is merged with its entries, and owned if the
  page is its last one; it is taken off the round if it ends with the page or
  was not to be filled at all.
-/
import Rebalance.Proofs.Merge
import Rebalance.Proofs.Walk

namespace Rebalance
namespace Demander

/-- Nothing stands in the way of taking in pages for some partitions. -/
structure Calm (d : Demander) (Q : PartitionId → Prop) : Prop where
  filter : d.site.filter = none
  rejected : d.site.store.rejected = ∅
  invalidating : d.site.store.invalidating = ∅
  unreservable : d.site.store.unreservable = ∅
  roomy : d.site.store.base.capacity = none
  evictions : ∀ p, Q p → ∀ k, d.site.store.base.evictions.get? (p, k) = none
  obsolete : ∀ p, Q p → ∀ k, (d.site.store.base.slotFor p k).obsolete = false
  free : ∀ p, Q p → d.site.store.base.lock? p ≠ some true

variable {Q : PartitionId → Prop} {job : PageJob}

/-- A demander stays calm as long as slots are not removed and locks are given back. -/
theorem Calm.later {d e : Demander} (h : d.Calm Q) (hn : Near d e)
    (ho : ∀ p, Q p → ∀ k,
      (e.site.store.base.slotFor p k).obsolete = (d.site.store.base.slotFor p k).obsolete)
    (hl : ∀ p, Q p → e.site.store.base.lock? p ≠ some true) : e.Calm Q where
  filter := hn.site.filter.trans h.filter
  rejected := hn.site.rejected.trans h.rejected
  invalidating := hn.site.invalidating.trans h.invalidating
  unreservable := hn.site.unreservable.trans h.unreservable
  roomy := hn.grows.capacity.trans h.roomy
  evictions p hp k := by
    rw [hn.grows.evictions]
    exact h.evictions p hp k
  obsolete p hp k := (ho p hp k).trans (h.obsolete p hp k)
  free := hl

/-- The store of a calm demander is all that decides whether another one is calm. -/
theorem Calm.of_store {d e : Demander} (h : d.Calm Q) (hf : e.site.filter = d.site.filter)
    (hs : e.site.store = d.site.store) : e.Calm Q := by
  obtain ⟨h1, h2, h3, h4, h5, h6, h7, h8⟩ := h
  rw [← hs] at h2 h3 h4 h5 h6 h7 h8
  exact ⟨hf.trans h1, h2, h3, h4, h5, h6, h7, h8⟩

-- ============================================================================
-- One partition
-- ============================================================================

theorem Calm.base_pinned {d : Demander} (h : d.Calm Q) (p : PartitionId) :
    (d.pinned p).site.store.base = (d.site.store.base.reserve p).1 := by
  show (d.site.store.reserve p).1.base = _
  rw [Tampered.reserve, h.unreservable, if_neg (SortedSet.not_mem_empty p)]

/-- A partition that is being filled can be reserved and locked. -/
theorem Calm.lockable {d : Demander} (h : d.Calm Q) {p : PartitionId} (hp : Q p)
    (hm : d.site.store.base.state? p = some .moving) :
    (d.site.store.reserve p).2 = true ∧ ((d.pinned p).site.store.base.tryLock p).2 = true := by
  constructor
  · rw [Tampered.reserve, h.unreservable, if_neg (SortedSet.not_mem_empty p)]
    exact Store.reserve_moving d.site.store.base p hm
  · apply Store.tryLock_free
    rw [h.base_pinned, Store.lock?_reserve]
    exact h.free p hp

/-- Reservation and lock change nothing of what a partition holds. -/
theorem Calm.locked {d : Demander} (h : d.Calm Q) (p : PartitionId) :
    Store.Only p d.site.store.base ((d.pinned p).withLock p).site.store.base ∧
      (∀ q, ((d.pinned p).withLock p).site.store.base.state? q =
        d.site.store.base.state? q) ∧
      ∀ k, ((d.pinned p).withLock p).site.store.base.slot? p k =
        d.site.store.base.slot? p k := by
  have hbase : ((d.pinned p).withLock p).site.store.base =
      ((d.site.store.base.reserve p).1.tryLock p).1 :=
    congrArg (fun s : Store => (s.tryLock p).1) (h.base_pinned p)
  rw [hbase]
  refine ⟨(Store.only_reserve _ p).trans (Store.only_tryLock _ p), fun q => ?_, fun k => ?_⟩
  · rw [Store.state?_tryLock, Store.state?_reserve]
  · rw [Store.slot?_tryLock, Store.slot?_reserve]

/-- A partition that is being filled, once it is reserved and locked. -/
theorem receptive_locked {d : Demander} (h : d.Calm Q) {p : PartitionId} (hp : Q p)
    (hm : d.site.store.base.state? p = some .moving) :
    ((d.pinned p).withLock p).site.Receptive p := by
  obtain ⟨-, hstate, hslot⟩ := h.locked p
  have hnear : Near d ((d.pinned p).withLock p) := near_held d p
  refine ⟨hnear.site.filter.trans h.filter, hnear.site.rejected.trans h.rejected,
    hnear.site.invalidating.trans h.invalidating, ⟨.moving, (hstate p).trans hm, rfl⟩,
    hnear.grows.capacity.trans h.roomy, fun k => ?_, fun k => ?_⟩
  · rw [hnear.grows.evictions]
    exact h.evictions p hp k
  · rw [Store.slotFor, hslot k]
    exact h.obsolete p hp k

/-- A partition of a page that is loaded: the page merged into it, and whether it is owned. -/
structure LoadedBy (job : PageJob) (p : PartitionId) (es : List Entry) (d e : Demander) :
    Prop where
  near : Near d e
  only : Store.Only p d.site.store.base e.site.store.base
  state : e.site.store.base.state? p =
    some (if p ∈ job.page.last then .owning else .moving)
  lock : e.site.store.base.lock? p ≠ some true
  obsolete : ∀ k, (e.site.store.base.slotFor p k).obsolete =
    (d.site.store.base.slotFor p k).obsolete
  read : ∀ k, e.site.store.base.read p k =
    Entry.mergeAll k (d.site.store.base.read p k) es
  round : ∀ id, (e.roundOf id).round =
    if id = job.round ∧ p ∈ job.page.last then
      (d.roundOf job.round).round.after (.drain job.sender p)
    else (d.roundOf id).round

/-- The store after a partition was loaded, its lock and its reservation given back. -/
theorem store_load (d : Demander) (job : PageJob) (p : PartitionId) (es : List Entry)
    (hok : (d.load job p es).2 = .ok ()) :
    (d.load job p es).1.site.store.base =
      (Store.unlock (if p ∈ job.page.last then
        ((d.site.takeInAll job.sender p es).1.store.base.own p).1
        else (d.site.takeInAll job.sender p es).1.store.base) p).release p := by
  have hcompletes : d.completes job p es = decide (p ∈ job.page.last) := by
    rw [completes, hok]
    rfl
  rw [load_cases, hcompletes]
  by_cases hl : p ∈ job.page.last
  · rw [if_pos (decide_eq_true hl), if_pos hl, ownLoaded]
    show ((((d.takenIn job p es).ownAndReport job p).changeRound job.round
      (.drain job.sender p)).site.store.base.unlock p).release p = _
    rw [(beside_changeRound _ _ _).store, ownAndReport]
    simp only [Site.store_report]
    rfl
  · rw [if_neg hl, if_neg (by simpa using hl)]
    rfl

/-- A partition that is owned now or still being filled, its lock and its reservation given
    back. -/
theorem store_returned (s : Store) {p : PartitionId} {c : Prop} [Decidable c]
    (hm : s.state? p = some .moving) :
    Store.Only p s ((Store.unlock (if c then (s.own p).1 else s) p).release p) ∧
      ((Store.unlock (if c then (s.own p).1 else s) p).release p).state? p =
        some (if c then .owning else .moving) ∧
      ((Store.unlock (if c then (s.own p).1 else s) p).release p).lock? p ≠ some true ∧
      ∀ k, ((Store.unlock (if c then (s.own p).1 else s) p).release p).slot? p k =
        s.slot? p k := by
  have hown : Store.Only p s (if c then (s.own p).1 else s) ∧
      (if c then (s.own p).1 else s).state? p = some (if c then .owning else .moving) ∧
      ∀ k, (if c then (s.own p).1 else s).slot? p k = s.slot? p k := by
    by_cases hc : c
    · rw [if_pos hc, if_pos hc]
      refine ⟨Store.only_own s p, ?_, fun k => Store.slot?_own s p p k⟩
      rw [Store.state?_own, if_pos ⟨rfl, hm⟩]
    · rw [if_neg hc, if_neg hc]
      exact ⟨.refl p s, hm, fun _ => rfl⟩
  generalize (if c then (s.own p).1 else s) = t at hown
  obtain ⟨honly, hstate, hslot⟩ := hown
  refine ⟨honly.trans ((Store.only_modify t p _).trans (Store.only_modify _ p _)), ?_, ?_, ?_⟩
  · rw [Store.state?_release, Store.state?_unlock, hstate]
  · rw [Store.lock?_release, Store.lock?_unlock, if_pos rfl]
    cases t.lock? p with
    | none => exact nofun
    | some b => exact nofun
  · intro k
    rw [Store.slot?_release, Store.slot?_unlock, hslot k]

/-- A calm demander loads a partition that is being filled. -/
theorem load_calm {d : Demander} (h : d.Calm Q) (hb : job.round < d.rounds.length)
    {p : PartitionId} (hp : Q p) (hm : d.site.store.base.state? p = some .moving)
    {es : List Entry} (hx : ∀ e ∈ es, e.isExpired d.site.clock = false) :
    (((d.pinned p).withLock p).load job p es).2 = .ok () ∧
      LoadedBy job p es d (((d.pinned p).withLock p).load job p es).1 := by
  have hrec : ((d.pinned p).withLock p).site.Receptive p := receptive_locked h hp hm
  have hnear : Near d ((d.pinned p).withLock p) := near_held d p
  have hclock : ((d.pinned p).withLock p).site.clock = d.site.clock := hnear.site.clock
  obtain ⟨hok, hmerged⟩ := Site.takeInAll_merges hrec job.sender (by rw [hclock]; exact hx)
  have hload : (((d.pinned p).withLock p).load job p es).2 = .ok () := hok
  have hstore := store_load ((d.pinned p).withLock p) job p es hload
  obtain ⟨honly, hstate, hslot⟩ := h.locked p
  generalize (((d.pinned p).withLock p).site.takeInAll job.sender p es).1.store.base = taken
    at hmerged hstore
  obtain ⟨hend, hstates, hlock, hslotEnd⟩ := store_returned taken (c := p ∈ job.page.last)
    (hmerged.state.trans ((hstate p).trans hm))
  rw [← hstore] at hend hstates hlock hslotEnd
  refine ⟨hload, hnear.trans (near_load _ job p es), (honly.trans hmerged.only).trans hend,
    hstates, hlock, ?_, ?_, ?_⟩
  · intro k
    rw [Store.slotFor, hslotEnd k]
    exact (hmerged.obsolete k).trans (congrArg (fun s => (s.getD {}).obsolete) (hslot k))
  · intro k
    rw [Store.read_of_slot?_eq (hslotEnd k), hmerged.read k, Store.read_of_slot?_eq (hslot k)]
  · intro id
    have hcompletes : ((d.pinned p).withLock p).completes job p es =
        decide (p ∈ job.page.last) := by
      rw [completes, hload]
      rfl
    have hround := round_load ((d.pinned p).withLock p) job p es hb id
    simp only [hcompletes, decide_eq_true_eq] at hround
    exact hround

/-- A demander stays calm as it loads a partition. -/
theorem LoadedBy.calm {d e : Demander} {p : PartitionId} {es : List Entry}
    (h : LoadedBy job p es d e) (hc : d.Calm Q) : e.Calm Q := by
  apply hc.later h.near
  · intro q _ k
    by_cases hqp : q = p
    · rw [hqp]
      exact h.obsolete k
    · rw [h.only.slotFor hqp k]
  · intro q hq
    by_cases hqp : q = p
    · rw [hqp]
      exact h.lock
    · rw [h.only.lock? hqp]
      exact hc.free q hq

-- ============================================================================
-- A whole page
-- ============================================================================

/-- Whether a page fills a partition: it belongs here and is being filled. -/
def fills (d : Demander) (job : PageJob) (p : PartitionId) : Bool :=
  d.owns p job.demand.topology && d.site.store.base.state p == .moving

/-- Whether a page takes a partition that it mentions off its round. -/
def ends (d : Demander) (job : PageJob) (p : PartitionId) : Bool :=
  !d.fills job p || decide (p ∈ job.page.last)

theorem fills_iff (d : Demander) (job : PageJob) (p : PartitionId) :
    d.fills job p = true ↔
      d.owns p job.demand.topology = true ∧ d.site.store.base.state? p = some .moving := by
  rw [fills, Bool.and_eq_true, beq_iff_eq, Store.state_eq_moving_iff]

theorem fills_eq_false_iff (d : Demander) (job : PageJob) (p : PartitionId) :
    d.fills job p = false ↔
      d.owns p job.demand.topology = false ∨ d.site.store.base.state p ≠ .moving := by
  rw [fills, Bool.and_eq_false_iff, beq_eq_false_iff_ne]

/-- Partitions of a page that were worked through. -/
structure Worked (job : PageJob) (todo : List (PartitionId × List Entry)) (d e : Demander) :
    Prop where
  near : Near d e
  others : ∀ q, q ∉ todo.map Prod.fst →
    e.site.store.base.get? q = d.site.store.base.get? q
  state : ∀ x ∈ todo, e.site.store.base.state? x.1 =
    if d.fills job x.1 = true ∧ x.1 ∈ job.page.last then some .owning
    else d.site.store.base.state? x.1
  read : ∀ x ∈ todo, ∀ k, e.site.store.base.read x.1 k =
    if d.fills job x.1 then Entry.mergeAll k (d.site.store.base.read x.1 k) x.2
    else d.site.store.base.read x.1 k
  obsolete : ∀ q k, (e.site.store.base.slotFor q k).obsolete =
    (d.site.store.base.slotFor q k).obsolete
  free : ∀ q, d.site.store.base.lock? q ≠ some true → e.site.store.base.lock? q ≠ some true
  round : ∀ id, (e.roundOf id).round =
    if id = job.round then
      (d.roundOf job.round).round.drainAll job.sender ((todo.map Prod.fst).filter (d.ends job))
    else (d.roundOf id).round

theorem Worked.calm {d e : Demander} {todo : List (PartitionId × List Entry)}
    (h : Worked job todo d e) (hc : d.Calm Q) : e.Calm Q :=
  hc.later h.near (fun p _ k => h.obsolete p k) fun p hp => h.free p (hc.free p hp)

theorem Worked.nil (job : PageJob) (d : Demander) : Worked job [] d d where
  near := .refl d
  others _ _ := rfl
  state x hx := by cases hx
  read x hx := by cases hx
  obsolete _ _ := rfl
  free _ h := h
  round id := by
    by_cases hid : id = job.round
    · rw [if_pos hid, hid]
      rfl
    · rw [if_neg hid]

/-- What a page does to a partition depends on that partition alone. -/
theorem fills_congr {d e : Demander} (hn : Near d e) {q : PartitionId}
    (hs : e.site.store.base.state? q = d.site.store.base.state? q) :
    e.fills job q = d.fills job q := by
  unfold fills Store.state
  rw [hn.owns, hs]

/-- A partition that is not to be filled is taken off the round, and nothing else happens. -/
theorem Worked.skip {d e : Demander} {p : PartitionId} {es : List Entry}
    {rest : List (PartitionId × List Entry)} (hp : d.fills job p = false)
    (hb : job.round < d.rounds.length)
    (h : Worked job rest (d.changeRound job.round (.drain job.sender p)) e) (hn : p ∉ rest.map Prod.fst) :
    Worked job ((p, es) :: rest) d e := by
  have hbeside : Beside d (d.changeRound job.round (.drain job.sender p)) :=
    beside_changeRound d job.round _
  have hnear : Near d (d.changeRound job.round (.drain job.sender p)) := hbeside.near
  have hstore := hbeside.store
  have hfills : ∀ q, (d.changeRound job.round (.drain job.sender p)).fills job q = d.fills job q :=
    fun q => fills_congr hnear (by rw [hstore])
  have hends : (d.changeRound job.round (.drain job.sender p)).ends job = d.ends job :=
    funext fun q => by rw [ends, hfills q, ends]
  have hsame : e.site.store.base.get? p = d.site.store.base.get? p := by
    rw [h.others p hn, hstore]
  refine ⟨hnear.trans h.near, ?_, ?_, ?_, ?_, ?_, ?_⟩
  · intro q hq
    rw [List.map_cons, List.mem_cons, not_or] at hq
    rw [h.others q hq.2, hstore]
  · intro x hx
    rcases List.mem_cons.mp hx with rfl | hx
    · rw [hp, Store.state?, hsame]
      simp
      rfl
    · rw [h.state x hx, hfills, hstore]
  · intro x hx k
    rcases List.mem_cons.mp hx with rfl | hx
    · have hslot : e.site.store.base.slot? p k = d.site.store.base.slot? p k := by
        rw [Store.slot?, hsame]
        rfl
      rw [hp, Store.read_of_slot?_eq hslot]
      rfl
    · rw [h.read x hx k, hfills, hstore]
  · intro q k
    rw [h.obsolete q k, hstore]
  · intro q hq
    apply h.free q
    rw [hstore]
    exact hq
  · intro id
    have hend : d.ends job p = true := by
      rw [ends, hp]
      rfl
    rw [h.round id, round_changeRound d _ hb, if_pos rfl, hends, round_changeRound d _ hb,
      List.map_cons, List.filter_cons_of_pos hend]
    by_cases hid : id = job.round
    · rw [if_pos hid, if_pos hid]
      rfl
    · rw [if_neg hid, if_neg hid, if_neg hid]

/-- Loading a partition changes nothing about which of the others a page takes off the round. -/
theorem LoadedBy.filter_ends {d f : Demander} {p : PartitionId} {es : List Entry}
    {ps : List PartitionId} (hl : LoadedBy job p es d f) (hn : p ∉ ps) :
    ps.filter (f.ends job) = ps.filter (d.ends job) := by
  refine List.filter_congr fun q hq => ?_
  have hqp : q ≠ p := fun heq => hn (heq ▸ hq)
  rw [ends, fills_congr hl.near (hl.only.state? hqp), ends]

/-- A partition that is filled is taken off the round ahead of the others if the page is its
    last. -/
theorem LoadedBy.drainAll {d f : Demander} {p : PartitionId} {es : List Entry}
    {ps : List PartitionId} (hl : LoadedBy job p es d f) (hp : d.fills job p = true)
    (hn : p ∉ ps) :
    (f.roundOf job.round).round.drainAll job.sender (ps.filter (f.ends job)) =
      (d.roundOf job.round).round.drainAll job.sender ((p :: ps).filter (d.ends job)) := by
  have hend : d.ends job p = decide (p ∈ job.page.last) := by
    rw [ends, hp]
    rfl
  rw [hl.filter_ends hn, hl.round job.round]
  by_cases hlast : p ∈ job.page.last
  · rw [if_pos ⟨rfl, hlast⟩, List.filter_cons_of_pos (by rw [hend]; exact decide_eq_true hlast)]
    rfl
  · rw [if_neg fun h => hlast h.2, List.filter_cons_of_neg (by rw [hend]; simpa using hlast)]

/-- A partition that is filled is loaded, and the rest of the page does not touch it. -/
theorem Worked.loaded {d f e : Demander} {p : PartitionId} {es : List Entry}
    {rest : List (PartitionId × List Entry)} (hp : d.fills job p = true)
    (hl : LoadedBy job p es d f) (h : Worked job rest f e) (hn : p ∉ rest.map Prod.fst) :
    Worked job ((p, es) :: rest) d e := by
  have hmoving : d.site.store.base.state? p = some .moving := ((fills_iff d job p).mp hp).2
  have hfills : ∀ q, q ≠ p → f.fills job q = d.fills job q :=
    fun q hq => fills_congr hl.near (hl.only.state? hq)
  have hne : ∀ x ∈ rest, x.1 ≠ p := by
    intro x hx heq
    exact hn (heq ▸ List.mem_map_of_mem hx)
  have hsame : e.site.store.base.get? p = f.site.store.base.get? p := h.others p hn
  refine ⟨hl.near.trans h.near, ?_, ?_, ?_, ?_, ?_, ?_⟩
  · intro q hq
    rw [List.map_cons, List.mem_cons, not_or] at hq
    rw [h.others q hq.2, hl.only.others q hq.1]
  · intro x hx
    rcases List.mem_cons.mp hx with rfl | hx
    · have hstate : e.site.store.base.state? p = f.site.store.base.state? p := by
        rw [Store.state?, hsame]
        rfl
      rw [hstate, hl.state, hp, hmoving]
      by_cases hlast : p ∈ job.page.last
      · rw [if_pos hlast, if_pos ⟨rfl, hlast⟩]
      · rw [if_neg hlast, if_neg fun h => hlast h.2]
    · rw [h.state x hx, hfills x.1 (hne x hx), hl.only.state? (hne x hx)]
  · intro x hx k
    rcases List.mem_cons.mp hx with rfl | hx
    · have hslot : e.site.store.base.slot? p k = f.site.store.base.slot? p k := by
        rw [Store.slot?, hsame]
        rfl
      rw [hp, Store.read_of_slot?_eq hslot, hl.read k]
      rfl
    · rw [h.read x hx k, hfills x.1 (hne x hx), hl.only.read (hne x hx) k]
  · intro q k
    rw [h.obsolete q k]
    by_cases hq : q = p
    · rw [hq]
      exact hl.obsolete k
    · rw [hl.only.slotFor hq k]
  · intro q hq
    apply h.free q
    by_cases hqp : q = p
    · rw [hqp]
      exact hl.lock
    · rw [hl.only.lock? hqp]
      exact hq
  · intro id
    rw [h.round id]
    by_cases hid : id = job.round
    · rw [if_pos hid, if_pos hid]
      exact hl.drainAll hp hn
    · rw [if_neg hid, if_neg hid, hl.round id, if_neg fun h => hid h.1]

/-- A calm demander works a page through to its end. -/
theorem worked_walk {d : Demander} (h : d.Calm Q) (hb : job.round < d.rounds.length)
    {todo : List (PartitionId × List Entry)} (hn : (todo.map Prod.fst).Nodup)
    (hq : ∀ x ∈ todo, Q x.1)
    (hx : ∀ x ∈ todo, ∀ e ∈ x.2, e.isExpired d.site.clock = false) :
    (d.walk job todo).2 = .finished ∧ Worked job todo d (d.walk job todo).1 := by
  induction todo generalizing d with
  | nil => exact ⟨rfl, .nil job d⟩
  | cons x rest ih =>
    obtain ⟨p, es⟩ := x
    rw [List.map_cons, List.nodup_cons] at hn
    have hqrest : ∀ x ∈ rest, Q x.1 := fun x hx => hq x (List.mem_cons_of_mem _ hx)
    have hxrest : ∀ {f : Demander}, Near d f →
        ∀ x ∈ rest, ∀ e ∈ x.2, e.isExpired f.site.clock = false := by
      intro f hf x hx' e he
      rw [hf.site.clock]
      exact hx x (List.mem_cons_of_mem _ hx') e he
    rw [walk_cons]
    by_cases hskip : d.owns p job.demand.topology = false ∨ d.site.store.base.state p ≠ .moving
    · have hfills : d.fills job p = false := (fills_eq_false_iff d job p).mpr hskip
      have hbeside : Beside d (d.changeRound job.round (.drain job.sender p)) :=
        beside_changeRound d job.round _
      have hcalm : (d.changeRound job.round (.drain job.sender p)).Calm Q :=
        h.of_store hbeside.filter hbeside.store
      rw [if_pos hskip]
      obtain ⟨hfin, hworked⟩ := ih hcalm (by rw [hbeside.rounds]; exact hb) hn.2 hqrest
        (hxrest hbeside.near)
      exact ⟨hfin, hworked.skip hfills hb hn.1⟩
    · have hfills : d.fills job p = true := by
        rw [← Bool.not_eq_false, fills_eq_false_iff]
        exact hskip
      have hmoving := ((fills_iff d job p).mp hfills).2
      have hp : Q p := hq (p, es) List.mem_cons_self
      obtain ⟨hreserve, hlock⟩ := h.lockable hp hmoving
      obtain ⟨hok, hloaded⟩ := load_calm h hb hp hmoving (hx (p, es) List.mem_cons_self)
      rw [if_neg hskip, if_neg (by rw [hreserve]; decide), if_neg (by rw [hlock]; decide), goOn, hok]
      obtain ⟨hfin, hworked⟩ := ih (hloaded.calm h) (by rw [hloaded.near.rounds]; exact hb) hn.2
        hqrest (hxrest hloaded.near)
      exact ⟨hfin, hworked.loaded hfills hloaded hn.1⟩

end Demander
end Rebalance
