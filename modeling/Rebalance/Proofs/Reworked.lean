/-
  Rebalance.Proofs.Reworked

  Working through the same page again.  What the first work on a page did to a
  partition decides what the second finds there: a partition that was owned, or
  was not to be filled, is off the round already, one that was filled in part
  is filled again to no effect, and one that failed fails again.  `walk_again`
  puts these together: from any later moment the same page moves nothing but
  meters and gets as far as it did.
-/
import Rebalance.Proofs.Repeated
import Rebalance.Proofs.Isolation

namespace Rebalance

-- ============================================================================
-- Rounds that only go on
-- ============================================================================

namespace Round

variable {κ : Type} {r t u : Round κ} {n m : NodeId} {p q : PartitionId}

/-- A partition that was taken off the round is not awaited. -/
theorem not_mem_outstandingFrom_drain (hs : r.Sound) (n : NodeId) (p : PartitionId) :
    p ∉ (r.after (.drain n p)).outstandingFrom n :=
  fun h => ((mem_outstandingFrom_drain r n n p p hs).mp h).2 ⟨rfl, rfl⟩

theorem noted_miss (r : Round κ) (n : NodeId) (p : PartitionId) :
    (r.after (.miss n p)).Noted n p := by
  cases hc : r.closed with
  | true =>
    rw [(after_of_closed r n p hc).2.1]
    exact .inl hc
  | false =>
    rw [after_miss r n p hc]
    refine .inr ⟨((r.missing.get? n).getD ∅).insert p, ?_, SortedSet.mem_insert.mpr (.inl rfl)⟩
    exact SortedMap.get?_alter.trans (if_pos rfl)

/-- Settling notes nothing away: it leaves the round alone or ends it. -/
theorem Noted.wrapUp (h : r.Noted n p) : r.wrapUp.Noted n p := by
  by_cases hopen : (r.closed || !r.attached || !r.outstanding.isEmpty) = true
  · have hsame : r.wrapUp = r := by
      rw [Round.wrapUp, settle, if_pos hopen]
      rfl
    rw [hsame]
    exact h
  · refine .inl ?_
    rw [Round.wrapUp, settle, if_neg hopen]
    change (announce _ _).1.closed = true
    unfold announce
    split <;> rfl

/-- A round that went on: nothing new is awaited from a node, and no miss of it was forgotten. -/
structure Recedes (n : NodeId) (r t : Round κ) : Prop where
  standing : t.Standing
  attached : t.attached = true
  closed : r.closed = true → t.closed = true
  awaits : ∀ q, q ∈ t.outstandingFrom n → q ∈ r.outstandingFrom n
  notes : ∀ q, r.Noted n q → t.Noted n q

namespace Recedes

theorem refl (hs : r.Standing) (ha : r.attached = true) : Recedes n r r :=
  ⟨hs, ha, id, fun _ => id, fun _ => id⟩

theorem trans (h₁ : Recedes n r t) (h₂ : Recedes n t u) : Recedes n r u where
  standing := h₂.standing
  attached := h₂.attached
  closed h := h₂.closed (h₁.closed h)
  awaits q hq := h₁.awaits q (h₂.awaits q hq)
  notes q hq := h₂.notes q (h₁.notes q hq)

end Recedes

theorem recedes_drain (hs : r.Standing) (ha : r.attached = true) (m : NodeId) (p : PartitionId) :
    Recedes n r (r.after (.drain m p)) where
  standing := standing_drain hs m p
  attached := (attached_drain hs m p).trans ha
  closed hc := by rw [(after_of_closed r m p hc).1]; exact hc
  awaits q hq := ((mem_outstandingFrom_drain r m n p q hs.toSound).mp hq).1
  notes q hq := by
    cases hc : r.closed with
    | true =>
      rw [(after_of_closed r m p hc).1]
      exact .inl hc
    | false =>
      rw [after_drain r m p hc]
      apply Noted.wrapUp
      unfold dropping
      split
      · exact hq
      · exact hq

theorem recedes_cancel (hs : r.Standing) (ha : r.attached = true) (m : NodeId) :
    Recedes n r (r.after (.cancel m)) where
  standing := standing_cancel hs m
  attached := (attached_cancel hs m).trans ha
  closed hc := by rw [(after_of_closed r m 0 hc).2.2]; exact hc
  awaits q hq := ((mem_outstandingFrom_cancel r m n q hs.toSound).mp hq).1
  notes q hq := by
    cases hc : r.closed with
    | true =>
      rw [(after_of_closed r m 0 hc).2.2]
      exact .inl hc
    | false =>
      rw [after_cancel r m hc]
      apply Noted.wrapUp
      unfold releasing
      split
      · exact hq
      · exact hq

theorem recedes_miss (hs : r.Standing) (ha : r.attached = true) (m : NodeId) (p : PartitionId) :
    Recedes n r (r.after (.miss m p)) where
  standing := standing_miss hs ha m p
  attached := (attached_miss r m p).trans ha
  closed hc := (answers_miss r m p).2.2.trans hc
  awaits q hq := by
    rw [outstandingFrom_congr (answers_miss r m p).1] at hq
    exact hq
  notes q hq := by
    cases hc : r.closed with
    | true => exact .inl ((answers_miss r m p).2.2.trans hc)
    | false =>
      rw [after_miss r m p hc]
      rcases hq with hq | ⟨ms, hget, hq⟩
      · exact .inl hq
      · refine .inr ?_
        simp only [SortedMap.get?_alter]
        by_cases hn : n = m
        · rw [if_pos hn, ← hn, hget]
          exact ⟨ms.insert p, rfl, SortedSet.mem_insert.mpr (.inr hq)⟩
        · rw [if_neg hn]
          exact ⟨ms, hget, hq⟩

end Round

namespace Demander

variable {d e f : Demander} {R : RoundId} {n : NodeId} {job : PageJob} {p : PartitionId}
  {es : List Entry} {todo rest : List (PartitionId × List Entry)}

-- ============================================================================
-- Later moments
-- ============================================================================

/-- A demander at a later moment, as far as a round awaits and misses partitions of a node. -/
structure Recedes (R : RoundId) (n : NodeId) (d e : Demander) : Prop where
  rounds : e.rounds.length = d.rounds.length
  round : Round.Recedes n (d.roundOf R).round (e.roundOf R).round

namespace Recedes

theorem refl (hs : (d.roundOf R).round.Standing) (hb : d.Bound R) : Recedes R n d d :=
  ⟨rfl, .refl hs hb.2⟩

theorem trans (h₁ : Recedes R n d e) (h₂ : Recedes R n e f) : Recedes R n d f :=
  ⟨h₂.rounds.trans h₁.rounds, h₁.round.trans h₂.round⟩

theorem bound (h : Recedes R n d e) (hb : d.Bound R) : e.Bound R := by
  refine ⟨?_, h.round.attached⟩
  rw [h.rounds]
  exact hb.1

/-- A change of the round by which nothing new is awaited and no miss is forgotten. -/
theorem changeRound {c : Round.Change} (hb : d.Bound R)
    (h : Round.Recedes n (d.roundOf R).round ((d.roundOf R).round.after c)) :
    Recedes R n d (d.changeRound R c) := by
  refine ⟨(beside_changeRound d R c).rounds, ?_⟩
  rw [round_changeRound d c hb.1 R, if_pos rfl]
  exact h

end Recedes

/-- A demander at a later moment, as far as the work on some partitions of a page goes: entries
    are decided about as before, locks and reservations are to be had as before, the same
    partitions belong here, and the round has only gone on. -/
structure Later (job : PageJob) (todo : List (PartitionId × List Entry)) (d e : Demander) :
    Prop where
  site : ∀ x ∈ todo, d.site.Later x.1 x.2 e.site
  lock : ∀ x ∈ todo, e.site.store.base.lock? x.1 = d.site.store.base.lock? x.1
  unreservable : e.site.store.unreservable = d.site.store.unreservable
  affinity : e.site.affinity = d.site.affinity
  round : Recedes job.round job.sender d e

namespace Later

theorem trans (h₁ : Later job todo d e) (h₂ : Later job todo e f) : Later job todo d f where
  site x hx := (h₁.site x hx).trans (h₂.site x hx)
  lock x hx := (h₂.lock x hx).trans (h₁.lock x hx)
  unreservable := h₂.unreservable.trans h₁.unreservable
  affinity := h₂.affinity.trans h₁.affinity
  round := h₁.round.trans h₂.round

theorem subset (h : Later job todo d e) (hr : rest ⊆ todo) : Later job rest d e :=
  ⟨fun x hx => h.site x (hr hx), fun x hx => h.lock x (hr hx), h.unreservable, h.affinity, h.round⟩

/-- The meters have no say in the work on a page. -/
theorem measured (h : Later job todo d e) (he : Measured e f) : Later job todo d f := by
  obtain ⟨board, rfl⟩ := he
  exact ⟨fun x hx => (h.site x hx).measured board, h.lock, h.unreservable, h.affinity,
    ⟨h.round.rounds, h.round.round⟩⟩

/-- Whatever leaves the store and the site alone. -/
theorem beside (h : Recedes job.round job.sender d e) (hs : d.site.Alike e.site)
    (hst : e.site.store = d.site.store) : Later job todo d e where
  site x _ := .of_alike hs (by rw [hst]; exact .refl _ _)
  lock x _ := by rw [hst]
  unreservable := by rw [hst]
  affinity := hs.affinity
  round := h

theorem owns (h : Later job todo d e) (q : PartitionId) (t : Topology) : e.owns q t = d.owns q t := by
  simp only [Demander.owns, h.affinity]

theorem state (h : Later job todo d e) {x : PartitionId × List Entry} (hx : x ∈ todo) :
    e.site.store.base.state x.1 = d.site.store.base.state x.1 := by
  rw [Store.state, (h.site x hx).fills.state]
  rfl

end Later

-- ============================================================================
-- What the rest of a page leaves alone
-- ============================================================================

/-- A load touches no other partition. -/
theorem only_load (d : Demander) (job : PageJob) (p : PartitionId) (es : List Entry) :
    Store.Only p d.site.store.base (d.load job p es).1.site.store.base := by
  have htaken : Store.Only p d.site.store.base (d.takenIn job p es).site.store.base :=
    Site.only_takeInAll job.sender d.site p es
  have hletGo : ∀ e : Demander, Store.Only p e.site.store.base (e.letGo p).site.store.base :=
    fun e => (Store.only_modify _ p _).trans (Store.only_modify _ p _)
  rw [load_cases]
  split
  · refine (htaken.trans ?_).trans (hletGo _)
    rw [ownLoaded, (beside_changeRound _ _ _).store, ownAndReport, Site.store_report]
    exact Store.only_own _ p
  · exact htaken.trans (hletGo _)

theorem only_pinned (d : Demander) (p : PartitionId) :
    Store.Only p d.site.store.base (d.pinned p).site.store.base := by
  change Store.Only p _ (d.site.store.reserve p).1.base
  unfold Tampered.reserve
  split
  · exact .refl p _
  · exact Store.only_reserve _ p

theorem only_held (d : Demander) (p : PartitionId) :
    Store.Only p d.site.store.base (d.held p).site.store.base :=
  (only_pinned d p).trans (Store.only_tryLock _ p)

/-- The work on a page touches no partition that it does not mention. -/
theorem Walks.get? (h : Walks job d todo e w) (hp : p ∉ todo.map Prod.fst) :
    e.site.store.base.get? p = d.site.store.base.get? p := by
  have hload : ∀ (d : Demander) (q : PartitionId) (es : List Entry), p ≠ q →
      ((d.held q).load job q es).1.site.store.base.get? p = d.site.store.base.get? p :=
    fun d q es => ((only_held d q).trans (only_load (d.held q) job q es)).others p
  induction h with
  | finished => rfl
  | passed _ _ ih =>
    rw [List.map_cons, List.mem_cons, not_or] at hp
    rw [ih hp.2, (beside_changeRound _ _ _).store]
  | unreservable => rfl
  | @blocked d q =>
    rw [List.map_cons, List.mem_cons, not_or] at hp
    exact (only_pinned d q).others p hp.1
  | failed =>
    rw [List.map_cons, List.mem_cons, not_or] at hp
    exact hload _ _ _ hp.1
  | loaded _ _ _ _ _ _ ih =>
    rw [List.map_cons, List.mem_cons, not_or] at hp
    exact (ih hp.2).trans (hload _ _ _ hp.1)

theorem get?_walk (hp : p ∉ todo.map Prod.fst) :
    (d.walk job todo).1.site.store.base.get? p = d.site.store.base.get? p :=
  (walks d job todo).get? hp

/-- The work on a page touches rounds, and what is stored, measured, recorded and noticed. -/
theorem Walks.near (h : Walks job d todo e w) : Near d e := by
  have hload : ∀ (d : Demander) (q : PartitionId) (es : List Entry),
      Near d ((d.held q).load job q es).1 :=
    fun d q es => (near_held d q).trans (near_load (d.held q) job q es)
  induction h with
  | finished => exact .refl _
  | passed _ _ ih => exact (beside_changeRound _ _ _).near.trans ih
  | unreservable => exact .refl _
  | blocked => exact near_pinned _ _
  | failed => exact hload _ _ _
  | loaded _ _ _ _ _ _ ih => exact (hload _ _ _).trans ih

theorem near_walk (d : Demander) (job : PageJob) (todo : List (PartitionId × List Entry)) :
    Near d (d.walk job todo).1 := (walks d job todo).near

theorem recedes_load (hs : (d.roundOf job.round).round.Standing) (hb : d.Bound job.round) :
    Recedes job.round n d ((d.held p).load job p es).1 := by
  refine ⟨(near_load (d.held p) job p es).rounds, ?_⟩
  rw [round_load (d.held p) job p es hb.1 job.round]
  split
  · exact Round.recedes_drain hs hb.2 job.sender p
  · exact .refl hs hb.2

theorem Walks.recedes (h : Walks job d todo e w) (hs : (d.roundOf job.round).round.Standing)
    (hb : d.Bound job.round) : Recedes job.round n d e := by
  induction h with
  | finished => exact .refl hs hb
  | @passed d _ p _ _ _ _ _ ih =>
    have h := Recedes.changeRound (n := n) hb (Round.recedes_drain hs hb.2 job.sender p)
    exact h.trans (ih h.round.standing (h.bound hb))
  | unreservable => exact .refl hs hb
  | blocked => exact ⟨rfl, .refl hs hb.2⟩
  | failed => exact recedes_load hs hb
  | @loaded d _ p es _ _ _ _ _ _ _ _ ih =>
    have h : Recedes job.round n d ((d.held p).load job p es).1 := recedes_load hs hb
    exact h.trans (ih h.round.standing (h.bound hb))

theorem recedes_walk (hs : (d.roundOf job.round).round.Standing) (hb : d.Bound job.round) :
    Recedes job.round n d (d.walk job todo).1 := (walks d job todo).recedes hs hb

/-- To a partition that it does not mention, the work on a page is a later moment. -/
theorem later_walk (hs : (d.roundOf job.round).round.Standing) (hb : d.Bound job.round)
    (hp : p ∉ todo.map Prod.fst) : Later job [(p, es)] d (d.walk job todo).1 := by
  have hnear := near_walk d job todo
  have hget : (d.walk job todo).1.site.store.base.get? p = d.site.store.base.get? p := get?_walk hp
  refine ⟨?_, ?_, hnear.site.unreservable, hnear.site.affinity, recedes_walk hs hb⟩
  · intro x hx
    rw [List.mem_singleton.mp hx]
    exact .of_alike hnear.site (.of_get? hnear.grows hget)
  · intro x hx
    rw [List.mem_singleton.mp hx]
    exact congrArg (Option.map Partition.locked) hget

-- ============================================================================
-- A partition that is loaded again
-- ============================================================================

/-- A partition that is being filled can be reserved unless the store refuses it. -/
theorem reserve_snd (s : Tampered) (hm : s.base.state? p = some .moving) :
    (s.reserve p).2 = decide (p ∉ s.unreservable) := by
  unfold Tampered.reserve
  by_cases hp : p ∈ s.unreservable
  · rw [if_pos hp]
    simpa using hp
  · rw [if_neg hp]
    simpa [hp] using Store.reserve_moving s.base p hm

theorem base_held (hp : p ∉ d.site.store.unreservable) :
    (d.held p).site.store.base = ((d.site.store.base.reserve p).1.tryLock p).1 := by
  change ((d.site.store.reserve p).1.base.tryLock p).1 = _
  rw [Tampered.reserve, if_neg hp]

theorem later_held (hp : p ∉ d.site.store.unreservable) :
    d.site.Later p es (d.held p).site := by
  refine .of_alike (near_held d p).site ?_
  rw [base_held hp]
  exact (Store.Fills.reserve _ p p).trans (.tryLock _ p p)

/-- Giving both back leaves the demander as it was. -/
theorem letGo_held (hp : p ∉ d.site.store.unreservable)
    (hm : d.site.store.base.state? p = some .moving)
    (hl : d.site.store.base.lock? p ≠ some true) : (d.held p).letGo p = d := by
  have hstore : ((d.held p).letGo p).site.store.base = d.site.store.base := by
    change (((d.held p).site.store.base).unlock p).release p = _
    rw [base_held hp]
    exact Store.release_unlock_tryLock_reserve _ p hm hl
  have hsame : ((d.held p).letGo p) = { d with site := { d.site with store :=
      { d.site.store with base := ((d.held p).letGo p).site.store.base } } } := by
    unfold held pinned Tampered.reserve
    rw [if_neg hp]
    rfl
  rw [hsame, hstore]

/-- A load that does not complete its partition. -/
theorem load_of_incomplete (hlast : (d.load job p es).2 = .ok () → p ∉ job.page.last) :
    (d.load job p es).1 = (d.takenIn job p es).letGo p := by
  have hc : d.completes job p es ≠ true := by
    unfold completes
    cases hw : (d.load job p es).2 with
    | error cause => simp [Except.isOk, Except.toBool]
    | ok u => simp [hlast hw]
  rw [load_cases, if_neg hc]

theorem later_letGo (d : Demander) (p : PartitionId) : d.site.Later p es (d.letGo p).site :=
  .of_alike (near_letGo d p).site ((Store.Fills.unlock _ p p).trans (.release _ p p))

theorem lock?_letGo (d : Demander) (p : PartitionId) :
    (d.letGo p).site.store.base.lock? p ≠ some true := by
  change ((d.site.store.base.unlock p).release p).lock? p ≠ some true
  rw [Store.lock?_release, Store.lock?_unlock, if_pos rfl]
  cases d.site.store.base.lock? p <;> simp

/-- A partition that a page can load: it belongs here, is being filled, and can be reserved and
    locked. -/
structure Loadable (d : Demander) (job : PageJob) (p : PartitionId) : Prop where
  owned : d.owns p job.demand.topology = true
  moving : d.site.store.base.state? p = some .moving
  reservable : p ∉ d.site.store.unreservable
  free : d.site.store.base.lock? p ≠ some true

/-- A partition was loaded in part, or as far as an entry that failed: it can be loaded still, and
    the same entries again come to the same and move nothing but meters. -/
theorem load_again {w : Except Fault Unit} (hd : d.Loadable job p)
    (hi : d.site.store.invalidating = ∅) (h : ((d.held p).load job p es).2 = w)
    (hlast : w = .ok () → p ∉ job.page.last)
    (hl : Later job [(p, es)] ((d.held p).load job p es).1 f) :
    f.Loadable job p ∧ Measured f ((f.held p).load job p es).1 ∧
      ((f.held p).load job p es).2 = w := by
  have hmem : (p, es) ∈ [(p, es)] := List.mem_singleton.mpr rfl
  have hload : ((d.held p).load job p es).1 = ((d.held p).takenIn job p es).letGo p :=
    load_of_incomplete fun hok => hlast (h.symm.trans hok)
  have hnear : Near d ((d.held p).load job p es).1 :=
    (near_held d p).trans (near_load (d.held p) job p es)
  have htake : (d.held p).site.takeInAll job.sender p es =
      (((d.held p).takenIn job p es).site, w) := Prod.ext rfl h
  have hheld : d.site.Later p es (d.held p).site := later_held hd.reservable
  have hih := hheld.invalidating.trans hi
  have hmh := hheld.fills.state.trans hd.moving
  -- From the end of the first intake to the moment of the second.
  have hlater : ((d.held p).takenIn job p es).site.Later p es f.site := by
    have hf := hl.site _ hmem
    rw [hload] at hf
    exact (later_letGo _ p).trans hf
  have hf : f.Loadable job p := by
    refine ⟨?_, ?_, ?_, ?_⟩
    · rw [hl.owns, hnear.owns]
      exact hd.owned
    · have htaken : (d.held p).site.Later p es ((d.held p).takenIn job p es).site :=
        Site.later_takeInAll job.sender hih hmh htake
      rw [hlater.fills.state]
      exact htaken.fills.state.trans hmh
    · rw [hl.unreservable, hnear.site.unreservable]
      exact hd.reservable
    · rw [hl.lock _ hmem, hload]
      exact lock?_letGo _ p
  obtain ⟨board, hagain⟩ := Site.takeInAll_again job.sender hih hmh htake
    (hlater.trans (later_held hf.reservable))
  have hw : ((f.held p).load job p es).2 = w := congrArg Prod.snd hagain
  refine ⟨hf, ⟨board, ?_⟩, hw⟩
  rw [load_of_incomplete fun hok => hlast (hw.symm.trans hok)]
  have htaken : (f.held p).takenIn job p es =
      held { f with site := { f.site with board } } p := by
    have hsite := congrArg Prod.fst hagain
    unfold takenIn
    rw [hsite]
    rfl
  rw [htaken]
  exact letGo_held hf.reservable hf.moving hf.free

-- ============================================================================
-- The work on a page, partition by partition
-- ============================================================================

/-- A partition that is not to be filled, and is off the round already, is passed over. -/
theorem walk_of_drained (hs : (d.roundOf job.round).round.Standing) (hb : d.Bound job.round)
    (hskip : d.owns p job.demand.topology = false ∨ d.site.store.base.state p ≠ .moving)
    (hp : p ∉ (d.roundOf job.round).round.outstandingFrom job.sender) :
    d.walk job ((p, es) :: rest) = d.walk job rest := by
  rw [walk_cons, if_pos hskip,
    changeRound_of_same hb.1 (Round.change_drain_of_not_outstanding hs hp)]

/-- A partition that the store refuses to reserve ends the work. -/
theorem walk_of_unreservable (ho : d.owns p job.demand.topology = true)
    (hm : d.site.store.base.state? p = some .moving) (hp : p ∈ d.site.store.unreservable) :
    d.walk job ((p, es) :: rest) = (d, .failed (.invariant (.unreservable p))) := by
  have hreserve : (d.site.store.reserve p).2 = false := by
    rw [reserve_snd _ hm]
    simpa using hp
  exact (Walks.unreservable ho hm hreserve).eq

/-- A partition that can be loaded can be reserved and locked. -/
theorem Loadable.lockable (hd : d.Loadable job p) :
    (d.site.store.reserve p).2 = true ∧ ((d.pinned p).site.store.base.tryLock p).2 = true := by
  constructor
  · rw [reserve_snd _ hd.moving]
    exact decide_eq_true hd.reservable
  · change ((d.site.store.reserve p).1.base.tryLock p).2 = true
    rw [Tampered.reserve, if_neg hd.reservable]
    exact Store.tryLock_free _ p (by rw [Store.lock?_reserve]; exact hd.free)

theorem walk_of_loaded (hd : d.Loadable job p) (hok : ((d.held p).load job p es).2 = .ok ()) :
    d.walk job ((p, es) :: rest) = ((d.held p).load job p es).1.walk job rest :=
  (Walks.loaded hd.owned hd.moving hd.lockable.1 hd.lockable.2 hok (walks _ job rest)).eq

theorem walk_of_failed (hd : d.Loadable job p) {cause : Fault}
    (herr : ((d.held p).load job p es).2 = .error cause) :
    d.walk job ((p, es) :: rest) = (((d.held p).load job p es).1, .failed cause) :=
  (Walks.failed hd.owned hd.moving hd.lockable.1 hd.lockable.2 herr).eq

-- ============================================================================
-- A page that is worked through again
-- ============================================================================

/-- From any later moment the same partitions move nothing but meters, and the work on them gets
    as far as it did. -/
def Repeats (job : PageJob) (todo : List (PartitionId × List Entry)) (d : Demander) : Prop :=
  ∀ f, Later job todo (d.walk job todo).1 f →
    Measured f (f.walk job todo).1 ∧ (f.walk job todo).2 = (d.walk job todo).2

/-- The first partition is done with and off the round, and the others repeat. -/
theorem repeats_of_done {d' : Demander} (hs : (d'.roundOf job.round).round.Standing)
    (hb : d'.Bound job.round) (hstep : d.walk job ((p, es) :: rest) = d'.walk job rest)
    (hskip : d'.owns p job.demand.topology = false ∨ d'.site.store.base.state p ≠ .moving)
    (hdrained : p ∉ (d'.roundOf job.round).round.outstandingFrom job.sender)
    (hn : p ∉ rest.map Prod.fst) (h : Repeats job rest d') : Repeats job ((p, es) :: rest) d := by
  intro f hl
  rw [hstep] at hl ⊢
  have hmem : (p, es) ∈ [(p, es)] := List.mem_singleton.mpr rfl
  have hlater : Later job [(p, es)] d' f :=
    (later_walk hs hb hn).trans (hl.subset (by simp))
  rw [walk_of_drained hlater.round.round.standing (hlater.round.bound hb)]
  · exact h f (hl.subset (List.subset_cons_self _ _))
  · rw [hlater.owns, hlater.state hmem]
    exact hskip
  · exact fun hp => hdrained (hlater.round.round.awaits p hp)

section Repeats

variable (hs : (d.roundOf job.round).round.Standing) (hb : d.Bound job.round)

include hs hb

/-- A partition that is not to be filled. -/
theorem repeats_of_skipped (hn : p ∉ rest.map Prod.fst)
    (hskip : d.owns p job.demand.topology = false ∨ d.site.store.base.state p ≠ .moving)
    (h : Repeats job rest (d.changeRound job.round (.drain job.sender p))) :
    Repeats job ((p, es) :: rest) d := by
  have hbeside := beside_changeRound d job.round (.drain job.sender p)
  have hround : Recedes job.round job.sender d (d.changeRound job.round (.drain job.sender p)) :=
    .changeRound hb (Round.recedes_drain hs hb.2 job.sender p)
  refine repeats_of_done hround.round.standing (hround.bound hb) ?_ ?_ ?_ hn h
  · rw [walk_cons, if_pos hskip]
  · rw [hbeside.owns, hbeside.store]
    exact hskip
  · rw [round_changeRound d _ hb.1, if_pos rfl]
    exact Round.not_mem_outstandingFrom_drain hs.toSound job.sender p

/-- A partition that is filled to its end. -/
theorem repeats_of_completed (hn : p ∉ rest.map Prod.fst) (hd : d.Loadable job p)
    (hok : ((d.held p).load job p es).2 = .ok ()) (hlast : p ∈ job.page.last)
    (h : Repeats job rest ((d.held p).load job p es).1) : Repeats job ((p, es) :: rest) d := by
  have hround : Recedes job.round job.sender d ((d.held p).load job p es).1 := recedes_load hs hb
  have hcompletes : (d.held p).completes job p es = true := by
    rw [completes, hok]
    simpa [Except.isOk, Except.toBool] using hlast
  refine repeats_of_done hround.round.standing (hround.bound hb) (walk_of_loaded hd hok) (.inr ?_)
    ?_ hn h
  · exact state_load _ job p es hcompletes
  · rw [round_load (d.held p) job p es hb.1, if_pos ⟨rfl, hcompletes⟩]
    exact Round.not_mem_outstandingFrom_drain hs.toSound job.sender p

/-- A partition that is filled in part. -/
theorem repeats_of_partial (hn : p ∉ rest.map Prod.fst) (hd : d.Loadable job p)
    (hi : d.site.store.invalidating = ∅) (hok : ((d.held p).load job p es).2 = .ok ())
    (hlast : p ∉ job.page.last) (h : Repeats job rest ((d.held p).load job p es).1) :
    Repeats job ((p, es) :: rest) d := by
  intro f hl
  rw [walk_of_loaded hd hok] at hl ⊢
  have hround : Recedes job.round job.sender d ((d.held p).load job p es).1 := recedes_load hs hb
  have hlater : Later job [(p, es)] ((d.held p).load job p es).1 f :=
    (later_walk hround.round.standing (hround.bound hb) hn).trans (hl.subset (by simp))
  obtain ⟨hf, hsame, hokf⟩ := load_again hd hi hok (fun _ => hlast) hlater
  rw [walk_of_loaded hf hokf]
  obtain ⟨hrest, hw⟩ := h _ ((hl.subset (List.subset_cons_self _ _)).measured hsame)
  exact ⟨hsame.trans hrest, hw⟩

omit hs hb in
/-- A partition with an entry that fails. -/
theorem repeats_of_failed (hd : d.Loadable job p) (hi : d.site.store.invalidating = ∅)
    {cause : Fault} (herr : ((d.held p).load job p es).2 = .error cause) :
    Repeats job ((p, es) :: rest) d := by
  intro f hl
  rw [walk_of_failed hd herr] at hl ⊢
  obtain ⟨hf, hsame, herrf⟩ := load_again hd hi herr (by rintro ⟨⟩) (hl.subset (by simp))
  rw [walk_of_failed hf herrf]
  exact ⟨hsame, rfl⟩

omit hs hb in
/-- A partition that cannot be reserved. -/
theorem repeats_of_unreservable (ho : d.owns p job.demand.topology = true)
    (hm : d.site.store.base.state? p = some .moving) (hp : p ∈ d.site.store.unreservable) :
    Repeats job ((p, es) :: rest) d := by
  intro f hl
  rw [walk_of_unreservable ho hm hp] at hl ⊢
  rw [walk_of_unreservable]
  · exact ⟨.refl f, rfl⟩
  · rw [hl.owns]
    exact ho
  · exact (hl.site _ List.mem_cons_self).fills.state.trans hm
  · rw [hl.unreservable]
    exact hp

omit hs hb in
/-- What happens to one partition takes no lock of another. -/
theorem free_of_only (ho : Store.Only p d.site.store.base e.site.store.base)
    (hn : p ∉ rest.map Prod.fst)
    (hfree : ∀ x ∈ (p, es) :: rest, d.site.store.base.lock? x.1 ≠ some true) :
    ∀ x ∈ rest, e.site.store.base.lock? x.1 ≠ some true := by
  intro x hx
  have hne : x.1 ≠ p := by
    rintro rfl
    exact hn (List.mem_map.mpr ⟨x, hx, rfl⟩)
  rw [ho.lock? hne]
  exact hfree x (List.mem_cons_of_mem _ hx)

omit hs hb in
/-- Where all locks are free, the work on a page does not stop at one. -/
theorem walk_ne_blocked (hn : (todo.map Prod.fst).Nodup)
    (hfree : ∀ x ∈ todo, d.site.store.base.lock? x.1 ≠ some true) (q : PartitionId)
    (entries : List Entry) (ahead : List (PartitionId × List Entry)) :
    (d.walk job todo).2 ≠ .blocked q entries ahead := by
  induction todo generalizing d with
  | nil => simp [walk]
  | cons x rest ih =>
    obtain ⟨p, es⟩ := x
    rw [List.map_cons, List.nodup_cons] at hn
    by_cases hskip : d.owns p job.demand.topology = false ∨ d.site.store.base.state p ≠ .moving
    · have hbeside := beside_changeRound d job.round (.drain job.sender p)
      rw [walk_cons, if_pos hskip]
      exact ih hn.2 (free_of_only (by rw [hbeside.store]; exact .refl p _) hn.1 hfree)
    · simp only [not_or, Bool.not_eq_false, ne_eq, not_not, Store.state_eq_moving_iff] at hskip
      by_cases hp : p ∈ d.site.store.unreservable
      · rw [walk_of_unreservable hskip.1 hskip.2 hp]
        simp
      · have hd : d.Loadable job p := ⟨hskip.1, hskip.2, hp, hfree _ List.mem_cons_self⟩
        cases hw : ((d.held p).load job p es).2 with
        | error cause =>
          rw [walk_of_failed hd hw]
          simp
        | ok u =>
          rw [walk_of_loaded hd hw]
          exact ih hn.2
            (free_of_only ((only_held d p).trans (only_load (d.held p) job p es)) hn.1 hfree)

/-- The same page again, from any later moment, moves nothing but meters and gets as far as it
    did. -/
theorem walk_again (hi : d.site.store.invalidating = ∅) (hn : (todo.map Prod.fst).Nodup)
    (hfree : ∀ x ∈ todo, d.site.store.base.lock? x.1 ≠ some true) : Repeats job todo d := by
  induction todo generalizing d with
  | nil => exact fun f _ => ⟨.refl f, rfl⟩
  | cons x rest ih =>
    obtain ⟨p, es⟩ := x
    rw [List.map_cons, List.nodup_cons] at hn
    by_cases hskip : d.owns p job.demand.topology = false ∨ d.site.store.base.state p ≠ .moving
    · have hbeside := beside_changeRound d job.round (.drain job.sender p)
      have hround : Recedes job.round job.sender d
          (d.changeRound job.round (.drain job.sender p)) :=
        .changeRound hb (Round.recedes_drain hs hb.2 job.sender p)
      refine repeats_of_skipped hs hb hn.1 hskip
        (ih hround.round.standing (hround.bound hb) (by rw [hbeside.store]; exact hi) hn.2 ?_)
      exact free_of_only (by rw [hbeside.store]; exact .refl p _) hn.1 hfree
    · simp only [not_or, Bool.not_eq_false, ne_eq, not_not, Store.state_eq_moving_iff] at hskip
      by_cases hp : p ∈ d.site.store.unreservable
      · exact repeats_of_unreservable hskip.1 hskip.2 hp
      · have hd : d.Loadable job p := ⟨hskip.1, hskip.2, hp, hfree _ List.mem_cons_self⟩
        cases hw : ((d.held p).load job p es).2 with
        | error cause => exact repeats_of_failed hd hi hw
        | ok u =>
          have hround : Recedes job.round job.sender d ((d.held p).load job p es).1 :=
            recedes_load hs hb
          have hnear : Near d ((d.held p).load job p es).1 :=
            (near_held d p).trans (near_load (d.held p) job p es)
          have hrest : Repeats job rest ((d.held p).load job p es).1 :=
            ih hround.round.standing (hround.bound hb) (hnear.site.invalidating.trans hi) hn.2
              (free_of_only ((only_held d p).trans (only_load (d.held p) job p es)) hn.1 hfree)
          by_cases hlast : p ∈ job.page.last
          · exact repeats_of_completed hs hb hn.1 hd hw hlast hrest
          · exact repeats_of_partial hs hb hn.1 hd hi hw hlast hrest

end Repeats

end Demander
end Rebalance
