/-
  Rebalance.Proofs.Isolation

  Pages from nodes that the current round awaits no more.  `OnlyMeasures` says
  that such a page changed nothing but meters; `late_page_isolated_iff` gives
  the exact condition for that, which is not met whenever the plan still
  demands something from the sender and the round is open or there is
  something to load: a demander looks its sender up in the plan, and not in
  the round.
-/
import Rebalance.Proofs.Step

namespace Rebalance

-- ============================================================================
-- Changes that change nothing
-- ============================================================================

namespace Round

variable {κ : Type} {r : Round κ} {n : NodeId} {p : PartitionId}

/-- A round that stands settles only by a change. -/
theorem settle_of_standing (hs : r.Standing) : r.settle = (r, none) := by
  unfold settle
  cases hc : r.closed with
  | true => simp
  | false =>
    cases ha : r.attached with
    | false => simp
    | true =>
      have ho : r.outstanding.isEmpty = false := by
        cases he : r.outstanding.isEmpty with
        | false => rfl
        | true =>
          have hclosed := hs.closes ha (SortedMap.isEmpty_iff.mp he)
          rw [hc] at hclosed
          cases hclosed
      simp [ho]

theorem dropping_of_not_outstanding (hs : r.Standing) (hp : p ∉ r.outstandingFrom n) :
    r.dropping n p = r := by
  unfold dropping
  cases hget : r.outstanding.get? n with
  | none => rfl
  | some ps =>
    have hgone : p ∉ ps := fun h => hp (mem_outstandingFrom_iff.mpr ⟨ps, hget, h⟩)
    have hsame : ps.erase p = ps := by
      apply SortedSet.ext
      intro q
      rw [SortedSet.mem_erase]
      exact and_iff_left_of_imp fun hq heq => hgone (heq ▸ hq)
    have hne : ps.isEmpty ≠ true := fun h => hs.awaits n ps hget (SortedSet.isEmpty_iff.mp h)
    have hput : r.outstanding.insert n ps = r.outstanding := by
      apply SortedMap.ext
      intro k
      rw [SortedMap.get?_insert]
      by_cases hk : k = n
      · rw [if_pos hk, hk, hget]
      · rw [if_neg hk]
    simp only [hsame, if_neg hne, hput]

/-- A partition that is not awaited from a node cannot be taken off the round. -/
theorem change_drain_of_not_outstanding (hs : r.Standing) (hp : p ∉ r.outstandingFrom n) :
    r.change (.drain n p) = (r, none) := by
  cases hc : r.closed with
  | true => simp [change, drain, hc]
  | false =>
    change r.drain n p = _
    rw [drain_eq r n p hc, dropping_of_not_outstanding hs hp]
    exact settle_of_standing hs

/-- A node that is not awaited cannot be given up. -/
theorem change_cancel_of_not_awaited (hs : r.Standing) (hn : n ∉ r.outstandingNodes) :
    r.change (.cancel n) = (r, none) := by
  have hget : r.outstanding.get? n = none := by
    cases h : r.outstanding.get? n with
    | none => rfl
    | some ps => exact absurd (mem_outstandingNodes_iff.mpr ⟨ps, h⟩) hn
  change r.cancel n = _
  unfold cancel
  split
  · rfl
  · rw [if_neg (by simp [SortedMap.contains, hget])]
    exact settle_of_standing hs

theorem not_mem_outstandingFrom_of_not_awaited (hn : n ∉ r.outstandingNodes) (p : PartitionId) :
    p ∉ r.outstandingFrom n := by
  intro hp
  obtain ⟨ps, hget, -⟩ := mem_outstandingFrom_iff.mp hp
  exact hn (mem_outstandingNodes_iff.mpr ⟨ps, hget⟩)

/-- A miss need not be noted again: the round is over, or the partition is among those that the
    node is said to miss. -/
def Noted (r : Round κ) (n : NodeId) (p : PartitionId) : Prop :=
  r.closed = true ∨ ∃ ms, r.missing.get? n = some ms ∧ p ∈ ms

theorem change_miss_of_noted (h : r.Noted n p) : r.change (.miss n p) = (r, none) := by
  change (r.markMissed n p, none) = (r, none)
  unfold markMissed
  rcases h with hc | ⟨ms, hget, hp⟩
  · rw [if_pos hc]
  · have hsame : (r.missing.alter n fun old => (old.getD ∅).insert p) = r.missing := by
      apply SortedMap.ext
      intro k
      rw [SortedMap.get?_alter]
      by_cases hk : k = n
      · rw [if_pos hk, hk, hget, Option.getD_some, Option.some.injEq]
        apply SortedSet.ext
        intro q
        rw [SortedSet.mem_insert]
        exact or_iff_right_of_imp fun hq => hq ▸ hp
      · rw [if_neg hk]
    rw [hsame]
    split <;> rfl

end Round

namespace Demander

variable {d : Demander} {id : RoundId} {n : NodeId}

/-- A change that leaves its round as it is leaves the demander as it is. -/
theorem changeRound_of_same {c : Round.Change} (hl : id < d.rounds.length)
    (h : (d.roundOf id).round.change c = ((d.roundOf id).round, none)) : d.changeRound id c = d := by
  have hrec : d.rounds[id] = d.roundOf id := by
    simp [roundOf, List.getElem?_eq_getElem hl]
  have hset : d.rounds.set id (d.roundOf id) = d.rounds := by
    rw [← hrec]
    exact List.set_getElem_self hl
  rw [changeRound_eq, h]
  change d.withChange id c = d
  unfold withChange setRound
  rw [h]
  change ({ d with rounds := d.rounds.set id (d.roundOf id) } : Demander) = d
  rw [hset]

theorem drain_of_not_outstanding (hs : (d.roundOf id).round.Standing) (hl : id < d.rounds.length)
    {p : PartitionId} (hp : p ∉ (d.roundOf id).round.outstandingFrom n) :
    d.changeRound id (.drain n p) = d :=
  changeRound_of_same hl (Round.change_drain_of_not_outstanding hs hp)

theorem drainAll_of_not_outstanding (hs : (d.roundOf id).round.Standing)
    (hl : id < d.rounds.length) {ps : List PartitionId}
    (hp : ∀ p ∈ ps, p ∉ (d.roundOf id).round.outstandingFrom n) :
    ps.foldl (fun d p => d.changeRound id (.drain n p)) d = d := by
  induction ps with
  | nil => rfl
  | cons p ps ih =>
    rw [List.foldl_cons, drain_of_not_outstanding hs hl (hp p List.mem_cons_self)]
    exact ih fun q hq => hp q (List.mem_cons_of_mem p hq)

theorem drain_of_not_awaited (hs : d.Steady) (hl : id < d.rounds.length)
    (hn : n ∉ (d.roundOf id).round.outstandingNodes) (p : PartitionId) :
    d.changeRound id (.drain n p) = d :=
  drain_of_not_outstanding (hs.standing id) hl (Round.not_mem_outstandingFrom_of_not_awaited hn p)

theorem cancelNode_of_not_awaited (hs : (d.roundOf id).round.Standing) (hl : id < d.rounds.length)
    (hn : n ∉ (d.roundOf id).round.outstandingNodes) (reason : CancelReason) :
    d.cancelNode id n reason = d.measure (·.streamCancelled reason.label) := by
  unfold cancelNode
  rw [changeRound_of_same hl (Round.change_cancel_of_not_awaited hs hn)]

-- ============================================================================
-- Demanders that differ in their meters
-- ============================================================================

/-- Two demanders that differ at most in their meters. -/
def Measured (d e : Demander) : Prop := ∃ board, e = { d with site := { d.site with board } }

namespace Measured

theorem refl (d : Demander) : Measured d d := ⟨d.site.board, rfl⟩

theorem trans {d e f : Demander} (h₁ : Measured d e) (h₂ : Measured e f) : Measured d f := by
  obtain ⟨b, rfl⟩ := h₁
  obtain ⟨c, rfl⟩ := h₂
  exact ⟨c, rfl⟩

theorem measure (d : Demander) (f : Board → Board) : Measured d (d.measure f) :=
  ⟨f d.site.board, rfl⟩

theorem symm {d e : Demander} (h : Measured d e) : Measured e d := by
  obtain ⟨b, rfl⟩ := h
  exact ⟨d.site.board, rfl⟩

end Measured

/-- The demander after a call that returns without having done anything. -/
def returned (d : Demander) : Demander :=
  { d.spawn.1 with returns := d.returns ++ [(d.nextJob, .ok ())] }

/-- A call changed at most meters: it has returned, and nothing of it is left to do. -/
def OnlyMeasures (d : Demander) (i : Input) : Prop := Measured d.returned (d.step i)

theorem erase_nextJob (hs : d.Steady) : d.jobs.erase d.nextJob = d.jobs :=
  SortedMap.erase_of_none (job?_of_le hs (Nat.le_refl _))

theorem finish_nextJob (hs : d.Steady) : d.spawn.1.finish d.nextJob (.ok ()) = d.returned :=
  congrArg (fun jobs => ({ d.returned with jobs } : Demander)) (erase_nextJob hs)

/-- A call that returns has moved at most meters if it had before. -/
theorem finish_measured_iff (hs : d.Steady) {e : Demander} (hj : e.jobs = d.jobs)
    (hr : e.returns = d.returns) :
    Measured d.returned (e.finish d.nextJob (.ok ())) ↔ Measured d.spawn.1 e := by
  have hfinish : e.finish d.nextJob (.ok ()) =
      { e with returns := d.returns ++ [(d.nextJob, .ok ())] } := by
    unfold finish
    rw [hj, hr, erase_nextJob hs, ← hj]
  rw [hfinish]
  constructor
  · rintro ⟨b, hb⟩
    refine ⟨b, ?_⟩
    cases e
    cases hb
    cases hr
    rfl
  · rintro ⟨b, rfl⟩
    exact ⟨b, rfl⟩

-- ============================================================================
-- Working through a late page
-- ============================================================================

variable {job : PageJob}

/-- A load of a page whose sender the round does not await changes nothing but the site. -/
theorem load_of_not_awaited (hs : d.Steady) (hl : job.round < d.rounds.length)
    (hn : job.sender ∉ (d.roundOf job.round).round.outstandingNodes) (p : PartitionId)
    (entries : List Entry) : ∃ site, (d.load job p entries).1 = { d with site } := by
  rw [load_cases]
  by_cases hc : d.completes job p entries = true
  · rw [if_pos hc, ownLoaded]
    have hn' : Near d ((d.takenIn job p entries).ownAndReport job p) :=
      (near_takenIn d job p entries).trans (near_ownAndReport _ job p)
    have hst : ((d.takenIn job p entries).ownAndReport job p).Steady :=
      hs.along hn'.along (.of_same hs (fun _ => rfl) (Nat.le_of_eq hn'.rounds.symm))
    rw [drain_of_not_awaited hst hl hn p]
    exact ⟨_, rfl⟩
  · rw [if_neg hc]
    exact ⟨_, rfl⟩

theorem Steady.site {d : Demander} (hs : d.Steady) (site : Site) : ({ d with site } : Demander).Steady :=
  ⟨hs.standing, hs.current, hs.planned, hs.young, hs.bound, hs.todo, hs.ended⟩

/-- So does the work on a page as a whole. -/
theorem Walks.of_not_awaited {todo : List (PartitionId × List Entry)} {e : Demander} {w : Walked}
    (h : Walks job d todo e w) (hs : d.Steady) (hl : job.round < d.rounds.length)
    (hn : job.sender ∉ (d.roundOf job.round).round.outstandingNodes) :
    ∃ site, e = { d with site } := by
  induction h with
  | finished => exact ⟨_, rfl⟩
  | @passed d _ p _ _ _ _ _ ih =>
    rw [drain_of_not_awaited hs hl hn p] at ih
    exact ih hs hl hn
  | unreservable => exact ⟨_, rfl⟩
  | blocked => exact ⟨_, rfl⟩
  | @failed d p es =>
    exact load_of_not_awaited (d := d.held p) (hs.site _) hl hn p es
  | @loaded d _ p es _ _ _ _ _ _ _ _ ih =>
    obtain ⟨site, hload⟩ := load_of_not_awaited (d := d.held p) (hs.site _) hl hn p es
    rw [hload] at ih
    exact ih (hs.site site) hl hn

theorem walk_of_not_awaited (hs : d.Steady) (hl : job.round < d.rounds.length)
    (hn : job.sender ∉ (d.roundOf job.round).round.outstandingNodes)
    (todo : List (PartitionId × List Entry)) : ∃ site, (d.walk job todo).1 = { d with site } :=
  (walks d job todo).of_not_awaited hs hl hn

-- ============================================================================
-- The exact condition
-- ============================================================================

/-- A page that is worked through to no effect: its entries and its last partitions change
    nothing, no continuation is asked for since the round is over, and no lock has to be waited
    for; or it fails, and there is no failure to record. -/
def WorksInVain (d : Demander) (job : PageJob) : Prop :=
  let w := (d.spawn.1.measure Board.pageReceived).walk job job.page.entries.toList
  Measured d.spawn.1 w.1 ∧
    match w.2 with
    | .finished => d.currentRound.isDone = true
    | .blocked _ _ _ => False
    | .failed cause => cause.isBreach = true → d.fault.isSome = true

/-- Partitions that are noted as missed move at most meters if they are missed again. -/
theorem measured_missAll (hl : id < d.rounds.length) {t : Topology} {ps : List PartitionId}
    (h : ∀ p ∈ ps, d.owns p t = true → (d.roundOf id).round.Noted n p) :
    Measured d (ps.foldl (fun d p => d.missOwned id n t p) d) := by
  induction ps generalizing d with
  | nil => exact .refl d
  | cons p ps ih =>
    have hmiss : Measured d (d.missOwned id n t p) := by
      unfold missOwned
      split
      · next ho =>
        rw [changeRound_of_same hl (Round.change_miss_of_noted (h p List.mem_cons_self ho))]
        exact .measure d _
      · exact .refl d
    obtain ⟨board, hb⟩ := hmiss
    rw [List.foldl_cons, hb]
    exact Measured.trans ⟨board, rfl⟩
      (ih (d := { d with site := { d.site with board } }) hl
        fun q hq => h q (List.mem_cons_of_mem p hq))

/-- A round has taken in what a page says is missing. -/
def Absorbed (d : Demander) (job : PageJob) : Prop :=
  ∀ p ∈ job.page.missed.toList, p ∉ (d.roundOf job.round).round.outstandingFrom job.sender ∧
    (d.owns p job.demand.topology = true → (d.roundOf job.round).round.Noted job.sender p)

/-- What a page says is missing changes nothing once the round has taken it in. -/
theorem Absorbed.measured (h : d.Absorbed job) (hs : (d.roundOf job.round).round.Standing)
    (hl : job.round < d.rounds.length) : Measured d (d.settleMissed job) := by
  have hmiss := measured_missAll hl fun p hp => (h p hp).2
  unfold settleMissed
  simp only
  obtain ⟨board, hb⟩ := hmiss
  rw [hb]
  exact ⟨board, drainAll_of_not_outstanding (d := { d with site := { d.site with board } }) hs hl
    fun p hp => (h p hp).1⟩

/-- A round that is over takes nothing more in. -/
theorem absorbed_of_done (hs : d.Steady) (hd : (d.roundOf job.round).round.isDone = true)
    (hn : job.sender ∉ (d.roundOf job.round).round.outstandingNodes) : d.Absorbed job :=
  fun p _ => ⟨Round.not_mem_outstandingFrom_of_not_awaited hn p,
    fun _ => .inl ((hs.standing job.round).closed_iff.trans hd)⟩

/-- A late page does not end a round by what it says is missing. -/
theorem isDone_settleMissed (hs : d.Steady) (hb : d.Bound job.round)
    (hn : job.sender ∉ (d.roundOf job.round).round.outstandingNodes) :
    ((d.settleMissed job).roundOf job.round).round.isDone =
      (d.roundOf job.round).round.isDone := by
  have hnear := beside_missAll d job.round job.sender job.demand.topology job.page.missed.toList
  have hround := round_missAll d hb.1 job.round job.sender job.demand.topology
    job.page.missed.toList
  rw [if_pos rfl] at hround
  obtain ⟨hst, -, hc, hout, -, -⟩ := Round.missAll_answers (hs.standing job.round) hb.2 job.sender
    (job.page.missed.toList.filter fun p => d.owns p job.demand.topology)
  have hse := hs.along hnear.near.along (.of_round hs hnear.rounds
    (fun id' => round_missAll d hb.1 id' job.sender job.demand.topology _) hst fun _ => by
      exact (Round.missAll_answers (hs.standing job.round) hb.2 job.sender _).2.1)
  unfold settleMissed
  simp only
  rw [drainAll_of_not_outstanding (hse.standing job.round)]
  · rw [hround, ← hst.closed_iff, hc, (hs.standing job.round).closed_iff]
  · rw [hnear.rounds]
    exact hb.1
  · intro p _
    rw [hround, Round.outstandingFrom_congr hout]
    exact Round.not_mem_outstandingFrom_of_not_awaited hn p

/-- A failure of a late page gives nobody up; at most it is recorded. -/
theorem failPage_of_not_awaited (hs : (d.roundOf job.round).round.Standing)
    (hl : job.round < d.rounds.length)
    (hn : job.sender ∉ (d.roundOf job.round).round.outstandingNodes) (cause : Fault) :
    Measured (if cause.isBreach = true then { d with fault := some (d.fault.getD cause) } else d)
      (d.failPage job cause) := by
  unfold failPage
  rw [cancelNode_of_not_awaited hs hl hn, cancelNode_of_not_awaited hs hl hn]
  cases hb : cause.isBreach with
  | false =>
    simp only [Bool.false_eq_true, if_false]
    split
    · exact .measure d _
    · exact .measure d _
  | true =>
    have hl : cause.isNodeLeft = false := by
      cases cause with
      | invariant _ => rfl
      | _ => cases hb
    rw [if_pos rfl, hl]
    exact ⟨_, rfl⟩

/-- A job that is left has a number that no job had before. -/
theorem not_measured_park (hs : d.Steady) (e : Demander) (j : Job) :
    ¬ Measured d.returned (e.park d.nextJob j) := by
  rintro ⟨b, hf⟩
  have hj : d.jobs = e.jobs.insert d.nextJob j := (congrArg Demander.jobs hf).symm
  have hget : d.jobs.get? d.nextJob = some j := by
    rw [hj, SortedMap.get?_insert_self]
  cases (job?_of_le hs (Nat.le_refl _)).symm.trans hget

/-- A late page that was worked through to its end. -/
theorem endPage_of_not_awaited {e : Demander} (hs : d.Steady) (hse : e.Steady)
    (hbe : e.Bound job.round) (hjobs : e.jobs = d.jobs) (hreturns : e.returns = d.returns)
    (hn : job.sender ∉ (e.roundOf job.round).round.outstandingNodes) :
    Measured d.returned (e.endPage d.nextJob job) ↔
      Measured d.spawn.1 e ∧ (e.roundOf job.round).round.isDone = true := by
  rw [endPage_eq, isDone_settleMissed hse hbe hn]
  cases hdone : (e.roundOf job.round).round.isDone with
  | false =>
    simp only [Bool.false_eq_true, and_false, iff_false, if_false]
    exact not_measured_park hs _ _
  | true =>
    have hm := (absorbed_of_done hse hdone hn).measured (hse.standing job.round) hbe.1
    have hbs := beside_settleMissed e job
    simp only [and_true, if_true]
    refine (finish_measured_iff hs (hbs.jobs.trans hjobs) (hbs.returns.trans hreturns)).trans ?_
    exact ⟨fun h => h.trans hm.symm, fun h => h.trans hm⟩

/-- A late page that has failed. -/
theorem failedPage_of_not_awaited (hs : d.Steady) {site : Site}
    (hse : ({ d.spawn.1 with site } : Demander).Steady)
    (hbe : ({ d.spawn.1 with site } : Demander).Bound job.round)
    (hn : job.sender ∉
      (({ d.spawn.1 with site } : Demander).roundOf job.round).round.outstandingNodes)
    (cause : Fault) :
    Measured d.returned ((({ d.spawn.1 with site } : Demander).failPage job cause).finish d.nextJob
        (.ok ())) ↔
      Measured d.spawn.1 { d.spawn.1 with site } ∧
        (cause.isBreach = true → d.fault.isSome = true) := by
  have hm := failPage_of_not_awaited (hse.standing job.round) hbe.1 hn cause
  obtain ⟨hj, hret⟩ : (({ d.spawn.1 with site } : Demander).failPage job cause).jobs = d.jobs ∧
      (({ d.spawn.1 with site } : Demander).failPage job cause).returns = d.returns := by
    obtain ⟨b, hf⟩ := hm
    rw [hf]
    split <;> exact ⟨rfl, rfl⟩
  refine (finish_measured_iff hs hj hret).trans ?_
  cases hbreach : cause.isBreach with
  | false =>
    rw [if_neg (by simp [hbreach])] at hm
    simp only [Bool.false_eq_true, false_implies, and_true]
    exact ⟨fun h => h.trans hm.symm, fun h => h.trans hm⟩
  | true =>
    rw [if_pos hbreach] at hm
    simp only [true_implies]
    constructor
    · intro h
      obtain ⟨b, hf⟩ := h.trans hm.symm
      have hfault : some (d.fault.getD cause) = d.fault := congrArg Demander.fault hf
      refine ⟨⟨b, ?_⟩, (congrArg Option.isSome hfault).symm⟩
      have hsite : site = { d.site with board := b } := congrArg Demander.site hf
      rw [hsite]
      rfl
    · rintro ⟨⟨b, hf⟩, hsome⟩
      refine Measured.trans ⟨b, ?_⟩ hm
      have hsite : site = { d.site with board := b } := congrArg Demander.site hf
      obtain ⟨old, hold⟩ := Option.isSome_iff_exists.mp hsome
      have hfault : some (d.fault.getD cause) = d.fault := by rw [hold]; rfl
      change ({ d.spawn.1 with site, fault := some (d.fault.getD cause) } : Demander) = _
      rw [hfault, hsite]
      rfl

/-- What follows when a late page has been worked through. -/
theorem afterWalk_of_not_awaited (hs : d.Steady) (hb : d.Bound d.current) {e : Demander}
    (he : ∃ site, e = { d.spawn.1 with site }) (hr : job.round = d.current)
    (hn : job.sender ∉ d.currentRound.outstandingNodes) (w : Walked) :
    Measured d.returned (afterWalk d.nextJob job (e, w)) ↔
      Measured d.spawn.1 e ∧
        match w with
        | .finished => d.currentRound.isDone = true
        | .blocked _ _ _ => False
        | .failed cause => cause.isBreach = true → d.fault.isSome = true := by
  obtain ⟨site, rfl⟩ := he
  have hse : ({ d.spawn.1 with site } : Demander).Steady := hs.spawn.site site
  have hround : (({ d.spawn.1 with site } : Demander).roundOf job.round).round = d.currentRound := by
    rw [hr]
    rfl
  have hbe : ({ d.spawn.1 with site } : Demander).Bound job.round := by
    rw [hr]
    exact hb
  rw [← hround] at hn
  cases w with
  | blocked p entries rest =>
    simp only [and_false, iff_false]
    exact not_measured_park hs _ _
  | finished =>
    refine (endPage_of_not_awaited hs hse hbe rfl rfl hn).trans ?_
    rw [hround]
  | failed cause => exact failedPage_of_not_awaited hs hse hbe hn cause

/-- A page from a node that the current round does not await changes at most meters exactly if it
    is not accepted, or is worked through in vain. -/
theorem late_page_isolated_iff {d : Demander} (hd : d.Reachable) {n : NodeId}
    (hn : n ∉ d.currentRound.outstandingNodes) (worker : WorkerId) (page : Supply) :
    d.OnlyMeasures (.page worker n page) ↔
      ∀ job, d.accepted worker n page = some job → d.WorksInVain job := by
  have hs := hd.steady
  unfold OnlyMeasures
  change Measured d.returned (d.spawn.1.startPage d.nextJob worker n page) ↔ _
  rw [startPage_eq]
  have hacc : d.spawn.1.accepted worker n page = d.accepted worker n page := rfl
  rw [hacc]
  cases h : d.accepted worker n page with
  | some job =>
    obtain ⟨-, plan, demand, hp, -, -, -, hjob⟩ := accepted_round h
    have hr : job.round = d.current := by rw [hjob]
    have hsender : job.sender = n := by rw [hjob]
    have hpage : job.page = page := by rw [hjob]
    have hb : d.Bound d.current := ⟨hs.current, hs.planned (by rw [hp]; rfl)⟩
    rw [← hsender] at hn
    simp only [Option.some.injEq, forall_eq']
    rw [workPage_eq, ← hpage]
    have hw : ∃ site, ((d.spawn.1.measure Board.pageReceived).walk job
        job.page.entries.toList).1 = { d.spawn.1 with site } :=
      walk_of_not_awaited (d := d.spawn.1.measure Board.pageReceived) (hs.spawn.site _)
        (by rw [hr]; exact hs.current) (by rw [hr]; exact hn) job.page.entries.toList
    exact afterWalk_of_not_awaited hs hb hw hr hn _
  | none =>
    simp only [reduceCtorEq, false_implies, implies_true, iff_true]
    by_cases hstop : d.spawn.1.stopping = true
    · rw [if_pos hstop]
      exact (finish_measured_iff (e := d.spawn.1) hs rfl rfl).mpr (.refl _)
    · rw [if_neg hstop]
      have hmeasured := Measured.measure d.spawn.1 Board.pageReceived
      have hreceived : (d.spawn.1.measure Board.pageReceived).Steady := hs.spawn.site _
      cases d.spawn.1.plan.bind (·.get? n) with
      | none =>
        exact (finish_measured_iff (e := d.spawn.1.measure Board.pageReceived) hs rfl rfl).mpr
          hmeasured
      | some demand =>
        simp only
        generalize (if d.spawn.1.site.affinity.changedFrom demand.topology = true then
          CancelReason.topologyChanged else .classFault) = reason
        have hcancel : (d.spawn.1.measure Board.pageReceived).cancelNode d.current n reason =
            (d.spawn.1.measure Board.pageReceived).measure (·.streamCancelled reason.label) :=
          cancelNode_of_not_awaited (hreceived.standing d.current) hs.current hn reason
        rw [show d.spawn.1.current = d.current from rfl, hcancel]
        exact (finish_measured_iff (e := (d.spawn.1.measure Board.pageReceived).measure _) hs rfl
          rfl).mpr (hmeasured.trans (.measure _ _))

/-- A late page without anything to load. -/
theorem walk_of_nothing_to_load (hs : d.Steady) (hl : job.round < d.rounds.length)
    (hn : job.sender ∉ (d.roundOf job.round).round.outstandingNodes)
    {todo : List (PartitionId × List Entry)}
    (ht : ∀ x ∈ todo, d.owns x.1 job.demand.topology = false ∨ d.site.store.base.state x.1 ≠ .moving) :
    d.walk job todo = (d, .finished) := by
  induction todo with
  | nil => rfl
  | cons x rest ih =>
    obtain ⟨p, entries⟩ := x
    rw [walk_cons, if_pos (ht (p, entries) List.mem_cons_self), drain_of_not_awaited hs hl hn p]
    exact ih fun y hy => ht y (List.mem_cons_of_mem _ hy)

/-- A late page without anything to load is worked through in vain exactly if the round is over:
    as long as it is not, the next page is asked for. -/
theorem worksInVain_iff_of_nothing_to_load (hs : d.Steady) (hr : job.round = d.current)
    (hn : job.sender ∉ d.currentRound.outstandingNodes)
    (ht : ∀ x ∈ job.page.entries.toList,
      d.owns x.1 job.demand.topology = false ∨ d.site.store.base.state x.1 ≠ .moving) :
    d.WorksInVain job ↔ d.currentRound.isDone = true := by
  have hw : (d.spawn.1.measure Board.pageReceived).walk job job.page.entries.toList =
      (d.spawn.1.measure Board.pageReceived, .finished) := by
    refine walk_of_nothing_to_load (hs.spawn.site _) ?_ ?_ ht
    · rw [hr]
      exact hs.current
    · rw [hr]
      exact hn
  unfold WorksInVain
  simp only [hw]
  exact and_iff_right (Measured.measure _ _)

/-! ## A node that was given up still writes -/

/-- Two nodes are to supply one partition each; the first could not load its data and is given
    up, while the second is still awaited. -/
def halfGivenUp : Demander :=
  (newborn { poolSize := 1 } 2 ⟨1, 0⟩ ⟨{}, ∅, ∅, ∅⟩ [3, 4]).run
    [.add (planFor ⟨1, 0⟩ [(5, [3]), (6, [4])]) true, .answer 0 (.ok ()), .answer 0 (.ok ()),
      .page 0 5 { worker := 0, classFault := some "gone" }]

/-- A page with one entry of a partition. -/
def entryPage (p : PartitionId) (key : Bytes) : Supply :=
  (Supply.empty 0).addEntries p [{ key, value := [1], revision := ⟨1, 0⟩ }]

theorem given_up_node_still_writes :
    halfGivenUp.Reachable ∧ 5 ∉ halfGivenUp.currentRound.outstandingNodes ∧
      halfGivenUp.site.store.base.read 3 [107] = none ∧
      (halfGivenUp.step (.page 0 5 (entryPage 3 [107]))).site.store.base.read 3 [107] =
        some ([1], ⟨1, 0⟩) ∧
      (halfGivenUp.step (.page 0 5 (entryPage 3 [107]))).requests ≠ halfGivenUp.requests ∧
      (halfGivenUp.step (.page 0 5 (entryPage 3 [107]))).site.recorder.events ≠
        halfGivenUp.site.recorder.events := by
  refine ⟨Reachable.run (reachable_newborn rfl rfl 2 ⟨1, 0⟩ ⟨{}, ∅, ∅, ∅⟩ [3, 4]) _, ?_, ?_, ?_,
    ?_, ?_⟩
  · decide +kernel
  · decide +kernel
  · decide +kernel
  · decide +kernel
  · decide +kernel

/-- The condition for that page, which it does not meet. -/
theorem given_up_node_isolated_iff :
    halfGivenUp.Reachable ∧ 5 ∉ halfGivenUp.currentRound.outstandingNodes ∧
      (halfGivenUp.OnlyMeasures (.page 0 5 (entryPage 3 [107])) ↔
        ∀ job, halfGivenUp.accepted 0 5 (entryPage 3 [107]) = some job →
          halfGivenUp.WorksInVain job) := by
  have hd : halfGivenUp.Reachable :=
    Reachable.run (reachable_newborn rfl rfl 2 ⟨1, 0⟩ ⟨{}, ∅, ∅, ∅⟩ [3, 4]) _
  have hn : 5 ∉ halfGivenUp.currentRound.outstandingNodes := by decide +kernel
  exact ⟨hd, hn, late_page_isolated_iff hd hn 0 (entryPage 3 [107])⟩

end Demander
end Rebalance
