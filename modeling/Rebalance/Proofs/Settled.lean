/-
  Rebalance.Proofs.Settled

  Drained means settled.  A partition that a round demands from a node and
  awaits no more has been dealt with: its node was given up, it is among the
  missed ones, it does not belong here, or it is not moving any more.
  `Settles` is the invariant, `settles_tick` keeps it through every tick of a
  demander, and `drained_is_settled` concludes it for every run.
-/
import Rebalance.Proofs.Host

namespace Rebalance
namespace Demander

variable {R : RoundId} {P : Plan}

-- ============================================================================
-- A pair of node and partition
-- ============================================================================

/-- What has become of a partition that a round demands from a node at a topology: it is still
    awaited, or it has been dealt with. -/
def PairSettled (d : Demander) (R : RoundId) (n : NodeId) (t : Topology) (p : PartitionId) : Prop :=
  p ∈ (d.roundOf R).round.outstandingFrom n ∨ n ∈ (d.roundOf R).round.givenUp ∨
    p ∈ (d.roundOf R).round.missed ∨ d.owns p t = false ∨ d.site.store.base.state p ≠ .moving

/-- Every partition that the plan of a round demands is awaited or has been dealt with. -/
def Settles (R : RoundId) (P : Plan) (d : Demander) : Prop :=
  ∀ n demand p, P.get? n = some demand → p ∈ demand.partitions →
    d.PairSettled R n demand.topology p

/-- What has been dealt with stays so when the round forgets nothing, as long as whatever it
    awaits no more is dealt with. -/
theorem PairSettled.onward {d e : Demander} {n : NodeId} {t : Topology} {p : PartitionId}
    (h : d.PairSettled R n t p) (ho : e.owns p t = d.owns p t)
    (hm : e.site.store.base.state p = .moving → d.site.store.base.state p = .moving)
    (hg : n ∈ (d.roundOf R).round.givenUp → n ∈ (e.roundOf R).round.givenUp)
    (hmiss : p ∈ (d.roundOf R).round.missed → p ∈ (e.roundOf R).round.missed)
    (hout : p ∈ (d.roundOf R).round.outstandingFrom n → e.PairSettled R n t p) :
    e.PairSettled R n t p := by
  rcases h with h | h | h | h | h
  · exact hout h
  · exact .inr (.inl (hg h))
  · exact .inr (.inr (.inl (hmiss h)))
  · exact .inr (.inr (.inr (.inl (ho.trans h))))
  · exact .inr (.inr (.inr (.inr fun hc => h (hm hc))))

/-- A tick that leaves the round as it is. -/
theorem PairSettled.same {d e : Demander} {n : NodeId} {t : Topology} {p : PartitionId}
    (h : d.PairSettled R n t p) (ho : e.owns p t = d.owns p t)
    (hm : e.site.store.base.state p = .moving → d.site.store.base.state p = .moving)
    (hr : (e.roundOf R).round = (d.roundOf R).round) : e.PairSettled R n t p := by
  refine h.onward ho hm ?_ ?_ ?_
  · rw [hr]
    exact id
  · rw [hr]
    exact id
  · intro h
    refine .inl ?_
    rw [hr]
    exact h

/-- A tick that leaves the round as it is unless something holds. -/
theorem PairSettled.either {d e : Demander} {n : NodeId} {t : Topology} {p : PartitionId}
    {c : Prop} [Decidable c] {r : Round RoundWait} (h : d.PairSettled R n t p)
    (ho : e.owns p t = d.owns p t)
    (hm : e.site.store.base.state p = .moving → d.site.store.base.state p = .moving)
    (hr : (e.roundOf R).round = if c then r else (d.roundOf R).round)
    (hc : c → (e.roundOf R).round = r → e.PairSettled R n t p) : e.PairSettled R n t p := by
  by_cases h' : c
  · rw [if_pos h'] at hr
    exact hc h' hr
  · rw [if_neg h'] at hr
    exact h.same ho hm hr

/-- A tick that takes one partition of one node off the round, for a reason. -/
theorem PairSettled.drain {d e : Demander} {n m : NodeId} {t : Topology} {p q : PartitionId}
    (h : d.PairSettled R n t p) (hs : (d.roundOf R).round.Standing)
    (ho : e.owns p t = d.owns p t)
    (hm : e.site.store.base.state p = .moving → d.site.store.base.state p = .moving)
    (hr : (e.roundOf R).round = (d.roundOf R).round.after (.drain m q))
    (hreason : n = m → p = q → d.owns p t = false ∨ e.site.store.base.state p ≠ .moving) :
    e.PairSettled R n t p := by
  obtain ⟨hmiss, hgiven⟩ := Round.answers_drain (d.roundOf R).round m q hs.toSound
  refine h.onward ho hm ?_ ?_ ?_
  · rw [hr, hgiven]
    exact id
  · rw [hr, hmiss]
    exact id
  · intro hp
    by_cases hnm : n = m ∧ p = q
    · rcases hreason hnm.1 hnm.2 with h | h
      · exact .inr (.inr (.inr (.inl (ho.trans h))))
      · exact .inr (.inr (.inr (.inr h)))
    · refine .inl ?_
      rw [hr, Round.mem_outstandingFrom_drain _ m n q p hs.toSound]
      exact ⟨hp, hnm⟩

/-- A tick that gives a node up, after partitions of it were missed or not. -/
theorem PairSettled.cancel {d e : Demander} {n m : NodeId} {t : Topology} {p : PartitionId}
    {r : Round RoundWait} (h : d.PairSettled R n t p) (hs : r.Standing)
    (hout : r.outstanding = (d.roundOf R).round.outstanding)
    (hgiven : r.givenUp = (d.roundOf R).round.givenUp)
    (hmiss : p ∈ (d.roundOf R).round.missed → p ∈ r.missed)
    (ho : e.owns p t = d.owns p t)
    (hm : e.site.store.base.state p = .moving → d.site.store.base.state p = .moving)
    (hr : (e.roundOf R).round = r.after (.cancel m)) : e.PairSettled R n t p := by
  have hfrom := Round.outstandingFrom_congr hout
  refine h.onward ho hm ?_ ?_ ?_
  · intro hg
    rw [hr, Round.mem_givenUp_cancel r m n hs.toSound, hgiven]
    exact .inl hg
  · intro hp
    rw [hr, Round.missed_cancel r m hs.toSound]
    exact hmiss hp
  · intro hp
    rw [← hfrom n] at hp
    by_cases hnm : n = m
    · refine .inr (.inl ?_)
      rw [hr, Round.mem_givenUp_cancel r m n hs.toSound]
      rw [hnm] at hp
      exact .inr ⟨hnm, hs.toSound.mem_outstandingNodes_iff.mpr ⟨p, hp⟩⟩
    · refine .inl ?_
      rw [hr, Round.mem_outstandingFrom_cancel r m n p hs.toSound]
      exact ⟨hp, hnm⟩

/-- A page deals with what its sender does not have. -/
theorem PairSettled.settleMissed {d : Demander} {job : PageJob} {n : NodeId} {t : Topology}
    {p : PartitionId} (h : d.PairSettled R n t p) (hs : d.Steady) (hb : d.Bound job.round)
    (hserves : job.round = R → n = job.sender → t = job.demand.topology) :
    (d.settleMissed job).PairSettled R n t p := by
  have hbe := beside_settleMissed d job
  have hmoving : (d.settleMissed job).site.store.base.state p = .moving →
      d.site.store.base.state p = .moving := by
    rw [hbe.store]
    exact id
  refine h.either (hbe.owns p t) hmoving (round_settleMissed d job hb.1 R) fun hR hround => ?_
  rw [← hR] at hround
  have ha : (d.roundOf R).round.attached = true := by
    rw [hR]
    exact hb.2
  obtain ⟨hst, -, hc, hout, hgiven, hmiss⟩ := Round.missAll_answers (hs.standing R) ha job.sender
    (job.page.missed.toList.filter fun p => d.owns p job.demand.topology)
  obtain ⟨-, -, hmiss', hgiven', hout'⟩ := Round.drainAll_answers hst job.sender
    job.page.missed.toList
  have hmissed : p ∈ (d.roundOf R).round.missed →
      p ∈ ((d.settleMissed job).roundOf R).round.missed := by
    intro hp
    rw [hround, hmiss', hmiss]
    exact .inl hp
  refine h.onward (hbe.owns p t) hmoving ?_ hmissed ?_
  · rw [hround, hgiven', hgiven]
    exact id
  · intro hp
    by_cases hq : n = job.sender ∧ p ∈ job.page.missed.toList
    · -- The partition is awaited, so the round is open, and the miss is noted if it belongs here.
      cases howns : d.owns p t with
      | false => exact .inr (.inr (.inr (.inl ((hbe.owns p t).trans howns))))
      | true =>
        rw [hserves hR.symm hq.1] at howns
        refine .inr (.inr (.inl ?_))
        rw [hround, hmiss', hmiss]
        exact .inr ⟨(hs.standing R).toSound.isOpen hp, List.mem_filter.mpr ⟨hq.2, howns⟩⟩
    · refine .inl ?_
      rw [hround, hout', Round.outstandingFrom_congr hout]
      exact ⟨hp, hq⟩

-- ============================================================================
-- Every tick settles
-- ============================================================================

/-- What belongs here does not change with a tick, and what is moving after it was so before. -/
theorem belongs_tick {who : Actor} {d e : Demander} (h : Tick who d e) (p : PartitionId)
    (t : Topology) : e.owns p t = d.owns p t ∧
      (e.site.store.base.state p = .moving → d.site.store.base.state p = .moving) := by
  obtain ⟨halike, hgrows⟩ := site_tick h
  refine ⟨by simp only [owns, halike.affinity], ?_⟩
  rw [Store.state_eq_moving_iff, Store.state_eq_moving_iff]
  exact hgrows.moving p

/-- Whatever chore takes a partition off the round has dealt with it. -/
theorem settles_chore {who : Actor} {d e : Demander} (h : Chore who d e) (hs : d.Steady)
    (hf : who.Fits d) (hw : who.Serves R P) (hh : Hosts R P d) (hi : Settles R P d) :
    Settles R P e := by
  intro n demand p hn hp
  have hpair := hi n demand p hn hp
  obtain ⟨ho, hm⟩ := belongs_tick (.chore h) p demand.topology
  cases h with
  | note hb hr _ _ => exact hpair.same ho hm (congrArg RoundRecord.round (hr R))
  | @drain id job d q hreason =>
    refine hpair.either ho hm (round_changeRound d (.drain job.sender q) hf.2.1 R)
      fun hR hround => ?_
    subst hR
    refine hpair.drain (hs.standing _) ho hm hround fun hnm hpq => ?_
    have hd : some demand = some job.demand := by
      rw [← hn, hnm]
      exact hw rfl
    rw [Option.some.inj hd, hpq]
    refine hreason.imp_right fun h => ?_
    rw [(beside_changeRound d job.round (.drain job.sender q)).store]
    exact h
  | @settleMissed id job d =>
    refine hpair.settleMissed hs hf.2 fun hR hsender => ?_
    have hd : some demand = some job.demand := by
      rw [← hn, hsender]
      exact hw hR
    rw [Option.some.inj hd]
  | @load id job d q entries =>
    refine hpair.either ho hm (round_load d job q entries hf.2.1 R) fun hR hround => ?_
    rw [← hR.1] at hround
    refine hpair.drain (hs.standing R) ho hm hround fun _ hpq => .inr ?_
    rw [hpq]
    exact state_load d job q entries hR.2
  | cancel round node reason hl _ =>
    refine hpair.either ho hm (round_cancelNode d node hl R reason) fun hR hround => ?_
    subst hR
    exact hpair.cancel (hs.standing _) rfl rfl id ho hm hround
  | endShipment round s hb _ =>
    refine hpair.either ho hm (round_endShipment d hb.1 s R) fun hR hround => ?_
    obtain ⟨rfl, -⟩ := hR
    obtain ⟨hst, -, -, hout, hgiven, hmiss⟩ := Round.missAll_answers (hs.standing R) hh.bound.2
      s.node (((d.roundOf R).round.outstandingFrom s.node).toList.filter
        fun p => d.owns p s.topology)
    exact hpair.cancel hst hout hgiven (fun h => (hmiss p).mpr (.inl h)) ho hm hround
  | openRound => exact hpair.same ho hm (congrArg RoundRecord.round (roundOf_openRound d R))
  | watch tag =>
    refine hpair.either ho hm (round_whenDone d hs.current R _) fun hR hround => ?_
    obtain ⟨hout, hmiss, hgiven, -⟩ := Round.onDone_answers (d.roundOf d.current).round
      (.notify tag d.currentRound.attached)
    subst hR
    refine hpair.onward ho hm ?_ ?_ fun hq => .inl ?_
    · rw [hround, hgiven]
      exact id
    · rw [hround, hmiss]
      exact id
    · rw [hround, Round.outstandingFrom_congr hout]
      exact hq
  | _ => exact hpair.same ho hm rfl

/-- Whatever tick takes a partition off the round has dealt with it. -/
theorem settles_tick {who : Actor} {d e : Demander} (h : Tick who d e) (hs : d.Steady)
    (hf : who.Fits d) (hw : who.Serves R P) (hh : Hosts R P d) (hi : Settles R P d) :
    Settles R P e := by
  intro n demand p hn hp
  have hpair := hi n demand p hn hp
  obtain ⟨ho, hm⟩ := belongs_tick h p demand.topology
  have other : ∀ {id : RoundId}, (d.roundOf id).round.attached = false → R ≠ id := by
    intro id ha hR
    rw [← hR, hh.bound.2] at ha
    cases ha
  cases h with
  | chore h => exact settles_chore h hs hf hw hh hi n demand p hn hp
  | begin round plan hl ha _ _ =>
    exact hpair.either ho hm (round_begin d hl plan R) fun hR => absurd hR (other ha)
  | pass round plan hl ha =>
    exact hpair.either ho hm (round_pass d hl plan R) fun hR => absurd hR (other ha)
  | abandon => exact hpair.same ho hm (round_abandonRound d R)

-- ============================================================================
-- Every run settles
-- ============================================================================

/-- Something that happens does not meddle with a plan: nothing but the demander puts a partition
    into moving, and what belongs here at the topology of a demand is fixed. -/
def Unmeddled (P : Plan) (d : Demander) (i : Input) : Prop :=
  ∀ c, i = .site c →
    (∀ p, (d.site.change c).store.base.state p = .moving →
      d.site.store.base.state p = .moving) ∧
    ∀ n demand p, P.get? n = some demand →
      (d.site.change c).affinity.isOwned p demand.topology =
        d.site.affinity.isOwned p demand.topology

/-- Nothing that happens in a run meddles with a plan. -/
def UnmeddledRun (P : Plan) : Demander → List Input → Prop
  | _, [] => True
  | d, i :: rest => Unmeddled P d i ∧ UnmeddledRun P (d.step i) rest

theorem Settles.base {d : Demander} (h : Settles R P d) (i : Input) : Settles R P (d.base i) := by
  cases i <;> exact h

theorem settles_step {d : Demander} (hs : d.Steady) (hh : Hosts R P d) (h : Settles R P d)
    {i : Input} (hi : Unmeddled P d i) : Settles R P (d.step i) := by
  by_cases hsite : ∃ c, i = .site c
  · obtain ⟨c, rfl⟩ := hsite
    obtain ⟨hm, howns⟩ := hi c rfl
    intro n demand p hn hp
    exact (h n demand p hn hp).same (howns n demand p hn) (hm p) rfl
  · have hkeep : Hosts R P (d.step i) ∧ Settles R P (d.step i) := by
      apply step_keeps (P := fun e => Hosts R P e ∧ Settles R P e) hs fun c hc => hsite ⟨c, hc⟩
      · exact ⟨hosts_base hh i, h.base i⟩
      · rintro e f ht hse hf ⟨hhe, he⟩
        exact ⟨hosts_tick ht hse hf (hh.serves i) hhe,
          settles_tick ht hse hf (hh.serves i) hhe he⟩
    exact hkeep.2

theorem settles_run {d : Demander} (hs : d.Steady) (hh : Hosts R P d) (h : Settles R P d)
    {inputs : List Input} (hi : UnmeddledRun P d inputs) : Settles R P (d.run inputs) := by
  induction inputs generalizing d with
  | nil => exact h
  | cons i inputs ih =>
    exact ih (steady_step hs i) (hosts_step hs hh i) (settles_step hs hh h hi.1) hi.2

/-- A round that a plan starts awaits everything that the plan demands. -/
theorem awaits_begin {d : Demander} (hs : d.Steady) (hl : R < d.rounds.length)
    (ha : (d.roundOf R).round.attached = false) {n : NodeId} {demand : Demand} {p : PartitionId}
    (hn : P.get? n = some demand) (hp : p ∈ demand.partitions) :
    p ∈ ((d.begin R P).roundOf R).round.outstandingFrom n := by
  obtain ⟨-, -, -, -, -, -, hget⟩ := Round.started_answers (hs.standing R) ha P
  rw [round_begin d hl, if_pos rfl, Round.outstandingFrom_congr (Round.onDone_answers _ _).1,
    Round.mem_outstandingFrom_iff]
  refine ⟨demand.partitions, ?_, hp⟩
  rw [hget n, hn, Option.bind_some, if_neg]
  rw [Bool.not_eq_true, SortedSet.isEmpty_eq_false_iff]
  exact ⟨p, hp⟩

theorem settles_begin {d : Demander} (hs : d.Steady) (hl : R < d.rounds.length)
    (ha : (d.roundOf R).round.attached = false) : Settles R P (d.begin R P) :=
  fun _ _ _ hn hp => .inl (awaits_begin hs hl ha hn hp)

/-- The round that a plan has just started, with everything that has been dealt with by then. -/
theorem settles_begun {d : Demander} (hs : d.Steady)
    (ha : (d.roundOf R).round.attached = false) {i : Input} (hc : (d.step i).current = R)
    (hp : (d.step i).plan = some P) : Hosts R P (d.step i) ∧ Settles R P (d.step i) :=
  begun_keeps (Q := Settles R) (fun _ _ hse hl hu => settles_begin hse hl hu)
    (fun _ _ _ _ ht hse hf hw hh hq => settles_tick ht hse hf hw hh hq) hs ha hc hp

/-- Drained means settled.  Take any demander that can be there, whose round `R` has not started
    yet, anything that makes a plan start it, and any run after that which does not meddle with
    the plan.  A partition that the plan demands from a node is then still awaited from it, or the
    node was given up, or the partition is among the missed ones, or it does not belong here, or it
    is not moving.  So a round that ends with a clean summary leaves nothing moving that it
    demanded and that belongs here. -/
theorem drained_is_settled {d : Demander} (hd : d.Reachable)
    (ha : (d.roundOf R).round.attached = false) {i : Input} (hc : (d.step i).current = R)
    (hp : (d.step i).plan = some P) {inputs : List Input}
    (hi : UnmeddledRun P (d.step i) inputs) {n : NodeId} {demand : Demand} {p : PartitionId}
    (hn : P.get? n = some demand) (hmem : p ∈ demand.partitions) :
    let e := (d.step i).run inputs
    let r := (e.roundOf R).round
    (p ∉ r.outstandingFrom n → n ∉ r.givenUp → p ∉ r.missed →
      e.owns p demand.topology = false ∨ e.site.store.base.state p ≠ .moving) ∧
    (∀ s, r.summary = some s → s.isClean = true → e.owns p demand.topology = true →
      e.site.store.base.state p ≠ .moving) := by
  intro e r
  have hs := steady_step hd.steady i
  obtain ⟨hh, hset⟩ := settles_begun hd.steady ha hc hp
  have hpair : e.PairSettled R n demand.topology p :=
    settles_run hs hh hset hi n demand p hn hmem
  constructor
  · intro hout hgiven hmiss
    rcases hpair with h | h | h | h
    · exact absurd h hout
    · exact absurd h hgiven
    · exact absurd h hmiss
    · exact h
  · intro s hsum hclean howns
    have hst : r.Standing := (steady_run hs inputs).standing R
    simp only [Summary.isClean, Bool.and_eq_true, SortedSet.isEmpty_iff] at hclean
    rcases hpair with h | h | h | h | h
    · have hdone : r.closed = true := by
        rw [hst.closed_iff, Round.isDone, Promise.isDone]
        exact Option.isSome_iff_exists.mpr ⟨s, hsum⟩
      rw [Round.mem_outstandingFrom_iff] at h
      change ∃ ps, r.outstanding.get? n = some ps ∧ p ∈ ps at h
      rw [hst.settled hdone] at h
      simp at h
    · change n ∈ r.givenUp at h
      rw [Round.givenUp, hsum] at h
      simp [hclean.2] at h
    · change p ∈ r.missed at h
      rw [Round.missed, hsum] at h
      simp [hclean.1] at h
    · change e.owns p demand.topology = false at h
      rw [howns] at h
      cases h
    · exact h

/-! ## One partition, one page -/

/-- The last page of a partition, without entries. -/
def lastPage (p : PartitionId) : Supply := (Supply.empty 0).markLast p

/-- The demand is sent, and the only page arrives. -/
def soloRun : List Input := [.answer 0 (.ok ()), .page 0 5 (lastPage 3)]

theorem solo_is_settled :
    let i : Input := .add (planFor ⟨1, 0⟩ [(5, [3])]) true
    let plan := (planFor ⟨1, 0⟩ [(5, [3])]).stamp (Span.ofSecs 10) 524288
    let e := ((solo 3).step i).run soloRun
    (solo 3).Reachable ∧ ((solo 3).roundOf 0).round.attached = false ∧
      ((solo 3).step i).current = 0 ∧ ((solo 3).step i).plan = some plan ∧
      UnmeddledRun plan ((solo 3).step i) soloRun ∧ 3 ∉ (e.roundOf 0).round.outstandingFrom 5 ∧
      (e.owns 3 ⟨1, 0⟩ = false ∨ e.site.store.base.state 3 ≠ .moving) := by
  intro i plan e
  have hreach : (solo 3).Reachable := reachable_newborn rfl rfl 2 ⟨1, 0⟩ ⟨{}, ∅, ∅, ∅⟩ [3]
  have hquiet : UnmeddledRun plan ((solo 3).step i) soloRun := by
    refine ⟨?_, ?_, trivial⟩
    · intro c hc
      cases hc
    · intro c hc
      cases hc
  have hn : plan.get? 5 = some ⟨SortedSet.ofList [3], ⟨1, 0⟩, Span.ofSecs 10, 524288, none⟩ := rfl
  have hdrained : 3 ∉ (e.roundOf 0).round.outstandingFrom 5 := by decide +kernel
  have h := drained_is_settled hreach rfl (i := i) (R := 0) (P := plan) rfl rfl hquiet hn
    (p := 3) (by decide)
  exact ⟨hreach, rfl, rfl, rfl, hquiet, hdrained,
    h.1 hdrained (by decide +kernel) (by decide +kernel)⟩

end Demander
end Rebalance
