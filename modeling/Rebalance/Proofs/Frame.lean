/-
  Rebalance.Proofs.Frame

  What the changes to a demander's rounds leave alone, and what they do to the
  rounds.  `Demander.Beside` lists everything that a change to a round, with
  whatever it sets off, does not touch; `round_changeRound` says that of the
  rounds only the one changed goes on, by `Round.after`.
-/
import Rebalance.Proofs.Progress
import Rebalance.Demander.Run

namespace Rebalance
namespace Demander

-- ============================================================================
-- What stays
-- ============================================================================

/-- Two demanders that differ at most in their rounds, in what is measured and in what was
    noticed. -/
structure Beside (d e : Demander) : Prop where
  settings : e.settings = d.settings
  node : e.site.node = d.site.node
  store : e.site.store = d.site.store
  affinity : e.site.affinity = d.site.affinity
  recorder : e.site.recorder = d.site.recorder
  clock : e.site.clock = d.site.clock
  filter : e.site.filter = d.site.filter
  schedule : e.schedule = d.schedule
  rounds : e.rounds.length = d.rounds.length
  current : e.current = d.current
  plan : e.plan = d.plan
  stopping : e.stopping = d.stopping
  topics : e.topics = d.topics
  fault : e.fault = d.fault
  jobs : e.jobs = d.jobs
  nextJob : e.nextJob = d.nextJob
  returns : e.returns = d.returns

namespace Beside

theorem refl (d : Demander) : Beside d d :=
  ⟨rfl, rfl, rfl, rfl, rfl, rfl, rfl, rfl, rfl, rfl, rfl, rfl, rfl, rfl, rfl, rfl, rfl⟩

theorem trans {d e f : Demander} (h₁ : Beside d e) (h₂ : Beside e f) : Beside d f where
  settings := h₂.settings.trans h₁.settings
  node := h₂.node.trans h₁.node
  store := h₂.store.trans h₁.store
  affinity := h₂.affinity.trans h₁.affinity
  recorder := h₂.recorder.trans h₁.recorder
  clock := h₂.clock.trans h₁.clock
  filter := h₂.filter.trans h₁.filter
  schedule := h₂.schedule.trans h₁.schedule
  rounds := h₂.rounds.trans h₁.rounds
  current := h₂.current.trans h₁.current
  plan := h₂.plan.trans h₁.plan
  stopping := h₂.stopping.trans h₁.stopping
  topics := h₂.topics.trans h₁.topics
  fault := h₂.fault.trans h₁.fault
  jobs := h₂.jobs.trans h₁.jobs
  nextJob := h₂.nextJob.trans h₁.nextJob
  returns := h₂.returns.trans h₁.returns

theorem owns {d e : Demander} (h : Beside d e) (p : PartitionId) (t : Topology) :
    e.owns p t = d.owns p t := by
  simp only [Demander.owns, h.affinity]

end Beside

theorem beside_measure (d : Demander) (f : Board → Board) : Beside d (d.measure f) :=
  ⟨rfl, rfl, rfl, rfl, rfl, rfl, rfl, rfl, rfl, rfl, rfl, rfl, rfl, rfl, rfl, rfl, rfl⟩

theorem beside_emit (d : Demander) (e : Effect) : Beside d (d.emit e) :=
  ⟨rfl, rfl, rfl, rfl, rfl, rfl, rfl, rfl, rfl, rfl, rfl, rfl, rfl, rfl, rfl, rfl, rfl⟩

theorem beside_setRound (d : Demander) (id : RoundId) (r : RoundRecord) :
    Beside d (d.setRound id r) :=
  ⟨rfl, rfl, rfl, rfl, rfl, rfl, rfl, rfl, by simp [setRound], rfl, rfl, rfl, rfl, rfl, rfl, rfl,
    rfl⟩

-- ============================================================================
-- Looking up a round
-- ============================================================================

theorem roundOf_setRound (d : Demander) (id id' : RoundId) (r : RoundRecord) :
    (d.setRound id r).roundOf id' =
      if id' = id ∧ id < d.rounds.length then r else d.roundOf id' := by
  unfold roundOf setRound
  rw [List.getElem?_set]
  by_cases h : id = id'
  · subst h
    by_cases hlt : id < d.rounds.length
    · simp [hlt]
    · simp [hlt]
  · simp [h, Ne.symm h]

@[simp] theorem roundOf_measure (d : Demander) (f : Board → Board) (id : RoundId) :
    (d.measure f).roundOf id = d.roundOf id := rfl

theorem roundOf_of_le (d : Demander) {id : RoundId} (h : d.rounds.length ≤ id) :
    d.roundOf id = {} := by
  simp [roundOf, List.getElem?_eq_none h]

-- ============================================================================
-- Those who wait for a round
-- ============================================================================

theorem beside_settleRound (d : Demander) (id : RoundId) (s : Summary) :
    Beside d (d.settleRound id s) := by
  unfold settleRound
  have hm := beside_measure d (·.roundCompleted s.missed.size)
  simp only
  split
  · exact (hm.trans (beside_setRound _ id _)).trans (beside_measure _ Board.roundSettled)
  · exact hm

theorem round_settleRound (d : Demander) (id id' : RoundId) (s : Summary) :
    ((d.settleRound id s).roundOf id').round = (d.roundOf id').round := by
  unfold settleRound
  simp only
  split
  · rw [roundOf_measure, roundOf_setRound]
    by_cases h : id' = id ∧ id < (d.measure (·.roundCompleted s.missed.size)).rounds.length
    · rw [if_pos h, h.1]
      rfl
    · rw [if_neg h]
      rfl
  · rfl

theorem beside_runWait (d : Demander) (id : RoundId) (s : Summary) (w : RoundWait) :
    Beside d (d.runWait id s w) := by
  cases w with
  | settle => exact (beside_emit d _).trans (beside_settleRound _ id s)
  | notify tag => exact beside_emit d _

theorem round_runWait (d : Demander) (id id' : RoundId) (s : Summary) (w : RoundWait) :
    ((d.runWait id s w).roundOf id').round = (d.roundOf id').round := by
  cases w with
  | settle => exact round_settleRound _ id id' s
  | notify tag => rfl

theorem beside_runWaits (d : Demander) (id : RoundId) (s : Summary) (ws : List RoundWait) :
    Beside d (ws.foldl (fun d w => d.runWait id s w) d) := by
  induction ws generalizing d with
  | nil => exact .refl d
  | cons w ws ih => exact (beside_runWait d id s w).trans (ih _)

theorem round_runWaits (d : Demander) (id id' : RoundId) (s : Summary) (ws : List RoundWait) :
    ((ws.foldl (fun d w => d.runWait id s w) d).roundOf id').round = (d.roundOf id').round := by
  induction ws generalizing d with
  | nil => rfl
  | cons w ws ih => exact (ih _).trans (round_runWait d id id' s w)

-- ============================================================================
-- A change to a round
-- ============================================================================

theorem beside_conclude (d : Demander) (id : RoundId) (s : Summary) :
    Beside d (d.conclude id s) := by
  unfold conclude
  refine Beside.trans ?_ (beside_runWaits _ id s _)
  refine Beside.trans ?_ (beside_setRound _ id _)
  split
  · exact .refl d
  · exact beside_emit d _

theorem round_conclude (d : Demander) {id : RoundId} (id' : RoundId) (s : Summary)
    (h : id < d.rounds.length) :
    ((d.conclude id s).roundOf id').round =
      if id' = id then ((d.roundOf id).round.announce s).1 else (d.roundOf id').round := by
  unfold conclude
  rw [round_runWaits]
  cases (d.roundOf id).round.forced s with
  | none =>
    rw [roundOf_setRound]
    by_cases hid : id' = id
    · rw [if_pos ⟨hid, h⟩, if_pos hid]
    · rw [if_neg (fun hc => hid hc.1), if_neg hid]
  | some e =>
    rw [roundOf_setRound]
    by_cases hid : id' = id
    · rw [if_pos ⟨hid, h⟩, if_pos hid]
    · rw [if_neg (fun hc => hid hc.1), if_neg hid]
      rfl

variable (d : Demander) (id : RoundId) (c : Round.Change) (node : NodeId) (p : PartitionId)

/-- The round as the change itself leaves it, before anything follows. -/
def withChange : Demander :=
  d.setRound id { d.roundOf id with round := ((d.roundOf id).round.change c).1 }

theorem changeRound_eq :
    d.changeRound id c =
      match ((d.roundOf id).round.change c).2 with
      | none => d.withChange id c
      | some s => (d.withChange id c).conclude id s := rfl

theorem beside_withChange : Beside d (d.withChange id c) := beside_setRound d id _

theorem beside_changeRound : Beside d (d.changeRound id c) := by
  rw [changeRound_eq]
  split
  · exact beside_withChange d id c
  · exact (beside_withChange d id c).trans (beside_conclude _ id _)

theorem round_withChange {id : RoundId} (h : id < d.rounds.length) (id' : RoundId) :
    ((d.withChange id c).roundOf id').round =
      if id' = id then ((d.roundOf id).round.change c).1 else (d.roundOf id').round := by
  unfold withChange
  rw [roundOf_setRound]
  by_cases hid : id' = id
  · rw [if_pos ⟨hid, h⟩, if_pos hid]
  · rw [if_neg (fun hc => hid hc.1), if_neg hid]

/-- A change moves the round it is made to, by the change and what follows from it, and no
    other round. -/
theorem round_changeRound {id : RoundId} (h : id < d.rounds.length) (id' : RoundId) :
    ((d.changeRound id c).roundOf id').round =
      if id' = id then (d.roundOf id).round.after c else (d.roundOf id').round := by
  have hwith := round_withChange d c h
  have hlen : id < (d.withChange id c).rounds.length := by
    rw [(beside_withChange d id c).rounds]
    exact h
  have hafter : (d.roundOf id).round.after c =
      Round.announced (((d.roundOf id).round.change c).1, ((d.roundOf id).round.change c).2) := rfl
  rw [changeRound_eq]
  cases hch : ((d.roundOf id).round.change c).2 with
  | none =>
    rw [hafter, hch]
    exact hwith id'
  | some s =>
    rw [hafter, hch]
    refine (round_conclude _ id' s hlen).trans ?_
    rw [hwith id, hwith id', if_pos rfl]
    by_cases hid : id' = id
    · rw [if_pos hid, if_pos hid]
      rfl
    · rw [if_neg hid, if_neg hid, if_neg hid]

theorem beside_cancelNode (reason : CancelReason) : Beside d (d.cancelNode id node reason) :=
  (beside_changeRound d id _).trans (beside_measure _ _)

theorem round_cancelNode {id : RoundId} (h : id < d.rounds.length) (id' : RoundId)
    (reason : CancelReason) :
    ((d.cancelNode id node reason).roundOf id').round =
      if id' = id then (d.roundOf id).round.after (.cancel node) else (d.roundOf id').round :=
  round_changeRound d (.cancel node) h id'

theorem beside_missOwned (t : Topology) : Beside d (d.missOwned id node t p) := by
  unfold missOwned
  split
  · exact (beside_changeRound d id _).trans (beside_measure _ _)
  · exact .refl d

theorem round_missOwned {id : RoundId} (h : id < d.rounds.length) (id' : RoundId) (t : Topology) :
    ((d.missOwned id node t p).roundOf id').round =
      if id' = id ∧ d.owns p t = true then (d.roundOf id).round.after (.miss node p)
      else (d.roundOf id').round := by
  unfold missOwned
  cases ho : d.owns p t with
  | true =>
    rw [if_pos rfl, roundOf_measure, round_changeRound d _ h]
    simp
  | false => simp

/-- The round with one more that waits for it, before that one is told anything. -/
def withWait (w : RoundWait) : Demander :=
  d.setRound id { d.roundOf id with round := ((d.roundOf id).round.onDone w).1 }

theorem whenDone_eq (w : RoundWait) :
    d.whenDone id w =
      match ((d.roundOf id).round.onDone w).2 with
      | none => d.withWait id w
      | some s => (d.withWait id w).runWait id s w := rfl

theorem beside_whenDone (w : RoundWait) : Beside d (d.whenDone id w) := by
  have hs : Beside d (d.withWait id w) := beside_setRound d id _
  rw [whenDone_eq]
  split
  · exact hs
  · exact hs.trans (beside_runWait _ id _ w)

theorem round_withWait {id : RoundId} (h : id < d.rounds.length) (id' : RoundId) (w : RoundWait) :
    ((d.withWait id w).roundOf id').round =
      if id' = id then ((d.roundOf id).round.onDone w).1 else (d.roundOf id').round := by
  unfold withWait
  rw [roundOf_setRound]
  by_cases hid : id' = id
  · rw [if_pos ⟨hid, h⟩, if_pos hid]
  · rw [if_neg (fun hc => hid hc.1), if_neg hid]

/-- Waiting for a round moves nothing but the list of those who wait. -/
theorem round_whenDone {id : RoundId} (h : id < d.rounds.length) (id' : RoundId) (w : RoundWait) :
    ((d.whenDone id w).roundOf id').round =
      if id' = id then ((d.roundOf id).round.onDone w).1 else (d.roundOf id').round := by
  rw [whenDone_eq]
  split
  · exact round_withWait d h id' w
  · rw [round_runWait]
    exact round_withWait d h id' w

-- ============================================================================
-- Rounds that begin
-- ============================================================================

theorem beside_changeRounds (d : Demander) (id : RoundId) {α : Type} (l : List α)
    (c : α → Round.Change) : Beside d (l.foldl (fun d a => d.changeRound id (c a)) d) := by
  induction l generalizing d with
  | nil => exact .refl d
  | cons a l ih => exact (beside_changeRound d id _).trans (ih _)

theorem round_appendAll (d : Demander) {id : RoundId} (h : id < d.rounds.length) (id' : RoundId)
    (l : List (NodeId × Demand)) :
    ((l.foldl (fun d e => d.changeRound id (.append e.1 e.2.partitions)) d).roundOf id').round =
      if id' = id then (d.roundOf id).round.appendAll l else (d.roundOf id').round := by
  induction l generalizing d with
  | nil =>
    by_cases hid : id' = id
    · rw [if_pos hid, hid]
      rfl
    · rw [if_neg hid]
      rfl
  | cons e l ih =>
    have hlen : id < (d.changeRound id (.append e.1 e.2.partitions)).rounds.length := by
      rw [(beside_changeRound d id _).rounds]
      exact h
    refine (ih _ hlen).trans ?_
    rw [round_changeRound d _ h id, round_changeRound d _ h id', if_pos rfl]
    by_cases hid : id' = id
    · rw [if_pos hid, if_pos hid]
      rfl
    · rw [if_neg hid, if_neg hid, if_neg hid]

/-- The demander with a round counted as in flight or not. -/
def flag (d : Demander) (id : RoundId) (b : Bool) : Demander :=
  d.setRound id { d.roundOf id with inFlight := b }

theorem beside_flag (d : Demander) (id : RoundId) (b : Bool) : Beside d (d.flag id b) :=
  beside_setRound d id _

theorem round_flag (d : Demander) (id id' : RoundId) (b : Bool) :
    ((d.flag id b).roundOf id').round = (d.roundOf id').round := by
  rw [flag, roundOf_setRound]
  by_cases h : id' = id ∧ id < d.rounds.length
  · rw [if_pos h, h.1]
  · rw [if_neg h]

/-- The demander with a round bound to its plan and every node of the plan awaited. -/
def awaitAll (d : Demander) (id : RoundId) (plan : Plan) : Demander :=
  plan.demands.toList.foldl (fun d e => d.changeRound id (.append e.1 e.2.partitions))
    (d.changeRound id (.attach plan.exchange))

theorem beside_awaitAll (d : Demander) (id : RoundId) (plan : Plan) :
    Beside d (d.awaitAll id plan) :=
  (beside_changeRound d id _).trans
    (beside_changeRounds _ id plan.demands.toList fun e => .append e.1 e.2.partitions)

theorem round_awaitAll (d : Demander) {id : RoundId} (h : id < d.rounds.length) (plan : Plan)
    (id' : RoundId) :
    ((d.awaitAll id plan).roundOf id').round =
      if id' = id then (d.roundOf id).round.started plan else (d.roundOf id').round := by
  have hlen : id < (d.changeRound id (.attach plan.exchange)).rounds.length := by
    rw [(beside_changeRound d id _).rounds]
    exact h
  refine (round_appendAll _ hlen id' plan.demands.toList).trans ?_
  rw [round_changeRound d _ h id, round_changeRound d _ h id', if_pos rfl]
  by_cases hid : id' = id
  · rw [if_pos hid, if_pos hid]
    rfl
  · rw [if_neg hid, if_neg hid, if_neg hid]

/-- A plan that starts a round: it binds the round and becomes the current one. -/
def begin (d : Demander) (id : RoundId) (plan : Plan) : Demander :=
  (d.changeRound id (.attach plan.exchange)).installRound id plan

theorem begin_eq (d : Demander) (id : RoundId) (plan : Plan) :
    d.begin id plan =
      { (((d.awaitAll id plan).measure Board.roundStarted).flag id true).whenDone id .settle with
        current := id, plan := some plan } := rfl

/-- A plan that leaves its round nothing to do: the round is bound and over at once. -/
def pass (d : Demander) (id : RoundId) (plan : Plan) : Demander :=
  (d.changeRound id (.attach plan.exchange)).skipRound id

theorem beside_begin (d : Demander) (id : RoundId) (plan : Plan) :
    Beside { d with current := id, plan := some plan } (d.begin id plan) := by
  have h₁ := (beside_awaitAll d id plan).trans (beside_measure _ Board.roundStarted)
  have h := (h₁.trans (beside_flag _ id true)).trans (beside_whenDone _ id .settle)
  exact ⟨h.settings, h.node, h.store, h.affinity, h.recorder, h.clock, h.filter, h.schedule,
    h.rounds, rfl, rfl, h.stopping, h.topics, h.fault, h.jobs, h.nextJob, h.returns⟩

/-- A round that a plan starts awaits the plan, and the meters wait for it. -/
theorem round_begin (d : Demander) {id : RoundId} (h : id < d.rounds.length) (plan : Plan)
    (id' : RoundId) :
    ((d.begin id plan).roundOf id').round =
      if id' = id then (((d.roundOf id).round.started plan).onDone .settle).1
      else (d.roundOf id').round := by
  rw [begin_eq]
  change ((((Demander.measure _ Board.roundStarted).flag id true).whenDone id .settle).roundOf
    id').round = _
  rw [round_whenDone]
  · rw [round_flag, round_flag, roundOf_measure, roundOf_measure, round_awaitAll d h,
      round_awaitAll d h, if_pos rfl]
    by_cases hid : id' = id
    · rw [if_pos hid, if_pos hid]
    · rw [if_neg hid, if_neg hid, if_neg hid]
  · rw [(beside_flag _ id true).rounds, (beside_measure _ _).rounds, (beside_awaitAll d id plan).rounds]
    exact h

theorem beside_pass (d : Demander) (id : RoundId) (plan : Plan) :
    Beside { d with current := id, plan := none } (d.pass id plan) := by
  have h₁ : Beside d (d.changeRound id (.attach plan.exchange)) := beside_changeRound d id _
  have h₂ : Beside { d with current := id, plan := none }
      { d.changeRound id (.attach plan.exchange) with current := id, plan := none } :=
    ⟨h₁.settings, h₁.node, h₁.store, h₁.affinity, h₁.recorder, h₁.clock, h₁.filter, h₁.schedule,
      h₁.rounds, rfl, rfl, h₁.stopping, h₁.topics, h₁.fault, h₁.jobs, h₁.nextJob, h₁.returns⟩
  exact ((h₂.trans (beside_flag _ id false)).trans (beside_changeRound _ id .complete)).trans
    (beside_measure _ Board.roundSkipped)

theorem round_pass (d : Demander) {id : RoundId} (h : id < d.rounds.length) (plan : Plan)
    (id' : RoundId) :
    ((d.pass id plan).roundOf id').round =
      if id' = id then ((d.roundOf id).round.attach plan.exchange).after .complete
      else (d.roundOf id').round := by
  have h₁ : Beside d (d.changeRound id (.attach plan.exchange)) := beside_changeRound d id _
  have hround : ∀ id', ((d.changeRound id (.attach plan.exchange)).roundOf id').round =
      if id' = id then (d.roundOf id).round.attach plan.exchange else (d.roundOf id').round :=
    fun id' => round_changeRound d _ h id'
  unfold pass skipRound
  change (((Demander.flag { d.changeRound id (.attach plan.exchange) with
    current := id, plan := none } id false).changeRound id .complete).roundOf id').round = _
  rw [round_changeRound]
  · rw [round_flag, round_flag]
    change (if id' = id then
      (Round.after ((d.changeRound id (.attach plan.exchange)).roundOf id).round .complete)
      else ((d.changeRound id (.attach plan.exchange)).roundOf id').round) = _
    rw [hround id, hround id', if_pos rfl]
    by_cases hid : id' = id
    · rw [if_pos hid, if_pos hid]
    · rw [if_neg hid, if_neg hid, if_neg hid]
  · rw [(beside_flag _ id false).rounds]
    change id < (d.changeRound id (.attach plan.exchange)).rounds.length
    rw [h₁.rounds]
    exact h

-- ============================================================================
-- The partitions that a supplier does not have
-- ============================================================================

/-- What a page says about the partitions that its sender does not have: those that belong here
    are to be fetched again, and none of them is awaited any more. -/
def settleMissed (d : Demander) (job : PageJob) : Demander :=
  let missed := job.page.missed.toList
  missed.foldl (fun d p => d.changeRound job.round (.drain job.sender p))
    (missed.foldl (fun d p => d.missOwned job.round job.sender job.demand.topology p) d)

theorem beside_missAll (d : Demander) (id : RoundId) (node : NodeId) (t : Topology)
    (ps : List PartitionId) : Beside d (ps.foldl (fun d p => d.missOwned id node t p) d) := by
  induction ps generalizing d with
  | nil => exact .refl d
  | cons p ps ih => exact (beside_missOwned d id node p t).trans (ih _)

theorem beside_settleMissed (d : Demander) (job : PageJob) : Beside d (d.settleMissed job) :=
  (beside_missAll d job.round job.sender job.demand.topology _).trans
    (beside_changeRounds _ job.round _ fun p => .drain job.sender p)

theorem round_missAll (d : Demander) {id : RoundId} (h : id < d.rounds.length) (id' : RoundId)
    (node : NodeId) (t : Topology) (ps : List PartitionId) :
    ((ps.foldl (fun d p => d.missOwned id node t p) d).roundOf id').round =
      if id' = id then (d.roundOf id).round.missAll node (ps.filter fun p => d.owns p t)
      else (d.roundOf id').round := by
  induction ps generalizing d with
  | nil =>
    by_cases hid : id' = id
    · rw [if_pos hid, hid]
      rfl
    · rw [if_neg hid]
      rfl
  | cons p ps ih =>
    have hb := beside_missOwned d id node p t
    have howns : (fun q => (d.missOwned id node t p).owns q t) = fun q => d.owns q t :=
      funext fun q => hb.owns q t
    refine (ih _ (by rw [hb.rounds]; exact h)).trans ?_
    rw [round_missOwned d node p h id t, round_missOwned d node p h id' t, howns, List.filter_cons]
    by_cases hid : id' = id
    · rw [if_pos hid, if_pos hid]
      cases ho : d.owns p t <;> simp [Round.missAll]
    · rw [if_neg hid, if_neg hid, if_neg (fun hc => hid hc.1)]

theorem round_drainAll (d : Demander) {id : RoundId} (h : id < d.rounds.length) (id' : RoundId)
    (node : NodeId) (ps : List PartitionId) :
    ((ps.foldl (fun d p => d.changeRound id (.drain node p)) d).roundOf id').round =
      if id' = id then (d.roundOf id).round.drainAll node ps else (d.roundOf id').round := by
  induction ps generalizing d with
  | nil =>
    by_cases hid : id' = id
    · rw [if_pos hid, hid]
      rfl
    · rw [if_neg hid]
      rfl
  | cons p ps ih =>
    refine (ih _ (by rw [(beside_changeRound d id _).rounds]; exact h)).trans ?_
    rw [round_changeRound d _ h id, round_changeRound d _ h id', if_pos rfl]
    by_cases hid : id' = id
    · rw [if_pos hid, if_pos hid]
      rfl
    · rw [if_neg hid, if_neg hid, if_neg hid]

theorem round_settleMissed (d : Demander) (job : PageJob) (h : job.round < d.rounds.length)
    (id' : RoundId) :
    ((d.settleMissed job).roundOf id').round =
      if id' = job.round then
        ((d.roundOf job.round).round.missAll job.sender
          (job.page.missed.toList.filter fun p => d.owns p job.demand.topology)).drainAll
          job.sender job.page.missed.toList
      else (d.roundOf id').round := by
  have hb := beside_missAll d job.round job.sender job.demand.topology job.page.missed.toList
  unfold settleMissed
  rw [round_drainAll _ (by rw [hb.rounds]; exact h), round_missAll d h job.round,
    round_missAll d h id', if_pos rfl]
  by_cases hid : id' = job.round
  · rw [if_pos hid, if_pos hid]
  · rw [if_neg hid, if_neg hid, if_neg hid]

end Demander
end Rebalance
