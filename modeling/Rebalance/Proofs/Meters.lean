/-
  Rebalance.Proofs.Meters

  Which meters the work of a demander moves.  `Board.Blind` says of a reading
  of the board that neither the ends of rounds nor misses nor messages move it,
  and nodes that are given up only where the topology has changed; `blind_chore`
  concludes that no chore moves it, but a load or such a cancellation.
-/
import Rebalance.Proofs.Step

namespace Rebalance

universe u

variable {α : Type u}

-- ============================================================================
-- Readings of a board
-- ============================================================================

namespace Board

/-- A reading of the board that the work on rounds does not move, unless a node is given up because
    the topology has changed. -/
structure Blind (f : Board → α) : Prop where
  completed : ∀ b n, f (roundCompleted b n) = f b
  settled : ∀ b, f (roundSettled b) = f b
  missed : ∀ b, f (partitionMissed b) = f b
  messages : ∀ b c, OnlyMessages b c → f c = f b
  cancelled : ∀ b (reason : CancelReason), reason ≠ .topologyChanged →
    f (b.streamCancelled reason.label) = f b

/-- A reading of the board that entries and loaded partitions do not move. -/
structure BlindToLoads (f : Board → α) : Prop where
  applied : ∀ b, f (entryApplied b) = f b
  skipped : ∀ b, f (entrySkipped b) = f b
  dropped : ∀ b, f (entryDropped b) = f b
  owned : ∀ b, f (partitionOwned b) = f b

end Board

-- ============================================================================
-- Entries
-- ============================================================================

namespace Site

variable {f : Board → α}

theorem board_change (s : Site) (c : Change) : (s.change c).board = s.board := by
  cases c <;> rfl

@[simp] theorem board_report (s : Site) (e : Event) : (s.report e).board = s.board := by
  unfold report
  split <;> rfl

variable (hf : Board.BlindToLoads f) (sender : NodeId) (p : PartitionId)

include hf

theorem board_settleWrite (s : Site) (e : Entry) (r : Except StoreFault InsertOutcome) :
    f (s.settleWrite sender p e r).1.board = f s.board := by
  unfold settleWrite
  split
  · simp only
    split
    · exact hf.applied s.board
    · rw [board_report]
      exact hf.applied s.board
  · exact hf.skipped s.board
  · exact hf.skipped s.board
  · rfl
  · exact hf.dropped s.board
  · rfl

theorem board_takeIn (s : Site) (e : Entry) : f (s.takeIn sender p e).1.board = f s.board := by
  unfold takeIn
  split
  · exact hf.skipped s.board
  · split
    · exact hf.skipped s.board
    · exact board_settleWrite hf sender p _ e _

theorem board_takeInAll (s : Site) (es : List Entry) :
    f (s.takeInAll sender p es).1.board = f s.board := by
  induction es generalizing s with
  | nil => rfl
  | cons e rest ih =>
    have hone := board_takeIn hf sender p s e
    unfold takeInAll
    split
    · exact (ih _).trans (hf.skipped s.board)
    · split
      · next hr =>
        rw [hr] at hone
        exact (ih _).trans hone
      · next hr =>
        rw [hr] at hone
        exact hone
      · next hr =>
        rw [hr] at hone
        exact hone

end Site

-- ============================================================================
-- Rounds
-- ============================================================================

namespace Demander

section Rounds

theorem board_forcing (d : Demander) (id : RoundId) (s : Summary) :
    (d.forcing id s).site.board = d.site.board := by
  unfold forcing
  split <;> rfl

variable {f : Board → α} (hf : Board.Blind f) (d : Demander) (id : RoundId)

include hf

theorem blind_runWait (s : Summary) (w : RoundWait) :
    f (d.runWait id s w).site.board = f d.site.board := by
  cases w with
  | settle =>
    simp only [runWait, settleRound]
    split
    · exact (hf.settled _).trans (hf.completed d.site.board _)
    · exact hf.completed d.site.board _
  | notify tag bound => rfl

theorem blind_runWaits (s : Summary) (ws : List RoundWait) :
    f (ws.foldl (fun d w => d.runWait id s w) d).site.board = f d.site.board := by
  induction ws generalizing d with
  | nil => rfl
  | cons w ws ih => exact (ih _).trans (blind_runWait hf d id s w)

theorem blind_changeRound (c : Round.Change) :
    f (d.changeRound id c).site.board = f d.site.board := by
  rw [changeRound_eq]
  split
  · rfl
  · next s _ =>
    rw [conclude_eq]
    exact (blind_runWaits hf _ id s _).trans
      (congrArg f (board_forcing (d.withChange id c) id s))

theorem blind_changeRounds {β : Type} (l : List β) (c : β → Round.Change) :
    f (l.foldl (fun d a => d.changeRound id (c a)) d).site.board = f d.site.board := by
  induction l generalizing d with
  | nil => rfl
  | cons a l ih => exact (ih _).trans (blind_changeRound hf d id (c a))

theorem blind_missOwned (node : NodeId) (t : Topology) (p : PartitionId) :
    f (d.missOwned id node t p).site.board = f d.site.board := by
  unfold missOwned
  split
  · exact (hf.missed _).trans (blind_changeRound hf d id _)
  · rfl

theorem blind_missAll (node : NodeId) (t : Topology) (ps : List PartitionId) :
    f (ps.foldl (fun d p => d.missOwned id node t p) d).site.board = f d.site.board := by
  induction ps generalizing d with
  | nil => rfl
  | cons p ps ih => exact (ih _).trans (blind_missOwned hf d id node t p)

theorem blind_settleMissed (job : PageJob) :
    f (d.settleMissed job).site.board = f d.site.board :=
  (blind_changeRounds hf _ job.round _ fun p => .drain job.sender p).trans
    (blind_missAll hf d job.round job.sender job.demand.topology job.page.missed.toList)

theorem blind_cancelNode (node : NodeId) {reason : CancelReason} (h : reason ≠ .topologyChanged) :
    f (d.cancelNode id node reason).site.board = f d.site.board :=
  (hf.cancelled _ reason h).trans (blind_changeRound hf d id _)

theorem blind_endShipment (s : Shipment) :
    f (d.endShipment id s).site.board = f d.site.board := by
  rw [endShipment_eq]
  cases s.failure with
  | none => rfl
  | some cause =>
    refine (blind_cancelNode hf _ id s.node ?_).trans (blind_missAll hf d id s.node s.topology _)
    split <;> nofun

theorem blind_whenDone (w : RoundWait) : f (d.whenDone id w).site.board = f d.site.board := by
  rw [whenDone_eq]
  split
  · rfl
  · exact blind_runWait hf _ id _ w

theorem blind_load (hl : Board.BlindToLoads f) (job : PageJob) (p : PartitionId)
    (entries : List Entry) : f (d.load job p entries).1.site.board = f d.site.board := by
  have htake : f (d.takenIn job p entries).site.board = f d.site.board :=
    Site.board_takeInAll hl job.sender p d.site entries
  rw [load_cases]
  split
  · refine Eq.trans ?_ htake
    change f ((d.takenIn job p entries).ownLoaded job p).site.board = _
    rw [ownLoaded, blind_changeRound hf, ownAndReport, Site.board_report]
    exact hl.owned _
  · exact htake

omit hf in
theorem blind_abandonRound (hs : ∀ b, f (Board.roundAbandoned b) = f b) :
    f d.abandonRound.site.board = f d.site.board := by
  unfold abandonRound
  simp only
  split
  · exact hs _
  · rfl

theorem blind_pass (hs : ∀ b, f (Board.roundSkipped b) = f b) (plan : Plan) :
    f (d.pass id plan).site.board = f d.site.board :=
  ((hs _).trans (blind_changeRound hf _ id .complete)).trans
    (blind_changeRound hf d id (.attach plan.exchange))

theorem blind_awaitAll (plan : Plan) :
    f (d.awaitAll id plan).site.board = f d.site.board :=
  (blind_changeRounds hf _ id plan.demands.toList fun e => .append e.1 e.2.partitions).trans
    (blind_changeRound hf d id (.attach plan.exchange))

/-- A plan that starts a round moves only what counts it. -/
theorem board_begin (plan : Plan) :
    f (d.begin id plan).site.board = f (d.awaitAll id plan).site.board.roundStarted :=
  blind_whenDone hf _ id .settle

theorem blind_begin (hs : ∀ b, f (Board.roundStarted b) = f b) (plan : Plan) :
    f (d.begin id plan).site.board = f d.site.board :=
  (board_begin hf d id plan).trans ((hs _).trans (blind_awaitAll hf d id plan))

end Rounds

/-- No chore moves a reading of the board that is blind to rounds, unless a partition is loaded or
    a node is given up because the topology has changed. -/
theorem blind_chore {f : Board → α} (hf : Board.Blind f) {who : Actor} {d e : Demander}
    (h : Chore who d e) :
    f e.site.board = f d.site.board ∨
      (∃ id job p entries, who = .page id job ∧ e = (d.load job p entries).1) ∨
      d.Outdated ∧ ∃ round node, e = d.cancelNode round node .topologyChanged := by
  cases h with
  | note _ _ _ hm => exact .inl (hf.messages _ _ hm)
  | drain p _ => exact .inl (blind_changeRound hf d _ _)
  | settleMissed => exact .inl (blind_settleMissed hf d _)
  | load p entries => exact .inr (.inl ⟨_, _, p, entries, rfl, rfl⟩)
  | cancel round node reason hl hc =>
    by_cases hr : reason = .topologyChanged
    · exact .inr (.inr ⟨hc hr, round, node, by rw [hr]⟩)
    · exact .inl (blind_cancelNode hf d round node hr)
  | endShipment round s _ _ => exact .inl (blind_endShipment hf d round s)
  | watch tag => exact .inl (blind_whenDone hf d d.current _)
  | _ => exact .inl rfl

/-- Chores move no reading of the board that is blind to rounds, to loads and to nodes that are given
    up for whatever reason. -/
theorem blind_chores {f : Board → α} (hf : Board.Blind f) (hl : Board.BlindToLoads f)
    (hc : ∀ b reason, f (Board.streamCancelled b reason) = f b) {who : Actor} {d e : Demander}
    (h : Chores who d e) : f e.site.board = f d.site.board := by
  induction h with
  | refl => rfl
  | head h _ ih =>
    refine ih.trans ?_
    rcases blind_chore hf h with hsame | ⟨id, job, p, es, -, rfl⟩ | ⟨-, round, node, rfl⟩
    · exact hsame
    · exact blind_load hf _ hl job p es
    · exact (hc _ _).trans (blind_changeRound hf _ round _)

end Demander
end Rebalance
