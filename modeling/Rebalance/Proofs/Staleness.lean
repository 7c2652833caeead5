/-
  Rebalance.Proofs.Staleness

  When a round counts as stale.  Three places ask: a plan that is about to be
  processed, a page that arrives, and whoever says that the topology changed.
  The first compares whether the topology has moved past that of the plan, the
  others whether it is another one.  `outdated_of_cut` finds the second question
  behind every node that is given up for the topology, and
  `stale_cuts_are_timely` says what follows for a round that a plan has started:
  the two agree unless the plan was ahead of the topology, and then its nodes may
  be given up at once (`round_ahead_is_cut`).
-/
import Rebalance.Proofs.Assembly
import Rebalance.Proofs.Redrive
import Rebalance.Proofs.Turns
import Rebalance.Proofs.Meters

namespace Rebalance

theorem CancelReason.label_injective {a b : CancelReason} (h : a.label = b.label) : a = b := by
  revert h
  cases a <;> cases b <;> decide

theorem LabeledCounter.get_inc (c : LabeledCounter) (l m : String) :
    (c.inc l).get m = if m = l then c.get m + 1 else c.get m := by
  unfold LabeledCounter.get LabeledCounter.inc
  rw [SortedMap.get?_alter]
  by_cases h : m = l
  · rw [if_pos h, if_pos h, h]
    rfl
  · rw [if_neg h, if_neg h]

namespace Board

/-- How many nodes were given up because the topology had changed. -/
def staleCuts (b : Board) : UInt64 := b.cancellations.get CancelReason.topologyChanged.label

theorem blind_staleCuts : Blind staleCuts where
  completed _ _ := rfl
  settled _ := rfl
  missed _ := rfl
  messages b c h := by
    obtain ⟨sent, unsent, received, rfl⟩ := h
    rfl
  cancelled b reason h := by
    have hne : CancelReason.topologyChanged.label ≠ reason.label :=
      fun he => h (CancelReason.label_injective he).symm
    exact (LabeledCounter.get_inc _ _ _).trans (if_neg hne)

end Board

namespace Demander

variable {d e : Demander} {R : RoundId} {P : Plan}

/-- How many nodes were given up because the topology had changed. -/
def staleCuts (d : Demander) : UInt64 := d.site.board.staleCuts

/-- A step gives nodes up because the topology has changed. -/
def Cuts (d : Demander) (i : Input) : Prop := (d.step i).staleCuts ≠ d.staleCuts

-- ============================================================================
-- Who gives nodes up for the topology
-- ============================================================================

/-- No chore makes anything outdated. -/
theorem outdated_chore {who : Actor} (h : Chore who d e) (hs : d.Steady) (hf : who.Fits d)
    (ho : e.Outdated) : d.Outdated := by
  have hl := leads_chore h hs hf
  obtain ⟨t, ht, hc⟩ := ho
  rw [hl.affinity] at hc
  refine ⟨t, ht.imp (fun h' => ?_) (fun h' => ?_), hc⟩
  · have hmoved : Moved who d d.current (e.roundOf d.current).round := moved_chore h hs hf
    rw [currentRound, hl.current, Round.topology, hmoved.exchange] at h'
    exact h'
  · rw [hl.plan] at h'
    exact h'

/-- Chores give a node up for the topology only where it is outdated. -/
theorem staleCuts_chores {who : Actor} (h : Chores who d e) (hs : d.Steady) (hf : who.Fits d) :
    e.staleCuts = d.staleCuts ∨ d.Outdated := by
  refine (h.keeps (P := fun e => (e.Outdated → d.Outdated) ∧
    (e.staleCuts = d.staleCuts ∨ d.Outdated)) ?_ hs hf ⟨id, .inl rfl⟩).1.2
  rintro e f ht hse hfe ⟨hback, hcut⟩
  refine ⟨fun ho => hback (outdated_chore ht hse hfe ho), ?_⟩
  rcases blind_chore Board.blind_staleCuts ht with hsame | ⟨id, job, p, es, -, rfl⟩ | ⟨ho, -⟩
  · exact hcut.imp_left hsame.trans
  · refine hcut.imp_left fun h' => Eq.trans ?_ h'
    exact blind_load Board.blind_staleCuts e ⟨fun _ => rfl, fun _ => rfl, fun _ => rfl, fun _ => rfl⟩
      job p es
  · exact .inr (hback ho)

/-- A plan that is processed gives no node up for the topology. -/
theorem staleCuts_launch (d : Demander) (id : JobId) (R : RoundId) (plan : Plan) :
    (d.launch id R plan).staleCuts = d.staleCuts := by
  have hf := Board.blind_staleCuts
  have hdispatch : ∀ (ships : List Shipment) (e : Demander),
      (e.dispatch id R ships).staleCuts = e.staleCuts := by
    intro ships
    induction ships with
    | nil => exact fun _ => rfl
    | cons s rest ih =>
      intro e
      unfold dispatch
      split
      · exact (ih _).trans (blind_endShipment hf e R s)
      · rfl
  rw [launch_eq]
  split
  · exact blind_pass hf d R (fun _ => rfl) plan
  · exact (hdispatch _ _).trans (blind_begin hf d R (fun _ => rfl) _)

/-- Whatever happens, a node is given up for the topology only if it is outdated what the demander
    is at. -/
theorem outdated_of_cut (hs : d.Steady) {i : Input} (h : d.Cuts i) : d.Outdated := by
  have hbase : (d.base i).staleCuts = d.staleCuts := by cases i <;> rfl
  have hback : (d.base i).Outdated → d.Outdated := by cases i <;> exact id
  by_cases hsite : ∃ c, i = .site c
  · obtain ⟨c, rfl⟩ := hsite
    exact absurd (by cases c <;> rfl) h
  have hi : ∀ c, i ≠ .site c := fun c hc => hsite ⟨c, hc⟩
  cases fates hs hi with
  | stays hc _ =>
    rcases staleCuts_chores hc (steady_base hs i) (fits_actor hs i) with hsame | ho
    · exact absurd (hsame.trans hbase) h
    · exact hback ho
  | launches R id plan e hr =>
    have hf := fits_actor hs i
    rw [hr.who] at hf
    rcases staleCuts_chores hr.before (steady_base hs i) hf with hsame | ho
    · refine absurd ?_ h
      rw [hr.step, staleCuts_launch, hsame, hbase]
    · exact hback ho
  | stops hstop hc =>
    subst hstop
    obtain ⟨hse, hfe⟩ := steady_leaving hs
    have hleave : d.leaving.staleCuts = d.staleCuts :=
      blind_abandonRound (f := Board.staleCuts) { d.spawn.1 with stopping := true } fun _ => rfl
    rcases staleCuts_chores hc hse hfe with hsame | ⟨t, ht, hchanged⟩
    · exact absurd (hsame.trans hleave) h
    · have hb := beside_abandonRound { d.spawn.1 with stopping := true }
      have haff : d.leaving.site.affinity = d.site.affinity := hb.affinity
      rw [haff] at hchanged
      refine ⟨t, ?_, hchanged⟩
      have hround : d.leaving.currentRound = d.currentRound := by
        unfold currentRound
        rw [show d.leaving.current = d.current from hb.current]
        exact round_abandonRound { d.spawn.1 with stopping := true } d.current
      unfold PlannedFor
      rw [← hround, ← show d.leaving.plan = d.plan from hb.plan]
      exact ht

/-- What a demander is at, while a round is current that a plan has started, was made for the
    topology of the plan. -/
theorem Pursues.plannedFor (h : Pursues R P d) (hh : Hosts R P d) (hP : P.Uniform)
    (hc : d.current = R) {t : Topology} (ht : d.PlannedFor t) : t = P.topology := by
  rcases ht with ht | ⟨plan, node, demand, hplan, hget, rfl⟩
  · rw [currentRound, hc, Round.topology, h.exchange] at ht
    exact (Option.some.inj ht).symm
  · rw [hh.planned hc, Option.some.injEq] at hplan
    subst hplan
    exact hP node demand hget

-- ============================================================================
-- The current topology
-- ============================================================================

/-- The topology never goes back. -/
theorem never_back (hs : d.Steady) (inputs : List Input) :
    Key.below (d.run inputs).site.affinity.current d.site.affinity.current = false := by
  induction inputs generalizing d with
  | nil => exact Key.below_irrefl _
  | cons i inputs ih =>
    refine Key.not_below_trans ?_ (ih (steady_step hs i))
    by_cases hsite : ∃ c, i = .site c
    · obtain ⟨c, rfl⟩ := hsite
      cases c with
      | advance version => exact Topology.not_below_latest _ _
      | _ => exact Key.below_irrefl _
    · have ht := step_ticks hs fun c hc => hsite ⟨c, hc⟩
      rw [ht.site.1.affinity, site_base]
      exact Key.below_irrefl _

-- ============================================================================
-- The end of a stale round
-- ============================================================================

/-- A round that is bound is over once every node that it awaits is given up. -/
theorem done_cancelAll (reason : CancelReason) (hl : R < d.rounds.length)
    (hst : (d.roundOf R).round.Standing) (ha : (d.roundOf R).round.attached = true)
    {nodes : List NodeId} (hn : ∀ n p, p ∈ (d.roundOf R).round.outstandingFrom n → n ∈ nodes) :
    ((nodes.foldl (fun d node => d.cancelNode R node reason) d).roundOf R).round.isDone = true := by
  induction nodes generalizing d with
  | nil => exact hst.done_of_none ha fun n p hp => List.not_mem_nil (hn n p hp)
  | cons n rest ih =>
    have hr := round_cancelNode d n hl R reason
    rw [if_pos rfl] at hr
    refine ih ?_ ?_ ?_ ?_
    · rw [(beside_cancelNode d R n reason).rounds]
      exact hl
    · rw [hr]
      exact Round.standing_cancel hst n
    · rw [hr]
      exact (Round.attached_cancel hst n).trans ha
    · intro m p hm
      rw [hr, Round.mem_outstandingFrom_cancel _ n m p hst.toSound] at hm
      exact (List.mem_cons.mp (hn m p hm.1)).resolve_left hm.2

/-- To look after a round that was made for another topology than the current one ends it; any other
    stays as it is. -/
theorem done_cancelIfStale (hs : d.Steady) {id : RoundId} (hb : d.Bound id) {t : Topology}
    (ht : (d.roundOf id).round.topology = some t) :
    if d.site.affinity.current = t then d.cancelIfStale id = d
    else ((d.cancelIfStale id).roundOf id).round.isDone = true := by
  unfold cancelIfStale
  simp only [ht]
  by_cases hsame : d.site.affinity.current = t
  · rw [if_pos hsame, if_pos (by simp [Affinity.changedFrom, hsame])]
  · rw [if_neg hsame]
    split
    · next h =>
      simpa [Affinity.changedFrom, hsame] using h
    · refine done_cancelAll _ hb.1 (hs.standing id) hb.2 fun n p hp => ?_
      exact (hs.standing id).mem_outstandingNodes_iff.mpr ⟨p, hp⟩

/-- A page whose demand was made for another topology than the current one has its sender given
    up. -/
theorem cuts_page {worker : WorkerId} {sender : NodeId} {page : Supply} {demand : Demand}
    (hstop : d.stopping = false) (hp : d.plan = some P) (hd : P.get? sender = some demand)
    (hc : d.site.affinity.current ≠ demand.topology) : d.Cuts (.page worker sender page) := by
  have hstep : d.step (.page worker sender page) =
      ((d.spawn.1.measure Board.pageReceived).cancelNode d.current sender .topologyChanged).finish
        d.nextJob (.ok ()) := by
    have hplan : (d.spawn.1.measure Board.pageReceived).plan = some P := hp
    have hchanged : (d.spawn.1.measure Board.pageReceived).site.affinity.changedFrom
        demand.topology = true := decide_eq_true hc
    change d.spawn.1.startPage d.nextJob worker sender page = _
    unfold startPage letIn
    rw [if_neg (by rw [show d.spawn.1.stopping = false from hstop]; nofun)]
    simp only [hplan, hd, hchanged, if_true]
    rfl
  have hone : (d.step (.page worker sender page)).staleCuts = d.staleCuts + 1 := by
    rw [hstep]
    refine (LabeledCounter.get_inc _ _ _).trans ?_
    rw [if_pos rfl]
    exact congrArg (· + 1) (blind_changeRound Board.blind_staleCuts
      (d.spawn.1.measure Board.pageReceived) d.current (.cancel sender))
  unfold Cuts
  rw [hone]
  simp

-- ============================================================================
-- A round and its topology
-- ============================================================================

/-- A round is started only if the topology has not moved past that of its plan.  From then on, in
    any run: when another round is current it is over, and while it is current a node is given up
    for the topology only if the current one differs from that of the plan; it has moved past it
    then, unless the plan was ahead when the round was started.  Where they differ, it ends the
    round to say that the topology changed, and each page from a node of the plan has that node
    given up; where they do not, neither happens. -/
theorem stale_cuts_are_timely (hd : d.Reachable) (hP : P.Uniform)
    (ha : (d.roundOf R).round.attached = false) {i : Input} (hc : (d.step i).current = R)
    (hp : (d.step i).plan = some P) (inputs : List Input) :
    let now := (d.step i).run inputs
    Key.below P.topology d.site.affinity.current = false ∧
      (now.current ≠ R → (now.roundOf R).round.isDone = true) ∧
      (now.current = R →
        (∀ next, now.Cuts next → now.site.affinity.current ≠ P.topology ∧
          (Key.below d.site.affinity.current P.topology = false →
            Key.below P.topology now.site.affinity.current = true)) ∧
        (if now.site.affinity.current = P.topology then now.step .topologyChanged = now
          else ((now.step .topologyChanged).roundOf R).round.isDone = true) ∧
        ∀ worker sender page demand, now.stopping = false → P.get? sender = some demand →
          (now.Cuts (.page worker sender page) ↔ now.site.affinity.current ≠ P.topology)) := by
  intro now
  obtain ⟨hh, hpur, -⟩ := pursues_begun hd.steady ha hc hp
  obtain ⟨id, plan, e, hopens⟩ := opens_of_started hd.steady ha hc hp
  have hs' := steady_step hd.steady i
  have hnow : now.Reachable := hd.run (i :: inputs)
  have hosts : Hosts R P now := hosts_run hs' hh inputs
  have hpursues : Pursues R P now := pursues_run hs' hh hpur inputs
  have hadvanced : Key.below now.site.affinity.current d.site.affinity.current = false :=
    never_back hd.steady (i :: inputs)
  have hdiffers : now.current = R → ∀ next, now.Cuts next →
      now.site.affinity.current ≠ P.topology := by
    intro hcur next hcut
    obtain ⟨t, ht, hchanged⟩ := outdated_of_cut hnow.steady hcut
    rw [hpursues.plannedFor hosts hP hcur ht] at hchanged
    exact of_decide_eq_true hchanged
  refine ⟨hopens.timely, fun hne => ?_, fun hcur => ⟨fun next hcut => ?_, ?_, ?_⟩⟩
  · exact hnow.turns.2 R hosts.bound.2 hne.symm
  · have hne := hdiffers hcur next hcut
    refine ⟨hne, fun hahead => ?_⟩
    rw [Key.eq_of_not_below hahead hopens.timely] at hadvanced
    cases hbelow : Key.below P.topology now.site.affinity.current with
    | true => rfl
    | false => exact absurd (Key.eq_of_not_below hadvanced hbelow) hne
  · have htop : (now.roundOf R).round.topology = some P.topology :=
      congrArg (Option.map Exchange.topology) hpursues.exchange
    rw [show now.step .topologyChanged = now.cancelIfStale R from hcur ▸ rfl]
    exact done_cancelIfStale hnow.steady hosts.bound htop
  · intro worker sender page demand hstop hget
    have hdemand : demand.topology = P.topology := hP sender demand hget
    exact ⟨hdiffers hcur _, fun hne => cuts_page hstop (hosts.planned hcur) hget (hdemand ▸ hne)⟩

/-! ## A round whose topology is left behind, and one that is ahead -/

/-- A plan that asks node 5 for partition 3 at a topology, with the settings of `solo`. -/
def plannedAt (version : Topology) : Plan :=
  (planFor version [(5, [3])]).stamp (Span.ofSecs 10) 524288

/-- The topology moves past that of the plan, and the node is given up. -/
theorem round_behind_is_cut :
    let i : Input := .add (planFor ⟨1, 0⟩ [(5, [3])]) true
    let inputs : List Input := [.answer 0 (.ok ()), .site (.advance ⟨2, 0⟩)]
    let now := ((solo 3).step i).run inputs
    (solo 3).Reachable ∧ (plannedAt ⟨1, 0⟩).Uniform ∧
      ((solo 3).roundOf 0).round.attached = false ∧ ((solo 3).step i).current = 0 ∧
      ((solo 3).step i).plan = some (plannedAt ⟨1, 0⟩) ∧ now.Cuts .topologyChanged ∧
      Key.below (plannedAt ⟨1, 0⟩).topology now.site.affinity.current = true := by
  intro i inputs now
  have huniform : (plannedAt ⟨1, 0⟩).Uniform := (Plan.uniform_planFor _ _).stamp _ _
  have hplan : ((solo 3).step i).plan = some (plannedAt ⟨1, 0⟩) := rfl
  have hcut : now.Cuts .topologyChanged := by
    unfold Cuts
    decide +kernel
  have hchecks := stale_cuts_are_timely (reachable_solo 3) huniform
    (show ((solo 3).roundOf 0).round.attached = false from rfl)
    (show ((solo 3).step i).current = 0 by decide +kernel) hplan inputs
  have hcur : now.current = 0 := by decide +kernel
  exact ⟨reachable_solo 3, huniform, rfl, by decide +kernel, hplan, hcut,
    ((hchecks.2.2 hcur).1 _ hcut).2 (by decide +kernel)⟩

/-- A plan is ahead of the topology, so it starts a round; whoever then says that the topology
    changed, which it did not, has the node given up. -/
theorem round_ahead_is_cut :
    let i : Input := .add (planFor ⟨2, 0⟩ [(5, [3])]) true
    let now := ((solo 3).step i).step (.answer 0 (.ok ()))
    (solo 3).Reachable ∧ ((solo 3).roundOf 0).round.attached = false ∧
      ((solo 3).step i).current = 0 ∧ ((solo 3).step i).plan = some (plannedAt ⟨2, 0⟩) ∧
      now.current = 0 ∧ now.site.affinity.current = (solo 3).site.affinity.current ∧
      Key.below now.site.affinity.current (plannedAt ⟨2, 0⟩).topology = true ∧
      5 ∈ now.currentRound.outstandingNodes ∧ now.Cuts .topologyChanged ∧
      5 ∉ (now.step .topologyChanged).currentRound.outstandingNodes := by
  refine ⟨reachable_solo 3, rfl, ?_, ?_, ?_, ?_, ?_, ?_, ?_, ?_⟩
  · decide +kernel
  · rfl
  · decide +kernel
  · decide +kernel
  · decide +kernel
  · decide +kernel
  · unfold Cuts
    decide +kernel
  · decide +kernel

end Demander
end Rebalance
