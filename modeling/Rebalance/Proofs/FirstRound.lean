/-
  Rebalance.Proofs.FirstRound

  The round that is there from the start.  A demander has a round before it has
  a plan, for others to wait for.  `launches_cases` says of every step that it
  processes a plan, which the meters count, or leaves all rounds as bound as
  they were.  Until a plan is processed nothing waits and the first round is
  free (`Unused`), so the only step that processes one is a call that accepts
  it at once, and it takes the first round (`FirstUse`); every later plan finds
  that round bound and takes another.
-/
import Rebalance.Proofs.Launching
import Rebalance.Proofs.Rounds
import Rebalance.Proofs.Stopped
import Rebalance.Proofs.Unsent

namespace Rebalance

-- ============================================================================
-- What counts plans
-- ============================================================================

namespace Board

theorem blind_roundsNoop : Blind fun b : Board => b.roundsNoop.value :=
  ⟨fun _ _ => rfl, fun _ => rfl, fun _ => rfl, fun _ _ ⟨_, _, _, h⟩ => by rw [h], fun _ _ _ => rfl⟩

end Board

namespace Demander

section Counting

variable {d e : Demander} {i : Input} {R : RoundId} {P plan : Plan} {id : JobId}

/-- How many plans left nothing to do. -/
def countNoop (d : Demander) : UInt64 := d.site.board.roundsNoop.value

/-- Whether a step processes a plan: the meters count a round as started, or as one that had
    nothing to do. -/
def launches (d : Demander) (i : Input) : Bool :=
  (d.step i).countStarted != d.countStarted || (d.step i).countNoop != d.countNoop

/-- The rounds with which a run processes plans, in order. -/
def uses (d : Demander) : List Input → List RoundId
  | [] => []
  | i :: rest => (if d.launches i then [(d.step i).current] else []) ++ (d.step i).uses rest

theorem countNoop_chores {who : Actor} (h : Chores who d e) : e.countNoop = d.countNoop :=
  blind_chores Board.blind_roundsNoop ⟨fun _ => rfl, fun _ => rfl, fun _ => rfl, fun _ => rfl⟩
    (fun _ _ => rfl) h

theorem counts_base (d : Demander) (i : Input) :
    (d.base i).countStarted = d.countStarted ∧ (d.base i).countNoop = d.countNoop := by
  rw [countStarted, countNoop, site_base]
  exact ⟨rfl, rfl⟩

theorem countNoop_pass (d : Demander) (R : RoundId) (plan : Plan) :
    (d.pass R plan).countNoop = d.countNoop + 1 :=
  congrArg (· + 1) ((blind_changeRound Board.blind_roundsNoop _ R .complete).trans
    (blind_changeRound Board.blind_roundsNoop d R (.attach plan.exchange)))

theorem launches_of_same (hs : (d.step i).countStarted = d.countStarted)
    (hn : (d.step i).countNoop = d.countNoop) : d.launches i = false := by
  simp [launches, hs, hn]

theorem Reaches.counts (h : Reaches d i R id plan e) :
    e.countStarted = d.countStarted ∧ e.countNoop = d.countNoop := by
  obtain ⟨hs, hn⟩ := counts_base d i
  exact ⟨(countStarted_chores h.before).trans hs, (countNoop_chores h.before).trans hn⟩

/-- Where a plan gets to a round one is counted. -/
theorem Reaches.launches (h : Reaches d i R id plan e) : d.launches i = true := by
  obtain ⟨hs, hn⟩ := h.counts
  rcases h.outcome with he | ⟨P, ho⟩
  · have hcount : (d.step i).countNoop = d.countNoop + 1 := by
      rw [he, ← hn]
      exact countNoop_pass e R plan
    simp [Demander.launches, hcount]
  · have hcount : (d.step i).countStarted = d.countStarted + 1 := by
      rw [countStarted_chores ho.chores, countStarted_begin, hs]
    simp [Demander.launches, hcount]

/-- The current round and its plan stay, and all rounds are as bound as they were. -/
structure Lingers (d e : Demander) : Prop where
  current : e.current = d.current
  plan : e.plan = d.plan
  attached : ∀ R, (e.roundOf R).round.attached = (d.roundOf R).round.attached

theorem Leads.lingers (h : Leads d e) : Lingers d e := ⟨h.current, h.plan, h.attached⟩

/-- A step processes a plan with a round that was not bound before, or binds none. -/
theorem launches_cases (hs : d.Steady) (i : Input) :
    (d.launches i = false ∧ Lingers d (d.step i)) ∨
      d.launches i = true ∧ ∃ R id plan e, Reaches d i R id plan e := by
  by_cases hsite : ∃ c, i = .site c
  · obtain ⟨c, rfl⟩ := hsite
    have hboard := d.site.board_change c
    exact .inl ⟨launches_of_same (congrArg (·.roundsStarted.value) hboard)
      (congrArg (·.roundsNoop.value) hboard), rfl, rfl, fun _ => rfl⟩
  obtain ⟨hstarted, hnoop⟩ := counts_base d i
  cases fates hs fun c hc => hsite ⟨c, hc⟩ with
  | stays h hl =>
    exact .inl ⟨launches_of_same ((countStarted_chores h).trans hstarted)
      ((countNoop_chores h).trans hnoop), hl.lingers⟩
  | launches R id plan e h => exact .inr ⟨h.launches, R, id, plan, e, h⟩
  | stops hstop h =>
    subst hstop
    refine .inl ⟨launches_of_same ?_ ?_, (leads_stop hs).lingers⟩
    · refine (countStarted_chores h).trans (Eq.trans ?_ hstarted)
      exact blind_abandonRound (f := fun b => b.roundsStarted.value)
        { d.spawn.1 with stopping := true } fun _ => rfl
    · refine (countNoop_chores h).trans (Eq.trans ?_ hnoop)
      exact blind_abandonRound (f := fun b => b.roundsNoop.value)
        { d.spawn.1 with stopping := true } fun _ => rfl

/-- A round that is bound is not used again. -/
theorem not_mem_uses (hs : d.Steady) (hb : d.Bound R) (inputs : List Input) :
    R ∉ d.uses inputs := by
  induction inputs generalizing d with
  | nil => exact List.not_mem_nil
  | cons i inputs ih =>
    rw [uses, List.mem_append, not_or]
    refine ⟨?_, ih (steady_step hs i) (bound_step hs hb i)⟩
    rcases launches_cases hs i with ⟨hp, -⟩ | ⟨hp, Q, id, plan, e, hr⟩
    · simp [hp]
    · rw [if_pos hp, List.mem_singleton, hr.current]
      rintro rfl
      have hfree := hr.free
      rw [hr.leads.attached, hb.2] at hfree
      cases hfree

end Counting

-- ============================================================================
-- Before the first plan
-- ============================================================================

/-- A call with a plan goes on to process it: the demander takes part and is not stopping, has no
    failure to return, and does not put the plan off. -/
structure Accepts (d : Demander) (force : Bool) : Prop where
  active : d.settings.isActive = true
  stopping : d.stopping = false
  fault : d.fault = none
  mode : d.schedule.startMode force = .immediate

/-- A demander that has not processed a plan: nothing waits, and the round that is there from the
    start is the current one and free. -/
structure Unused (d : Demander) : Prop where
  reachable : d.Reachable
  current : d.current = 0
  plan : d.plan = none
  free : (d.roundOf 0).round.attached = false
  jobs : ∀ id, d.job? id = none

section Unused

variable {d e : Demander} {i : Input} {plan : Plan} {force : Bool} {id : JobId}

theorem site_takeFault (d : Demander) : d.takeFault.1.site = d.site := by
  unfold takeFault
  cases d.fault <;> rfl

/-- A call that is not accepted returns there and then, and the node is as it was. -/
theorem add_refused (h : ¬ d.Accepts force) (plan : Plan) :
    ∃ (e : Demander) (r : Except Fault Unit),
      d.step (.add plan force) = e.finish d.nextJob r ∧ e.site = d.site := by
  have hsite : d.spawn.1.takeFault.1.site = d.site := site_takeFault d.spawn.1
  change ∃ (e : Demander) (r : Except Fault Unit),
    d.spawn.1.startAdd d.nextJob plan force = e.finish d.nextJob r ∧ e.site = d.site
  rw [startAdd_eq]
  split
  · exact ⟨_, _, rfl, hsite⟩
  · next hfault =>
    split
    · exact ⟨_, _, rfl, hsite⟩
    · next hopen =>
      split
      · exact ⟨_, _, rfl, hsite⟩
      · split
        · exact ⟨_, _, rfl, hsite⟩
        · exact ⟨{ d.spawn.1.takeFault.1 with schedule := _ }, _, rfl, hsite⟩
      · next hmode =>
        simp only [Bool.or_eq_true, Bool.not_eq_true', not_or, Bool.not_eq_false,
          Bool.not_eq_true] at hopen
        refine absurd ⟨hopen.1, hopen.2, ?_, hmode⟩ h
        change d.spawn.1.fault = none
        unfold takeFault at hfault
        split at hfault
        · assumption
        · cases hfault

/-- A call that is accepted before any plan was processed gets to the first round. -/
theorem Unused.reaches (h : d.Unused) (ha : d.Accepts force) (plan : Plan) :
    ∃ e, Reaches d (.add plan force) 0 d.nextJob plan e := by
  have hcur : d.currentRound.attached = false := by
    rw [currentRound, h.current]
    exact h.free
  have hopen : d.Open := ⟨h.reachable, ha.active, ha.stopping, ha.fault,
    SortedMap.eq_empty_iff.mpr h.jobs, fun hatt => by rw [hcur] at hatt; cases hatt⟩
  have hchore : Chores (.call d.nextJob) (d.base (.add plan force))
      (d.spawn.1.park d.nextJob (.queued plan)) := .single (chore_wait _ (.queued plan) rfl rfl)
  have hs := h.reachable.steady
  have hadd := add_eq_of_open hopen ha.mode plan
  rw [hcur, if_neg Bool.false_ne_true, h.current] at hadd
  have hfree : ∀ k x, d.job? k = some x → x.isPlanning = false := by
    intro k x hk
    cases (h.jobs k).symm.trans hk
  refine ⟨_, rfl, ⟨d.current, .added force rfl rfl hfree, fun hatt => ?_⟩, hchore,
    (leads_base d _).trans (leads_chores hchore hs.spawn (Nat.lt_succ_self _)).1,
    hopen.steady_queued plan, Nat.lt_succ_self _, ?_, h.free, hadd⟩
  · change d.currentRound.attached = true at hatt
    rw [hcur] at hatt
    cases hatt
  · have hlen := hs.current
    rw [h.current] at hlen
    exact hlen

/-- Before any plan was processed, a step processes one if it is a call that accepts it. -/
theorem Unused.launches_iff (h : d.Unused) (i : Input) :
    d.launches i = true ↔ ∃ plan force, i = .add plan force ∧ d.Accepts force := by
  constructor
  · intro hp
    rcases launches_cases h.reachable.steady i with ⟨hn, -⟩ | ⟨-, R, id, plan, e, hr⟩
    · rw [hp] at hn
      cases hn
    · obtain ⟨previous, hb, -⟩ := hr.follows
      cases hb with
      | added force _ _ _ =>
        refine ⟨plan, force, rfl, ?_⟩
        by_contra hno
        obtain ⟨e', r, he, hsite⟩ := add_refused hno plan
        have hsame : (d.step (.add plan force)).site = d.site := by
          rw [he]
          exact hsite
        rw [launches, countStarted, countNoop, hsame] at hp
        simp [countStarted, countNoop] at hp
      | queued hj _ _ => cases (h.jobs id).symm.trans hj
      | awaited hj => cases (h.jobs id).symm.trans hj
  · rintro ⟨plan, force, rfl, ha⟩
    obtain ⟨e, hr⟩ := h.reaches ha plan
    exact hr.launches

/-- Where nothing waits nothing waits after a step that processes no plan. -/
theorem Unused.jobs_step (h : d.Unused) (hp : d.launches i = false) (id : JobId) :
    (d.step i).job? id = none := by
  have hs := h.reachable.steady
  by_cases hw : (d.actor i).id? = some id
  swap
  · exact (job_of_other hs hw).trans (h.jobs id)
  have hnobody : ∀ k, (d.actorOf k).id? = some id → False := by
    intro k hk
    obtain ⟨rfl, j, hj⟩ := id_of_actorOf hk
    cases (h.jobs k).symm.trans hj
  cases i with
  | add plan force =>
    obtain rfl : d.nextJob = id := Option.some.inj hw
    have hno : ¬ d.Accepts force := by
      intro ha
      rw [h.launches_iff _ |>.mpr ⟨plan, force, rfl, ha⟩] at hp
      cases hp
    obtain ⟨e, r, he, -⟩ := add_refused hno plan
    rw [he, job?_finish_self]
  | page worker sender page =>
    have hnone : d.accepted worker sender page = none := by
      rw [accepted, wanted, h.plan]
      exact ite_self none
    simp only [actor, hnone] at hw
    obtain rfl : d.nextJob = id := Option.some.inj hw
    exact job?_refused hnone
  | stop =>
    obtain rfl : d.nextJob = id := Option.some.inj hw
    have hidle : (d.leaving.park d.nextJob .stopping).isBusy = false := by
      rw [isBusy_leaving hs, isBusy_eq_false_iff]
      intro k j hj
      cases (h.jobs k).symm.trans hj
    rw [step_stop, endStop, if_neg (by rw [hidle]; exact Bool.false_ne_true), returnFault,
      job?_finish_self]
  | resume k => exact (hnobody k hw).elim
  | answer k r => exact (hnobody k hw).elim
  | _ => cases hw

theorem Unused.step (h : d.Unused) (hp : d.launches i = false) : (d.step i).Unused := by
  rcases launches_cases h.reachable.steady i with ⟨-, hl⟩ | ⟨hyes, -⟩
  · exact ⟨h.reachable.run [i], hl.current.trans h.current, hl.plan.trans h.plan,
      (hl.attached 0).trans h.free, h.jobs_step hp⟩
  · rw [hp] at hyes
    cases hyes

theorem Unused.run (h : d.Unused) {inputs : List Input} (hu : d.uses inputs = []) :
    (d.run inputs).Unused := by
  induction inputs generalizing d with
  | nil => exact h
  | cons i inputs ih =>
    rw [uses, List.append_eq_nil_iff] at hu
    have hp : d.launches i = false := by
      cases hi : d.launches i with
      | false => rfl
      | true =>
        rw [hi] at hu
        cases hu.1
    exact ih (h.step hp) hu.2

/-- The first round is not over as long as it is free. -/
theorem Unused.not_done (h : d.Unused) : (d.roundOf 0).round.isDone = false := by
  have hs := h.reachable.steady.standing 0
  rw [← hs.closed_iff]
  exact (hs.fresh h.free).1

/-- A demander that takes part has not processed a plan when it has come into being. -/
theorem unused_create {σ : Type} {settings : Settings} {site : Site}
    {register : Topic → σ → Except Fault σ} {s t : σ} {d : Demander}
    (h : create settings site register s = (t, .ok d)) (ha : settings.isActive = true) :
    d.Unused := by
  have hreach : d.Reachable := ⟨σ, settings, site, register, s, t, d, [], h, rfl⟩
  have hnone : ∀ id, (∅ : SortedMap JobId Job).get? id = none := SortedMap.get?_empty
  unfold create at h
  split at h
  · cases h
  · simp only [ha, if_true] at h
    split at h
    · cases h
    · cases h
      exact ⟨hreach, rfl, rfl, rfl, hnone⟩

/-- A run that processes plans has a first step that does. -/
theorem uses_first (d : Demander) {inputs : List Input} (h : d.uses inputs ≠ []) :
    ∃ before i rest, inputs = before ++ i :: rest ∧ d.uses before = [] ∧
      (d.run before).launches i = true := by
  induction inputs generalizing d with
  | nil => exact absurd rfl h
  | cons i inputs ih =>
    cases hi : d.launches i with
    | true => exact ⟨[], i, inputs, rfl, rfl, hi⟩
    | false =>
      have hrest : (d.step i).uses inputs ≠ [] := by
        rw [uses, hi] at h
        exact h
      obtain ⟨before, j, rest, rfl, hnone, hj⟩ := ih (d.step i) hrest
      refine ⟨i :: before, j, rest, rfl, ?_, hj⟩
      rw [uses, hi]
      exact hnone

end Unused

-- ============================================================================
-- The first plan
-- ============================================================================

/-- A call gets its plan processed with the first round: the round is bound to the exchange of the
    plan, and over at once if there is nothing to do, or else awaits what the plan asks for. -/
structure FirstUse (d : Demander) (plan : Plan) (force : Bool) : Prop where
  accepts : d.Accepts force
  current : (d.step (.add plan force)).current = 0
  attached : ((d.step (.add plan force)).roundOf 0).round.attached = true
  exchange : ((d.step (.add plan force)).roundOf 0).round.exchange = some plan.exchange
  outcome :
    let e := d.step (.add plan force)
    let idle := plan.isEmpty = true ∨ Key.below plan.topology d.site.affinity.current = true
    (idle ∧ e.countNoop = d.countNoop + 1 ∧ e.countStarted = d.countStarted ∧ e.plan = none ∧
      (e.roundOf 0).round.isDone = true) ∨
    (¬ idle ∧ e.countNoop = d.countNoop ∧ e.countStarted = d.countStarted + 1 ∧
      e.plan = some (plan.stamp d.settings.timeout d.settings.batchSize) ∧
      (e.roundOf 0).round.isDone = false ∧
      ∀ n p, p ∈ (e.roundOf 0).round.outstandingFrom n ↔ plan.Asks n p)

section FirstUse

variable {d e : Demander} {i : Input} {R : RoundId} {P plan : Plan} {force : Bool} {id : JobId}

/-- What a plan asks for is what its round awaits. -/
theorem mem_outstandingFrom_begin (hs : d.Steady) (hl : R < d.rounds.length)
    (ha : (d.roundOf R).round.attached = false) (n : NodeId) (p : PartitionId) :
    p ∈ ((d.begin R P).roundOf R).round.outstandingFrom n ↔ P.Asks n p := by
  refine ⟨fun hp => ?_, fun ⟨demand, hn, hp⟩ => awaits_begin hs hl ha hn hp⟩
  obtain ⟨-, -, -, -, -, -, hget⟩ := Round.started_answers (hs.standing R) ha P
  rw [round_begin d hl, if_pos rfl, Round.outstandingFrom_congr (Round.onDone_answers _ _).1,
    Round.mem_outstandingFrom_iff] at hp
  obtain ⟨ps, hps, hp⟩ := hp
  rw [hget n] at hps
  obtain ⟨demand, hn, hd⟩ := Option.bind_eq_some_iff.mp hps
  split at hd
  · cases hd
  · cases hd
    exact ⟨demand, hn, hp⟩

/-- The round of a plan that has just been started is the one that the plan begins. -/
theorem Opens.fresh (h : Opens d i R P id plan e) :
    (∀ Q, (d.step i).roundOf Q = (e.begin R P).roundOf Q) ∧
      (d.step i).site = (e.begin R P).site := by
  rw [h.starts]
  refine dispatch_untried _ id R fun s hs => ?_
  obtain ⟨x, -, rfl⟩ := List.mem_map.mp hs
  rfl

theorem Reaches.firstUse (h : Reaches d (.add plan force) 0 id plan e) (hd : d.Steady)
    (ha : d.Accepts force) : d.FirstUse plan force := by
  have hatt : ((d.step (.add plan force)).roundOf 0).round.attached = true := by
    rw [h.attached, if_pos rfl]
  have hstanding := (steady_step hd (.add plan force)).standing 0
  obtain ⟨hstarted, hnoop⟩ := h.counts
  have he := h.step
  rw [launch_eq, h.leads.settings, h.leads.affinity] at he
  split at he
  · next hidle =>
    have hround : ((d.step (.add plan force)).roundOf 0).round =
        ((e.roundOf 0).round.attach plan.exchange).after .complete := by
      rw [he]
      exact (round_pass e h.there plan 0).trans (if_pos rfl)
    refine ⟨ha, h.current, hatt, ?_, .inl ⟨hidle, ?_, ?_, ?_, ?_⟩⟩
    · rw [hround, exchange_after _ (c := .complete) nofun]
      rfl
    · rw [he, ← hnoop]
      exact countNoop_pass e 0 plan
    · rw [he, ← hstarted]
      exact blind_pass Board.blind_roundsStarted e 0 (fun _ => rfl) plan
    · rw [he]
      exact (beside_pass e 0 plan).plan
    · rw [hround, Round.isDone, Promise.isDone]
      exact congrArg Option.isSome (Round.summary_complete (h.steady.standing 0) h.free plan.exchange)
  · next hidle =>
    have hopens : Opens d (.add plan force) 0
        (plan.stamp d.settings.timeout d.settings.batchSize) id plan e := by
      simp only [not_or, Bool.not_eq_true] at hidle
      exact ⟨h, rfl, (isEmpty_stamp plan _ _).trans hidle.1, hidle.2, he⟩
    obtain ⟨hrounds, hsite⟩ := hopens.fresh
    have hround := round_begin e h.there (plan.stamp d.settings.timeout d.settings.batchSize) 0
    rw [if_pos rfl] at hround
    obtain ⟨hclosed, -, -, hexchange, -, -, -⟩ := Round.started_answers (h.steady.standing 0) h.free
      (plan.stamp d.settings.timeout d.settings.batchSize)
    refine ⟨ha, h.current, hatt, ?_, .inr ⟨hidle, ?_, ?_, hopens.after.2, ?_, fun n p => ?_⟩⟩
    · rw [hrounds, hround]
      exact hexchange
    · rw [countNoop, hsite, ← hnoop]
      exact blind_begin Board.blind_roundsNoop e 0 (fun _ => rfl) _
    · rw [countStarted, hsite, ← hstarted]
      exact countStarted_begin e 0 _
    · rw [← hstanding.closed_iff, hrounds, hround]
      exact hclosed
    · rw [hrounds, mem_outstandingFrom_begin h.steady h.there h.free]
      exact Plan.asks_stamp _ _

/-- The exchange of a round that is bound stays. -/
theorem exchange_step (hs : d.Steady) (hb : d.Bound R) (i : Input) :
    ((d.step i).roundOf R).round.exchange = (d.roundOf R).round.exchange := by
  by_cases hsite : ∃ c, i = .site c
  · obtain ⟨c, rfl⟩ := hsite
    rfl
  · have hkeep : (d.step i).Bound R ∧
        ((d.step i).roundOf R).round.exchange = (d.roundOf R).round.exchange := by
      refine step_keeps
        (P := fun e => e.Bound R ∧ (e.roundOf R).round.exchange = (d.roundOf R).round.exchange)
        hs (fun c hc => hsite ⟨c, hc⟩) ?_ fun e f ht hse hf he =>
          ⟨(onward_tick ht hse hf).bound he.1, (moved_tick ht hse hf he.1).exchange.trans he.2⟩
      cases i <;> exact ⟨hb, rfl⟩
    exact hkeep.2

theorem bound_run (hs : d.Steady) (hb : d.Bound R) (inputs : List Input) :
    (d.run inputs).Bound R ∧
      ((d.run inputs).roundOf R).round.exchange = (d.roundOf R).round.exchange := by
  induction inputs generalizing d with
  | nil => exact ⟨hb, rfl⟩
  | cons i inputs ih =>
    obtain ⟨hbound, hsame⟩ := ih (steady_step hs i) (bound_step hs hb i)
    exact ⟨hbound, hsame.trans (exchange_step hs hb i)⟩

/-- A round that is bound is over when it awaits nothing any more. -/
theorem done_iff_of_bound (hs : d.Steady) (hb : d.Bound R) :
    (d.roundOf R).round.isDone = true ↔ (d.roundOf R).round.outstanding = ∅ := by
  have hst := hs.standing R
  rw [← hst.closed_iff]
  exact ⟨hst.settled, hst.closes hb.2⟩

end FirstUse

-- ============================================================================
-- Runs
-- ============================================================================

/-- What a run does with the round that is there from the start. -/
structure InitialRound (start : Demander) (inputs : List Input) : Prop where
  /-- As long as no plan is processed it is the current one, not bound and not over. -/
  unused : start.uses inputs = [] →
    (start.run inputs).current = 0 ∧ ((start.run inputs).roundOf 0).round.attached = false ∧
      ((start.run inputs).roundOf 0).round.isDone = false
  /-- Then only a call that accepts its plan gets a plan processed. -/
  next : start.uses inputs = [] → ∀ i, (start.run inputs).launches i = true ↔
    ∃ plan force, i = .add plan force ∧ (start.run inputs).Accepts force
  /-- The first plan that is processed uses it, and no other one does; it stays bound to the
      exchange of that plan, and is over once it awaits nothing any more. -/
  used : start.uses inputs ≠ [] → ∃ before plan force rest,
    inputs = before ++ .add plan force :: rest ∧ start.uses before = [] ∧
      (start.run before).FirstUse plan force ∧
      0 ∉ ((start.run before).step (.add plan force)).uses rest ∧
      ((start.run inputs).roundOf 0).round.attached = true ∧
      ((start.run inputs).roundOf 0).round.exchange = some plan.exchange ∧
      (((start.run inputs).roundOf 0).round.isDone = true ↔
        ((start.run inputs).roundOf 0).round.outstanding = ∅)

theorem Unused.initialRound {start : Demander} (h : start.Unused) (inputs : List Input) :
    start.InitialRound inputs where
  unused hu := ⟨(h.run hu).current, (h.run hu).free, (h.run hu).not_done⟩
  next hu := (h.run hu).launches_iff
  used hu := by
    obtain ⟨before, i, rest, rfl, hnone, hi⟩ := uses_first start hu
    have hbefore := h.run hnone
    obtain ⟨plan, force, rfl, ha⟩ := (hbefore.launches_iff i).mp hi
    obtain ⟨e, hr⟩ := hbefore.reaches ha plan
    have hfirst := hr.firstUse hbefore.reachable.steady ha
    have hs := steady_step hbefore.reachable.steady (.add plan force)
    have hb : ((start.run before).step (.add plan force)).Bound 0 := by
      refine ⟨?_, hfirst.attached⟩
      have hlen := hs.current
      rw [hfirst.current] at hlen
      exact hlen
    obtain ⟨hbound, hexchange⟩ := bound_run hs hb rest
    have hrun : start.run (before ++ .add plan force :: rest) =
        ((start.run before).step (.add plan force)).run rest := List.foldl_append
    refine ⟨before, plan, force, rest, rfl, hnone, hfirst, not_mem_uses hs hb rest, ?_⟩
    rw [hrun]
    exact ⟨hbound.2, hexchange.trans hfirst.exchange, done_iff_of_bound (steady_run hs rest) hbound⟩

end Demander
end Rebalance
