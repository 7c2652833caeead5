/-
  Rebalance.Proofs.Tick

  What a step of a demander can do.  A step is made of ticks: a page drains,
  pins, locks and loads partitions, a call binds and ends rounds, and anybody
  may give a node up.  `Demander.Chore` lists the ticks that neither bind a
  round nor leave one unfinished, and `Demander.Tick` all of them, each with
  what holds when it happens; `steady_tick` says what every tick keeps, so an
  invariant of demanders is proved by one case for each tick.  That a step is
  made of ticks is `step_ticks` (Rebalance.Proofs.Step).
-/
import Rebalance.Proofs.Noticed

namespace Rebalance

/-- Two boards that differ at most in how many messages were counted. -/
def Board.OnlyMessages (b c : Board) : Prop :=
  ∃ sent unsent received, c =
    { b with demandsSent := sent, demandSendFailures := unsent, supplyReceived := received }

theorem Board.onlyMessages_refl (b : Board) : b.OnlyMessages b :=
  ⟨b.demandsSent, b.demandSendFailures, b.supplyReceived, rfl⟩

namespace Job

/-- The page that a job takes in. -/
def page? : Job → Option PageJob
  | locking job _ _ _ => some job
  | replying job _ => some job
  | _ => none

/-- The partitions of a page that are still to be worked through. -/
def todo : Job → List (PartitionId × List Entry)
  | locking _ p entries rest => (p, entries) :: rest
  | _ => []

/-- The partition whose lock a page waits for. -/
def waitsFor? : Job → Option PartitionId
  | locking _ p _ _ => some p
  | _ => none

/-- The round that a job works on. -/
def round? : Job → Option RoundId
  | locking job _ _ _ => some job.round
  | replying job _ => some job.round
  | sending round _ _ _ => some round
  | _ => none

/-- The demands that a job has still to send, node by node. -/
def shipments : Job → List Shipment
  | sending _ _ s rest => s :: rest
  | _ => []

theorem round?_of_page? {j : Job} {job : PageJob} (h : j.page? = some job) :
    j.round? = some job.round := by
  cases j <;> simp_all [page?, round?]

end Job

namespace Demander

/-- Who is at work in a step: a page being taken in, another call, or nobody that could wait. -/
inductive Actor where
  | page (id : JobId) (job : PageJob)
  | call (id : JobId)
  | nobody

/-- The job of whoever is at work. -/
def Actor.id? : Actor → Option JobId
  | page id _ => some id
  | call id => some id
  | nobody => none

/-- A round that is there and bound to a plan. -/
def Bound (d : Demander) (id : RoundId) : Prop :=
  id < d.rounds.length ∧ (d.roundOf id).round.attached = true

/-- The demander after an attempt to reserve a partition. -/
def pinned (d : Demander) (p : PartitionId) : Demander :=
  { d with site := { d.site with store := (d.site.store.reserve p).1 } }

/-- The demander after an attempt to take the lock of a partition. -/
def withLock (d : Demander) (p : PartitionId) : Demander := d.onStore fun st => (st.tryLock p).1

/-- What a page holds of a partition to fill it: a reservation and the lock. -/
def held (d : Demander) (p : PartitionId) : Demander := (d.pinned p).withLock p

/-- The demands to a node are under way for a round: the job has them to send, or the plan of the
    current round makes them. -/
def Ships (d : Demander) (id : JobId) (round : RoundId) (s : Shipment) : Prop :=
  (∃ j, d.job? id = some j ∧ j.round? = some round ∧
    ∃ x ∈ j.shipments, x.node = s.node ∧ x.topology = s.topology) ∨
  (d.current = round ∧ ∃ plan demand, d.plan = some plan ∧ plan.get? s.node = some demand ∧
    demand.topology = s.topology)

/-- The current round, or a demand of the plan, was made for a topology. -/
def PlannedFor (d : Demander) (t : Topology) : Prop :=
  d.currentRound.topology = some t ∨
    ∃ plan node demand, d.plan = some plan ∧ plan.get? node = some demand ∧ demand.topology = t

/-- The current topology is not the one that the current round or its plan was made for. -/
def Outdated (d : Demander) : Prop :=
  ∃ t, d.PlannedFor t ∧ d.site.affinity.changedFrom t = true

/-- One thing that a demander does without binding a round or leaving one unfinished, with what
    holds when it does it. -/
inductive Chore : Actor → Demander → Demander → Prop where
  /-- A message is counted, or something is noticed. -/
  | note {who : Actor} {d e : Demander} (h : Beside d e)
      (hr : ∀ id, e.roundOf id = d.roundOf id) (hq : d.site.Quiet e.site)
      (hm : d.site.board.OnlyMessages e.site.board) (hn : d.site.Hushed e.site) : Chore who d e
  /-- The schedule, the topics, a recorded failure or the decision to stop changes. -/
  | keep {who : Actor} {d : Demander} (schedule : Schedule) (topics : List Topic)
      (fault : Option Fault) (stopping : Bool) (ht : topics = d.topics ∨ topics = [])
      (hs : d.stopping = true → stopping = true) :
      Chore who d { d with schedule, topics, fault, stopping }
  /-- A page waits; if it waits for a lock, then that of a partition that belongs here. -/
  | parkPage {id : JobId} {job : PageJob} {d : Demander} (j : Job) (hj : j.page? = some job)
      (ht : j.todo <:+ job.page.entries.toList)
      (ho : ∀ p, j.waitsFor? = some p → d.owns p job.demand.topology = true) :
      Chore (.page id job) d (d.park id j)
  /-- Another call waits. -/
  | parkCall {id : JobId} {d : Demander} (j : Job) (hj : j.page? = none)
      (hr : ∀ round, j.round? = some round → d.Bound round)
      (hs : ∀ round s, j.round? = some round → s ∈ j.shipments → d.Ships id round s) :
      Chore (.call id) d (d.park id j)
  /-- A job ends. -/
  | finish {who : Actor} {id : JobId} {d : Demander} (r : Except Fault Unit)
      (hid : who.id? = some id) : Chore who d (d.finish id r)
  /-- A page takes a partition that does not belong here, or is not being filled, off its
      round. -/
  | drain {id : JobId} {job : PageJob} {d : Demander} (p : PartitionId)
      (h : d.owns p job.demand.topology = false ∨ d.site.store.base.state p ≠ .moving) :
      Chore (.page id job) d (d.changeRound job.round (.drain job.sender p))
  /-- A page deals with what its sender does not have. -/
  | settleMissed {id : JobId} {job : PageJob} {d : Demander} :
      Chore (.page id job) d (d.settleMissed job)
  /-- A page reserves a partition. -/
  | pin {id : JobId} {job : PageJob} {d : Demander} (p : PartitionId) :
      Chore (.page id job) d (d.pinned p)
  /-- A page takes the lock of a partition. -/
  | lock {id : JobId} {job : PageJob} {d : Demander} (p : PartitionId) :
      Chore (.page id job) d (d.withLock p)
  /-- A page loads a partition that it has locked. -/
  | load {id : JobId} {job : PageJob} {d : Demander} (p : PartitionId) (entries : List Entry) :
      Chore (.page id job) d (d.load job p entries).1
  /-- A node is given up. -/
  | cancel {who : Actor} {d : Demander} (round : RoundId) (node : NodeId)
      (reason : CancelReason) (hl : round < d.rounds.length)
      (hc : reason = .topologyChanged → d.Outdated) :
      Chore who d (d.cancelNode round node reason)
  /-- The demands to a node are sent, or some could not be. -/
  | endShipment {id : JobId} {d : Demander} (round : RoundId) (s : Shipment)
      (hb : d.Bound round) (hs : d.Ships id round s) : Chore (.call id) d (d.endShipment round s)
  /-- A round comes into being. -/
  | openRound {id : JobId} {d : Demander} : Chore (.call id) d d.openRound.1
  /-- Someone wants to be told of the end of the current round. -/
  | watch {who : Actor} {d : Demander} (tag : String) :
      Chore who d (d.whenDone d.current (.notify tag d.currentRound.attached))

/-- One thing that a demander does, with what holds when it does it. -/
inductive Tick : Actor → Demander → Demander → Prop where
  | chore {who : Actor} {d e : Demander} (h : Chore who d e) : Tick who d e
  /-- A plan starts a round that is not bound yet. -/
  | begin {id : JobId} {d : Demander} (round : RoundId) (plan : Plan)
      (hl : round < d.rounds.length) (ha : (d.roundOf round).round.attached = false)
      (hp : plan.isEmpty = false)
      (ht : Key.below plan.topology d.site.affinity.current = false) :
      Tick (.call id) d (d.begin round plan)
  /-- A plan leaves a round that is not bound yet nothing to do. -/
  | pass {id : JobId} {d : Demander} (round : RoundId) (plan : Plan)
      (hl : round < d.rounds.length) (ha : (d.roundOf round).round.attached = false) :
      Tick (.call id) d (d.pass round plan)
  /-- The current round is left unfinished. -/
  | abandon {id : JobId} {d : Demander} : Tick (.call id) d d.abandonRound

/-- Any number of steps of one kind. -/
inductive Many (r : Demander → Demander → Prop) : Demander → Demander → Prop where
  | refl (d : Demander) : Many r d d
  | head {d e f : Demander} (h : r d e) (t : Many r e f) : Many r d f

/-- Any number of ticks. -/
abbrev Ticks (who : Actor) : Demander → Demander → Prop := Many (Tick who)

/-- Any number of chores. -/
abbrev Chores (who : Actor) : Demander → Demander → Prop := Many (Chore who)

namespace Many

variable {r : Demander → Demander → Prop} {d e f : Demander}

theorem single (h : r d e) : Many r d e := .head h (.refl e)

theorem trans (h₁ : Many r d e) (h₂ : Many r e f) : Many r d f := by
  induction h₁ with
  | refl => exact h₂
  | head h _ ih => exact .head h (ih h₂)

theorem tail (h₁ : Many r d e) (h₂ : r e f) : Many r d f := h₁.trans (.single h₂)

end Many

theorem Chores.ticks {who : Actor} {d e : Demander} (h : Chores who d e) : Ticks who d e := by
  induction h with
  | refl => exact .refl _
  | head h _ ih => exact .head (.chore h) ih

-- ============================================================================
-- What every tick keeps
-- ============================================================================

/-- A demander between two steps, or between two ticks of one: its rounds stand, the current one
    is there and bound if a plan is installed, every job is older than the next one and works on a
    round that is bound, and what is left of a page is the end of it. -/
structure Steady (d : Demander) : Prop where
  standing : ∀ id, (d.roundOf id).round.Standing
  current : d.current < d.rounds.length
  planned : d.plan.isSome = true → (d.roundOf d.current).round.attached = true
  young : ∀ id j, d.job? id = some j → id < d.nextJob
  bound : ∀ i j id, d.job? i = some j → j.round? = some id → d.Bound id
  todo : ∀ i j job, d.job? i = some j → j.page? = some job → j.todo <:+ job.page.entries.toList
  ended : ∀ e ∈ d.returns, e.1 < d.nextJob

/-- There are no jobs that have not begun. -/
theorem job?_of_le {d : Demander} {id : JobId} (hs : d.Steady) (hid : d.nextJob ≤ id) :
    d.job? id = none := by
  cases hj : d.job? id with
  | none => rfl
  | some j => exact absurd (hs.young id j hj) (Nat.not_lt.mpr hid)

/-- Whoever is at work is known to the demander, a page with the round it answers. -/
def Actor.Fits (d : Demander) : Actor → Prop
  | page id job => id < d.nextJob ∧ d.Bound job.round
  | call id => id < d.nextJob
  | nobody => True

theorem Actor.Fits.id? {d : Demander} {who : Actor} (h : who.Fits d) {id : JobId}
    (hid : who.id? = some id) : id < d.nextJob := by
  cases who with
  | page id' job =>
    cases hid
    exact h.1
  | call id' =>
    cases hid
    exact h
  | nobody => cases hid

/-- No tick makes a round invalid, unbinds one or forgets one. -/
structure Onward (d e : Demander) : Prop where
  standing : ∀ id, (e.roundOf id).round.Standing
  attached : ∀ id, (d.roundOf id).round.attached = true → (e.roundOf id).round.attached = true
  rounds : d.rounds.length ≤ e.rounds.length

theorem Onward.bound {d e : Demander} (h : Onward d e) {id : RoundId} (hb : d.Bound id) :
    e.Bound id := ⟨Nat.lt_of_lt_of_le hb.1 h.rounds, h.attached id hb.2⟩

section Onward

variable {d e : Demander}

theorem Onward.of_same (hs : d.Steady) (hr : ∀ id, (e.roundOf id).round = (d.roundOf id).round)
    (hl : d.rounds.length ≤ e.rounds.length) : Onward d e where
  standing id := by
    rw [hr]
    exact hs.standing id
  attached id h := by
    rw [hr]
    exact h
  rounds := hl

/-- One round changes, and nothing is unbound by it. -/
theorem Onward.of_round (hs : d.Steady) (hl : e.rounds.length = d.rounds.length)
    {i : RoundId} {r : Round RoundWait}
    (hr : ∀ i', (e.roundOf i').round = if i' = i then r else (d.roundOf i').round)
    (hst : r.Standing) (ha : (d.roundOf i).round.attached = true → r.attached = true) :
    Onward d e where
  standing i' := by
    rw [hr]
    by_cases hi : i' = i
    · rw [if_pos hi]
      exact hst
    · rw [if_neg hi]
      exact hs.standing i'
  attached i' h := by
    rw [hr]
    by_cases hi : i' = i
    · rw [if_pos hi]
      rw [hi] at h
      exact ha h
    · rw [if_neg hi]
      exact h
  rounds := Nat.le_of_eq hl.symm

end Onward

theorem roundOf_openRound (d : Demander) (id : RoundId) :
    d.openRound.1.roundOf id = d.roundOf id := by
  unfold roundOf openRound
  rcases Nat.lt_trichotomy id d.rounds.length with h | h | h
  · simp [List.getElem?_append_left h]
  · simp [h]
  · have h₁ : d.rounds[id]? = none := List.getElem?_eq_none (Nat.le_of_lt h)
    have h₂ : (d.rounds ++ [({} : RoundRecord)])[id]? = none :=
      List.getElem?_eq_none (by simp; omega)
    rw [h₁]
    exact congrArg (fun r : Option RoundRecord => r.getD {}) h₂

theorem onward_chore {who : Actor} {d e : Demander} (h : Chore who d e) (hs : d.Steady)
    (hf : who.Fits d) : Onward d e := by
  cases h with
  | note hb hr _ _ =>
    exact .of_same hs (fun id => by rw [hr]) (Nat.le_of_eq hb.rounds.symm)
  | keep => exact .of_same hs (fun _ => rfl) (Nat.le_refl _)
  | parkPage => exact .of_same hs (fun _ => rfl) (Nat.le_refl _)
  | parkCall => exact .of_same hs (fun _ => rfl) (Nat.le_refl _)
  | finish => exact .of_same hs (fun _ => rfl) (Nat.le_refl _)
  | @drain id job d p _ =>
    obtain ⟨-, hl, ha⟩ := hf
    exact .of_round hs (beside_changeRound d _ _).rounds (round_changeRound d _ hl)
      (Round.standing_drain (hs.standing _) job.sender p)
      fun h => (Round.attached_drain (hs.standing _) job.sender p).trans h
  | @settleMissed id job d =>
    obtain ⟨-, hl, ha⟩ := hf
    obtain ⟨hst, hatt, -⟩ := Round.missAll_answers (hs.standing job.round) ha job.sender
      (job.page.missed.toList.filter fun p => d.owns p job.demand.topology)
    obtain ⟨hst', hatt', -⟩ := Round.drainAll_answers hst job.sender job.page.missed.toList
    exact .of_round hs (beside_settleMissed d job).rounds (round_settleMissed d job hl) hst'
      fun _ => hatt'.trans hatt
  | pin => exact .of_same hs (fun _ => rfl) (Nat.le_refl _)
  | lock => exact .of_same hs (fun _ => rfl) (Nat.le_refl _)
  | @load id job d p entries =>
    obtain ⟨-, hl, ha⟩ := hf
    by_cases hc : d.completes job p entries = true
    · refine .of_round hs (near_load d job p entries).rounds (i := job.round) ?_
        (Round.standing_drain (hs.standing _) job.sender p)
        fun h => (Round.attached_drain (hs.standing _) job.sender p).trans h
      intro id'
      rw [round_load d job p entries hl]
      by_cases hid : id' = job.round
      · rw [if_pos ⟨hid, hc⟩, if_pos hid]
      · rw [if_neg hid, if_neg fun h => hid h.1]
    · refine .of_same hs ?_ (Nat.le_of_eq (near_load d job p entries).rounds.symm)
      intro id'
      rw [round_load d job p entries hl, if_neg fun h => hc h.2]
  | cancel round node reason hl _ =>
    exact .of_round hs (beside_cancelNode d round node reason).rounds
      (fun id' => round_cancelNode d node hl id' reason)
      (Round.standing_cancel (hs.standing _) node)
      fun h => (Round.attached_cancel (hs.standing _) node).trans h
  | endShipment round s hb _ =>
    obtain ⟨hl, ha⟩ := hb
    obtain ⟨hst, hatt, -⟩ := Round.missAll_answers (hs.standing round) ha s.node
      (((d.roundOf round).round.outstandingFrom s.node).toList.filter
        fun p => d.owns p s.topology)
    by_cases hfail : s.failure.isSome = true
    · refine .of_round hs (beside_endShipment d round s).rounds (i := round) ?_
        (Round.standing_cancel hst s.node) fun _ => (Round.attached_cancel hst s.node).trans hatt
      intro id'
      rw [round_endShipment d hl]
      by_cases hid : id' = round
      · rw [if_pos ⟨hid, hfail⟩, if_pos hid]
      · rw [if_neg hid, if_neg fun h => hid h.1]
    · refine .of_same hs ?_ (Nat.le_of_eq (beside_endShipment d round s).rounds.symm)
      intro id'
      rw [round_endShipment d hl, if_neg fun h => hfail h.2]
  | openRound =>
    exact .of_same hs (fun id => by rw [roundOf_openRound]) (by simp [openRound])
  | watch tag =>
    exact .of_round hs (beside_whenDone d d.current _).rounds
      (fun id' => round_whenDone d hs.current id' _) (Round.standing_onDone (hs.standing _) _)
      fun h => h

theorem beside_abandonRound (d : Demander) : Beside d d.abandonRound := by
  unfold abandonRound
  simp only
  split
  · exact (beside_flag d d.current false).trans (beside_measure _ Board.roundAbandoned)
  · exact .refl d

/-- Leaving a round unfinished is a matter of the meters. -/
theorem round_abandonRound (d : Demander) (id : RoundId) :
    (d.abandonRound.roundOf id).round = (d.roundOf id).round := by
  unfold abandonRound
  simp only
  split
  · exact round_flag d d.current id false
  · rfl

/-- Whatever a tick does, its rounds go onward. -/
theorem onward_tick {who : Actor} {d e : Demander} (h : Tick who d e) (hs : d.Steady)
    (hf : who.Fits d) : Onward d e := by
  cases h with
  | chore h => exact onward_chore h hs hf
  | begin round plan hl ha hp ht =>
    exact .of_round hs (beside_begin d round plan).rounds (round_begin d hl plan)
      (Round.standing_onDone (Round.standing_started (hs.standing round) ha hp) .settle)
      fun h => absurd h (by simp [ha])
  | pass round plan hl ha =>
    exact .of_round hs (beside_pass d round plan).rounds (round_pass d hl plan)
      (Round.standing_complete (r := (d.roundOf round).round.attach plan.exchange)
        (hs.standing round).closed_iff).1 fun h => absurd h (by simp [ha])
  | abandon =>
    exact .of_same hs (round_abandonRound d) (Nat.le_of_eq (beside_abandonRound d).rounds.symm)

-- ============================================================================
-- What a tick is to jobs and plan
-- ============================================================================

theorem near_pinned (d : Demander) (p : PartitionId) : Near d (d.pinned p) := by
  refine .of_site d ?_ ?_
  · change d.site.Alike { d.site with store := (d.site.store.reserve p).1 }
    unfold Tampered.reserve
    split
    · exact .refl _
    · exact ⟨rfl, rfl, rfl, rfl, rfl, rfl, rfl⟩
  · change d.site.store.base.Grows (d.site.store.reserve p).1.base
    unfold Tampered.reserve
    split
    · exact .refl _
    · exact Store.grows_reserve _ p

theorem near_withLock (d : Demander) (p : PartitionId) : Near d (d.withLock p) :=
  near_onStore d (Store.grows_tryLock _ p)

theorem near_held (d : Demander) (p : PartitionId) : Near d (d.held p) :=
  (near_pinned d p).trans (near_withLock _ p)

/-- To reserve and to lock a partition moves none. -/
theorem state?_pinned (d : Demander) (p q : PartitionId) :
    (d.pinned p).site.store.base.state? q = d.site.store.base.state? q := by
  unfold pinned Tampered.reserve
  split
  · rfl
  · exact Store.state?_reserve _ p q

theorem state?_withLock (d : Demander) (p q : PartitionId) :
    (d.withLock p).site.store.base.state? q = d.site.store.base.state? q := Store.state?_tryLock _ p q

theorem state?_held (d : Demander) (p q : PartitionId) :
    (d.held p).site.store.base.state? q = d.site.store.base.state? q :=
  (state?_withLock _ p q).trans (state?_pinned d p q)

/-- Two demanders with the same jobs and the same plan at work, where no round was forgotten and
    nothing stored was taken back. -/
structure Along (d e : Demander) : Prop where
  site : d.site.Alike e.site
  grows : d.site.store.base.Grows e.site.store.base
  rounds : d.rounds.length ≤ e.rounds.length
  current : e.current = d.current
  plan : e.plan = d.plan
  jobs : e.jobs = d.jobs
  nextJob : e.nextJob = d.nextJob
  returns : e.returns = d.returns

theorem Near.along {d e : Demander} (h : Near d e) : Along d e :=
  ⟨h.site, h.grows, Nat.le_of_eq h.rounds.symm, h.current, h.plan, h.jobs, h.nextJob, h.returns⟩

/-- What whoever is at work leaves to do when it waits. -/
inductive Parks : Actor → Demander → Job → Prop where
  | page {id : JobId} {job : PageJob} {d : Demander} {j : Job} (hj : j.page? = some job)
      (ht : j.todo <:+ job.page.entries.toList)
      (ho : ∀ p, j.waitsFor? = some p → d.owns p job.demand.topology = true) :
      Parks (.page id job) d j
  | call {id : JobId} {d : Demander} {j : Job} (hj : j.page? = none)
      (hr : ∀ round, j.round? = some round → d.Bound round)
      (hs : ∀ round s, j.round? = some round → s ∈ j.shipments → d.Ships id round s) :
      Parks (.call id) d j

theorem Parks.bound {who : Actor} {d : Demander} {j : Job} (h : Parks who d j)
    (hf : who.Fits d) : ∀ round, j.round? = some round → d.Bound round := by
  cases h with
  | page hj _ _ =>
    intro round hr
    rw [Job.round?_of_page? hj, Option.some.injEq] at hr
    rw [← hr]
    exact hf.2
  | call _ hr _ => exact hr

theorem Parks.todo {who : Actor} {d : Demander} {j : Job} (h : Parks who d j) (job : PageJob)
    (hp : j.page? = some job) : j.todo <:+ job.page.entries.toList := by
  cases h with
  | page hj ht _ =>
    rw [hj, Option.some.injEq] at hp
    rw [← hp]
    exact ht
  | call hj _ _ =>
    rw [hj] at hp
    cases hp

/-- What is left to send when whoever is at work waits is under way already. -/
theorem Parks.ships {who : Actor} {d : Demander} {j : Job} (h : Parks who d j) {round : RoundId}
    {s : Shipment} (hr : j.round? = some round) (hs : s ∈ j.shipments) :
    ∃ id, d.Ships id round s := by
  cases h with
  | page hj _ _ => cases j <;> simp [Job.page?, Job.shipments] at hj hs
  | call _ _ hships => exact ⟨_, hships round s hr hs⟩

/-- What a tick does to jobs and plan: nothing, or whoever is at work waits or ends, or a round
    that was not bound yet becomes the current one. -/
inductive Shape (who : Actor) (d e : Demander) : Prop where
  | along (h : Along d e)
  | park (id : JobId) (j : Job) (hid : who.id? = some id) (hj : Parks who d j)
      (he : e = d.park id j)
  | finish (id : JobId) (r : Except Fault Unit) (hid : who.id? = some id) (he : e = d.finish id r)
  | install (id : RoundId) (plan : Option Plan) (hl : id < d.rounds.length)
      (ha : (d.roundOf id).round.attached = false)
      (hb : d.Steady → (e.roundOf id).round.attached = true)
      (h : Along { d with current := id, plan } e)

theorem shape_chore {who : Actor} {d e : Demander} (h : Chore who d e) : Shape who d e := by
  cases h with
  | note hb _ _ _ => exact .along hb.near.along
  | keep => exact .along ⟨.refl _, .refl _, Nat.le_refl _, rfl, rfl, rfl, rfl, rfl⟩
  | parkPage j hj ht ho => exact .park _ j rfl (.page hj ht ho) rfl
  | parkCall j hj hr hs => exact .park _ j rfl (.call hj hr hs) rfl
  | finish r hid => exact .finish _ r hid rfl
  | drain p _ => exact .along (beside_changeRound d _ _).near.along
  | settleMissed => exact .along (beside_settleMissed d _).near.along
  | pin p => exact .along (near_pinned d p).along
  | lock p => exact .along (near_withLock d p).along
  | load p entries => exact .along (near_load d _ p entries).along
  | cancel round node reason _ _ => exact .along (beside_cancelNode d round node reason).near.along
  | endShipment round s _ _ => exact .along (beside_endShipment d round s).near.along
  | openRound =>
    exact .along ⟨.refl _, .refl _, by simp [openRound], rfl, rfl, rfl, rfl, rfl⟩
  | watch tag => exact .along (beside_whenDone d d.current _).near.along

theorem shape_tick {who : Actor} {d e : Demander} (h : Tick who d e) : Shape who d e := by
  cases h with
  | chore h => exact shape_chore h
  | begin round plan hl ha _ _ =>
    refine .install round _ hl ha (fun hs => ?_) (beside_begin d round plan).near.along
    rw [round_begin d hl, if_pos rfl]
    exact (Round.started_answers (hs.standing round) ha plan).2.1
  | pass round plan hl ha =>
    refine .install round _ hl ha (fun hs => ?_) (beside_pass d round plan).near.along
    rw [round_pass d hl, if_pos rfl]
    exact (Round.standing_complete (r := (d.roundOf round).round.attach plan.exchange)
      (hs.standing round).closed_iff).2
  | abandon => exact .along (beside_abandonRound d).near.along

/-- What is steady stays so if jobs and plan stay. -/
theorem Steady.along {d e : Demander} (hs : d.Steady) (h : Along d e) (ho : Onward d e) :
    e.Steady where
  standing := ho.standing
  current := by
    rw [h.current]
    exact Nat.lt_of_lt_of_le hs.current h.rounds
  planned hp := by
    rw [h.plan] at hp
    rw [h.current]
    exact ho.attached _ (hs.planned hp)
  young id j hj := by
    rw [job?, h.jobs] at hj
    rw [h.nextJob]
    exact hs.young id j hj
  bound i j id hj hr := by
    rw [job?, h.jobs] at hj
    exact ho.bound (hs.bound i j id hj hr)
  todo i j job hj hp := by
    rw [job?, h.jobs] at hj
    exact hs.todo i j job hj hp
  ended x hx := by
    rw [h.returns] at hx
    rw [h.nextJob]
    exact hs.ended x hx

/-- What is steady stays so if a bound round becomes the current one. -/
theorem Steady.install {d e : Demander} (hs : d.Steady) {id : RoundId} {plan : Option Plan}
    (h : Along { d with current := id, plan } e) (hl : id < d.rounds.length) (ho : Onward d e)
    (ha : (e.roundOf id).round.attached = true) : e.Steady where
  standing := ho.standing
  current := by
    rw [h.current]
    exact Nat.lt_of_lt_of_le hl h.rounds
  planned _ := by
    rw [h.current]
    exact ha
  young i j hj := by
    rw [job?, h.jobs] at hj
    rw [h.nextJob]
    exact hs.young i j hj
  bound i j id' hj hr := by
    rw [job?, h.jobs] at hj
    exact ho.bound (hs.bound i j id' hj hr)
  todo i j job hj hp := by
    rw [job?, h.jobs] at hj
    exact hs.todo i j job hj hp
  ended x hx := by
    rw [h.returns] at hx
    rw [h.nextJob]
    exact hs.ended x hx

theorem job?_park (d : Demander) (id i : JobId) (j : Job) :
    (d.park id j).job? i = if i = id then some j else d.job? i := by
  unfold park job?
  rw [SortedMap.get?_insert]

theorem job?_park_self (d : Demander) (id : JobId) (j : Job) : (d.park id j).job? id = some j :=
  SortedMap.get?_insert_self

theorem job?_park_of_ne {d : Demander} {id i : JobId} {j : Job} (h : i ≠ id) :
    (d.park id j).job? i = d.job? i := SortedMap.get?_insert_of_ne h

theorem of_job?_park {d : Demander} {id i : JobId} {j x : Job}
    (h : (d.park id j).job? i = some x) : i = id ∧ j = x ∨ i ≠ id ∧ d.job? i = some x :=
  SortedMap.of_get?_insert h

theorem job?_finish (d : Demander) (id i : JobId) (r : Except Fault Unit) :
    (d.finish id r).job? i = if i = id then none else d.job? i := by
  unfold finish job?
  rw [SortedMap.get?_erase]

theorem job?_finish_self (d : Demander) (id : JobId) (r : Except Fault Unit) :
    (d.finish id r).job? id = none := (job?_finish d id id r).trans (if_pos rfl)

theorem job?_finish_of_ne {d : Demander} {id i : JobId} {r : Except Fault Unit} (h : i ≠ id) :
    (d.finish id r).job? i = d.job? i := SortedMap.get?_erase_of_ne h

theorem job?_of_finish {d : Demander} {id i : JobId} {r : Except Fault Unit} {j : Job}
    (h : (d.finish id r).job? i = some j) : d.job? i = some j := (SortedMap.of_get?_erase h).2

/-- A page that has dealt with its request is done. -/
theorem job?_replied (d : Demander) (id : JobId) (job : PageJob) (r : Except Fault Unit) :
    (d.replied id job r).job? id = none := by
  unfold replied
  split
  · rw [job?_finish_self]
  · rw [job?_finish_self]

theorem Steady.park {d : Demander} (hs : d.Steady) {id : JobId} (hid : id < d.nextJob) {j : Job}
    (hj : ∀ round, j.round? = some round → d.Bound round)
    (ht : ∀ job, j.page? = some job → j.todo <:+ job.page.entries.toList) :
    (d.park id j).Steady where
  standing := hs.standing
  current := hs.current
  planned := hs.planned
  young i x hx := by
    rcases of_job?_park hx with ⟨rfl, -⟩ | ⟨-, hx⟩
    · exact hid
    · exact hs.young i x hx
  bound i x round hx hr := by
    rcases of_job?_park hx with ⟨-, rfl⟩ | ⟨-, hx⟩
    · exact hj round hr
    · exact hs.bound i x round hx hr
  todo i x job hx hp := by
    rcases of_job?_park hx with ⟨-, rfl⟩ | ⟨-, hx⟩
    · exact ht job hp
    · exact hs.todo i x job hx hp
  ended := hs.ended

theorem Steady.finish {d : Demander} (hs : d.Steady) {id : JobId} (hid : id < d.nextJob)
    (r : Except Fault Unit) : (d.finish id r).Steady where
  standing := hs.standing
  current := hs.current
  planned := hs.planned
  young i x hx := hs.young i x (job?_of_finish hx)
  bound i x round hx hr := hs.bound i x round (job?_of_finish hx) hr
  todo i x job hx hp := hs.todo i x job (job?_of_finish hx) hp
  ended x hx := by
    rcases List.mem_append.mp hx with hx | hx
    · exact hs.ended x hx
    · rw [List.mem_singleton.mp hx]
      exact hid

/-- A tick leaves a demander steady, and whoever is at work known to it. -/
theorem steady_tick {who : Actor} {d e : Demander} (h : Tick who d e) (hs : d.Steady)
    (hf : who.Fits d) : e.Steady := by
  have ho := onward_tick h hs hf
  cases shape_tick h with
  | along h => exact hs.along h ho
  | park id j hid hj he =>
    rw [he]
    exact hs.park (hf.id? hid) (hj.bound hf) hj.todo
  | finish id r hid he =>
    rw [he]
    exact hs.finish (hf.id? hid) r
  | install id plan hl _ hb h => exact hs.install h hl ho (hb hs)

theorem nextJob_tick {who : Actor} {d e : Demander} (h : Tick who d e) :
    e.nextJob = d.nextJob := by
  cases shape_tick h with
  | along h => exact h.nextJob
  | install _ _ _ _ _ h => exact h.nextJob
  | park _ _ _ _ he => rw [he]; rfl
  | finish _ _ _ he => rw [he]; rfl

theorem fits_tick {who : Actor} {d e : Demander} (h : Tick who d e) (hs : d.Steady)
    (hf : who.Fits d) : who.Fits e := by
  have ho := onward_tick h hs hf
  have hn := nextJob_tick h
  cases who with
  | page id job =>
    refine ⟨?_, ho.bound hf.2⟩
    rw [hn]
    exact hf.1
  | call id =>
    change id < e.nextJob
    rw [hn]
    exact hf
  | nobody => trivial

/-- No tick touches what a site brings along, or takes back what is stored. -/
theorem site_tick {who : Actor} {d e : Demander} (h : Tick who d e) :
    d.site.Alike e.site ∧ d.site.store.base.Grows e.site.store.base := by
  cases shape_tick h with
  | along h => exact ⟨h.site, h.grows⟩
  | install _ _ _ _ _ h => exact ⟨h.site, h.grows⟩
  | park _ _ _ _ he => rw [he]; exact ⟨.refl _, .refl _⟩
  | finish _ _ _ he => rw [he]; exact ⟨.refl _, .refl _⟩

/-- A job after a tick was there before, or whoever is at work has just left it. -/
theorem job_tick {who : Actor} {d e : Demander} (h : Tick who d e) {i : JobId} {j : Job}
    (hj : e.job? i = some j) : d.job? i = some j ∨ who.id? = some i ∧ Parks who d j := by
  cases shape_tick h with
  | along h =>
    rw [job?, h.jobs] at hj
    exact .inl hj
  | install _ _ _ _ _ h =>
    rw [job?, h.jobs] at hj
    exact .inl hj
  | park id x hid hx he =>
    rw [he] at hj
    rcases of_job?_park hj with ⟨rfl, rfl⟩ | ⟨-, hj⟩
    · exact .inr ⟨hid, hx⟩
    · exact .inl hj
  | finish id _ _ he =>
    rw [he] at hj
    exact .inl (job?_of_finish hj)

/-- Only whoever is at work begins, goes on with or ends its job. -/
theorem jobs_tick {who : Actor} {d e : Demander} (h : Tick who d e) {i : JobId}
    (hi : who.id? ≠ some i) : e.job? i = d.job? i := by
  cases shape_tick h with
  | along h => rw [job?, h.jobs]; rfl
  | install _ _ _ _ _ h => rw [job?, h.jobs]; rfl
  | park id _ hid _ he =>
    rw [he, job?_park, if_neg]
    rintro rfl
    exact hi hid
  | finish id _ hid he =>
    rw [he, job?_finish, if_neg]
    rintro rfl
    exact hi hid

theorem length_tick {who : Actor} {d e : Demander} (h : Tick who d e) :
    d.rounds.length ≤ e.rounds.length := by
  cases shape_tick h with
  | along h => exact h.rounds
  | install _ _ _ _ _ h => exact h.rounds
  | park _ _ _ _ he => rw [he]; exact Nat.le_refl _
  | finish _ _ _ he => rw [he]; exact Nat.le_refl _

theorem Ticks.length_le {who : Actor} {d e : Demander} (h : Ticks who d e) :
    d.rounds.length ≤ e.rounds.length := by
  induction h with
  | refl => exact Nat.le_refl _
  | head h _ ih => exact Nat.le_trans (length_tick h) ih

theorem Ticks.site {who : Actor} {d e : Demander} (h : Ticks who d e) :
    d.site.Alike e.site ∧ d.site.store.base.Grows e.site.store.base := by
  induction h with
  | refl => exact ⟨.refl _, .refl _⟩
  | head h _ ih =>
    obtain ⟨ha, hg⟩ := site_tick h
    exact ⟨ha.trans ih.1, hg.trans ih.2⟩

theorem Ticks.jobs {who : Actor} {d e : Demander} (h : Ticks who d e) {i : JobId}
    (hi : who.id? ≠ some i) : e.job? i = d.job? i := by
  induction h with
  | refl => rfl
  | head h _ ih => exact ih.trans (jobs_tick h hi)

/-- A job after some ticks was there before, or whoever is at work has left it. -/
theorem Ticks.job {who : Actor} {d e : Demander} (h : Ticks who d e) {i : JobId} {j : Job}
    (hj : e.job? i = some j) : d.job? i = some j ∨ who.id? = some i ∧ ∃ f, Parks who f j := by
  induction h with
  | refl => exact .inl hj
  | head h _ ih =>
    rcases ih hj with hj | hparks
    · exact (job_tick h hj).imp_right fun ⟨hid, hp⟩ => ⟨hid, _, hp⟩
    · exact .inr hparks

/-- A property that every tick of a steady demander keeps is kept by any number of them. -/
theorem Ticks.keeps {who : Actor} {P : Demander → Prop} {d e : Demander} (h : Ticks who d e)
    (hstep : ∀ d e, Tick who d e → d.Steady → who.Fits d → P d → P e) (hs : d.Steady)
    (hf : who.Fits d) (hd : P d) : P e ∧ e.Steady ∧ who.Fits e := by
  induction h with
  | refl => exact ⟨hd, hs, hf⟩
  | head h _ ih => exact ih (steady_tick h hs hf) (fits_tick h hs hf) (hstep _ _ h hs hf hd)

end Demander
end Rebalance
