/-
  Rebalance.Proofs.Redrive

  Misses, from the page that reports them to the exchange that fetches them
  again.  `Moved` lists what a tick can do to a round that is under way; from it
  follow that misses stay (`missed_tick`), that only what belongs here is added
  to them (`missesOwned_tick`), and that the round keeps the exchange of its
  plan.  `misses_are_redriven` puts them together for a whole run.
-/
import Rebalance.Proofs.Hearing
import Rebalance.Proofs.Transfer
import Rebalance.Proofs.Settled

namespace Rebalance

namespace Round

variable {κ : Type}

theorem exchange_missAll (r : Round κ) (node : NodeId) (ps : List PartitionId) :
    (r.missAll node ps).exchange = r.exchange := by
  induction ps generalizing r with
  | nil => rfl
  | cons p ps ih => exact (ih _).trans (Demander.exchange_after r nofun)

theorem exchange_drainAll (r : Round κ) (node : NodeId) (ps : List PartitionId) :
    (r.drainAll node ps).exchange = r.exchange := by
  induction ps generalizing r with
  | nil => rfl
  | cons p ps ih => exact (ih _).trans (Demander.exchange_after r nofun)

end Round

namespace Demander

variable {R : RoundId} {P : Plan}

-- ============================================================================
-- What a tick does to a round that is under way
-- ============================================================================

/-- What a tick can make of a round that is bound. -/
inductive Moved (who : Actor) (d : Demander) (R : RoundId) : Round RoundWait → Prop where
  | same : Moved who d R (d.roundOf R).round
  | drain (id : JobId) (job : PageJob) (p : PartitionId) (hw : who = .page id job)
      (hr : job.round = R) : Moved who d R ((d.roundOf R).round.after (.drain job.sender p))
  | settle (id : JobId) (job : PageJob) (hw : who = .page id job) (hr : job.round = R) :
      Moved who d R (((d.roundOf R).round.missAll job.sender
        (job.page.missed.toList.filter fun p => d.owns p job.demand.topology)).drainAll job.sender
        job.page.missed.toList)
  | cancel (node : NodeId) : Moved who d R ((d.roundOf R).round.after (.cancel node))
  | ship (id : JobId) (s : Shipment) (hs : d.Ships id R s) :
      Moved who d R (((d.roundOf R).round.missAll s.node
        (((d.roundOf R).round.outstandingFrom s.node).toList.filter
          fun p => d.owns p s.topology)).after (.cancel s.node))
  | wait (w : RoundWait) : Moved who d R ((d.roundOf R).round.onDone w).1

/-- Either the round stays as it is or it moves. -/
theorem Moved.either {who : Actor} {d : Demander} {r : Round RoundWait} {c : Prop} [Decidable c]
    {t : Round RoundWait} (h : r = if c then t else (d.roundOf R).round)
    (ht : c → Moved who d R t) : Moved who d R r := by
  rw [h]
  split
  · next hc => exact ht hc
  · exact .same

theorem moved_chore {who : Actor} {d e : Demander} (h : Chore who d e) (hs : d.Steady)
    (hf : who.Fits d) : Moved who d R (e.roundOf R).round := by
  cases h with
  | note _ hr _ _ =>
    rw [hr]
    exact .same
  | @drain id job d p _ =>
    exact .either (round_changeRound d _ hf.2.1 R) fun hR => by
      subst hR
      exact .drain id job p rfl rfl
  | @settleMissed id job d =>
    exact .either (round_settleMissed d job hf.2.1 R) fun hR => by
      subst hR
      exact .settle id job rfl rfl
  | @load id job d p entries =>
    exact .either (round_load d job p entries hf.2.1 R) fun hR => by
      obtain ⟨rfl, -⟩ := hR
      exact .drain id job p rfl rfl
  | cancel round node reason hl _ =>
    exact .either (round_cancelNode d node hl R reason) fun hR => hR ▸ .cancel _
  | @endShipment id d round s hb' hs' =>
    exact .either (round_endShipment d hb'.1 s R) fun hR => by
      obtain ⟨rfl, -⟩ := hR
      exact .ship id s hs'
  | openRound =>
    rw [roundOf_openRound]
    exact .same
  | watch tag =>
    exact .either (round_whenDone d hs.current R _) fun hR => hR ▸ .wait _
  | _ => exact .same

theorem moved_tick {who : Actor} {d e : Demander} (h : Tick who d e) (hs : d.Steady)
    (hf : who.Fits d) (hb : d.Bound R) : Moved who d R (e.roundOf R).round := by
  -- A round that is bound is not the one that a plan binds.
  have other : ∀ {id : RoundId}, (d.roundOf id).round.attached = false → R ≠ id := by
    rintro id ha rfl
    rw [hb.2] at ha
    cases ha
  cases h with
  | chore h => exact moved_chore h hs hf
  | begin round plan hl ha _ _ =>
    exact .either (round_begin d hl plan R) fun hR => absurd hR (other ha)
  | pass round plan hl ha =>
    exact .either (round_pass d hl plan R) fun hR => absurd hR (other ha)
  | abandon =>
    rw [round_abandonRound]
    exact .same

section Moved

variable {who : Actor} {d : Demander} {r : Round RoundWait}

theorem Moved.exchange (h : Moved who d R r) : r.exchange = (d.roundOf R).round.exchange := by
  cases h with
  | same => rfl
  | drain id job p hw hr => exact exchange_after _ nofun
  | settle id job hw hr =>
    exact (Round.exchange_drainAll _ _ _).trans (Round.exchange_missAll _ _ _)
  | cancel node => exact exchange_after _ nofun
  | ship id s hs =>
    exact (exchange_after _ (c := .cancel s.node) nofun).trans (Round.exchange_missAll _ _ _)
  | wait w => rfl

/-- Who adds to the misses of a round: a page that answers it, or a shipment that failed. -/
inductive Adds (who : Actor) (d : Demander) (R : RoundId) (p : PartitionId) : Prop where
  | page (id : JobId) (job : PageJob) (hw : who = .page id job) (hr : job.round = R)
      (ho : d.owns p job.demand.topology = true)
  | shipment (id : JobId) (s : Shipment) (hs : d.Ships id R s) (ho : d.owns p s.topology = true)

/-- Misses stay, and what is added belongs here. -/
theorem Moved.missed (h : Moved who d R r) (hs : d.Steady) (hb : d.Bound R) (p : PartitionId) :
    (p ∈ (d.roundOf R).round.missed → p ∈ r.missed) ∧
      (p ∈ r.missed → p ∈ (d.roundOf R).round.missed ∨ Adds who d R p) := by
  have hst := hs.standing R
  cases h with
  | same => exact ⟨id, .inl⟩
  | drain i job q hw hr =>
    rw [(Round.answers_drain _ job.sender q hst.toSound).1]
    exact ⟨id, .inl⟩
  | settle i job hw hr =>
    obtain ⟨hst', -, -, -, -, hmiss⟩ := Round.missAll_answers hst hb.2 job.sender
      (job.page.missed.toList.filter fun p => d.owns p job.demand.topology)
    rw [(Round.drainAll_answers hst' job.sender _).2.2.1, hmiss]
    refine ⟨.inl, ?_⟩
    rintro (hp | ⟨-, hp⟩)
    · exact .inl hp
    · exact .inr (.page i job hw hr (List.mem_filter.mp hp).2)
  | cancel node =>
    rw [Round.missed_cancel _ node hst.toSound]
    exact ⟨id, .inl⟩
  | ship i s hs' =>
    obtain ⟨hst', -, -, -, -, hmiss⟩ := Round.missAll_answers hst hb.2 s.node
      (((d.roundOf R).round.outstandingFrom s.node).toList.filter fun p => d.owns p s.topology)
    rw [Round.missed_cancel _ s.node hst'.toSound, hmiss]
    refine ⟨.inl, ?_⟩
    rintro (hp | ⟨-, hp⟩)
    · exact .inl hp
    · exact .inr (.shipment i s hs' (List.mem_filter.mp hp).2)
  | wait w =>
    rw [(Round.onDone_answers _ w).2.1]
    exact ⟨id, .inl⟩

end Moved

-- ============================================================================
-- Misses stay
-- ============================================================================

/-- The round is under way and the partition is among its misses. -/
def Misses (R : RoundId) (p : PartitionId) (d : Demander) : Prop :=
  d.Bound R ∧ p ∈ (d.roundOf R).round.missed

theorem misses_tick {who : Actor} {d e : Demander} {p : PartitionId} (h : Tick who d e)
    (hs : d.Steady) (hf : who.Fits d) (hm : Misses R p d) : Misses R p e :=
  ⟨(onward_tick h hs hf).bound hm.1, ((moved_tick h hs hf hm.1).missed hs hm.1 p).1 hm.2⟩

theorem misses_step {d : Demander} (hs : d.Steady) {p : PartitionId} (hm : Misses R p d)
    (i : Input) : Misses R p (d.step i) := by
  by_cases hi : ∃ c, i = .site c
  · obtain ⟨c, rfl⟩ := hi
    exact hm
  · refine step_keeps hs (fun c hc => hi ⟨c, hc⟩) ?_ fun e f ht hse hf he =>
      misses_tick ht hse hf he
    cases i <;> exact hm

theorem misses_run {d : Demander} (hs : d.Steady) {p : PartitionId} (hm : Misses R p d)
    (inputs : List Input) : Misses R p (d.run inputs) := by
  induction inputs generalizing d with
  | nil => exact hm
  | cons i inputs ih => exact ih (steady_step hs i) (misses_step hs hm i)

-- ============================================================================
-- Only what belongs here is missed
-- ============================================================================

/-- A round that a plan has started has the exchange of the plan, and the demands that are still to
    be sent for it are those of the plan. -/
structure Pursues (R : RoundId) (P : Plan) (d : Demander) : Prop where
  exchange : (d.roundOf R).round.exchange = some P.exchange
  shipments : ∀ id j s, d.job? id = some j → j.round? = some R → s ∈ j.shipments →
    ∃ demand, P.get? s.node = some demand ∧ demand.topology = s.topology

/-- A partition belongs here at the topology of some demand of the plan. -/
def BelongsTo (P : Plan) (d : Demander) (p : PartitionId) : Prop :=
  ∃ n demand, P.get? n = some demand ∧ d.owns p demand.topology = true

/-- What the round misses belongs here. -/
def MissesBelong (R : RoundId) (P : Plan) (d : Demander) : Prop :=
  ∀ p ∈ (d.roundOf R).round.missed, BelongsTo P d p

/-- Demands under way for the round are those of its plan. -/
theorem Pursues.ships {d : Demander} (h : Pursues R P d) (hh : Hosts R P d) {id : JobId}
    {s : Shipment} (hs : d.Ships id R s) :
    ∃ demand, P.get? s.node = some demand ∧ demand.topology = s.topology := by
  rcases hs with ⟨j, hj, hr, x, hx, hnode, htop⟩ | ⟨hc, plan, demand, hp, hg, ht⟩
  · rw [← hnode, ← htop]
    exact h.shipments id j x hj hr hx
  · rw [hh.planned hc, Option.some.injEq] at hp
    rw [hp]
    exact ⟨demand, hg, ht⟩

theorem pursues_tick {who : Actor} {d e : Demander} (h : Tick who d e) (hs : d.Steady)
    (hf : who.Fits d) (hh : Hosts R P d) (hd : Pursues R P d) : Pursues R P e where
  exchange := (moved_tick h hs hf hh.bound).exchange.trans hd.exchange
  shipments id j s hj hr hmem := by
    rcases job_tick h hj with hj | ⟨-, hparks⟩
    · exact hd.shipments id j s hj hr hmem
    · obtain ⟨id, hships⟩ := hparks.ships hr hmem
      exact hd.ships hh hships

theorem missesBelong_tick {who : Actor} {d e : Demander} (h : Tick who d e) (hs : d.Steady)
    (hf : who.Fits d) (hw : who.Serves R P) (hh : Hosts R P d) (hd : Pursues R P d)
    (hm : MissesBelong R P d) : MissesBelong R P e := by
  intro p hp
  have howns : ∀ t, e.owns p t = d.owns p t := fun t => by
    simp only [owns, (site_tick h).1.affinity]
  unfold BelongsTo
  simp only [howns]
  rcases ((moved_tick h hs hf hh.bound).missed hs hh.bound p).2 hp with hp | hadds
  · exact hm p hp
  · cases hadds with
    | page id job hwho hr ho =>
      subst hwho
      exact ⟨job.sender, job.demand, hw hr, ho⟩
    | shipment id s hships ho =>
      obtain ⟨demand, hg, ht⟩ := hd.ships hh hships
      exact ⟨s.node, demand, hg, by rw [ht]; exact ho⟩

theorem pursues_begin {d : Demander} (hs : d.Steady) (hl : R < d.rounds.length)
    (ha : (d.roundOf R).round.attached = false) :
    Pursues R P (d.begin R P) ∧ MissesBelong R P (d.begin R P) := by
  obtain ⟨-, -, -, hex, -, hmiss, -⟩ := Round.started_answers (hs.standing R) ha P
  refine ⟨⟨?_, fun id j s hj hr => ?_⟩, fun p hp => ?_⟩
  · rw [round_begin d hl, if_pos rfl]
    exact hex
  · -- no job works on a round that was not bound
    rw [job?, (beside_begin d R P).jobs] at hj
    have hb := hs.bound id j R hj hr
    rw [hb.2] at ha
    cases ha
  · rw [round_begin d hl, if_pos rfl, (Round.onDone_answers _ _).2.1, hmiss] at hp
    exact absurd hp (SortedSet.not_mem_empty p)

/-- The assignment at the topologies of a plan's demands does not change. -/
def Fixed (P : Plan) (d : Demander) (i : Input) : Prop :=
  ∀ c, i = .site c → ∀ n demand p, P.get? n = some demand →
    (d.site.change c).affinity.isOwned p demand.topology =
      d.site.affinity.isOwned p demand.topology

/-- The assignment at the topologies of a plan's demands does not change in a run. -/
def FixedRun (P : Plan) : Demander → List Input → Prop
  | _, [] => True
  | d, i :: rest => Fixed P d i ∧ FixedRun P (d.step i) rest

theorem pursues_base {d : Demander} (h : Pursues R P d) (i : Input) : Pursues R P (d.base i) := by
  cases i <;> exact ⟨h.exchange, h.shipments⟩

theorem missesBelong_base {d : Demander} (h : MissesBelong R P d) (i : Input) :
    MissesBelong R P (d.base i) := by
  cases i <;> exact h

theorem pursues_step {d : Demander} (hs : d.Steady) (hh : Hosts R P d) (hd : Pursues R P d)
    (i : Input) : Pursues R P (d.step i) := by
  by_cases hi : ∃ c, i = .site c
  · obtain ⟨c, rfl⟩ := hi
    exact ⟨hd.exchange, hd.shipments⟩
  · exact hosted_step (Q := Pursues R P) (fun _ i he => pursues_base he i)
      (fun _ _ _ ht hse hf _ hhe he => pursues_tick ht hse hf hhe he) hs hh hd
      fun c hc => hi ⟨c, hc⟩

theorem pursues_run {d : Demander} (hs : d.Steady) (hh : Hosts R P d) (hd : Pursues R P d)
    (inputs : List Input) : Pursues R P (d.run inputs) := by
  induction inputs generalizing d with
  | nil => exact hd
  | cons i inputs ih =>
    exact ih (steady_step hs i) (hosts_step hs hh i) (pursues_step hs hh hd i)

theorem missesBelong_step {d : Demander} (hs : d.Steady) (hh : Hosts R P d) (hd : Pursues R P d)
    (hm : MissesBelong R P d) {i : Input} (hi : Fixed P d i) : MissesBelong R P (d.step i) := by
  by_cases hsite : ∃ c, i = .site c
  · obtain ⟨c, rfl⟩ := hsite
    intro p hp
    obtain ⟨n, demand, hn, ho⟩ := hm p hp
    exact ⟨n, demand, hn, (hi c rfl n demand p hn).trans ho⟩
  · have hkeep : Pursues R P (d.step i) ∧ MissesBelong R P (d.step i) :=
      hosted_step (Q := fun e => Pursues R P e ∧ MissesBelong R P e)
        (fun _ i he => ⟨pursues_base he.1 i, missesBelong_base he.2 i⟩)
        (fun _ _ _ ht hse hf hw hhe he =>
          ⟨pursues_tick ht hse hf hhe he.1, missesBelong_tick ht hse hf hw hhe he.1 he.2⟩)
        hs hh ⟨hd, hm⟩ fun c hc => hsite ⟨c, hc⟩
    exact hkeep.2

theorem missesBelong_run {d : Demander} (hs : d.Steady) (hh : Hosts R P d) (hd : Pursues R P d)
    (hm : MissesBelong R P d) {inputs : List Input} (hi : FixedRun P d inputs) :
    MissesBelong R P (d.run inputs) := by
  induction inputs generalizing d with
  | nil => exact hm
  | cons i inputs ih =>
    exact ih (steady_step hs i) (hosts_step hs hh i) (pursues_step hs hh hd i)
      (missesBelong_step hs hh hd hm hi.1) hi.2

/-- The round that a plan has just started. -/
theorem pursues_begun {d : Demander} (hs : d.Steady)
    (ha : (d.roundOf R).round.attached = false) {i : Input} (hc : (d.step i).current = R)
    (hp : (d.step i).plan = some P) :
    Hosts R P (d.step i) ∧ Pursues R P (d.step i) ∧ MissesBelong R P (d.step i) :=
  begun_keeps (Q := fun P e => Pursues R P e ∧ MissesBelong R P e)
    (fun _ _ hse hl hu => pursues_begin hse hl hu)
    (fun _ _ _ _ ht hse hf hw hh hq =>
      ⟨pursues_tick ht hse hf hh hq.1, missesBelong_tick ht hse hf hw hh hq.1 hq.2⟩) hs ha hc hp

-- ============================================================================
-- The pages that report misses
-- ============================================================================

/-- The page whose partitions are all worked through, with its job, if it has come to that. -/
def reached (id : JobId) (job : PageJob) : Demander × Walked → Option (JobId × PageJob × Demander)
  | (x, .finished) => some (id, job, x)
  | _ => none

/-- The page that gets to what its sender does not have in a step, and the demander as the page
    finds it. -/
def atMissed (d : Demander) : Input → Option (JobId × PageJob × Demander)
  | .page worker sender page =>
    (d.accepted worker sender page).bind fun job =>
      reached d.nextJob job
        ((d.spawn.1.measure Board.pageReceived).walk job job.page.entries.toList)
  | .resume id =>
    match d.job? id with
    | some (.locking job p entries rest) =>
      if (d.site.store.base.tryLock p).2 then reached id job (d.goOn job p entries rest) else none
    | _ => none
  | _ => none

theorem afterWalk_of_reached {id id' : JobId} {job job' : PageJob} {x : Demander}
    {w : Demander × Walked} (h : reached id job w = some (id', job', x)) :
    id' = id ∧ job' = job ∧ w = (x, .finished) := by
  obtain ⟨e, w⟩ := w
  cases w with
  | finished =>
    cases h
    exact ⟨rfl, rfl, rfl⟩
  | blocked p entries rest => cases h
  | failed cause => cases h

theorem chores_of_walk {d e : Demander} {id : JobId} {job : PageJob}
    {todo : List (PartitionId × List Entry)} {w : Walked} (h : d.walk job todo = (e, w)) :
    Chores (.page id job) d e := by
  have ht : Chores (.page id job) d (d.walk job todo).1 := chores_walk d todo
  rwa [h] at ht

theorem chores_of_goOn {d e : Demander} {id : JobId} {job : PageJob} {p : PartitionId}
    {entries : List Entry} {rest : List (PartitionId × List Entry)} {w : Walked}
    (h : d.goOn job p entries rest = (e, w)) : Chores (.page id job) d e := by
  have ht : Chores (.page id job) d (d.goOn job p entries rest).1 := chores_goOn d p entries rest
  rwa [h] at ht

/-- A page that gets to what its sender does not have goes on with it there and then. -/
theorem ticks_reached {d : Demander} {i : Input} {id : JobId} {job : PageJob} {x : Demander}
    (h : d.atMissed i = some (id, job, x)) :
    d.step i = x.endPage id job ∧ d.actor i = .page id job ∧
      Ticks (.page id job) (d.base i) x := by
  cases i with
  | page worker sender page =>
    obtain ⟨job', hacc, hreach⟩ := Option.bind_eq_some_iff.mp h
    obtain ⟨rfl, rfl, hw⟩ := afterWalk_of_reached hreach
    refine ⟨?_, by simp only [actor, hacc], ?_⟩
    · rw [step_page hacc, hw]
      rfl
    · have ht : Chores (.page d.nextJob job) d.spawn.1 x :=
        .head (chore_measure _ Board.pageReceived fun _ => ⟨_, _, _, rfl⟩) (chores_of_walk hw)
      exact ht.ticks
  | resume id' =>
    simp only [atMissed] at h
    split at h
    · next job' p entries rest hj =>
      by_cases hlock : (d.site.store.base.tryLock p).2 = true
      · rw [if_pos hlock] at h
        obtain ⟨rfl, rfl, hw⟩ := afterWalk_of_reached h
        refine ⟨?_, by simp [actor, actorOf, hj, Job.page?], (chores_of_goOn hw).ticks⟩
        rw [step_resume_locking hj, if_neg (by simp [hlock]), hw]
        rfl
      · rw [if_neg hlock] at h
        cases h
    · cases h
  | _ => cases h

/-- A miss that belongs here and is still awaited from its sender when its page gets to it is
    noted. -/
theorem misses_reached {d : Demander} (hs : d.Steady) {i : Input} {id : JobId} {job : PageJob}
    {x : Demander} (h : d.atMissed i = some (id, job, x)) {p : PartitionId}
    (hp : p ∈ job.page.missed) (ho : x.owns p job.demand.topology = true)
    (hout : p ∈ (x.roundOf job.round).round.outstandingFrom job.sender) :
    Misses job.round p (d.step i) := by
  obtain ⟨hstep, hactor, hticks⟩ := ticks_reached h
  obtain ⟨-, hsx, hfx⟩ := hticks.keeps (P := fun _ => True) (fun _ _ _ _ _ _ => trivial)
    (steady_base hs i) (hactor ▸ fits_actor hs i) trivial
  have hmiss : Misses job.round p (x.settleMissed job) := by
    have ht : Tick (.page id job) x (x.settleMissed job) := .chore .settleMissed
    refine ⟨(onward_tick ht hsx hfx).bound hfx.2, ?_⟩
    have hst := hsx.standing job.round
    obtain ⟨hst', -, -, -, -, hadd⟩ := Round.missAll_answers hst hfx.2.2 job.sender
      (job.page.missed.toList.filter fun p => x.owns p job.demand.topology)
    rw [round_settleMissed x job hfx.2.1, if_pos rfl,
      (Round.drainAll_answers hst' job.sender _).2.2.1, hadd]
    exact .inr ⟨hst.toSound.isOpen hout, List.mem_filter.mpr ⟨hp, ho⟩⟩
  rw [hstep, endPage_eq]
  split
  · exact hmiss
  · exact hmiss

-- ============================================================================
-- Every miss is fetched again
-- ============================================================================

/-- What becomes of the misses of the round `R` when something that happens makes the plan `P` start
    it and a run follows. -/
structure Redriven (R : RoundId) (P : Plan) (d : Demander) (i : Input) (inputs : List Input) :
    Prop where
  /-- A partition that a page reports missing, that belongs here and is still awaited from the
      sender when the page gets to it, is in the summary in the end. -/
  kept : ∀ {m : Nat} {j : Input} {id : JobId} {job : PageJob} {x : Demander} {p : PartitionId}
    {demand : Demand} {s : Summary}, inputs[m]? = some j →
    ((d.step i).moment inputs m).atMissed j = some (id, job, x) → job.round = R →
    p ∈ job.page.missed → P.get? job.sender = some demand → x.owns p demand.topology = true →
    p ∈ (x.roundOf R).round.outstandingFrom job.sender →
    (((d.step i).run inputs).roundOf R).round.summary = some s → p ∈ s.missed
  /-- What is in the summary belongs here at the topology of a demand of the plan, hence at that of
      the plan if all its demands are made at it. -/
  belongs : FixedRun P (d.step i) inputs → ∀ {s : Summary} {p : PartitionId},
    (((d.step i).run inputs).roundOf R).round.summary = some s → p ∈ s.missed →
      BelongsTo P ((d.step i).run inputs) p ∧
        ((∀ n demand, P.get? n = some demand → demand.topology = P.topology) →
          ((d.step i).run inputs).owns p P.topology = true)
  /-- The manager is asked to force an exchange once for every round that ends with misses, and
      for this one it is that of the plan. -/
  forced : ∃ ids : List RoundId, ids.Nodup ∧
    dummiesOf (d.noticed (i :: inputs)) = ((d.step i).run inputs).redrives ids ∧
    (∀ id, id ∈ ids ↔ (d.roundOf id).round.isDone = false ∧
      (((d.step i).run inputs).roundOf id).round.redriven.isSome = true) ∧
    (R ∈ ids ↔ ∃ s, (((d.step i).run inputs).roundOf R).round.summary = some s ∧
      s.missed.isEmpty = false) ∧
    (R ∈ ids → (((d.step i).run inputs).roundOf R).round.redriven = some P.exchange)

/-- Misses are never lost, and fetched again exactly once.  Take any demander that can be there,
    whose round `R` has not started yet, anything that makes a plan start it, and any run after
    that. -/
theorem misses_are_redriven {d : Demander} (hd : d.Reachable)
    (ha : (d.roundOf R).round.attached = false) {i : Input} (hc : (d.step i).current = R)
    (hp : (d.step i).plan = some P) (inputs : List Input) : Redriven R P d i inputs := by
  have hs := steady_step hd.steady i
  obtain ⟨hh, hpur, hbel⟩ := pursues_begun hd.steady ha hc hp
  have hex : (((d.step i).run inputs).roundOf R).round.exchange = some P.exchange :=
    (pursues_run hs hh hpur inputs).exchange
  have hmissed : ∀ {e : Demander} {s : Summary}, (e.roundOf R).round.summary = some s →
      (e.roundOf R).round.missed = s.missed := fun hsum => by simp [Round.missed, hsum]
  refine ⟨?_, ?_, ?_⟩
  · intro m j id job x p demand s hj hat hr hpm hdem ho hout hsum
    have hdemand : demand = job.demand := by
      have hserves := (hosts_moment hs hh inputs m).serves j
      rw [(ticks_reached hat).2.1] at hserves
      exact Option.some.inj (hdem.symm.trans (hserves hr))
    subst hr hdemand
    have hnoted := misses_reached (steady_moment hs inputs m) hat hpm ho hout
    rw [← moment_succ _ hj] at hnoted
    have hend := misses_run (steady_moment hs inputs (m + 1)) hnoted (inputs.drop (m + 1))
    rw [run_moment] at hend
    exact hmissed hsum ▸ hend.2
  · intro hfix s p hsum hmem
    rw [← hmissed hsum] at hmem
    have hb := missesBelong_run hs hh hpur hbel hfix p hmem
    refine ⟨hb, fun hu => ?_⟩
    obtain ⟨n, demand, hn, ho⟩ := hb
    rwa [hu n demand hn] at ho
  · obtain ⟨ids, ps, hheard⟩ := heard_run hd.steady (i :: inputs)
    have hopen := hd.steady.open_of_unbound ha
    have hiff : R ∈ ids ↔ ∃ s, (((d.step i).run inputs).roundOf R).round.summary = some s ∧
        s.missed.isEmpty = false := by
      rw [hheard.ended R, show (d.run (i :: inputs)) = (d.step i).run inputs from rfl]
      simp only [hopen, true_and, Round.redriven]
      cases (((d.step i).run inputs).roundOf R).round.summary with
      | none => simp
      | some s => cases hne : s.missed.isEmpty <;> simp [Round.forced, hne, hex]
    refine ⟨ids, hheard.once, hheard.dummies, hheard.ended, hiff, fun hR => ?_⟩
    obtain ⟨s, hsum, hne⟩ := hiff.mp hR
    simp [Round.redriven, hsum, Round.forced, hne, hex]

/-- The demand is sent, and its receiver does not have the partition. -/
def missRun : List Input := [.answer 0 (.ok ()), .page 0 5 ((Supply.empty 0).markMissed 3)]

/-- The partition is missed, belongs here, and is fetched again by one forced exchange. -/
theorem missed_is_redriven :
    let i : Input := .add (planFor ⟨1, 0⟩ [(5, [3])]) true
    let plan := (planFor ⟨1, 0⟩ [(5, [3])]).stamp (Span.ofSecs 10) 524288
    let e := ((solo 3).step i).run missRun
    (solo 3).Reachable ∧ ((solo 3).roundOf 0).round.attached = false ∧
      ((solo 3).step i).current = 0 ∧ ((solo 3).step i).plan = some plan ∧
      FixedRun plan ((solo 3).step i) missRun ∧ Redriven 0 plan (solo 3) i missRun ∧
      (∃ s, (e.roundOf 0).round.summary = some s ∧ 3 ∈ s.missed) ∧ BelongsTo plan e 3 ∧
      dummiesOf ((solo 3).noticed (i :: missRun)) = [(plan.exchange, true)] := by
  intro i plan e
  have hreach : (solo 3).Reachable := reachable_newborn rfl rfl 2 ⟨1, 0⟩ ⟨{}, ∅, ∅, ∅⟩ [3]
  have hfix : FixedRun plan ((solo 3).step i) missRun := by
    refine ⟨?_, ?_, trivial⟩
    · intro c hc
      cases hc
    · intro c hc
      cases hc
  have h : Redriven 0 plan (solo 3) i missRun :=
    misses_are_redriven hreach (R := 0) (P := plan) (i := i) rfl rfl rfl missRun
  have hdemand : plan.get? 5 = some ⟨SortedSet.ofList [3], ⟨1, 0⟩, Span.ofSecs 10, 524288, none⟩ :=
    rfl
  have hmissed : ∃ s, (e.roundOf 0).round.summary = some s ∧ 3 ∈ s.missed := by
    have hdone : (e.roundOf 0).round.summary.isSome = true := by decide +kernel
    obtain ⟨s, hs⟩ := Option.isSome_iff_exists.mp hdone
    -- The page gets to what its sender does not have as soon as it arrives.
    have hreaches : ((((solo 3).step i).moment missRun 1).atMissed
        (.page 0 5 ((Supply.empty 0).markMissed 3))).isSome = true := by decide +kernel
    obtain ⟨⟨id, job, x⟩, hat⟩ := Option.isSome_iff_exists.mp hreaches
    have hfound : ((((solo 3).step i).moment missRun 1).atMissed
        (.page 0 5 ((Supply.empty 0).markMissed 3))).all (fun y =>
          decide (y.2.1.round = 0 ∧ 3 ∈ y.2.1.page.missed ∧ y.2.1.sender = 5 ∧
            y.2.2.owns 3 ⟨1, 0⟩ = true ∧ 3 ∈ (y.2.2.roundOf 0).round.outstandingFrom 5)) = true := by
      decide +kernel
    rw [hat] at hfound
    obtain ⟨hround, hmiss, hsender, howns, hout⟩ := of_decide_eq_true hfound
    exact ⟨s, hs, h.kept (m := 1) rfl hat hround hmiss (hsender ▸ hdemand) howns (hsender ▸ hout) hs⟩
  refine ⟨hreach, rfl, rfl, rfl, hfix, h, hmissed, ?_, by decide +kernel⟩
  obtain ⟨s, hs, hmem⟩ := hmissed
  exact (h.belongs hfix hs hmem).1

end Demander
end Rebalance
