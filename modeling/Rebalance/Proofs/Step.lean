/-
  Rebalance.Proofs.Step

  Every step of a demander is made of ticks.  `course` says how, for everything
  that can happen to a demander but a change to the node around it: by chores,
  with at most one plan launched or one round left unfinished among them.
  `step_ticks` forgets the order, and `steady_run` concludes that a demander is
  steady whatever has happened to it.
-/
import Rebalance.Proofs.Walk

namespace Rebalance
namespace Demander

-- ============================================================================
-- Who is at work
-- ============================================================================

/-- Who works when a job goes on. -/
def actorOf (d : Demander) (id : JobId) : Actor :=
  match (d.job? id).bind Job.page? with
  | some job => .page id job
  | none => if (d.job? id).isSome then .call id else .nobody

/-- Who works when something happens. -/
def actor (d : Demander) : Input → Actor
  | .add _ _ => .call d.nextJob
  | .page worker sender page =>
    match d.accepted worker sender page with
    | some job => .page d.nextJob job
    | none => .call d.nextJob
  | .stop => .call d.nextJob
  | .resume id => d.actorOf id
  | .answer id _ => d.actorOf id
  | _ => .nobody

/-- The demander with the job begun that something begins. -/
def base (d : Demander) : Input → Demander
  | .add _ _ => d.spawn.1
  | .page _ _ _ => d.spawn.1
  | .stop => d.spawn.1
  | _ => d

/-- Beginning a job leaves the site alone. -/
theorem site_base (d : Demander) (i : Input) : (d.base i).site = d.site := by
  cases i <;> rfl

-- ============================================================================
-- Pages
-- ============================================================================

/-- Who works when a page is let in. -/
def guest (d : Demander) (id : JobId) (worker : WorkerId) (sender : NodeId) (page : Supply) : Actor :=
  match d.wanted worker sender page with
  | some job => .page id job
  | none => .call id

theorem chores_letIn {d : Demander} (hl : d.current < d.rounds.length) (id : JobId)
    (worker : WorkerId) (sender : NodeId) (page : Supply) :
    Chores (d.guest id worker sender page) d (d.letIn id worker sender page) := by
  rw [letIn_eq, guest]
  cases h : d.wanted worker sender page with
  | some job =>
    obtain ⟨plan, demand, -, -, -, -, rfl⟩ := wanted_eq_some h
    exact .head (chore_measure _ Board.pageReceived fun _ => ⟨_, _, _, rfl⟩)
      (chores_workPage _ hl (List.suffix_refl _))
  | none =>
    refine Many.tail ?_ (.finish _ rfl)
    cases hd : d.plan.bind (·.get? sender) with
    | none => exact .single (chore_measure _ Board.pageReceived fun _ => ⟨_, _, _, rfl⟩)
    | some demand =>
      refine .head (chore_measure _ Board.pageReceived fun _ => ⟨_, _, _, rfl⟩)
        (.single (.cancel _ _ _ hl fun hreason => ?_))
      obtain ⟨plan, hplan, hget⟩ := Option.bind_eq_some_iff.mp hd
      refine ⟨demand.topology, .inr ⟨plan, sender, demand, hplan, hget, rfl⟩, ?_⟩
      by_contra hc
      rw [if_neg (by exact hc)] at hreason
      cases hreason

theorem id?_guest (d : Demander) (id : JobId) (worker : WorkerId) (sender : NodeId) (page : Supply) :
    (d.guest id worker sender page).id? = some id := by
  unfold guest
  split <;> rfl

/-- A page that is let in leaves at most a job of its own. -/
theorem job?_letIn {d : Demander} (hl : d.current < d.rounds.length) {id i : JobId}
    {worker : WorkerId} {sender : NodeId} {page : Supply} {j : Job}
    (hj : (d.letIn id worker sender page).job? i = some j) :
    d.job? i = some j ∨ i = id ∧ j.page?.isSome = true := by
  rcases (chores_letIn hl id worker sender page).ticks.job hj with hold | ⟨hid, f, hparks⟩
  · exact .inl hold
  · rw [id?_guest] at hid
    obtain rfl : id = i := Option.some.inj hid
    refine .inr ⟨rfl, ?_⟩
    unfold guest at hparks
    cases hw : d.wanted worker sender page with
    | some job =>
      rw [hw] at hparks
      cases hparks with
      | page hp _ _ => rw [hp]; rfl
    | none =>
      rw [letIn_eq, hw, job?_finish_self] at hj
      cases hj

theorem chores_takePage {d : Demander} (hs : d.Steady) (worker : WorkerId) (sender : NodeId)
    (page : Supply) :
    Chores (d.actor (.page worker sender page)) (d.base (.page worker sender page))
      (d.takePage worker sender page) := by
  change Chores _ d.spawn.1 (d.spawn.1.startPage d.nextJob worker sender page)
  by_cases hstop : d.stopping = true
  · have hacc : d.accepted worker sender page = none := if_pos hstop
    rw [actor, hacc, startPage, if_pos (by exact hstop)]
    exact .single (.finish _ rfl)
  · have hacc : d.accepted worker sender page = d.wanted worker sender page := if_neg hstop
    rw [actor, hacc, startPage, if_neg (by exact hstop)]
    exact chores_letIn (d := d.spawn.1) hs.current d.nextJob worker sender page

-- ============================================================================
-- Plans
-- ============================================================================

section Plans

variable {id : JobId}

theorem Ships.beside {d e : Demander} {round : RoundId} {s : Shipment} (h : d.Ships id round s)
    (hb : Beside d e) : e.Ships id round s := by
  unfold Ships job?
  rw [hb.jobs, hb.current, hb.plan]
  exact h

theorem chores_dispatch {d : Demander} (hs : d.Steady) (hid : id < d.nextJob) {round : RoundId}
    (hb : d.Bound round) {ships : List Shipment} (hships : ∀ s ∈ ships, d.Ships id round s) :
    Chores (.call id) d (d.dispatch id round ships) := by
  induction ships generalizing d with
  | nil => exact .single (.finish _ rfl)
  | cons s rest ih =>
    unfold dispatch
    split
    · have ht : Chore (.call id) d (d.endShipment round s) :=
        .endShipment round s hb (hships s List.mem_cons_self)
      exact .head ht (ih (steady_tick (.chore ht) hs hid) (fits_tick (.chore ht) hs hid)
        ((onward_chore ht hs hid).bound hb) fun x hx =>
          (hships x (List.mem_cons_of_mem _ hx)).beside (beside_endShipment d round s))
    · next r parts _ =>
      refine .single (.parkCall _ rfl (fun round' hr => ?_) fun round' x hr hx => ?_)
      · cases hr
        exact hb
      · cases hr
        rcases List.mem_cons.mp hx with rfl | hx
        · exact hships s List.mem_cons_self
        · exact hships x (List.mem_cons_of_mem _ hx)

theorem chores_dispatched {d : Demander} (hs : d.Steady) (hid : id < d.nextJob) {round : RoundId}
    (hb : d.Bound round) {s : Shipment} {rest : List Shipment}
    (hships : ∀ x ∈ s :: rest, d.Ships id round x) (r : Except Fault Unit) :
    Chores (.call id) d (d.dispatched id round s rest r) := by
  cases r with
  | ok _ =>
    have ht : Chore (.call id) d (d.measure Board.demandSent) :=
      chore_measure d _ fun _ => ⟨_, _, _, rfl⟩
    exact .head ht (chores_dispatch (steady_tick (.chore ht) hs hid) hid hb hships)
  | error cause =>
    have ht : Chore (.call id) d (d.measure Board.demandNotSent) :=
      chore_measure d _ fun _ => ⟨_, _, _, rfl⟩
    refine .head ht (chores_dispatch (steady_tick (.chore ht) hs hid) hid hb fun x hx => ?_)
    rcases List.mem_cons.mp hx with rfl | hx
    · exact hships s List.mem_cons_self
    · exact hships x (List.mem_cons_of_mem _ hx)

/-- A plan that is processed leaves its round nothing to do, or starts it. -/
theorem launch_eq (d : Demander) (id : JobId) (round : RoundId) (plan : Plan) :
    d.launch id round plan =
      if plan.isEmpty = true ∨ Key.below plan.topology d.site.affinity.current = true then
        (d.pass round plan).finish id (.ok ())
      else
        (d.begin round (plan.stamp d.settings.timeout d.settings.batchSize)).dispatch id round
          ((d.begin round (plan.stamp d.settings.timeout d.settings.batchSize)).shipments
            (plan.stamp d.settings.timeout d.settings.batchSize)) := by
  have hb := beside_changeRound d round (.attach plan.exchange)
  unfold launch
  simp only [Bool.or_eq_true, hb.affinity, hb.settings]
  rfl

theorem isEmpty_stamp (plan : Plan) (timeout : Span) (batchSize : UInt64) :
    (plan.stamp timeout batchSize).isEmpty = plan.isEmpty := by
  simp only [Plan.isEmpty, Plan.stamp, SortedMap.values, SortedMap.mapValues, List.map_map,
    List.all_map]
  rfl

/-- The demands of a plan that has just started a round are under way for it. -/
theorem ships_begin (d : Demander) (id : JobId) (round : RoundId) (plan : Plan) :
    ∀ s ∈ (d.begin round plan).shipments plan, (d.begin round plan).Ships id round s := by
  intro s hs
  obtain ⟨⟨node, demand⟩, hmem, rfl⟩ := List.mem_map.mp hs
  exact .inr ⟨(beside_begin d round plan).current, plan, demand, (beside_begin d round plan).plan,
    SortedMap.get?_eq_some_iff.mpr hmem, rfl⟩

theorem ticks_launch {d : Demander} (hs : d.Steady) (hid : id < d.nextJob) {round : RoundId}
    (hl : round < d.rounds.length) (ha : (d.roundOf round).round.attached = false) (plan : Plan) :
    Ticks (.call id) d (d.launch id round plan) := by
  rw [launch_eq]
  split
  · exact .head (.pass round plan hl ha) (.single (.chore (.finish _ rfl)))
  · next h =>
    simp only [not_or, Bool.not_eq_true] at h
    have ht : Tick (.call id) d
        (d.begin round (plan.stamp d.settings.timeout d.settings.batchSize)) :=
      .begin round _ hl ha ((isEmpty_stamp plan _ _).trans h.1) h.2
    refine .head ht (chores_dispatch (steady_tick ht hs hid) (fits_tick ht hs hid) ⟨?_, ?_⟩
      (ships_begin d id round _)).ticks
    · exact Nat.lt_of_lt_of_le hl (length_tick ht)
    · rw [round_begin d hl, if_pos rfl]
      exact (Round.started_answers (hs.standing round) ha _).2.1

/-- What a plan comes to that gets its turn, or gets on once `previous` is over: chores, after which
    it waits for `previous` or has returned, and at most one launch, with a round that is not bound
    yet and after `previous` is over. -/
inductive Plans (id : JobId) (plan : Plan) (previous : RoundId) (d : Demander) : Demander → Prop where
  | chores {e : Demander} (h : Chores (.call id) d e)
      (hj : ∀ j, e.job? id = some j → j = .awaiting plan previous) : Plans id plan previous d e
  | launch {e : Demander} (round : RoundId) (h : Chores (.call id) d e)
      (hl : round < e.rounds.length) (ha : (e.roundOf round).round.attached = false)
      (hp : (e.roundOf previous).round.attached = true →
        (e.roundOf previous).round.isDone = true) :
      Plans id plan previous d (e.launch id round plan)

theorem Plans.before {plan : Plan} {previous : RoundId} {d e f : Demander}
    (h : Chores (.call id) d e) (hp : Plans id plan previous e f) : Plans id plan previous d f := by
  cases hp with
  | chores h' hj => exact .chores (h.trans h') hj
  | launch round h' hl ha hp => exact .launch round (h.trans h') hl ha hp

theorem plans_awaitRound (d : Demander) (id : JobId) (plan : Plan) (previous : RoundId) :
    Plans id plan previous d (d.awaitRound id plan previous) := by
  unfold awaitRound
  split
  · exact .chores (.single (.finish _ rfl)) (by simp [job?_finish])
  · split
    · next hdone =>
      have hfresh : (d.openRound.1.roundOf d.rounds.length).round.attached = false := by
        rw [roundOf_openRound]
        exact congrArg (fun r : RoundRecord => r.round.attached)
          (roundOf_of_le d (Nat.le_refl d.rounds.length))
      refine .launch d.rounds.length (.single .openRound) (by simp) hfresh fun _ => ?_
      rw [← roundOf_openRound] at hdone
      exact hdone
    · refine .chores (.single (chore_wait d (.awaiting plan previous) rfl rfl)) fun j hj => ?_
      rw [job?_park_self] at hj
      exact (Option.some.inj hj).symm

theorem plans_beginPlan {d : Demander} (hl : d.current < d.rounds.length) (plan : Plan) :
    Plans id plan d.current d (d.beginPlan id plan) := by
  have hstale : Chores (.call id) d (d.cancelIfStale d.current) := chores_cancelIfStale d hl
  unfold beginPlan
  simp only
  split
  · exact .before hstale (plans_awaitRound _ id plan d.current)
  · next ha =>
    exact .launch d.current hstale (Nat.lt_of_lt_of_le hl hstale.ticks.length_le)
      (by simpa using ha) fun h => absurd h ha

/-- A plan that has its turn is alone: no other is on its way to a round. -/
theorem alone_of_hasTurn {d : Demander} (h : d.hasTurn id = true) {i : JobId} {j : Job}
    (hj : d.job? i = some j) : j.isPlanning = false := by
  simp only [hasTurn, Bool.and_eq_true, Bool.not_eq_true'] at h
  have hall := List.any_eq_false.mp h.1 j (SortedMap.mem_values_iff.mpr ⟨i, hj⟩)
  simpa using hall

theorem startAdd_eq (d : Demander) (id : JobId) (plan : Plan) (force : Bool) :
    d.startAdd id plan force =
      match d.takeFault.2 with
      | .error cause => d.takeFault.1.finish id (.error cause)
      | .ok () =>
        if !d.settings.isActive || d.stopping then d.takeFault.1.finish id (.ok ())
        else
          match d.schedule.startMode force with
          | .manual => d.takeFault.1.finish id (.ok ())
          | .delayed delay =>
            match d.schedule.arm delay with
            | .error cause => d.takeFault.1.finish id (.error cause)
            | .ok schedule => { d.takeFault.1 with schedule }.finish id (.ok ())
          | .immediate => (d.takeFault.1.park id (.queued plan)).turn id plan := by
  unfold startAdd takeFault
  cases d.fault <;> rfl

/-- A plan that is added takes its turn if it has one.  Otherwise it comes to chores, after which it
    waits for its turn or has returned. -/
theorem startAdd_cases (d : Demander) (id : JobId) (plan : Plan) (force : Bool) :
    (Chores (.call id) d (d.startAdd id plan force) ∧
        ∀ j, (d.startAdd id plan force).job? id = some j → j = .queued plan) ∨
      ∃ e, Chores (.call id) d e ∧ e.current = d.current ∧
        e.jobs = d.jobs.insert id (.queued plan) ∧ e.hasTurn id = true ∧
        d.startAdd id plan force = e.beginPlan id plan := by
  have ht : Chores (.call id) d d.takeFault.1 := chores_takeFault d
  have hsame : d.takeFault.1.current = d.current ∧ d.takeFault.1.jobs = d.jobs := by
    unfold takeFault
    cases d.fault <;> exact ⟨rfl, rfl⟩
  have hend : ∀ (e : Demander) (r : Except Fault Unit), Chores (.call id) d e →
      Chores (.call id) d (e.finish id r) ∧
        ∀ j, (e.finish id r).job? id = some j → j = .queued plan := by
    intro e r h
    refine ⟨h.tail (.finish _ rfl), fun j hj => ?_⟩
    rw [job?_finish_self] at hj
    cases hj
  rw [startAdd_eq]
  split
  · exact .inl (hend _ _ ht)
  · split
    · exact .inl (hend _ _ ht)
    · split
      · exact .inl (hend _ _ ht)
      · split
        · exact .inl (hend _ _ ht)
        · exact .inl (hend _ _ (ht.tail (chore_schedule _ _)))
      · have hp : Chores (.call id) d (d.takeFault.1.park id (.queued plan)) :=
          ht.tail (chore_wait _ (.queued plan) rfl rfl)
        unfold turn
        split
        · next hturn =>
          exact .inr ⟨_, hp, hsame.1, congrArg (·.insert id (.queued plan)) hsame.2, hturn, rfl⟩
        · refine .inl ⟨hp, fun j hj => ?_⟩
          rw [job?_park_self] at hj
          exact (Option.some.inj hj).symm

end Plans

-- ============================================================================
-- The end
-- ============================================================================

section Ending

variable {id : JobId}

theorem chores_returnFault (d : Demander) : Chores (.call id) d (d.returnFault id) :=
  (chores_takeFault d).tail (.finish _ rfl)

theorem chores_endStop (d : Demander) : Chores (.call id) d (d.endStop id) := by
  unfold endStop
  split
  · exact .refl d
  · refine .head (.keep d.schedule.stop [] d.fault d.stopping (.inr rfl) fun h => h) ?_
    exact chores_returnFault _

/-- The demander once a stop has left the current round unfinished, before it waits for the
    pages. -/
def leaving (d : Demander) : Demander := ({ d.spawn.1 with stopping := true }).abandonRound

/-- A call to stop leaves the current round, and ends once no page is being taken in. -/
theorem step_stop (d : Demander) :
    d.step .stop = (d.leaving.park d.nextJob .stopping).endStop d.nextJob := rfl

theorem chores_stop (d : Demander) : Chores (.call d.nextJob) d.leaving d.stop :=
  .head (chore_wait _ .stopping rfl rfl) (chores_endStop _)

theorem ticks_leaving (d : Demander) : Ticks (.call d.nextJob) d.spawn.1 d.leaving := by
  have hstop : Chore (.call d.nextJob) d.spawn.1 { d.spawn.1 with stopping := true } :=
    .keep d.schedule d.topics d.fault true (.inl rfl) fun _ => rfl
  exact .head (.chore hstop) (.single .abandon)

end Ending

-- ============================================================================
-- Every step
-- ============================================================================

theorem Steady.spawn {d : Demander} (hs : d.Steady) : d.spawn.1.Steady :=
  ⟨hs.standing, hs.current, hs.planned, fun i j h => Nat.lt_succ_of_lt (hs.young i j h),
    hs.bound, hs.todo, fun x hx => Nat.lt_succ_of_lt (hs.ended x hx)⟩

theorem actorOf_of_page {d : Demander} {id : JobId} {j : Job} {job : PageJob}
    (h : d.job? id = some j) (hj : j.page? = some job) : d.actorOf id = .page id job := by
  simp [actorOf, h, hj]

theorem actorOf_of_call {d : Demander} {id : JobId} {j : Job} (h : d.job? id = some j)
    (hj : j.page? = none) : d.actorOf id = .call id := by
  simp [actorOf, h, hj]

/-- How a plan comes to be processed after the round `previous`: as it is added, when it gets its
    turn, or when it gets on.  Unless it has waited for that round, no other plan is on its way. -/
inductive Brings (d : Demander) (id : JobId) (plan : Plan) (previous : RoundId) : Input → Prop where
  | added (force : Bool) (hid : id = d.nextJob) (hp : previous = d.current)
      (ho : ∀ i j, d.job? i = some j → j.isPlanning = false) :
      Brings d id plan previous (.add plan force)
  | queued (hj : d.job? id = some (.queued plan)) (hp : previous = d.current)
      (ho : ∀ i j, d.job? i = some j → j.isPlanning = false) :
      Brings d id plan previous (.resume id)
  | awaited (hj : d.job? id = some (.awaiting plan previous)) :
      Brings d id plan previous (.resume id)

/-- What something that happens comes to: chores, and at most one launch of a plan with a round that
    is not bound yet, or one round left unfinished. -/
inductive Course (d : Demander) (i : Input) : Prop where
  | chores (h : Chores (d.actor i) (d.base i) (d.step i))
  | launch (id : JobId) (e : Demander) (round previous : RoundId) (plan : Plan)
      (hw : d.actor i = .call id) (hb : d.Brings id plan previous i)
      (h : Chores (.call id) (d.base i) e) (hl : round < e.rounds.length)
      (ha : (e.roundOf round).round.attached = false)
      (hp : (e.roundOf previous).round.attached = true →
        (e.roundOf previous).round.isDone = true)
      (he : d.step i = e.launch id round plan)
  | stop (hi : i = .stop) (h : Chores (.call d.nextJob) d.leaving d.stop)

theorem Plans.course {d : Demander} {i : Input} {id : JobId} {plan : Plan} {previous : RoundId}
    (h : Plans id plan previous (d.base i) (d.step i)) (hw : d.actor i = .call id)
    (hb : d.Brings id plan previous i) : Course d i := by
  generalize hf : d.step i = f at h
  cases h with
  | chores h _ => exact .chores (by rw [hw, hf]; exact h)
  | launch round h hl ha hp => exact .launch id _ round previous plan hw hb h hl ha hp hf

theorem course_add {d : Demander} (hs : d.Steady) (plan : Plan) (force : Bool) :
    Course d (.add plan force) := by
  have hstep : d.step (.add plan force) = d.spawn.1.startAdd d.nextJob plan force := rfl
  rcases startAdd_cases d.spawn.1 d.nextJob plan force with ⟨h, -⟩ | ⟨e, h, hc, hj, hturn, he⟩
  · exact .chores (by rw [hstep]; exact h)
  · have hl : e.current < e.rounds.length := by
      rw [hc]
      exact Nat.lt_of_lt_of_le hs.current h.ticks.length_le
    have hplans : Plans d.nextJob plan e.current d.spawn.1 (d.step (.add plan force)) := by
      rw [hstep, he]
      exact .before h (plans_beginPlan hl plan)
    rw [hc] at hplans
    refine hplans.course rfl (.added force rfl rfl fun i j hold => alone_of_hasTurn hturn (i := i) ?_)
    rw [job?, hj, SortedMap.get?_insert_of_ne (Nat.ne_of_lt (hs.young i j hold))]
    exact hold

theorem course_resume {d : Demander} (hs : d.Steady) (id : JobId) : Course d (.resume id) := by
  have hstep : d.step (.resume id) = d.resume id := rfl
  unfold resume at hstep
  cases hj : d.job? id with
  | none =>
    rw [hj] at hstep
    exact .chores (by rw [hstep]; exact .refl d)
  | some j =>
    rw [hj] at hstep
    cases j with
    | locking job p entries rest =>
      have hw : d.actor (.resume id) = .page id job := actorOf_of_page hj rfl
      have ht : ((p, entries) :: rest) <:+ job.page.entries.toList := hs.todo id _ job hj rfl
      refine .chores ?_
      rw [hw, hstep]
      exact chores_resumeLocking d (hs.bound id _ _ hj rfl).1 p entries
        ((List.suffix_cons _ _).trans ht)
    | queued plan =>
      by_cases hturn : d.hasTurn id = true
      · have hplans : Plans id plan d.current d (d.step (.resume id)) := by
          rw [hstep]
          show Plans id plan d.current d (d.turn id plan)
          rw [turn, if_pos hturn]
          exact plans_beginPlan hs.current plan
        exact hplans.course (actorOf_of_call hj rfl)
          (.queued hj rfl fun _ _ => alone_of_hasTurn hturn)
      · refine .chores ?_
        rw [hstep]
        show Chores _ d (d.turn id plan)
        rw [turn, if_neg hturn]
        exact .refl d
    | awaiting plan previous =>
      have hplans : Plans id plan previous d (d.step (.resume id)) := by
        rw [hstep]
        exact plans_awaitRound d id plan previous
      exact hplans.course (actorOf_of_call hj rfl) (.awaited hj)
    | stopping =>
      have hw : d.actor (.resume id) = .call id := actorOf_of_call hj rfl
      refine .chores ?_
      rw [hw, hstep]
      exact chores_endStop d
    | replying job q => exact .chores (by rw [hstep]; exact .refl d)
    | sending round q s rest => exact .chores (by rw [hstep]; exact .refl d)

theorem beside_noteAnswer (d : Demander) (q : Request) (r : Except Fault Unit) :
    Beside d (d.noteAnswer q r) := by
  cases r with
  | ok _ => exact beside_emit d _
  | error cause => exact beside_emit d _

theorem chore_noteAnswer {who : Actor} (d : Demander) (q : Request) (r : Except Fault Unit) :
    Chore who d (d.noteAnswer q r) := by
  cases r with
  | ok _ =>
    exact chore_emit d (e := .sent (.demand q.demand) q.target q.topic q.demand.timeout) rfl rfl
      rfl
  | error cause => exact chore_emit d (e := .refused cause q.target q.topic) rfl rfl rfl

theorem chores_answer {d : Demander} (hs : d.Steady) (id : JobId) (r : Except Fault Unit) :
    Chores (d.actorOf id) d (d.answer id r) := by
  unfold answer
  cases hj : d.job? id with
  | none => exact .refl d
  | some j =>
    have hid := hs.young id j hj
    cases j with
    | replying job q =>
      rw [actorOf_of_page hj rfl]
      have ht : Chore (.page id job) d (d.noteAnswer q r) := chore_noteAnswer d q r
      have hb := hs.bound id _ _ hj rfl
      exact .head ht (chores_replied _ (Nat.lt_of_lt_of_le hb.1 (length_tick (.chore ht))) r)
    | sending round q s rest =>
      rw [actorOf_of_call hj rfl]
      have ht : Chore (.call id) d (d.noteAnswer q r) := chore_noteAnswer d q r
      have hships : ∀ x ∈ s :: rest, d.Ships id round x := fun x hx =>
        .inl ⟨_, hj, rfl, x, hx, rfl, rfl⟩
      exact .head ht (chores_dispatched (steady_tick (.chore ht) hs hid) (fits_tick (.chore ht) hs hid)
        ((onward_chore ht hs hid).bound (hs.bound id _ _ hj rfl))
        (fun x hx => (hships x hx).beside (beside_noteAnswer d q r)) r)
    | locking job p entries rest => exact .refl d
    | queued plan => exact .refl d
    | awaiting plan previous => exact .refl d
    | stopping => exact .refl d

/-- A page that is accepted is worked through there and then. -/
theorem step_page {d : Demander} {worker : WorkerId} {sender : NodeId} {page : Supply}
    {job : PageJob} (ha : d.accepted worker sender page = some job) :
    d.step (.page worker sender page) = afterWalk d.nextJob job
      ((d.spawn.1.measure Board.pageReceived).walk job job.page.entries.toList) := by
  have hpage : job.page = page := by
    obtain ⟨-, plan, demand, -, -, -, -, rfl⟩ := accepted_round ha
    rfl
  change d.spawn.1.startPage d.nextJob worker sender page = _
  rw [startPage_eq, show d.spawn.1.accepted worker sender page = some job from ha, hpage]
  exact workPage_eq _ _ _ _

/-- A page that waits for a lock goes on once the lock is free. -/
theorem step_resume_locking {d : Demander} {id : JobId} {job : PageJob} {p : PartitionId}
    {entries : List Entry} {rest : List (PartitionId × List Entry)}
    (hj : d.job? id = some (.locking job p entries rest)) :
    d.step (.resume id) =
      if (d.site.store.base.tryLock p).2 = false then d
      else afterWalk id job (d.goOn job p entries rest) := by
  change d.resume id = _
  unfold resume
  rw [hj]
  exact resumeLocking_eq d id job p entries rest

/-- The page at work in a job is the one that the job takes in. -/
theorem job_of_actorOf {d : Demander} {id id' : JobId} {job : PageJob}
    (h : d.actorOf id' = .page id job) :
    id' = id ∧ ∃ j, d.job? id = some j ∧ j.page? = some job := by
  unfold actorOf at h
  cases hj : d.job? id' with
  | none => simp [hj] at h
  | some j =>
    cases hp : j.page? with
    | none => simp [hj, hp] at h
    | some job' =>
      simp only [hj, Option.bind_some, hp, Actor.page.injEq] at h
      obtain ⟨rfl, rfl⟩ := h
      exact ⟨rfl, j, hj, hp⟩

/-- What a step of a page comes to. -/
inductive PageStep (d : Demander) (id : JobId) (job : PageJob) : Input → Demander → Prop where
  /-- The page arrives, and is worked through as far as it goes. -/
  | arrives {worker : WorkerId} {sender : NodeId} {page : Supply} (hid : id = d.nextJob)
      (ha : d.accepted worker sender page = some job) :
      PageStep d id job (.page worker sender page)
        (afterWalk id job ((d.spawn.1.measure Board.pageReceived).walk job job.page.entries.toList))
  /-- The lock that the page waits for is free. -/
  | goesOn {p : PartitionId} {entries : List Entry} {rest : List (PartitionId × List Entry)}
      (hj : d.job? id = some (.locking job p entries rest))
      (hl : (d.site.store.base.tryLock p).2 = true) :
      PageStep d id job (.resume id) (afterWalk id job (d.goOn job p entries rest))
  /-- The transport has dealt with the demand for the next page. -/
  | replied {q : Request} (hj : d.job? id = some (.replying job q)) (r : Except Fault Unit) :
      PageStep d id job (.answer id r) ((d.noteAnswer q r).replied id job r)
  /-- The page waits as before, for its lock perhaps, which is taken. -/
  | waits {i : Input} {j : Job} (hi : i = .resume id ∨ ∃ r, i = .answer id r)
      (hj : d.job? id = some j) (hp : j.page? = some job)
      (hl : ∀ p entries rest, i = .resume id → j = .locking job p entries rest →
        (d.site.store.base.tryLock p).2 = false) : PageStep d id job i d

theorem pageStep {d : Demander} {i : Input} {id : JobId} {job : PageJob}
    (hw : d.actor i = .page id job) : PageStep d id job i (d.step i) := by
  cases i with
  | page worker sender page =>
    simp only [actor] at hw
    split at hw
    · next ha =>
      cases hw
      rw [step_page ha]
      exact .arrives rfl ha
    · cases hw
  | resume id' =>
    obtain ⟨rfl, j, hj, hp⟩ := job_of_actorOf hw
    cases j with
    | locking job' p entries rest =>
      cases hp
      rw [step_resume_locking hj]
      split
      · next hl =>
        refine .waits (.inl rfl) hj rfl fun _ _ _ _ heq => ?_
        cases heq
        exact hl
      · next hl => exact .goesOn hj (eq_true_of_ne_false hl)
    | replying job' q =>
      have hstep : d.step (.resume id') = d := by
        change d.resume id' = d
        rw [resume, hj]
      rw [hstep]
      exact .waits (.inl rfl) hj hp nofun
    | _ => cases hp
  | answer id' r =>
    obtain ⟨rfl, j, hj, hp⟩ := job_of_actorOf hw
    have hstep : d.step (.answer id' r) = d.answer id' r := rfl
    rw [answer, hj] at hstep
    cases j with
    | locking job' p entries rest =>
      rw [hstep]
      exact .waits (.inr ⟨r, rfl⟩) hj hp nofun
    | replying job' q =>
      cases hp
      rw [hstep]
      exact .replied hj r
    | _ => cases hp
  | _ => cases hw

/-- Whoever goes on as a job is that job, which is there. -/
theorem id_of_actorOf {d : Demander} {id id' : JobId} (h : (d.actorOf id').id? = some id) :
    id' = id ∧ ∃ j, d.job? id = some j := by
  cases hj : d.job? id' with
  | none => simp [actorOf, hj, Actor.id?] at h
  | some j =>
    cases hp : j.page? with
    | none =>
      rw [actorOf_of_call hj hp] at h
      cases h
      exact ⟨rfl, j, hj⟩
    | some job =>
      rw [actorOf_of_page hj hp] at h
      cases h
      exact ⟨rfl, j, hj⟩

/-- Whatever happens to a steady demander takes its course. -/
theorem course {d : Demander} (hs : d.Steady) {i : Input} (hi : ∀ c, i ≠ .site c) :
    Course d i := by
  cases i with
  | add plan force => exact course_add hs plan force
  | page worker sender page => exact .chores (chores_takePage hs worker sender page)
  | unreadable sender => exact .chores (chores_unreadable d hs.current sender)
  | nodeLeft node => exact .chores (chores_nodeLeft d hs.current node)
  | topologyChanged => exact .chores (chores_cancelIfStale d hs.current)
  | stop => exact .stop rfl (chores_stop d)
  | resume id => exact course_resume hs id
  | answer id r => exact .chores (chores_answer hs id r)
  | watch tag => exact .chores (.single (.watch tag))
  | exchange topology e finished => exact .chores (.single (chore_schedule d _))
  | exchanged e => exact .chores (chores_onSchedule d fun s => ((s.finish e).1, (s.finish e).2.1))
  | remember e => exact .chores (.single (chore_schedule d _))
  | forcePreload => exact .chores (chores_onSchedule d Schedule.forcePreload)
  | elapse ms => exact .chores (chores_onSchedule d fun s => s.elapse ms)
  | disarm => exact .chores (.single (chore_schedule d _))
  | site c => exact absurd rfl (hi c)

-- ============================================================================
-- Every run
-- ============================================================================

/-- A job that begins leaves a demander steady. -/
theorem steady_base {d : Demander} (hs : d.Steady) (i : Input) : (d.base i).Steady := by
  have hspawn := hs.spawn
  cases i with
  | add plan force => exact hspawn
  | page worker sender page => exact hspawn
  | stop => exact hspawn
  | _ => exact hs

theorem fits_actorOf {d : Demander} (hs : d.Steady) (id : JobId) : (d.actorOf id).Fits d := by
  unfold actorOf
  cases hj : d.job? id with
  | none => trivial
  | some j =>
    cases hp : j.page? with
    | none =>
      simp only [Option.bind_some, hp, Option.isSome_some, if_true]
      exact hs.young id j hj
    | some job =>
      simp only [Option.bind_some, hp]
      exact ⟨hs.young id j hj, hs.bound id j job.round hj (Job.round?_of_page? hp)⟩

/-- Whoever something sets to work is known to the demander. -/
theorem fits_actor {d : Demander} (hs : d.Steady) (i : Input) : (d.actor i).Fits (d.base i) := by
  cases i with
  | add plan force => exact Nat.lt_succ_self d.nextJob
  | page worker sender page =>
    simp only [actor]
    split
    · next job h =>
      obtain ⟨-, plan, demand, hp, -, -, -, rfl⟩ := accepted_round h
      exact ⟨Nat.lt_succ_self d.nextJob, hs.current, hs.planned (by rw [hp]; rfl)⟩
    · exact Nat.lt_succ_self d.nextJob
  | stop => exact Nat.lt_succ_self d.nextJob
  | resume id => exact fits_actorOf hs id
  | answer id r => exact fits_actorOf hs id
  | _ => trivial

/-- Whatever happens to a steady demander is made of ticks, of whoever it sets to work. -/
theorem step_ticks {d : Demander} (hs : d.Steady) {i : Input} (hi : ∀ c, i ≠ .site c) :
    Ticks (d.actor i) (d.base i) (d.step i) := by
  cases course hs hi with
  | chores h => exact h.ticks
  | launch id e round previous plan hw _ h hl ha _ he =>
    have hf := fits_actor hs i
    rw [hw] at hf
    obtain ⟨-, hse, hid⟩ := h.ticks.keeps (P := fun _ => True) (fun _ _ _ _ _ _ => trivial)
      (steady_base hs i) hf trivial
    rw [hw, he]
    exact h.ticks.trans (ticks_launch hse hid hl ha plan)
  | stop hi h =>
    subst hi
    exact (ticks_leaving d).trans h.ticks

/-- A property that every tick of a steady demander keeps is kept by a step. -/
theorem step_keeps {P : Demander → Prop} {d : Demander} (hs : d.Steady) {i : Input}
    (hi : ∀ c, i ≠ .site c) (hbase : P (d.base i))
    (hstep : ∀ e f, Tick (d.actor i) e f → e.Steady → (d.actor i).Fits e → P e → P f) :
    P (d.step i) :=
  ((step_ticks hs hi).keeps hstep (steady_base hs i) (fits_actor hs i) hbase).1

/-- A round that is bound stays so. -/
theorem bound_step {d : Demander} (hs : d.Steady) {R : RoundId} (hb : d.Bound R) (i : Input) :
    (d.step i).Bound R := by
  by_cases hi : ∃ c, i = .site c
  · obtain ⟨c, rfl⟩ := hi
    exact hb
  · refine step_keeps (P := fun e => e.Bound R) hs (fun c hc => hi ⟨c, hc⟩) ?_
      fun e f ht hse hf he => (onward_tick ht hse hf).bound he
    cases i <;> exact hb

/-- A step leaves alone whatever waits but is not at work. -/
theorem job_of_other {d : Demander} (hs : d.Steady) {i : Input} {id : JobId}
    (hw : (d.actor i).id? ≠ some id) : (d.step i).job? id = d.job? id := by
  by_cases hi : ∃ c, i = .site c
  · obtain ⟨c, rfl⟩ := hi
    rfl
  · rw [(step_ticks hs fun c hc => hi ⟨c, hc⟩).jobs hw]
    cases i <;> rfl

theorem steady_step {d : Demander} (hs : d.Steady) (i : Input) : (d.step i).Steady := by
  by_cases hi : ∃ c, i = .site c
  · obtain ⟨c, rfl⟩ := hi
    exact ⟨hs.standing, hs.current, hs.planned, hs.young, hs.bound, hs.todo, hs.ended⟩
  · have hi : ∀ c, i ≠ .site c := fun c hc => hi ⟨c, hc⟩
    exact ((step_ticks hs hi).keeps (P := fun _ => True) (fun _ _ _ _ _ _ => trivial)
      (steady_base hs i) (fits_actor hs i) trivial).2.1

theorem steady_run {d : Demander} (hs : d.Steady) (inputs : List Input) :
    (d.run inputs).Steady := by
  induction inputs generalizing d with
  | nil => exact hs
  | cons i inputs ih => exact ih (steady_step hs i)

/-- A demander that nothing has happened to. -/
theorem steady_new (settings : Settings) (site : Site) (schedule : Schedule) (topics : List Topic) :
    ({ settings, site, schedule, topics } : Demander).Steady where
  standing id := by
    have h : ({ settings, site, schedule, topics } : Demander).roundOf id = {} := by
      unfold roundOf
      cases id <;> rfl
    rw [h]
    exact Round.standing_empty
  current := Nat.zero_lt_one
  planned h := by cases h
  young i j h := by simp [job?] at h
  bound i j id h := by simp [job?] at h
  todo i j job h := by simp [job?] at h
  ended x hx := by cases hx

/-- What a demander is like that has come into being. -/
theorem create_cases {σ : Type} {settings : Settings} {site : Site}
    {register : Topic → σ → Except Fault σ} {s t : σ} {d : Demander}
    (h : create settings site register s = (t, .ok d)) :
    settings.fault? = none ∧
      ∃ topics, let fresh : Demander :=
        { settings, site, schedule := { delay := settings.delay }, topics }
        d = fresh ∨ d = fresh.changeRound 0 .complete := by
  unfold create at h
  cases hf : settings.fault? with
  | some cause => simp [hf] at h
  | none =>
    refine ⟨rfl, ?_⟩
    simp only [hf] at h
    by_cases ha : settings.isActive = true
    · rw [if_pos ha] at h
      split at h
      · cases h
      · cases h
        exact ⟨_, .inl rfl⟩
    · rw [if_neg ha] at h
      cases h
      exact ⟨[], .inr rfl⟩

/-- A demander that has come into being has usable settings, no jobs, and one round. -/
theorem create_blank {σ : Type} {settings : Settings} {site : Site}
    {register : Topic → σ → Except Fault σ} {s t : σ} {d : Demander}
    (h : create settings site register s = (t, .ok d)) :
    settings.fault? = none ∧ d.settings = settings ∧ d.jobs = ∅ ∧ d.current = 0 ∧
      d.rounds.length = 1 := by
  obtain ⟨hf, topics, rfl | rfl⟩ := create_cases h
  · exact ⟨hf, rfl, rfl, rfl, rfl⟩
  · have hb := beside_changeRound
      ({ settings, site, schedule := { delay := settings.delay }, topics } : Demander) 0 .complete
    exact ⟨hf, hb.settings, hb.jobs, hb.current, hb.rounds⟩

/-- A demander that has come into being is steady. -/
theorem steady_create {σ : Type} {settings : Settings} {site : Site}
    {register : Topic → σ → Except Fault σ} {s t : σ} {d : Demander}
    (h : create settings site register s = (t, .ok d)) : d.Steady := by
  obtain ⟨-, topics, rfl | rfl⟩ := create_cases h
  · exact steady_new settings site _ topics
  · have hs := steady_new settings site { delay := settings.delay } topics
    refine hs.along (beside_changeRound _ 0 .complete).near.along ?_
    refine .of_round hs (beside_changeRound _ 0 .complete).rounds
      (round_changeRound _ .complete hs.current) ?_ fun hatt => ?_
    · exact (Round.standing_complete (hs.standing 0).closed_iff).1
    · cases hatt

theorem run_snoc (d : Demander) (inputs : List Input) (i : Input) :
    d.run (inputs ++ [i]) = (d.run inputs).step i := List.foldl_append

/-- The demanders that can be there: one that has come into being, after anything at all has
    happened to it. -/
def Reachable (d : Demander) : Prop :=
  ∃ (σ : Type) (settings : Settings) (site : Site) (register : Topic → σ → Except Fault σ)
    (s t : σ) (start : Demander) (inputs : List Input),
    create settings site register s = (t, .ok start) ∧ d = start.run inputs

theorem Reachable.steady {d : Demander} (h : d.Reachable) : d.Steady := by
  obtain ⟨σ, settings, site, register, s, t, start, inputs, hc, rfl⟩ := h
  exact steady_run (steady_create hc) inputs

theorem Reachable.run {d : Demander} (h : d.Reachable) (inputs : List Input) :
    (d.run inputs).Reachable := by
  obtain ⟨σ, settings, site, register, s, t, start, before, hc, rfl⟩ := h
  refine ⟨σ, settings, site, register, s, t, start, before ++ inputs, hc, ?_⟩
  exact List.foldl_append.symm

/-- A demander whose node has partitions that are still to be filled, as it comes into being. -/
def newborn (settings : Settings) (node : NodeId) (topology : Topology) (store : Tampered)
    (owned : List PartitionId) : Demander :=
  let site : Site := {
    node
    store := { store with base := owned.foldl (fun (s : Store) p => s.create p .moving) store.base }
    affinity := Affinity.start topology (SortedSet.ofList owned)
    recorder := Recorder.all
    clock := 0 }
  let d : Demander := { settings, site, schedule := { delay := settings.delay } }
  { d with topics := d.pool.topics .demand }

/-- A plan that asks nodes for partitions, for an exchange that came with a new member. -/
def planFor (topology : Topology) (demands : List (NodeId × List PartitionId)) : Plan :=
  demands.foldl (fun (p : Plan) x => p.request x.1 x.2)
    { exchange := ⟨0, topology, ⟨0, .nodeJoined, 0⟩⟩ }

theorem registerAll_ok {σ : Type} (s : σ) (ts : List Topic) :
    registerAll (fun _ s => (.ok s : Except Fault σ)) ts s = (s, .ok ()) := by
  induction ts with
  | nil => rfl
  | cons t ts ih => exact ih

theorem create_newborn {settings : Settings} (hf : settings.fault? = none)
    (ha : settings.isActive = true) (node : NodeId) (topology : Topology) (store : Tampered)
    (owned : List PartitionId) :
    create settings (newborn settings node topology store owned).site (fun _ s => .ok s) () =
      ((), .ok (newborn settings node topology store owned)) := by
  unfold create
  simp only [hf, ha, if_true, registerAll_ok]
  rfl

theorem reachable_newborn {settings : Settings} (hf : settings.fault? = none)
    (ha : settings.isActive = true) (node : NodeId) (topology : Topology) (store : Tampered)
    (owned : List PartitionId) : (newborn settings node topology store owned).Reachable :=
  ⟨Unit, settings, (newborn settings node topology store owned).site, fun _ s => .ok s, (), (),
    newborn settings node topology store owned, [], create_newborn hf ha node topology store owned,
    rfl⟩

/-- A demander with one worker and one partition to fill. -/
def solo (p : PartitionId) : Demander := newborn { poolSize := 1 } 2 ⟨1, 0⟩ ⟨{}, ∅, ∅, ∅⟩ [p]

theorem reachable_solo (p : PartitionId) : (solo p).Reachable := reachable_newborn rfl rfl 2 ⟨1, 0⟩ _ [p]

end Demander
end Rebalance
