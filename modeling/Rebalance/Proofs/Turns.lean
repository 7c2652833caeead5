/-
  Rebalance.Proofs.Turns

  Rounds come one after the other.  `Proceeds` says how the job of a plan, or of
  a stop, gets on, and `proceeds_step` that a step leaves no other such jobs.  A
  plan that has its turn keeps it until it has returned, so at most one plan
  waits for a round, and the one that it waits for is the current one: `Turns`
  says so of a demander between two steps.  Hence whenever a plan is processed
  every round that was bound before is over (`Reaches.over`), and between two
  steps every bound round but the current one is (`Serial`).
-/
import Rebalance.Proofs.Demands
import Rebalance.Proofs.Opening
import Rebalance.Proofs.Hearing

namespace Rebalance

namespace Job

/-- The plan that a job is still to process. -/
def plan? : Job → Option Plan
  | queued plan => some plan
  | awaiting plan _ => some plan
  | _ => none

end Job

namespace Demander

-- ============================================================================
-- How jobs get on
-- ============================================================================

/-- No plan has its turn. -/
def NoTurn (d : Demander) : Prop := ∀ k x, d.job? k = some x → x.isPlanning = false

/-- How the job of a plan gets on: it stays as it is, it gets its turn and waits for the current
    round, it starts a round that was not bound yet, or it sends the next demand. -/
inductive Proceeds (d : Demander) : Job → Job → Prop where
  | same (j : Job) : Proceeds d j j
  | waits (plan : Plan) (ho : d.NoTurn) : Proceeds d (.queued plan) (.awaiting plan d.current)
  | starts {j : Job} {plan : Plan} (hj : j.plan? = some plan) (ho : j.isPlanning = true ∨ d.NoTurn)
      {round : RoundId} (hr : (d.roundOf round).round.attached = false) (q : Request) (s : Shipment)
      (rest : List Shipment) : Proceeds d j (.sending round q s rest)
  | sends (round : RoundId) {q q' : Request} {s s' : Shipment} {rest rest' : List Shipment} :
      Proceeds d (.sending round q s rest) (.sending round q' s' rest')

section Proceeds

variable {d e : Demander} {id : JobId} {i : Input} {j k : Job} {plan : Plan} {previous R : RoundId}

/-- Who has its turn had it, or nobody had. -/
theorem Proceeds.isPlanning (h : d.Proceeds k j) (hj : j.isPlanning = true) :
    k.isPlanning = true ∨ d.NoTurn := by
  cases h with
  | same => exact .inl hj
  | waits plan ho => exact .inr ho
  | starts hj ho hr q s rest => exact ho
  | sends => exact .inl rfl

/-- A plan waits for what it has waited for, or for the current round. -/
theorem Proceeds.awaiting (h : d.Proceeds k (.awaiting plan previous)) :
    k = .awaiting plan previous ∨ previous = d.current := by
  cases h with
  | same => exact .inl rfl
  | waits => exact .inr rfl

/-- Whoever is to process a plan was to process it. -/
theorem Proceeds.plan? (h : d.Proceeds k j) (hj : j.plan? = some plan) : k.plan? = some plan := by
  cases h with
  | same => exact hj
  | waits => exact hj
  | starts => cases hj
  | sends => cases hj

/-- Demands are sent for a round for which demands were sent, or for one that was not bound. -/
theorem Proceeds.sending {q : Request} {s : Shipment} {rest : List Shipment}
    (h : d.Proceeds k (.sending R q s rest)) :
    (∃ q' s' rest', k = .sending R q' s' rest') ∨ (d.roundOf R).round.attached = false := by
  cases h with
  | same => exact .inl ⟨q, s, rest, rfl⟩
  | starts hj ho hr => exact .inr hr
  | sends => exact .inl ⟨_, _, _, rfl⟩

/-- A plan that is processed with a round has returned, or has its demands to send. -/
theorem job?_launch (d : Demander) (id : JobId) (round : RoundId) (plan : Plan) :
    (d.launch id round plan).job? id = none ∨
      ∃ q s rest, (d.launch id round plan).job? id = some (.sending round q s rest) := by
  rw [launch_eq]
  split
  · refine .inl ?_
    rw [job?_finish_self]
  · rcases job?_dispatch (d.begin round (plan.stamp d.settings.timeout d.settings.batchSize)) id round
      ((d.begin round (plan.stamp d.settings.timeout d.settings.batchSize)).shipments
        (plan.stamp d.settings.timeout d.settings.batchSize)) with ⟨h, -⟩ | ⟨q, s, rest, h, -⟩
    · exact .inl h
    · exact .inr ⟨q, s, rest, h⟩

/-- A plan that gets its turn, or gets on, waits for the round before it or starts one. -/
theorem Plans.job (h : Plans id plan previous d e) (hs : d.Steady) (hid : id < d.nextJob)
    (hj : e.job? id = some j) :
    j = .awaiting plan previous ∨
      ∃ R q s rest, j = .sending R q s rest ∧ (d.roundOf R).round.attached = false := by
  cases h with
  | chores _ hwait => exact .inl (hwait j hj)
  | launch R h hl ha hp =>
    rcases job?_launch _ id R plan with hnone | ⟨q, s, rest, hsend⟩
    · cases hnone.symm.trans hj
    · refine .inr ⟨R, q, s, rest, Option.some.inj (hj.symm.trans hsend), ?_⟩
      rw [← (leads_chores h hs hid).1.attached]
      exact ha

/-- The job that something begins, if it is not one of a page. -/
def Input.begins? : Input → Option Job
  | .add plan _ => some (.queued plan)
  | .stop => some .stopping
  | _ => none

/-- A job before a step; the one that the step begins counts as there. -/
def jobBefore (d : Demander) (i : Input) (id : JobId) : Option Job :=
  if id = d.nextJob then i.begins? else d.job? id

theorem jobBefore_of_job? (hs : d.Steady) (hj : d.job? id = some j) : d.jobBefore i id = some j := by
  rw [jobBefore, if_neg (Nat.ne_of_lt (hs.young id j hj))]
  exact hj

theorem jobBefore_planning (h : d.jobBefore i id = some k) (hk : k.isPlanning = true) :
    d.job? id = some k := by
  unfold jobBefore at h
  split at h
  · cases i <;> cases h <;> cases hk
  · exact h

theorem proceeds_add (hs : d.Steady) {force : Bool}
    (hj : (d.step (.add plan force)).job? d.nextJob = some j) : d.Proceeds (.queued plan) j := by
  change (d.spawn.1.startAdd d.nextJob plan force).job? d.nextJob = some j at hj
  rcases startAdd_cases d.spawn.1 d.nextJob plan force with
    ⟨-, hqueued⟩ | ⟨e, h, hc, hjobs, hturn, he⟩
  · rw [hqueued j hj]
    exact .same _
  · obtain ⟨hl, hse, hide⟩ := leads_chores h hs.spawn (Nat.lt_succ_self d.nextJob)
    have hnone : d.NoTurn := by
      intro k x hx
      refine alone_of_hasTurn hturn (i := k) ?_
      rw [job?, hjobs, SortedMap.get?_insert_of_ne (Nat.ne_of_lt (hs.young k x hx))]
      exact hx
    rw [he] at hj
    rcases (plans_beginPlan hse.current plan).job hse hide hj with rfl | ⟨R, q, s, rest, rfl, hr⟩
    · rw [hc]
      exact .waits plan hnone
    · rw [hl.attached] at hr
      exact .starts rfl (.inr hnone) hr q s rest

theorem proceeds_resume (hs : d.Steady) (hk : d.job? id = some k)
    (hj : (d.step (.resume id)).job? id = some j) (hp : k.page? = none) : d.Proceeds k j := by
  change (d.resume id).job? id = some j at hj
  unfold resume at hj
  rw [hk] at hj
  have hid := hs.young id k hk
  cases k with
  | locking job p es rest => cases hp
  | replying job q => cases hp
  | queued plan =>
    change (d.turn id plan).job? id = some j at hj
    unfold turn at hj
    split at hj
    · next hturn =>
      rcases (plans_beginPlan hs.current plan).job hs hid hj with rfl | ⟨R, q, s, rest, rfl, hr⟩
      · exact .waits plan fun k x => alone_of_hasTurn hturn
      · exact .starts rfl (.inr fun k x => alone_of_hasTurn hturn) hr q s rest
    · obtain rfl : Job.queued plan = j := Option.some.inj (hk.symm.trans hj)
      exact .same _
  | awaiting plan previous =>
    rcases (plans_awaitRound d id plan previous).job hs hid hj with rfl | ⟨R, q, s, rest, rfl, hr⟩
    · exact .same _
    · exact .starts rfl (.inl rfl) hr q s rest
  | sending round q s rest =>
    obtain rfl : Job.sending round q s rest = j := Option.some.inj (hk.symm.trans hj)
    exact .same _
  | stopping =>
    change (d.endStop id).job? id = some j at hj
    unfold endStop at hj
    split at hj
    · obtain rfl : Job.stopping = j := Option.some.inj (hk.symm.trans hj)
      exact .same _
    · rw [returnFault, job?_finish_self] at hj
      cases hj

theorem proceeds_answer {r : Except Fault Unit} (hk : d.job? id = some k)
    (hj : (d.step (.answer id r)).job? id = some j) (hp : k.page? = none) : d.Proceeds k j := by
  change (d.answer id r).job? id = some j at hj
  unfold answer at hj
  rw [hk] at hj
  cases k with
  | locking job p es rest => cases hp
  | replying job q => cases hp
  | sending round q s rest =>
    have hmore : ∀ (e : Demander) (ships : List Shipment),
        (e.dispatch id round ships).job? id = some j → d.Proceeds (.sending round q s rest) j := by
      intro e ships he
      rcases job?_dispatch e id round ships with ⟨hnone, -⟩ | ⟨q', s', rest', hsend, -⟩
      · cases hnone.symm.trans he
      · obtain rfl := Option.some.inj (he.symm.trans hsend)
        exact .sends round
    cases r with
    | ok _ => exact hmore _ _ hj
    | error cause => exact hmore _ _ hj
  | queued plan =>
    obtain rfl : Job.queued plan = j := Option.some.inj (hk.symm.trans hj)
    exact .same _
  | awaiting plan previous =>
    obtain rfl : Job.awaiting plan previous = j := Option.some.inj (hk.symm.trans hj)
    exact .same _
  | stopping =>
    obtain rfl : Job.stopping = j := Option.some.inj (hk.symm.trans hj)
    exact .same _

/-- A page leaves only jobs of pages. -/
theorem page_of_work (hs : d.Steady) {job : PageJob} (hw : d.actor i = .page id job)
    (hj : (d.step i).job? id = some j) : ∃ job', j.page? = some job' := by
  have hi : ∀ c, i ≠ .site c := by
    rintro c rfl
    cases hw
  have hticks := step_ticks hs hi
  rw [hw] at hticks
  rcases hticks.job hj with hold | ⟨-, f, hparks⟩
  · cases i with
    | page worker sender page =>
      simp only [actor] at hw
      split at hw
      · cases hw
        exact absurd (hs.young _ j hold) (Nat.lt_irrefl _)
      · cases hw
    | resume id' =>
      obtain ⟨rfl, j', hj', hp⟩ := job_of_actorOf hw
      rw [show d.job? id' = some j from hold] at hj'
      cases hj'
      exact ⟨job, hp⟩
    | answer id' r =>
      obtain ⟨rfl, j', hj', hp⟩ := job_of_actorOf hw
      rw [show d.job? id' = some j from hold] at hj'
      cases hj'
      exact ⟨job, hp⟩
    | _ => cases hw
  · cases hparks with
    | page hx _ _ => exact ⟨_, hx⟩

/-- A page that is turned away is over at once. -/
theorem job?_refused {worker : WorkerId} {sender : NodeId} {page : Supply}
    (ha : d.accepted worker sender page = none) :
    (d.step (.page worker sender page)).job? d.nextJob = none := by
  change (d.spawn.1.startPage d.nextJob worker sender page).job? d.nextJob = none
  rw [startPage_eq, show d.spawn.1.accepted worker sender page = none from ha]
  exact (job?_finish _ _ _ _).trans (if_pos rfl)

/-- A page whose demand for the next one is answered for is over. -/
theorem job?_answered {job : PageJob} {q : Request} (hj : d.job? id = some (.replying job q))
    (r : Except Fault Unit) : (d.step (.answer id r)).job? id = none := by
  change (d.answer id r).job? id = none
  rw [answer, hj]
  exact job?_replied _ id job r

/-- Whatever job of a plan or a stop there is after a step was there before, or is the one that the
    step has begun, and has got on. -/
theorem proceeds_step (hs : d.Steady) (hj : (d.step i).job? id = some j) (hp : j.page? = none) :
    ∃ k, d.jobBefore i id = some k ∧ d.Proceeds k j := by
  by_cases hid : (d.actor i).id? = some id
  swap
  · exact ⟨j, jobBefore_of_job? hs ((job_of_other hs hid).symm.trans hj), .same j⟩
  have hw : ∀ job, d.actor i ≠ .page id job := by
    intro job hw
    obtain ⟨job', hjob⟩ := page_of_work hs hw hj
    cases hjob.symm.trans hp
  -- A job that goes on, or is told something, was there and is not that of a page.
  have hthere : ∀ id', (d.actorOf id').id? = some id → (∀ job, d.actorOf id' ≠ .page id job) →
      id' = id ∧ ∃ k, d.job? id = some k ∧ k.page? = none := by
    intro id' hid' hw'
    obtain ⟨rfl, k, hk⟩ := id_of_actorOf hid'
    cases hpk : k.page? with
    | none => exact ⟨rfl, k, hk, hpk⟩
    | some job => exact absurd (actorOf_of_page hk hpk) (hw' job)
  cases i with
  | add plan force =>
    obtain rfl : d.nextJob = id := Option.some.inj hid
    exact ⟨_, if_pos rfl, proceeds_add hs hj⟩
  | stop =>
    obtain rfl : d.nextJob = id := Option.some.inj hid
    refine ⟨_, if_pos rfl, ?_⟩
    rw [step_stop] at hj
    unfold endStop at hj
    split at hj
    · rw [job?_park_self] at hj
      obtain rfl := Option.some.inj hj
      exact .same _
    · rw [returnFault, job?_finish_self] at hj
      cases hj
  | page worker sender page =>
    cases ha : d.accepted worker sender page with
    | some job =>
      simp only [actor, ha] at hid hw
      cases hid
      exact absurd rfl (hw job)
    | none =>
      simp only [actor, ha] at hid
      cases hid
      cases (job?_refused ha).symm.trans hj
  | resume id' =>
    obtain ⟨rfl, k, hk, hpk⟩ := hthere id' hid hw
    exact ⟨k, jobBefore_of_job? hs hk, proceeds_resume hs hk hj hpk⟩
  | answer id' r =>
    obtain ⟨rfl, k, hk, hpk⟩ := hthere id' hid hw
    exact ⟨k, jobBefore_of_job? hs hk, proceeds_answer hk hj hpk⟩
  | _ => cases hid

/-- A job that has its turn after a step had it before, or is at work and gets it. -/
theorem planning_step (hs : d.Steady) (hj : (d.step i).job? id = some j)
    (hp : j.isPlanning = true) :
    (∃ k, d.job? id = some k ∧ k.isPlanning = true) ∨ (d.actor i).id? = some id ∧ d.NoTurn := by
  have hpage : j.page? = none := by
    cases j <;> first | rfl | cases hp
  by_cases hid : (d.actor i).id? = some id
  · obtain ⟨k, hk, hproceeds⟩ := proceeds_step hs hj hpage
    rcases hproceeds.isPlanning hp with hplanning | hnone
    · exact .inl ⟨k, jobBefore_planning hk hplanning, hplanning⟩
    · exact .inr ⟨hid, hnone⟩
  · exact .inl ⟨j, (job_of_other hs hid).symm.trans hj, hp⟩

end Proceeds

-- ============================================================================
-- One plan at a time
-- ============================================================================

/-- One plan at a time has its turn, and if it waits for a round, then for the current one. -/
structure Turns (d : Demander) : Prop where
  follows : ∀ id plan p, d.job? id = some (.awaiting plan p) → p = d.current
  alone : ∀ a b x y, d.job? a = some x → d.job? b = some y → x.isPlanning = true →
    y.isPlanning = true → a = b

section Turns

variable {d e : Demander} {i : Input} {R : RoundId} {plan : Plan} {id : JobId}

/-- When a plan is processed no other has its turn. -/
theorem Reaches.alone (h : Reaches d i R id plan e) (ht : d.Turns) {k : JobId} {x : Job}
    (hk : d.job? k = some x) (hx : x.isPlanning = true) : k = id := by
  obtain ⟨previous, hb, -⟩ := h.follows
  cases hb with
  | added force _ _ ho =>
    rw [ho k x hk] at hx
    cases hx
  | queued _ _ ho =>
    rw [ho k x hk] at hx
    cases hx
  | awaited hj => exact ht.alone k id x _ hk hj hx rfl

/-- A plan that is processed comes after the current round. -/
theorem Reaches.previous (h : Reaches d i R id plan e) (ht : d.Turns) :
    (e.roundOf d.current).round.attached = true →
      (e.roundOf d.current).round.isDone = true := by
  obtain ⟨previous, hb, hdone⟩ := h.follows
  have hprevious : previous = d.current := by
    cases hb with
    | added force _ hp _ => exact hp
    | queued _ hp _ => exact hp
    | awaited hj => exact ht.follows id plan previous hj
  rw [← hprevious]
  exact hdone

theorem turns_step (hs : d.Steady) (ht : d.Turns) (i : Input) : (d.step i).Turns := by
  by_cases hsite : ∃ c, i = .site c
  · obtain ⟨c, rfl⟩ := hsite
    exact ⟨ht.follows, ht.alone⟩
  have hi : ∀ c, i ≠ .site c := fun c hc => hsite ⟨c, hc⟩
  -- A plan that waits for a round waits for the one that is current before the step.
  have hbefore : ∀ id plan p, (d.step i).job? id = some (.awaiting plan p) → p = d.current := by
    intro id plan p hj
    obtain ⟨k, hk, hproceeds⟩ := proceeds_step hs hj rfl
    rcases hproceeds.awaiting with rfl | hcur
    · exact ht.follows id plan p (jobBefore_planning hk rfl)
    · exact hcur
  refine ⟨fun id plan p hj => ?_, fun a b x y hx hy hpx hpy => ?_⟩
  · cases fates hs hi with
    | stays h hl => exact (hbefore id plan p hj).trans hl.current.symm
    | stops hstop _ =>
      subst hstop
      exact (hbefore id plan p hj).trans (leads_stop hs).current.symm
    | launches R id' plan' e h =>
      -- The plan that is processed does not wait, and no other one has its turn.
      have hne : id ≠ id' := by
        rintro rfl
        rw [h.step] at hj
        rcases job?_launch e id R plan' with hnone | ⟨q, s, rest, hsend⟩
        · cases hnone.symm.trans hj
        · cases hsend.symm.trans hj
      have hold : d.job? id = some (.awaiting plan p) := by
        rw [← job_of_other hs (i := i) (by rw [h.who]; simpa [Actor.id?] using hne.symm)]
        exact hj
      exact absurd (h.alone ht hold rfl) hne
  · rcases planning_step hs hx hpx with ⟨x', hx', hpx'⟩ | ⟨hida, hnone⟩ <;>
      rcases planning_step hs hy hpy with ⟨y', hy', hpy'⟩ | ⟨hidb, hnone'⟩
    · exact ht.alone a b x' y' hx' hy' hpx' hpy'
    · rw [hnone' a x' hx'] at hpx'
      cases hpx'
    · rw [hnone b y' hy'] at hpy'
      cases hpy'
    · exact Option.some.inj (hida.symm.trans hidb)

end Turns

-- ============================================================================
-- One round at a time
-- ============================================================================

/-- Every round that is bound, but for the current one, is over. -/
def Serial (d : Demander) : Prop :=
  ∀ Q, (d.roundOf Q).round.attached = true → Q ≠ d.current → (d.roundOf Q).round.isDone = true

section Serial

variable {d e : Demander} {i : Input} {R : RoundId} {plan : Plan} {id : JobId}

/-- What is done stays so. -/
theorem done_ticks {who : Actor} (h : Ticks who d e) (hs : d.Steady) (hf : who.Fits d)
    (hd : (d.roundOf R).round.isDone = true) : (e.roundOf R).round.isDone = true := by
  obtain ⟨ids, ps, hn⟩ := noticed_ticks h hs hf
  obtain ⟨es, -, hh⟩ := hn.heard
  exact (hh.stays R hd).1

theorem done_step (hs : d.Steady) (i : Input) (hd : (d.roundOf R).round.isDone = true) :
    ((d.step i).roundOf R).round.isDone = true := by
  obtain ⟨ids, ps, hh⟩ := heard_step hs i
  exact (hh.stays R hd).1

/-- When a plan is processed every round that was bound before is over. -/
theorem Reaches.over (h : Reaches d i R id plan e) (hs : d.Steady) (ht : d.Turns)
    (hser : d.Serial) {Q : RoundId} (hQ : (e.roundOf Q).round.attached = true) :
    (e.roundOf Q).round.isDone = true := by
  by_cases hcur : Q = d.current
  · rw [hcur]
    rw [hcur] at hQ
    exact h.previous ht hQ
  · have hdone : (d.roundOf Q).round.isDone = true := by
      rw [h.leads.attached] at hQ
      exact hser Q hQ hcur
    have hf := fits_actor hs i
    rw [h.who] at hf
    refine done_ticks h.before.ticks (steady_base hs i) hf ?_
    cases i <;> exact hdone

theorem Reaches.ticks (h : Reaches d i R id plan e) : Ticks (.call id) e (d.step i) := by
  rw [h.step]
  exact ticks_launch h.steady h.young h.there h.free plan

theorem serial_step (hs : d.Steady) (ht : d.Turns) (hser : d.Serial) (i : Input) :
    (d.step i).Serial := by
  -- Unless a plan is processed no round is bound, and the current one stays.
  have hlead : Leads d (d.step i) → (d.step i).Serial := by
    intro hl Q hQ hne
    rw [hl.attached] at hQ
    rw [hl.current] at hne
    exact done_step hs i (hser Q hQ hne)
  by_cases hsite : ∃ c, i = .site c
  · obtain ⟨c, rfl⟩ := hsite
    exact hser
  cases fates hs fun c hc => hsite ⟨c, hc⟩ with
  | stays h hl => exact hlead hl
  | stops hstop _ =>
    subst hstop
    exact hlead (leads_stop hs)
  | launches R id plan e h =>
    intro Q hQ hne
    rw [h.current] at hne
    rw [h.attached, if_neg hne, ← h.leads.attached] at hQ
    exact done_ticks h.ticks h.steady h.young (h.over hs ht hser hQ)

theorem turns_run (hs : d.Steady) (ht : d.Turns) (hser : d.Serial) (inputs : List Input) :
    (d.run inputs).Turns ∧ (d.run inputs).Serial := by
  induction inputs generalizing d with
  | nil => exact ⟨ht, hser⟩
  | cons i inputs ih =>
    exact ih (steady_step hs i) (turns_step hs ht i) (serial_step hs ht hser i)

end Serial

/-- When a demander has come into being nothing waits, and the one round there is, if it is bound,
    is the current one. -/
theorem turns_create {σ : Type} {settings : Settings} {site : Site}
    {register : Topic → σ → Except Fault σ} {s t : σ} {d : Demander}
    (h : create settings site register s = (t, .ok d)) : d.Turns ∧ d.Serial := by
  obtain ⟨-, -, hjobs, hcur, hlen⟩ := create_blank h
  have hjob : ∀ id j, d.job? id ≠ some j := by
    intro id j
    simp [job?, hjobs]
  refine ⟨⟨fun id plan p hj => absurd hj (hjob _ _), fun a b x y hx => absurd hx (hjob _ _)⟩, ?_⟩
  intro Q hQ hne
  rw [hcur] at hne
  have hgone : d.rounds.length ≤ Q := by
    rw [hlen]
    exact Nat.pos_of_ne_zero hne
  rw [roundOf_of_le d hgone] at hQ
  cases hQ

/-- Whatever has happened to a demander, one plan at a time has its turn and one round at a time is
    under way. -/
theorem Reachable.turns {d : Demander} (h : d.Reachable) : d.Turns ∧ d.Serial := by
  obtain ⟨σ, settings, site, register, s, t, start, inputs, hc, rfl⟩ := h
  obtain ⟨ht, hser⟩ := turns_create hc
  exact turns_run (steady_create hc) ht hser inputs

end Demander
end Rebalance
