/-
  Rebalance.Proofs.Opening

  How a round starts.  `fates` is the case split that every proof about the
  beginnings of rounds starts from: a step binds no round, stops, or processes a
  plan with one (`Reaches`).  In the last case a plan gets to the round by
  chores, and either leaves it nothing to do or starts it (`Opens`): the round
  begins, and the first demand waits to be sent.  `opens_of_started` finds this
  behind every round that is there after a step and was not bound before.
-/
import Rebalance.Proofs.Host

namespace Rebalance
namespace Demander

-- ============================================================================
-- What chores leave as it is
-- ============================================================================

theorem chore_keeps {who : Actor} {d e : Demander} (h : Chore who d e) (hs : d.Steady)
    (hf : who.Fits d) : e.current = d.current ∧ e.plan = d.plan := by
  cases shape_chore h with
  | along h => exact ⟨h.current, h.plan⟩
  | park id j _ _ he =>
    subst he
    exact ⟨rfl, rfl⟩
  | finish id r _ he =>
    subst he
    exact ⟨rfl, rfl⟩
  | install id plan _ ha hb _ =>
    -- That would bind a round, which no chore does.
    have hfree := fresh_chore h hs hf ha
    rw [hb hs] at hfree
    cases hfree

theorem settings_chore {who : Actor} {d e : Demander} (h : Chore who d e) :
    e.settings = d.settings := by
  cases h with
  | note hb _ _ _ => exact hb.settings
  | drain p _ => exact (beside_changeRound d _ _).settings
  | settleMissed => exact (beside_settleMissed d _).settings
  | load p entries => exact (near_load d _ p entries).settings
  | cancel round node reason _ _ => exact (beside_cancelNode d round node reason).settings
  | endShipment round s _ _ => exact (beside_endShipment d round s).settings
  | watch tag => exact (beside_whenDone d d.current _).settings
  | _ => rfl

theorem settings_tick {who : Actor} {d e : Demander} (h : Tick who d e) :
    e.settings = d.settings := by
  cases h with
  | chore h => exact settings_chore h
  | begin round plan _ _ _ _ => exact (beside_begin d round plan).settings
  | pass round plan _ _ => exact (beside_pass d round plan).settings
  | abandon => exact (beside_abandonRound d).settings

/-- Whatever happens, the settings stay. -/
theorem settings_step {d : Demander} (hs : d.Steady) (i : Input) :
    (d.step i).settings = d.settings := by
  by_cases hi : ∃ c, i = .site c
  · obtain ⟨c, rfl⟩ := hi
    rfl
  · refine step_keeps (P := fun e => e.settings = d.settings) hs (fun c hc => hi ⟨c, hc⟩) ?_
      fun e f ht _ _ he => (settings_tick ht).trans he
    cases i <;> rfl

theorem settings_run {d : Demander} (hs : d.Steady) (inputs : List Input) :
    (d.run inputs).settings = d.settings := by
  induction inputs generalizing d with
  | nil => rfl
  | cons i inputs ih => exact (ih (steady_step hs i)).trans (settings_step hs i)

/-- What chores keep of a steady demander. -/
structure Leads (d e : Demander) : Prop where
  current : e.current = d.current
  plan : e.plan = d.plan
  settings : e.settings = d.settings
  affinity : e.site.affinity = d.site.affinity
  free : ∀ id, (d.roundOf id).round.attached = false → (e.roundOf id).round.attached = false
  bound : ∀ id, (d.roundOf id).round.attached = true → (e.roundOf id).round.attached = true
  rounds : d.rounds.length ≤ e.rounds.length

theorem Leads.refl (d : Demander) : Leads d d :=
  ⟨rfl, rfl, rfl, rfl, fun _ => id, fun _ => id, Nat.le_refl _⟩

theorem Leads.trans {d e f : Demander} (h₁ : Leads d e) (h₂ : Leads e f) : Leads d f where
  current := h₂.current.trans h₁.current
  plan := h₂.plan.trans h₁.plan
  settings := h₂.settings.trans h₁.settings
  affinity := h₂.affinity.trans h₁.affinity
  free id h := h₂.free id (h₁.free id h)
  bound id h := h₂.bound id (h₁.bound id h)
  rounds := Nat.le_trans h₁.rounds h₂.rounds

theorem Leads.attached {d e : Demander} (h : Leads d e) (id : RoundId) :
    (e.roundOf id).round.attached = (d.roundOf id).round.attached := by
  cases ha : (d.roundOf id).round.attached with
  | true => exact h.bound id ha
  | false => exact h.free id ha

theorem leads_chore {who : Actor} {d e : Demander} (h : Chore who d e) (hs : d.Steady)
    (hf : who.Fits d) : Leads d e where
  current := (chore_keeps h hs hf).1
  plan := (chore_keeps h hs hf).2
  settings := settings_chore h
  affinity := (site_tick (.chore h)).1.affinity
  free _ ha := fresh_chore h hs hf ha
  bound := (onward_chore h hs hf).attached
  rounds := length_tick (.chore h)

/-- A property that every chore of a steady demander keeps is kept by any number of them. -/
theorem Chores.keeps {who : Actor} {P : Demander → Prop} {d e : Demander} (h : Chores who d e)
    (hstep : ∀ d e, Chore who d e → d.Steady → who.Fits d → P d → P e) (hs : d.Steady)
    (hf : who.Fits d) (hd : P d) : P e ∧ e.Steady ∧ who.Fits e := by
  induction h with
  | refl => exact ⟨hd, hs, hf⟩
  | head h _ ih =>
    exact ih (steady_tick (.chore h) hs hf) (fits_tick (.chore h) hs hf) (hstep _ _ h hs hf hd)

theorem leads_chores {who : Actor} {d e : Demander} (h : Chores who d e) (hs : d.Steady)
    (hf : who.Fits d) : Leads d e ∧ e.Steady ∧ who.Fits e :=
  h.keeps (P := Leads d) (fun _ _ ht hse hfe he => he.trans (leads_chore ht hse hfe)) hs hf (.refl d)

theorem leads_base (d : Demander) (i : Input) : Leads d (d.base i) := by
  cases i <;> exact ⟨rfl, rfl, rfl, rfl, fun _ => id, fun _ => id, Nat.le_refl _⟩

/-- To be about to stop binds no round either. -/
theorem leads_leaving (d : Demander) : Leads d d.leaving := by
  have hb := beside_abandonRound { d.spawn.1 with stopping := true }
  have hr : ∀ id, (d.leaving.roundOf id).round = (d.roundOf id).round :=
    round_abandonRound { d.spawn.1 with stopping := true }
  refine ⟨hb.current, hb.plan, hb.settings, hb.affinity, fun id h => ?_, fun id h => ?_,
    Nat.le_of_eq hb.rounds.symm⟩
  · rw [hr]
    exact h
  · rw [hr]
    exact h

theorem steady_leaving {d : Demander} (hs : d.Steady) :
    d.leaving.Steady ∧ (Actor.call d.nextJob).Fits d.leaving := by
  have h := (ticks_leaving d).keeps (P := fun _ => True) (fun _ _ _ _ _ _ => trivial) hs.spawn
    (Nat.lt_succ_self d.nextJob) trivial
  exact h.2

/-- A stop binds no round. -/
theorem leads_stop {d : Demander} (hs : d.Steady) : Leads d d.stop := by
  obtain ⟨hse, hfe⟩ := steady_leaving hs
  exact (leads_leaving d).trans (leads_chores (chores_stop d) hse hfe).1

-- ============================================================================
-- What a step does about rounds
-- ============================================================================

/-- A plan gets to a round of its own by chores, after the round before it is over, and is
    processed with it. -/
structure Reaches (d : Demander) (i : Input) (R : RoundId) (id : JobId) (plan : Plan)
    (e : Demander) : Prop where
  who : d.actor i = .call id
  follows : ∃ previous, d.Brings id plan previous i ∧
    ((e.roundOf previous).round.attached = true → (e.roundOf previous).round.isDone = true)
  before : Chores (.call id) (d.base i) e
  leads : Leads d e
  steady : e.Steady
  young : id < e.nextJob
  there : R < e.rounds.length
  free : (e.roundOf R).round.attached = false
  step : d.step i = e.launch id R plan

/-- A plan starts a round: the one that was brought, with the settings of the demander. -/
structure Opens (d : Demander) (i : Input) (R : RoundId) (P : Plan) (id : JobId) (plan : Plan)
    (e : Demander) : Prop extends Reaches d i R id plan e where
  stamped : P = plan.stamp d.settings.timeout d.settings.batchSize
  asks : P.isEmpty = false
  timely : Key.below P.topology d.site.affinity.current = false
  starts : d.step i = (e.begin R P).dispatch id R ((e.begin R P).shipments P)

/-- What a step does about rounds. -/
inductive Fate (d : Demander) (i : Input) : Prop where
  /-- It binds none. -/
  | stays (h : Chores (d.actor i) (d.base i) (d.step i)) (hl : Leads d (d.step i))
  /-- It processes a plan with one. -/
  | launches (R : RoundId) (id : JobId) (plan : Plan) (e : Demander) (h : Reaches d i R id plan e)
  /-- It is to stop, and perhaps leaves the current one unfinished. -/
  | stops (hi : i = .stop) (h : Chores (.call d.nextJob) d.leaving d.stop)

theorem fates {d : Demander} (hs : d.Steady) {i : Input} (hi : ∀ c, i ≠ .site c) : Fate d i := by
  cases course hs hi with
  | chores h =>
    exact .stays h ((leads_base d i).trans (leads_chores h (steady_base hs i) (fits_actor hs i)).1)
  | launch id e R previous plan hw hb h hl ha hp he =>
    have hf := fits_actor hs i
    rw [hw] at hf
    obtain ⟨hle, hse, hid⟩ := leads_chores h (steady_base hs i) hf
    exact .launches R id plan e
      ⟨hw, ⟨previous, hb, hp⟩, h, (leads_base d i).trans hle, hse, hid, hl, ha, he⟩
  | stop hi h => exact .stops hi h

section Reaches

variable {d e : Demander} {i : Input} {R : RoundId} {P plan : Plan} {id : JobId}

/-- A plan that is processed with a round leaves it nothing to do, or starts it. -/
theorem Reaches.outcome (h : Reaches d i R id plan e) :
    d.step i = (e.pass R plan).finish id (.ok ()) ∨ ∃ P, Opens d i R P id plan e := by
  have he := h.step
  rw [launch_eq] at he
  split at he
  · exact .inl he
  · next hgo =>
    simp only [not_or, Bool.not_eq_true] at hgo
    rw [h.leads.settings] at he
    rw [h.leads.affinity] at hgo
    exact .inr ⟨_, h, rfl, (isEmpty_stamp plan _ _).trans hgo.1, hgo.2, he⟩

theorem Opens.begins (h : Opens d i R P id plan e) :
    (e.begin R P).Steady ∧ id < (e.begin R P).nextJob ∧ (e.begin R P).Bound R := by
  have htimely : Key.below P.topology e.site.affinity.current = false := by
    rw [h.leads.affinity]
    exact h.timely
  have ht : Tick (.call id) e (e.begin R P) := .begin R P h.there h.free h.asks htimely
  refine ⟨steady_tick ht h.steady h.young, fits_tick ht h.steady h.young,
    Nat.lt_of_lt_of_le h.there (length_tick ht), ?_⟩
  rw [round_begin e h.there, if_pos rfl]
  exact (Round.started_answers (h.steady.standing R) h.free P).2.1

/-- After the round has begun there are only chores. -/
theorem Opens.chores (h : Opens d i R P id plan e) :
    Chores (.call id) (e.begin R P) (d.step i) := by
  obtain ⟨hs, hid, hb⟩ := h.begins
  rw [h.starts]
  exact chores_dispatch hs hid hb (ships_begin e id R P)

theorem Opens.leadsOn (h : Opens d i R P id plan e) : Leads (e.begin R P) (d.step i) := by
  obtain ⟨hs, hid, -⟩ := h.begins
  exact (leads_chores h.chores hs hid).1

/-- The round is current, and its plan installed. -/
theorem Opens.after (h : Opens d i R P id plan e) :
    (d.step i).current = R ∧ (d.step i).plan = some P := by
  have hb := beside_begin e R P
  exact ⟨h.leadsOn.current.trans hb.current, h.leadsOn.plan.trans hb.plan⟩

/-- The round that a plan is processed with becomes the current one. -/
theorem Reaches.current (h : Reaches d i R id plan e) : (d.step i).current = R := by
  rcases h.outcome with he | ⟨P, ho⟩
  · rw [he]
    exact (beside_pass e R plan).current
  · exact ho.after.1

/-- The round that a plan is processed with is bound, and no other one is. -/
theorem Reaches.attached (h : Reaches d i R id plan e) (Q : RoundId) :
    ((d.step i).roundOf Q).round.attached =
      if Q = R then true else (d.roundOf Q).round.attached := by
  have hbound : ((d.step i).roundOf Q).round.attached =
      if Q = R then true else (e.roundOf Q).round.attached := by
    rcases h.outcome with he | ⟨P, ho⟩
    · rw [he]
      change ((e.pass R plan).roundOf Q).round.attached = _
      rw [round_pass e h.there]
      by_cases hQ : Q = R
      · rw [if_pos hQ, if_pos hQ]
        exact (Round.standing_complete (r := (e.roundOf R).round.attach plan.exchange)
          (h.steady.standing R).closed_iff).2
      · rw [if_neg hQ, if_neg hQ]
    · rw [ho.leadsOn.attached, round_begin e h.there]
      by_cases hQ : Q = R
      · rw [if_pos hQ, if_pos hQ]
        exact (Round.started_answers (h.steady.standing R) h.free P).2.1
      · rw [if_neg hQ, if_neg hQ]
  rw [hbound, h.leads.attached]

end Reaches

/-- A round that was not bound yet, and whose plan is installed after a step, was started by it. -/
theorem opens_of_started {d : Demander} (hs : d.Steady) {R : RoundId} {P : Plan}
    (ha : (d.roundOf R).round.attached = false) {i : Input} (hc : (d.step i).current = R)
    (hp : (d.step i).plan = some P) : ∃ id plan e, Opens d i R P id plan e := by
  -- A round whose plan was installed before is bound.
  have hold : d.current = R → d.plan = some P → False := by
    rintro rfl hplan
    rw [hs.planned (by rw [hplan]; rfl)] at ha
    cases ha
  have hi : ∀ c, i ≠ .site c := by
    rintro c rfl
    exact hold hc hp
  cases fates hs hi with
  | stays h hl => exact absurd (hl.plan.symm.trans hp) (hold (hl.current.symm.trans hc))
  | launches R' id plan e h =>
    rcases h.outcome with he | ⟨P', ho⟩
    · have hnone : (d.step i).plan = none := by
        rw [he]
        exact (beside_pass e R' plan).plan
      rw [hnone] at hp
      cases hp
    · obtain ⟨hc', hp'⟩ := ho.after
      obtain rfl : R' = R := hc'.symm.trans hc
      obtain rfl : P' = P := Option.some.inj (hp'.symm.trans hp)
      exact ⟨id, plan, e, ho⟩
  | stops hstop _ =>
    subst hstop
    have hl := leads_stop hs
    exact absurd (hl.plan.symm.trans hp) (hold (hl.current.symm.trans hc))

end Demander
end Rebalance
