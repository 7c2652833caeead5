/-
  Rebalance.Proofs.Host

  The round that a plan has started, for as long as there is anything to say
  about it.  While the round is current its plan is installed, and a page that
  is taken in for it answers the demand that the plan makes on its sender;
  `hosts_run` says that no run changes this, and `hosts_begun` that it holds
  as soon as the round has started.
-/
import Rebalance.Proofs.Step

namespace Rebalance
namespace Demander

variable {R : RoundId} {P : Plan}

/-- A round that a plan has started: the plan is installed as long as the round is current, and
    pages that answer the round answer the plan. -/
structure Hosts (R : RoundId) (P : Plan) (d : Demander) : Prop where
  bound : d.Bound R
  planned : d.current = R → d.plan = some P
  pages : ∀ id j job, d.job? id = some j → j.page? = some job → job.round = R →
    P.get? job.sender = some job.demand

/-- A page at work that answers a round answers its plan. -/
def Actor.Serves (R : RoundId) (P : Plan) : Actor → Prop
  | page _ job => job.round = R → P.get? job.sender = some job.demand
  | _ => True

theorem Hosts.along {d e : Demander} (h : Hosts R P d) (hn : Along d e) (ho : Onward d e) :
    Hosts R P e where
  bound := ho.bound h.bound
  planned hc := by
    rw [hn.current] at hc
    rw [hn.plan]
    exact h.planned hc
  pages id j job hj := by
    rw [job?, hn.jobs] at hj
    exact h.pages id j job hj

theorem Hosts.park {d : Demander} (h : Hosts R P d) (id : JobId) {j : Job}
    (hj : ∀ job, j.page? = some job → job.round = R → P.get? job.sender = some job.demand) :
    Hosts R P (d.park id j) where
  bound := h.bound
  planned := h.planned
  pages i x job hx hp := by
    rcases of_job?_park hx with ⟨-, rfl⟩ | ⟨-, hx⟩
    · exact hj job hp
    · exact h.pages i x job hx hp

theorem Hosts.finish {d : Demander} (h : Hosts R P d) (id : JobId) (r : Except Fault Unit) :
    Hosts R P (d.finish id r) where
  bound := h.bound
  planned := h.planned
  pages i x job hx hp := h.pages i x job (job?_of_finish hx) hp

/-- Another round becomes the current one. -/
theorem Hosts.install {d e : Demander} (h : Hosts R P d) {id : RoundId} {plan : Option Plan}
    (hn : Along { d with current := id, plan } e) (ho : Onward d e) (hid : id ≠ R) :
    Hosts R P e where
  bound := ho.bound h.bound
  planned hc := absurd (hn.current.symm.trans hc) hid
  pages i j job hj := by
    rw [job?, hn.jobs] at hj
    exact h.pages i j job hj

/-- A page that waits answers the plan that whoever is at work serves. -/
theorem Parks.serves {who : Actor} {d : Demander} {j : Job} (h : Parks who d j)
    (hw : who.Serves R P) (job : PageJob) (hp : j.page? = some job) (hr : job.round = R) :
    P.get? job.sender = some job.demand := by
  cases h with
  | page hj _ _ =>
    rw [hj, Option.some.injEq] at hp
    subst hp
    exact hw hr
  | call hj _ _ =>
    rw [hj] at hp
    cases hp

theorem hosts_tick {who : Actor} {d e : Demander} (h : Tick who d e) (hs : d.Steady)
    (hf : who.Fits d) (hw : who.Serves R P) (hh : Hosts R P d) : Hosts R P e := by
  have ho := onward_tick h hs hf
  cases shape_tick h with
  | along h => exact hh.along h ho
  | park id j _ hj he =>
    rw [he]
    exact hh.park id (hj.serves hw)
  | finish id r _ he =>
    rw [he]
    exact hh.finish id r
  | install id plan _ ha _ h =>
    refine hh.install h ho fun hR => ?_
    rw [hR, hh.bound.2] at ha
    cases ha

theorem Hosts.spawn {d : Demander} (h : Hosts R P d) : Hosts R P d.spawn.1 :=
  ⟨h.bound, h.planned, h.pages⟩

theorem hosts_base {d : Demander} (h : Hosts R P d) (i : Input) : Hosts R P (d.base i) := by
  cases i with
  | add plan force => exact h.spawn
  | page worker sender page => exact h.spawn
  | stop => exact h.spawn
  | _ => exact h

theorem Hosts.serves_accepted {d : Demander} (h : Hosts R P d) {worker : WorkerId}
    {sender : NodeId} {page : Supply} {job : PageJob}
    (ha : d.accepted worker sender page = some job) (hr : job.round = R) :
    P.get? job.sender = some job.demand := by
  obtain ⟨-, plan, demand, hp, hg, -, -, rfl⟩ := accepted_round ha
  rw [h.planned hr, Option.some.injEq] at hp
  rw [hp]
  exact hg

/-- Whoever something sets to work for the round serves its plan. -/
theorem Hosts.serves {d : Demander} (h : Hosts R P d) (i : Input) : (d.actor i).Serves R P := by
  have hof : ∀ id, (d.actorOf id).Serves R P := by
    intro id
    unfold actorOf
    cases hj : d.job? id with
    | none => trivial
    | some j =>
      cases hp : j.page? with
      | none => simp [hp, Actor.Serves]
      | some job =>
        simp only [Option.bind_some, hp]
        exact h.pages id j job hj hp
  cases i with
  | page worker sender page =>
    simp only [actor]
    split
    · next job ha => exact h.serves_accepted ha
    · trivial
  | resume id => exact hof id
  | answer id r => exact hof id
  | _ => trivial

/-- What every tick keeps of whoever serves the plan of a round, a step inside the demander keeps. -/
theorem hosted_step {Q : Demander → Prop} (hbase : ∀ e i, Q e → Q (e.base i))
    (htick : ∀ who e f, Tick who e f → e.Steady → who.Fits e → who.Serves R P → Hosts R P e →
      Q e → Q f)
    {d : Demander} (hs : d.Steady) (hh : Hosts R P d) (hq : Q d) {i : Input}
    (hi : ∀ c, i ≠ .site c) : Q (d.step i) := by
  have hkeep : Hosts R P (d.step i) ∧ Q (d.step i) := by
    apply step_keeps (P := fun e => Hosts R P e ∧ Q e) hs hi ⟨hosts_base hh i, hbase d i hq⟩
    rintro e f ht hse hf ⟨hhe, hqe⟩
    exact ⟨hosts_tick ht hse hf (hh.serves i) hhe, htick _ e f ht hse hf (hh.serves i) hhe hqe⟩
  exact hkeep.2

/-- A round keeps its plan, whatever happens. -/
theorem hosts_step {d : Demander} (hs : d.Steady) (h : Hosts R P d) (i : Input) :
    Hosts R P (d.step i) := by
  by_cases hi : ∃ c, i = .site c
  · obtain ⟨c, rfl⟩ := hi
    exact ⟨h.bound, h.planned, h.pages⟩
  · exact step_keeps hs (fun c hc => hi ⟨c, hc⟩) (hosts_base h i)
      fun e f ht hse hf hh => hosts_tick ht hse hf (h.serves i) hh

theorem hosts_run {d : Demander} (hs : d.Steady) (h : Hosts R P d) (inputs : List Input) :
    Hosts R P (d.run inputs) := by
  induction inputs generalizing d with
  | nil => exact h
  | cons i inputs ih => exact ih (steady_step hs i) (hosts_step hs h i)

-- ============================================================================
-- How a round starts
-- ============================================================================

/-- No chore binds a round. -/
theorem fresh_chore {who : Actor} {d e : Demander} (h : Chore who d e) (hs : d.Steady)
    (hf : who.Fits d) (ha : (d.roundOf R).round.attached = false) :
    (e.roundOf R).round.attached = false := by
  have other : ∀ {id : RoundId}, d.Bound id → R ≠ id := by
    intro id hb hR
    rw [hR, hb.2] at ha
    cases ha
  cases h with
  | note hb hr _ _ =>
    rw [hr]
    exact ha
  | @drain id job d p _ =>
    rw [round_changeRound d _ hf.2.1, if_neg (other hf.2)]
    exact ha
  | @settleMissed id job d =>
    rw [round_settleMissed d job hf.2.1, if_neg (other hf.2)]
    exact ha
  | @load id job d p entries =>
    rw [round_load d job p entries hf.2.1, if_neg fun hc => other hf.2 hc.1]
    exact ha
  | cancel round node reason hl _ =>
    rw [round_cancelNode d node hl]
    by_cases hR : R = round
    · rw [if_pos hR, Round.attached_cancel (hs.standing _) node, ← hR]
      exact ha
    · rw [if_neg hR]
      exact ha
  | endShipment round s hb _ =>
    rw [round_endShipment d hb.1, if_neg fun hc => other hb hc.1]
    exact ha
  | openRound =>
    rw [roundOf_openRound]
    exact ha
  | watch tag =>
    rw [round_whenDone d hs.current]
    by_cases hR : R = d.current
    · rw [if_pos hR, (Round.onDone_answers _ _).2.2.2.1, ← hR]
      exact ha
    · rw [if_neg hR]
      exact ha
  | _ => exact ha

/-- A round is bound by a plan that starts it, or by one that leaves it nothing to do. -/
theorem fresh_tick {who : Actor} {d e : Demander} (h : Tick who d e) (hs : d.Steady)
    (hf : who.Fits d) (ha : (d.roundOf R).round.attached = false) :
    (e.roundOf R).round.attached = false ∨
      R < d.rounds.length ∧ ∃ plan, (plan.isEmpty = false ∧ e = d.begin R plan) ∨
        e = d.pass R plan := by
  cases h with
  | chore h => exact .inl (fresh_chore h hs hf ha)
  | begin round plan hl _ hp _ =>
    by_cases hR : R = round
    · rw [hR]
      exact .inr ⟨hl, plan, .inl ⟨hp, rfl⟩⟩
    · rw [round_begin d hl, if_neg hR]
      exact .inl ha
  | pass round plan hl _ =>
    by_cases hR : R = round
    · rw [hR]
      exact .inr ⟨hl, plan, .inr rfl⟩
    · rw [round_pass d hl, if_neg hR]
      exact .inl ha
  | abandon =>
    rw [round_abandonRound]
    exact .inl ha

/-- A round that was left nothing to do. -/
def Passed (R : RoundId) (d : Demander) : Prop := d.Bound R ∧ (d.current = R → d.plan = none)

theorem passed_tick {who : Actor} {d e : Demander} (h : Tick who d e) (hs : d.Steady)
    (hf : who.Fits d) (hp : Passed R d) : Passed R e := by
  have ho := onward_tick h hs hf
  refine ⟨ho.bound hp.1, fun hc => ?_⟩
  cases shape_tick h with
  | along h => exact h.plan.trans (hp.2 (h.current.symm.trans hc))
  | park _ _ _ _ he =>
    subst he
    exact hp.2 hc
  | finish _ _ _ he =>
    subst he
    exact hp.2 hc
  | install id plan _ ha _ h =>
    have hR : id = R := h.current.symm.trans hc
    rw [hR, hp.1.2] at ha
    cases ha

theorem hosts_begin {d : Demander} (hs : d.Steady) (hl : R < d.rounds.length)
    (ha : (d.roundOf R).round.attached = false) : Hosts R P (d.begin R P) where
  bound := by
    refine ⟨?_, ?_⟩
    · rw [(beside_begin d R P).rounds]
      exact hl
    · rw [round_begin d hl, if_pos rfl]
      exact (Round.started_answers (hs.standing R) ha P).2.1
  planned _ := (beside_begin d R P).plan
  pages id j job hj hp hr := by
    rw [job?, (beside_begin d R P).jobs] at hj
    have hb := hs.bound id j R hj ((Job.round?_of_page? hp).trans (congrArg some hr))
    rw [hb.2] at ha
    cases ha

section Begun

variable {Q : Plan → Demander → Prop}
  (hbegin : ∀ (e : Demander) (plan : Plan), e.Steady → R < e.rounds.length →
    (e.roundOf R).round.attached = false → Q plan (e.begin R plan))
  (htick : ∀ (who : Actor) (e f : Demander) (plan : Plan), Tick who e f → e.Steady →
    who.Fits e → who.Serves R plan → Hosts R plan e → Q plan e → Q plan f)
  {d : Demander} (hs : d.Steady) (ha : (d.roundOf R).round.attached = false) {i : Input}

include hs ha in
/-- A page at work answers a round that is bound already, hence another one. -/
theorem serves_unbound (i : Input) (plan : Plan) : (d.actor i).Serves R plan := by
  have hbase : ((d.base i).roundOf R).round.attached = false := by
    cases i <;> exact ha
  have hf := fits_actor hs i
  cases hw : d.actor i with
  | page id job =>
    intro hr
    rw [hw] at hf
    have hb := hf.2.2
    rw [hr, hbase] at hb
    cases hb
  | call id => trivial
  | nobody => trivial

include hbegin htick hs ha in
/-- A step leaves an unbound round as it is, passes it over, or has a plan start it. -/
theorem stage_step (hi : ∀ c, i ≠ .site c) :
    ((d.step i).roundOf R).round.attached = false ∨ Passed R (d.step i) ∨
      ∃ plan, Hosts R plan (d.step i) ∧ Q plan (d.step i) := by
  have hbase : ((d.base i).roundOf R).round.attached = false := by
    cases i <;> exact ha
  have hserves := serves_unbound hs ha i
  apply step_keeps (P := fun e => (e.roundOf R).round.attached = false ∨ Passed R e ∨
    ∃ plan, Hosts R plan e ∧ Q plan e) hs hi (.inl hbase)
  rintro e f ht hse hf (hu | hpass | ⟨plan, hh, hq⟩)
  · rcases fresh_tick ht hse hf hu with h | ⟨hl, plan, ⟨-, rfl⟩ | rfl⟩
    · exact .inl h
    · exact .inr (.inr ⟨plan, hosts_begin hse hl hu, hbegin e plan hse hl hu⟩)
    · refine .inr (.inl ⟨⟨?_, ?_⟩, fun _ => (beside_pass e R plan).plan⟩)
      · exact Nat.lt_of_lt_of_le hl (length_tick ht)
      · rw [round_pass e hl, if_pos rfl]
        exact (Round.standing_complete (r := (e.roundOf R).round.attach plan.exchange)
          (hse.standing R).closed_iff).2
  · exact .inr (.inl (passed_tick ht hse hf hpass))
  · exact .inr (.inr ⟨plan, hosts_tick ht hse hf (hserves plan) hh,
      htick _ e f plan ht hse hf (hserves plan) hh hq⟩)

include hbegin htick hs ha in
/-- What holds of a round when its plan starts it, and is kept by every tick, holds once the
    round has started. -/
theorem begun_keeps (hc : (d.step i).current = R) (hp : (d.step i).plan = some P) :
    Hosts R P (d.step i) ∧ Q P (d.step i) := by
  have hi : ∀ c, i ≠ .site c := by
    rintro c rfl
    have hb := hs.planned (by rw [show d.plan = some P from hp]; rfl)
    rw [show d.current = R from hc, ha] at hb
    cases hb
  rcases stage_step hbegin htick hs ha hi with h | h | ⟨plan, hh, hq⟩
  · have hb := (steady_step hs i).planned (by rw [hp]; rfl)
    rw [hc, h] at hb
    cases hb
  · rw [h.2 hc] at hp
    cases hp
  · have hplan := hh.planned hc
    rw [hp, Option.some.injEq] at hplan
    rw [hplan]
    exact ⟨hh, hq⟩

end Begun

end Demander
end Rebalance
