/-
  Rebalance.Proofs.Rounds

  The rounds of a whole run.  `begun` lists those that are started and
  `abandoned` those that a stop finds unfinished; both are read off the run from
  the outside.  `Logged` ties them to the flags and the meters, step by step, and
  `rounds_are_serial_and_counted` concludes: one round at a time, and every
  round that is started is on the gauge until it is settled, once.
-/
import Mathlib.Data.List.Nodup
import Rebalance.Proofs.RoundGauge
import Rebalance.Proofs.Turns

namespace Rebalance

theorem Board.blind_roundsStarted : Board.Blind fun b : Board => b.roundsStarted.value :=
  ⟨fun _ _ => rfl, fun _ => rfl, fun _ => rfl, fun _ _ ⟨_, _, _, h⟩ => by rw [h], fun _ _ _ => rfl⟩

namespace Demander

-- ============================================================================
-- The rounds of a run
-- ============================================================================

/-- Whether a step starts a round: a plan is installed for one that was not bound before. -/
def starts (d : Demander) (i : Input) : Bool :=
  (d.step i).plan.isSome && !(d.roundOf (d.step i).current).round.attached

/-- The rounds that a run starts, in order. -/
def begun (d : Demander) : List Input → List RoundId
  | [] => []
  | i :: rest => (if d.starts i then [(d.step i).current] else []) ++ (d.step i).begun rest

theorem begun_append (d : Demander) (inputs more : List Input) :
    d.begun (inputs ++ more) = d.begun inputs ++ (d.run inputs).begun more := by
  induction inputs generalizing d with
  | nil => rfl
  | cons i inputs ih =>
    rw [List.cons_append, begun, begun, ih, List.append_assoc]
    rfl

/-- Whether something is a stop that finds the current round started and not over. -/
def abandons (d : Demander) : Input → Bool
  | .stop => d.plan.isSome && !d.currentRound.isDone
  | _ => false

/-- The rounds that stops in a run leave unfinished. -/
def abandoned (d : Demander) : List Input → List RoundId
  | [] => []
  | i :: rest => (if d.abandons i then [d.current] else []) ++ (d.step i).abandoned rest

/-- Whether the current round after a run was started, and is neither done nor abandoned. -/
def underway (d : Demander) (inputs : List Input) : Bool :=
  decide ((d.run inputs).current ∈ d.begun inputs) && !(d.run inputs).currentRound.isDone &&
    !decide ((d.run inputs).current ∈ d.abandoned inputs)

/-- The rounds that a run starts and that are settled at its end, by completion or by
    abandonment. -/
def settled (d : Demander) (inputs : List Input) : List RoundId :=
  (d.begun inputs).filter fun R =>
    ((d.run inputs).roundOf R).round.isDone || decide (R ∈ d.abandoned inputs)

/-- How many rounds were counted as started. -/
def countStarted (d : Demander) : UInt64 := d.site.board.roundsStarted.value

/-- The rounds started and abandoned so far, as flags and meters tell of them. -/
structure Logged (base : Int64) (count : UInt64) (begun abandoned : List RoundId) (d : Demander) :
    Prop where
  gauged : Gauged base d
  bound : ∀ R ∈ begun, (d.roundOf R).round.attached = true
  left : ∀ R ∈ abandoned, (d.roundOf R).round.attached = true
  flag : ∀ R, d.isInFlight R = true ↔
    R ∈ begun ∧ (d.roundOf R).round.isDone = false ∧ R ∉ abandoned
  planned : d.plan.isSome = true ↔ d.current ∈ begun
  once : begun.Nodup
  started : d.countStarted = count + UInt64.ofNat begun.length

section Logged

variable {base : Int64} {count : UInt64} {B A : List RoundId} {d e : Demander}

/-- No chore starts a round. -/
theorem countStarted_chores {who : Actor} (h : Chores who d e) : e.countStarted = d.countStarted :=
  blind_chores Board.blind_roundsStarted ⟨fun _ => rfl, fun _ => rfl, fun _ => rfl, fun _ => rfl⟩
    (fun _ _ => rfl) h

theorem countStarted_begin (d : Demander) (R : RoundId) (plan : Plan) :
    (d.begin R plan).countStarted = d.countStarted + 1 :=
  (board_begin Board.blind_roundsStarted d R plan).trans
    (congrArg (· + 1) (blind_awaitAll Board.blind_roundsStarted d R plan))

/-- Where rounds only settle, with the same plan and the same rounds bound is logged as before. -/
theorem Logged.onlySettles (h : Logged base count B A d) (hg : OnlySettles d e) (hp : e.plan = d.plan)
    (hb : ∀ R, (d.roundOf R).round.attached = true → (e.roundOf R).round.attached = true)
    (hc : e.countStarted = d.countStarted) : Logged base count B A e where
  gauged := hg.gauged h.gauged
  bound R hR := hb R (h.bound R hR)
  left R hR := hb R (h.left R hR)
  flag R := by
    rw [hg.flags, Bool.and_eq_true, h.flag]
    constructor
    · rintro ⟨⟨hR, -, hA⟩, hdone⟩
      exact ⟨hR, by simpa using hdone, hA⟩
    · rintro ⟨hR, hdone, hA⟩
      refine ⟨⟨hR, ?_, hA⟩, by simpa using hdone⟩
      cases hd : (d.roundOf R).round.isDone with
      | true => exact absurd (hg.ended R hd) (by simp [hdone])
      | false => rfl
  planned := by
    rw [hp, hg.current]
    exact h.planned
  once := h.once
  started := hc.trans h.started

theorem Logged.chores {who : Actor} (h : Logged base count B A d) (hs : d.Steady)
    (hf : who.Fits d) (hc : Chores who d e) : Logged base count B A e := by
  obtain ⟨hl, -, -⟩ := leads_chores hc hs hf
  exact h.onlySettles (onlySettles_chores hc hs hf h.gauged) hl.plan hl.bound (countStarted_chores hc)

theorem logged_base (h : Logged base count B A d) (i : Input) :
    Logged base count B A (d.base i) := by
  cases i <;> exact
    ⟨⟨h.gauged.honest, h.gauged.current, h.gauged.opened, h.gauged.waits, h.gauged.gauge⟩, h.bound, h.left, h.flag, h.planned, h.once, h.started⟩

/-- Where every bound round is over none is in flight. -/
theorem Logged.ground (h : Logged base count B A d)
    (hover : ∀ R, (d.roundOf R).round.attached = true → (d.roundOf R).round.isDone = true)
    (R : RoundId) : d.isInFlight R = false := by
  cases hR : d.isInFlight R with
  | false => rfl
  | true =>
    obtain ⟨hB, hopen, -⟩ := (h.flag R).mp hR
    rw [hover R (h.bound R hB)] at hopen
    cases hopen

/-- A plan that starts a round once every bound one is over. -/
theorem Logged.begin (h : Logged base count B A d) (hs : d.Steady)
    (hover : ∀ R, (d.roundOf R).round.attached = true → (d.roundOf R).round.isDone = true)
    {R : RoundId} (hl : R < d.rounds.length) (ha : (d.roundOf R).round.attached = false)
    (plan : Plan) : Logged base count (B ++ [R]) A (d.begin R plan) := by
  obtain ⟨hfly, hflags⟩ := h.gauged.begin hs (h.ground hover) hl ha plan
  obtain ⟨hclosed, hatt, hout, -⟩ := Round.started_answers (hs.standing R) ha plan
  have hround := round_begin d hl plan
  have hb := beside_begin d R plan
  have hfree : ∀ Q, (d.roundOf Q).round.attached = true → Q ≠ R := by
    rintro Q hQ rfl
    rw [hQ] at ha
    cases ha
  have hkeep : ∀ Q, (d.roundOf Q).round.attached = true →
      ((d.begin R plan).roundOf Q).round = (d.roundOf Q).round := fun Q hQ => by
    rw [hround, if_neg (hfree Q hQ)]
  refine ⟨hfly, fun Q hQ => ?_, fun Q hQ => ?_, fun Q => ?_, ?_, ?_, ?_⟩
  · rcases List.mem_append.mp hQ with hQ | hQ
    · rw [hkeep Q (h.bound Q hQ)]
      exact h.bound Q hQ
    · rw [List.mem_singleton.mp hQ, hround, if_pos rfl]
      exact hatt
  · rw [hkeep Q (h.left Q hQ)]
    exact h.left Q hQ
  · rw [hflags, decide_eq_true_iff, List.mem_append, List.mem_singleton]
    constructor
    · rintro rfl
      exact ⟨.inr rfl, hfly.opened Q (by simp [hflags]), fun hA => hfree Q (h.left Q hA) rfl⟩
    · rintro ⟨hQ | hQ, hopen, -⟩
      · rw [hkeep Q (h.bound Q hQ), hover Q (h.bound Q hQ)] at hopen
        cases hopen
      · exact hQ
  · rw [hb.plan, hb.current]
    simp
  · refine List.nodup_append.mpr ⟨h.once, List.pairwise_singleton _ R, ?_⟩
    intro Q hQ Q' hQ'
    rw [List.mem_singleton.mp hQ']
    exact hfree Q (h.bound Q hQ)
  · rw [countStarted_begin, h.started, List.length_append, UInt64.ofNat_add, UInt64.add_assoc]
    rfl

/-- A plan that leaves a round nothing to do once every bound one is over. -/
theorem Logged.pass (h : Logged base count B A d) (hs : d.Steady)
    (hover : ∀ R, (d.roundOf R).round.attached = true → (d.roundOf R).round.isDone = true)
    {R : RoundId} (hl : R < d.rounds.length) (ha : (d.roundOf R).round.attached = false)
    (plan : Plan) : Logged base count B A (d.pass R plan) := by
  obtain ⟨hfly, hflags⟩ := h.gauged.pass hs (h.ground hover) hl ha plan
  have hround := round_pass d hl plan
  have hb := beside_pass d R plan
  have hfree : ∀ Q, (d.roundOf Q).round.attached = true → Q ≠ R := by
    rintro Q hQ rfl
    rw [hQ] at ha
    cases ha
  have hkeep : ∀ Q, (d.roundOf Q).round.attached = true →
      ((d.pass R plan).roundOf Q).round = (d.roundOf Q).round := fun Q hQ => by
    rw [hround, if_neg (hfree Q hQ)]
  refine ⟨hfly, fun Q hQ => ?_, fun Q hQ => ?_, fun Q => ?_, ?_, h.once, ?_⟩
  · rw [hkeep Q (h.bound Q hQ)]
    exact h.bound Q hQ
  · rw [hkeep Q (h.left Q hQ)]
    exact h.left Q hQ
  · rw [hflags]
    refine ⟨nofun, ?_⟩
    rintro ⟨hQ, hopen, -⟩
    rw [hkeep Q (h.bound Q hQ), hover Q (h.bound Q hQ)] at hopen
    cases hopen
  · rw [hb.plan, hb.current]
    exact ⟨nofun, fun hR => absurd rfl (hfree R (h.bound R hR))⟩
  · refine Eq.trans ?_ h.started
    exact blind_pass Board.blind_roundsStarted d R (fun _ => rfl) plan

/-- A stop leaves the current round unfinished, if it is in flight. -/
theorem Logged.leaving (h : Logged base count B A d) (hs : d.Steady) :
    Logged base count B (A ++ if d.abandons .stop then [d.current] else []) d.leaving := by
  have hd : Gauged base { d.spawn.1 with stopping := true } :=
    ⟨h.gauged.honest, h.gauged.current, h.gauged.opened, h.gauged.waits, h.gauged.gauge⟩
  obtain ⟨hfly, hflags⟩ := hd.abandonRound hs.current
  have hb := beside_abandonRound { d.spawn.1 with stopping := true }
  have hround : ∀ R, (d.leaving.roundOf R).round = (d.roundOf R).round :=
    round_abandonRound { d.spawn.1 with stopping := true }
  refine ⟨hfly, fun R hR => ?_, fun R hR => ?_, fun R => ?_, ?_, h.once, ?_⟩
  · rw [hround]
    exact h.bound R hR
  · rw [hround]
    rcases List.mem_append.mp hR with hR | hR
    · exact h.left R hR
    · obtain ⟨habandons, hR⟩ := List.mem_ite_nil_right.mp hR
      rw [List.mem_singleton.mp hR]
      simp only [abandons, Bool.and_eq_true] at habandons
      exact hs.planned habandons.1
  · rw [show d.leaving.isInFlight R = false from hflags R, hround]
    refine ⟨nofun, ?_⟩
    rintro ⟨hB, hopen, hA⟩
    -- An open round that was not left before is in flight, so it is the current one.
    rw [List.mem_append, not_or] at hA
    have hR : R = d.current := h.gauged.current R ((h.flag R).mpr ⟨hB, hopen, hA.1⟩)
    subst hR
    refine absurd (List.mem_ite_nil_right.mpr ⟨?_, List.mem_singleton_self _⟩) hA.2
    simp [abandons, h.planned.mpr hB, currentRound, hopen]
  · rw [show d.leaving.plan = d.plan from hb.plan, show d.leaving.current = d.current from hb.current]
    exact h.planned
  · refine Eq.trans ?_ h.started
    exact blind_abandonRound (f := fun b => b.roundsStarted.value)
      { d.spawn.1 with stopping := true } fun _ => rfl

-- ============================================================================
-- Steps
-- ============================================================================

/-- A step that keeps the plan and the current round starts none. -/
theorem starts_of_same {i : Input} (hs : d.Steady) (hp : (d.step i).plan = d.plan)
    (hc : (d.step i).current = d.current) : d.starts i = false := by
  unfold starts
  rw [hp, hc]
  cases hp : d.plan.isSome with
  | false => rfl
  | true => simp [hs.planned hp]

/-- A plan that is processed and installed starts a round. -/
theorem Opens.starts_eq {i : Input} {R : RoundId} {P plan : Plan} {id : JobId}
    (h : Opens d i R P id plan e) : d.starts i = true := by
  obtain ⟨hcur, hplan⟩ := h.after
  have hfree : (d.roundOf R).round.attached = false := by
    rw [← h.leads.attached]
    exact h.free
  simp [Demander.starts, hcur, hplan, hfree]

/-- A step that processes a plan starts a round or passes it over. -/
theorem logged_launch {i : Input} {R : RoundId} {id : JobId} {plan : Plan}
    (h : Logged base count B A d) (hs : d.Steady) (ht : d.Turns) (hser : d.Serial)
    (hr : Reaches d i R id plan e) :
    Logged base count (B ++ if d.starts i then [(d.step i).current] else []) A (d.step i) := by
  have hf := fits_actor hs i
  rw [hr.who] at hf
  have he := (logged_base h i).chores (steady_base hs i) hf hr.before
  have hover : ∀ Q, (e.roundOf Q).round.attached = true → (e.roundOf Q).round.isDone = true :=
    fun Q hQ => hr.over hs ht hser hQ
  rcases hr.outcome with heq | ⟨P, ho⟩
  · have hstarts : d.starts i = false := by
      have hnone : (d.step i).plan = none := by
        rw [heq]
        exact (beside_pass e R plan).plan
      simp [starts, hnone]
    have htick : Tick (.call id) e (e.pass R plan) := .pass R plan hr.there hr.free
    rw [hstarts, heq]
    simpa using (he.pass hr.steady hover hr.there hr.free plan).chores
      (steady_tick htick hr.steady hr.young) (fits_tick htick hr.steady hr.young)
      (.single (.finish _ rfl))
  · obtain ⟨hsb, hyoung, -⟩ := ho.begins
    rw [ho.starts_eq, hr.current]
    have hfits : (Actor.call id).Fits (e.begin R P) := hyoung
    exact (he.begin hr.steady hover hr.there hr.free P).chores hsb hfits ho.chores

theorem logged_step (h : Logged base count B A d) (hs : d.Steady) (ht : d.Turns)
    (hser : d.Serial) (i : Input) :
    Logged base count (B ++ if d.starts i then [(d.step i).current] else [])
      (A ++ if d.abandons i then [d.current] else []) (d.step i) := by
  by_cases hsite : ∃ c, i = .site c
  · obtain ⟨c, rfl⟩ := hsite
    have hboard := d.site.board_change c
    have hsame : Logged base count B A (d.step (.site c)) :=
      h.onlySettles (h.gauged.aside rfl rfl (congrArg (·.activeRounds.value) hboard)) rfl (fun _ => id)
        (congrArg (·.roundsStarted.value) hboard)
    rw [starts_of_same hs rfl rfl]
    simpa [abandons] using hsame
  have hi : ∀ c, i ≠ .site c := fun c hc => hsite ⟨c, hc⟩
  by_cases hstop : i = .stop
  · subst hstop
    obtain ⟨hse, hfe⟩ := steady_leaving hs
    have hl := leads_stop hs
    rw [starts_of_same (i := .stop) hs hl.plan hl.current]
    simp only [Bool.false_eq_true, if_false, List.append_nil]
    exact (h.leaving hs).chores hse hfe (chores_stop d)
  have habandons : d.abandons i = false := by
    cases i <;> first | rfl | exact absurd rfl hstop
  rw [habandons]
  simp only [Bool.false_eq_true, if_false, List.append_nil]
  have hbase := logged_base h i
  cases fates hs hi with
  | stops h _ => exact absurd h hstop
  | stays hc hl =>
    rw [starts_of_same hs hl.plan hl.current]
    simpa using hbase.chores (steady_base hs i) (fits_actor hs i) hc
  | launches R id plan e hr => exact logged_launch h hs ht hser hr

theorem logged_run (h : Logged base count B A d) (hs : d.Steady) (ht : d.Turns)
    (hser : d.Serial) (inputs : List Input) :
    Logged base count (B ++ d.begun inputs) (A ++ d.abandoned inputs) (d.run inputs) := by
  induction inputs generalizing d B A with
  | nil =>
    change Logged base count (B ++ []) (A ++ []) d
    rw [List.append_nil, List.append_nil]
    exact h
  | cons i inputs ih =>
    have hrest := ih (logged_step h hs ht hser i) (steady_step hs i) (turns_step hs ht i)
      (serial_step hs ht hser i)
    rw [List.append_assoc, List.append_assoc] at hrest
    exact hrest

/-- When a demander has come into being no round has started. -/
theorem logged_create {σ : Type} {settings : Settings} {site : Site}
    {register : Topic → σ → Except Fault σ} {s t : σ} {d : Demander}
    (h : create settings site register s = (t, .ok d)) :
    Logged site.board.activeRounds.value site.board.roundsStarted.value [] [] d := by
  have hfresh : ∀ topics, Logged site.board.activeRounds.value site.board.roundsStarted.value [] []
      ({ settings, site, schedule := { delay := settings.delay }, topics } : Demander) := by
    intro topics
    have hs := steady_new settings site { delay := settings.delay } topics
    have hground : ∀ R, ({ settings, site, schedule := { delay := settings.delay }, topics } :
        Demander).isInFlight R = false := by
      intro R
      cases R <;> rfl
    refine ⟨.of_none hs.honest hground rfl, nofun, nofun, fun R => ?_, ⟨nofun, nofun⟩, .nil, ?_⟩
    · rw [hground]
      exact ⟨nofun, fun h => nomatch h.1⟩
    · exact (UInt64.add_zero _).symm
  obtain ⟨-, topics, rfl | rfl⟩ := create_cases h
  · exact hfresh topics
  · have hf := hfresh topics
    have hb := beside_changeRound
      ({ settings, site, schedule := { delay := settings.delay }, topics } : Demander) 0 .complete
    refine hf.onlySettles (hf.gauged.changeRound Nat.zero_lt_one nofun) hb.plan (fun R hR => ?_) ?_
    · cases R <;> cases hR
    · exact blind_changeRound Board.blind_roundsStarted _ 0 .complete

/-- Every round that was started is on the gauge or settled. -/
theorem Logged.length (h : Logged base count B A d) :
    B.length = (if d.isInFlight d.current then 1 else 0) +
      (B.filter fun R => (d.roundOf R).round.isDone || decide (R ∈ A)).length := by
  have hopen : ∀ R ∈ B, (¬ ((d.roundOf R).round.isDone || decide (R ∈ A)) = true ↔
      d.isInFlight R = true) := by
    intro R hR
    rw [h.flag]
    simp [hR]
  have hfly : B.countP d.isInFlight = if d.isInFlight d.current then 1 else 0 := by
    cases hc : d.isInFlight d.current with
    | false =>
      rw [List.countP_eq_zero.mpr]
      · rfl
      · intro R _ hR
        rw [h.gauged.current R hR, hc] at hR
        cases hR
    | true =>
      have hone : B.countP d.isInFlight = B.count d.current := by
        refine List.countP_congr fun R _ => ?_
        rw [beq_iff_eq]
        refine ⟨h.gauged.current R, ?_⟩
        rintro rfl
        exact hc
      rw [hone, List.count_eq_one_of_mem h.once ((h.flag d.current).mp hc).1]
      rfl
  rw [List.length_eq_countP_add_countP fun R => (d.roundOf R).round.isDone || decide (R ∈ A),
    ← List.countP_eq_length_filter, Nat.add_comm, ← hfly]
  congr 1
  exact List.countP_congr fun R hR => by simpa using hopen R hR

end Logged

-- ============================================================================
-- Runs
-- ============================================================================

/-- A step installs a round: another one becomes the current one, or the current one is bound. -/
def Installs (d : Demander) (i : Input) : Prop :=
  (d.step i).current ≠ d.current ∨
    d.currentRound.attached = false ∧ (d.step i).currentRound.attached = true

/-- A step that installs a round processes a plan with it. -/
theorem reaches_of_installs {d : Demander} (hs : d.Steady) {i : Input} (h : d.Installs i) :
    ∃ id plan e, Reaches d i (d.step i).current id plan e := by
  have hsame : (d.step i).current = d.current →
      ((d.step i).roundOf d.current).round.attached = (d.roundOf d.current).round.attached →
      False := by
    intro hc ha
    rcases h with h | ⟨hfree, hbound⟩
    · exact h hc
    · rw [currentRound, hc, ha] at hbound
      rw [currentRound, hbound] at hfree
      cases hfree
  by_cases hsite : ∃ c, i = .site c
  · obtain ⟨c, rfl⟩ := hsite
    exact (hsame rfl rfl).elim
  cases fates hs fun c hc => hsite ⟨c, hc⟩ with
  | stays _ hl => exact (hsame hl.current (hl.attached _)).elim
  | stops hstop _ =>
    subst hstop
    have hl := leads_stop hs
    exact (hsame hl.current (hl.attached _)).elim
  | launches R id plan e hr =>
    refine ⟨id, plan, e, ?_⟩
    rw [hr.current]
    exact hr

/-- Rounds are serial: a round is only installed by a plan that is processed when all rounds
    installed before are over.  They are counted: the gauge of rounds in flight shows one if the
    current round was started and is neither done nor abandoned, and else none; and every round that
    was started is on the gauge or settled, and settled once. -/
theorem rounds_are_serial_and_counted {σ : Type} {settings : Settings} {site : Site}
    {register : Topic → σ → Except Fault σ} {s t : σ} {start : Demander}
    (h : create settings site register s = (t, .ok start)) (inputs : List Input) :
    let d := start.run inputs
    (∀ i, d.Installs i → ∃ id plan e,
      d.step i = e.launch id (d.step i).current plan ∧ Chores (.call id) (d.base i) e ∧
        ∀ Q, (d.roundOf Q).round.attached = true → (e.roundOf Q).round.isDone = true) ∧
      d.site.board.activeRounds.value =
        site.board.activeRounds.value + (if start.underway inputs then 1 else 0) ∧
      d.site.board.roundsStarted.value = site.board.roundsStarted.value +
        UInt64.ofNat ((if start.underway inputs then 1 else 0) + (start.settled inputs).length) ∧
      (start.settled inputs).Nodup := by
  have hsteady := steady_create h
  obtain ⟨hturns, hserial⟩ := turns_create h
  have hlog := logged_run (logged_create h) hsteady hturns hserial inputs
  simp only [List.nil_append] at hlog
  have hs := steady_run hsteady inputs
  obtain ⟨ht, hser⟩ := turns_run hsteady hturns hserial inputs
  have hunder : start.underway inputs = (start.run inputs).isInFlight (start.run inputs).current := by
    rw [Bool.eq_iff_iff, hlog.flag]
    simp [underway, currentRound, and_assoc]
  intro d
  refine ⟨fun i hi => ?_, ?_, ?_, hlog.once.filter _⟩
  · obtain ⟨id, plan, e, hr⟩ := reaches_of_installs hs hi
    refine ⟨id, plan, e, hr.step, hr.before, fun Q hQ => hr.over hs ht hser ?_⟩
    rw [hr.leads.attached]
    exact hQ
  · have hgauge := hlog.gauged.gauge
    rw [← hunder] at hgauge
    exact hgauge
  · have hstarted := hlog.started
    rw [hlog.length, ← hunder] at hstarted
    exact hstarted

/-- A round is abandoned by the first of two stops, and ends after the second one, when its supplier
    has left: by then it is off the gauge, and stays so. -/
theorem abandoned_round_settles_once :
    let inputs : List Input :=
      [.add (planFor ⟨1, 0⟩ [(5, [3])]) true, .answer 0 (.ok ()), .stop, .stop, .nodeLeft 5]
    let d := (solo 3).run inputs
    create { poolSize := 1 } (solo 3).site (fun _ s => .ok s) () = ((), .ok (solo 3)) ∧
      (solo 3).underway (inputs.take 2) = true ∧ (solo 3).underway inputs = false ∧
      (solo 3).abandoned inputs = [0, 0] ∧ (d.roundOf 0).round.isDone = true ∧
      (solo 3).settled inputs = [0] ∧ d.site.board.activeRounds.value = 0 ∧
      d.site.board.roundsStarted.value = 1 := by
  intro inputs d
  have hcreate : create { poolSize := 1 } (solo 3).site (fun _ s => .ok s) () = ((), .ok (solo 3)) :=
    create_newborn rfl rfl 2 ⟨1, 0⟩ _ [3]
  obtain ⟨-, hgauge, hcount, -⟩ := rounds_are_serial_and_counted hcreate inputs
  have hover : (solo 3).underway inputs = false := by decide +kernel
  have hsettled : (solo 3).settled inputs = [0] := by decide +kernel
  rw [hover] at hgauge hcount
  rw [hsettled] at hcount
  exact ⟨hcreate, by decide +kernel, hover, by decide +kernel, by decide +kernel, hsettled, hgauge,
    hcount⟩

end Demander
end Rebalance
