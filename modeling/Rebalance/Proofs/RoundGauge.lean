/-
  Rebalance.Proofs.RoundGauge

  Which rounds are in flight.  The meters count a round as in flight through a
  flag of its own, which is taken back once, by the end of the round or by a
  stop.  `Gauged` says that no other round than the current one has the flag, and
  that the gauge shows whether it has; `OnlySettles` is between two demanders whose
  flags differ only for rounds that have ended between them, and `onlySettles_chores`
  is that every chore does this.  What starts, passes over or abandons a round
  follows.
-/
import Rebalance.Proofs.Hearing
import Rebalance.Proofs.Meters
import Rebalance.Proofs.Opening

namespace Rebalance
namespace Demander

/-- What the gauge of rounds in flight shows. -/
def active (d : Demander) : Int64 := d.site.board.activeRounds.value

/-- Whether a round counts as in flight. -/
def isInFlight (d : Demander) (R : RoundId) : Bool := (d.roundOf R).inFlight

/-- Only the current round is in flight, and only while it is open; the meters wait for its end, and
    the gauge shows whether it is, on top of what it has shown before. -/
structure Gauged (base : Int64) (d : Demander) : Prop where
  honest : d.Honest
  current : ∀ R, d.isInFlight R = true → R = d.current
  opened : ∀ R, d.isInFlight R = true → (d.roundOf R).round.isDone = false
  waits : ∀ R, d.isInFlight R = true → RoundWait.settle ∈ (d.roundOf R).round.outcome.waiting
  gauge : d.active = base + if d.isInFlight d.current then 1 else 0

/-- Between two demanders rounds have ended, which are in flight no more, and nothing else about
    flights has changed. -/
structure OnlySettles (d e : Demander) : Prop where
  honest : e.Honest
  rounds : d.rounds.length ≤ e.rounds.length
  current : e.current = d.current
  ended : ∀ R, (d.roundOf R).round.isDone = true → (e.roundOf R).round.isDone = true
  flags : ∀ R, e.isInFlight R = (d.isInFlight R && !(e.roundOf R).round.isDone)
  waits : ∀ R, (e.roundOf R).round.isDone = false →
    RoundWait.settle ∈ (d.roundOf R).round.outcome.waiting →
    RoundWait.settle ∈ (e.roundOf R).round.outcome.waiting
  gauge : e.active + (if d.isInFlight d.current then 1 else 0) =
    d.active + if e.isInFlight d.current then 1 else 0

variable {base : Int64} {d e f : Demander} {id : RoundId}

theorem OnlySettles.trans (h₁ : OnlySettles d e) (h₂ : OnlySettles e f) : OnlySettles d f where
  honest := h₂.honest
  rounds := Nat.le_trans h₁.rounds h₂.rounds
  current := h₂.current.trans h₁.current
  ended R h := h₂.ended R (h₁.ended R h)
  flags R := by
    rw [h₂.flags, h₁.flags]
    cases hd : (e.roundOf R).round.isDone with
    | true => simp [h₂.ended R hd]
    | false => simp
  waits R hf hd := by
    refine h₂.waits R hf (h₁.waits R ?_ hd)
    cases he : (e.roundOf R).round.isDone with
    | true => exact absurd (h₂.ended R he) (by simp [hf])
    | false => rfl
  gauge := by
    have h₁ := h₁.gauge
    have h := h₂.gauge
    rw [‹OnlySettles d e›.current] at h
    generalize (if d.isInFlight d.current then (1 : Int64) else 0) = a at *
    generalize (if e.isInFlight d.current then (1 : Int64) else 0) = b at *
    generalize (if f.isInFlight d.current then (1 : Int64) else 0) = c at *
    grind

/-- Where rounds only settle the gauge shows what is in flight. -/
theorem OnlySettles.gauged (h : OnlySettles d e) (hd : Gauged base d) : Gauged base e where
  honest := h.honest
  current R hR := by
    rw [h.flags, Bool.and_eq_true] at hR
    rw [h.current]
    exact hd.current R hR.1
  opened R hR := by
    rw [h.flags, Bool.and_eq_true] at hR
    simpa using hR.2
  waits R hR := by
    rw [h.flags, Bool.and_eq_true] at hR
    exact h.waits R (by simpa using hR.2) (hd.waits R hR.1)
  gauge := by
    have hg := h.gauge
    rw [hd.gauge] at hg
    rw [h.current]
    generalize (if d.isInFlight d.current then (1 : Int64) else 0) = a at *
    generalize (if e.isInFlight d.current then (1 : Int64) else 0) = b at *
    grind

/-- No round ends, and neither flags nor the gauge change. -/
theorem Gauged.still (hd : Gauged base d) (hh : e.Honest) (hl : d.rounds.length ≤ e.rounds.length)
    (hc : e.current = d.current)
    (hdone : ∀ R, (e.roundOf R).round.isDone = (d.roundOf R).round.isDone)
    (hf : ∀ R, e.isInFlight R = d.isInFlight R)
    (hw : ∀ R, RoundWait.settle ∈ (d.roundOf R).round.outcome.waiting →
      RoundWait.settle ∈ (e.roundOf R).round.outcome.waiting)
    (ha : e.active = d.active) : OnlySettles d e where
  honest := hh
  rounds := hl
  current := hc
  ended R h := (hdone R).trans h
  flags R := by
    rw [hf, hdone]
    cases hR : d.isInFlight R with
    | true => simp [hd.opened R hR]
    | false => rfl
  waits R _ := hw R
  gauge := by rw [ha, hf]

/-- Nothing changes about rounds, and the gauge stays. -/
theorem Gauged.same (hd : Gauged base d) (hl : d.rounds.length ≤ e.rounds.length)
    (hc : e.current = d.current) (hr : ∀ R, e.roundOf R = d.roundOf R)
    (ha : e.active = d.active) : OnlySettles d e :=
  hd.still (fun R => by rw [hr]; exact hd.honest R) hl hc (fun R => by rw [hr])
    (fun R => congrArg RoundRecord.inFlight (hr R)) (fun R h => by rw [hr]; exact h) ha

theorem Gauged.refl (hd : Gauged base d) : OnlySettles d d :=
  hd.same (Nat.le_refl _) rfl (fun _ => rfl) rfl

/-- With no round in flight the gauge shows what it has shown before. -/
theorem Gauged.of_none (hh : d.Honest) (hnone : ∀ R, d.isInFlight R = false) (ha : d.active = base) :
    Gauged base d where
  honest := hh
  current R hR := absurd hR (by simp [hnone])
  opened R hR := absurd hR (by simp [hnone])
  waits R hR := absurd hR (by simp [hnone])
  gauge := by
    rw [hnone]
    simpa using ha

theorem Gauged.active_of_none (hd : Gauged base d) (hnone : ∀ R, d.isInFlight R = false) :
    d.active = base := by
  rw [hd.gauge, hnone]
  simp

/-- What is no matter of rounds or of the gauge. -/
theorem Gauged.aside (hd : Gauged base d) (hr : e.rounds = d.rounds) (hc : e.current = d.current)
    (ha : e.active = d.active) : OnlySettles d e :=
  hd.same (Nat.le_of_eq (congrArg List.length hr.symm)) hc
    (fun R => by simp only [roundOf, hr]) ha

theorem Gauged.measure (hd : Gauged base d) {f : Board → Board}
    (hf : ∀ b, (f b).activeRounds.value = b.activeRounds.value) : OnlySettles d (d.measure f) :=
  hd.aside rfl rfl (hf _)

-- ============================================================================
-- Those who wait for a round
-- ============================================================================

/-- The end of a round that is not in flight moves no flag and no gauge. -/
theorem runWaits_grounded (s : Summary) (ws : List RoundWait) (h : d.isInFlight id = false) :
    (ws.foldl (fun d w => d.runWait id s w) d).active = d.active ∧
      ∀ R, (ws.foldl (fun d w => d.runWait id s w) d).isInFlight R = d.isInFlight R := by
  induction ws generalizing d with
  | nil => exact ⟨rfl, fun _ => rfl⟩
  | cons w ws ih =>
    have hone : (d.runWait id s w).active = d.active ∧
        ∀ R, (d.runWait id s w).isInFlight R = d.isInFlight R := by
      cases w with
      | notify tag bound => exact ⟨rfl, fun _ => rfl⟩
      | settle =>
        have hsame : d.runWait id s .settle =
            (d.emit (.notified id .settle s d.site.glimpse)).measure
              (·.roundCompleted s.missed.size) :=
          if_neg (Bool.eq_false_iff.mp h)
        rw [hsame]
        exact ⟨rfl, fun _ => rfl⟩
    obtain ⟨ha, hf⟩ := ih (d := d.runWait id s w) ((hone.2 id).trans h)
    exact ⟨ha.trans hone.1, fun R => (hf R).trans (hone.2 R)⟩

/-- The end of a round that is in flight takes it off the gauge if the meters wait for it. -/
theorem runWaits_lands (s : Summary) {ws : List RoundWait} (hl : id < d.rounds.length)
    (h : d.isInFlight id = true) (hw : RoundWait.settle ∈ ws) :
    (ws.foldl (fun d w => d.runWait id s w) d).active = d.active - 1 ∧
      ∀ R, (ws.foldl (fun d w => d.runWait id s w) d).isInFlight R =
        (d.isInFlight R && decide (R ≠ id)) := by
  induction ws generalizing d with
  | nil => cases hw
  | cons w ws ih =>
    cases w with
    | notify tag bound =>
      refine ih (d := d.runWait id s (.notify tag bound)) hl h ?_
      exact (List.mem_cons.mp hw).resolve_left fun hc => by cases hc
    | settle =>
      have hone : d.runWait id s .settle =
          (((d.emit (.notified id .settle s d.site.glimpse)).measure
            (·.roundCompleted s.missed.size)).flag id false).measure Board.roundSettled :=
        if_pos h
      have hflag : ∀ R, (d.runWait id s .settle).isInFlight R =
          (d.isInFlight R && decide (R ≠ id)) := by
        intro R
        rw [hone]
        change ((((d.emit _).measure _).setRound id _).roundOf R).inFlight = _
        rw [roundOf_setRound]
        by_cases hR : R = id
        · rw [if_pos ⟨hR, hl⟩]
          simp [hR]
        · rw [if_neg fun hc => hR hc.1, decide_eq_true hR, Bool.and_true]
          rfl
      -- With the flag gone the others that wait do nothing about it.
      have hgone : (d.runWait id s .settle).isInFlight id = false := by
        rw [hflag]
        simp
      obtain ⟨ha, hf⟩ := runWaits_grounded s ws hgone
      refine ⟨ha.trans ?_, fun R => (hf R).trans (hflag R)⟩
      rw [hone]
      rfl

-- ============================================================================
-- Changes to rounds
-- ============================================================================

theorem isInFlight_setRound {r : Round RoundWait} (R : RoundId) :
    (d.setRound id { d.roundOf id with round := r }).isInFlight R = d.isInFlight R := by
  unfold Demander.isInFlight
  rw [roundOf_setRound]
  split
  · next h => rw [h.1]
  · rfl

/-- The demander when a change has closed a round with a summary, before anyone has it: what the
    summary asks for is forced, and the round is done. -/
def shut (d : Demander) (id : RoundId) (c : Round.Change) (s : Summary) : Demander :=
  let x := d.withChange id c
  (x.forcing id s).setRound id { x.roundOf id with round := ((x.roundOf id).round.announce s).1 }

/-- Those that are told when a change has closed a round. -/
def callers (d : Demander) (id : RoundId) (c : Round.Change) (s : Summary) : List RoundWait :=
  (((d.withChange id c).roundOf id).round.announce s).2

section Closing

variable {c : Round.Change} {s : Summary}

/-- What follows a change that closes a round is that the callers are told. -/
theorem changeRound_of_closing (hs : ((d.roundOf id).round.change c).2 = some s) :
    d.changeRound id c =
      (d.callers id c s).foldl (fun d w => d.runWait id s w) (d.shut id c s) := by
  rw [changeRound_eq, hs]
  rfl

/-- Those that waited for an open round are told. -/
theorem callers_eq (hl : id < d.rounds.length) (hopen : (d.roundOf id).round.isDone = false) :
    d.callers id c s = (d.roundOf id).round.outcome.waiting := by
  have hv : (d.roundOf id).round.outcome.value = none := by
    simpa [Round.isDone, Promise.isDone] using hopen
  unfold callers
  rw [round_withChange d c hl, if_pos rfl, Round.announce, Round.change_waiting]
  simp [Promise.complete, hv]

theorem rounds_forcing (d : Demander) (id : RoundId) (s : Summary) :
    (d.forcing id s).rounds = d.rounds := by
  unfold forcing
  split <;> rfl

theorem beside_forcing (d : Demander) (id : RoundId) (s : Summary) : Beside d (d.forcing id s) := by
  unfold forcing
  split
  · exact .refl d
  · exact beside_emit d _

theorem beside_shut (d : Demander) (id : RoundId) (c : Round.Change) (s : Summary) :
    Beside d (d.shut id c s) :=
  ((beside_withChange d id c).trans (beside_forcing _ id s)).trans (beside_setRound _ id _)

/-- When those who waited are told, the round is as the change leaves it. -/
theorem round_shut (hs : ((d.roundOf id).round.change c).2 = some s) (R : RoundId) :
    ((d.shut id c s).roundOf R).round = ((d.changeRound id c).roundOf R).round := by
  rw [changeRound_of_closing hs, round_runWaits]

theorem isInFlight_shut (R : RoundId) : (d.shut id c s).isInFlight R = d.isInFlight R := by
  have hforced : ∀ R, ((d.withChange id c).forcing id s).roundOf R = (d.withChange id c).roundOf R :=
    fun R => by simp only [roundOf, rounds_forcing]
  have hset : d.shut id c s = ((d.withChange id c).forcing id s).setRound id
      { ((d.withChange id c).forcing id s).roundOf id with
        round := (((d.withChange id c).roundOf id).round.announce s).1 } := by
    rw [hforced]
    rfl
  rw [hset, isInFlight_setRound]
  exact (congrArg RoundRecord.inFlight (hforced R)).trans (isInFlight_setRound R)

theorem active_shut : (d.shut id c s).active = d.active :=
  congrArg (fun b : Board => b.activeRounds.value) (board_forcing (d.withChange id c) id s)

/-- A round that closes ends the flight that it is on. -/
theorem Gauged.conclude (hd : Gauged base d) (hl : id < d.rounds.length)
    (hs : ((d.roundOf id).round.change c).2 = some s)
    (hopen : (d.roundOf id).round.isDone = false) :
    (d.changeRound id c).active = d.active - (if d.isInFlight id then 1 else 0) ∧
      ∀ R, (d.changeRound id c).isInFlight R = (d.isInFlight R && decide (R ≠ id)) := by
  -- Those who waited for the round are told now, the meters among them.
  rw [changeRound_of_closing hs, callers_eq hl hopen]
  cases hf : d.isInFlight id with
  | true =>
    have hlen : id < (d.shut id c s).rounds.length := by
      rw [(beside_shut d id c s).rounds]
      exact hl
    obtain ⟨ha, hflags⟩ := runWaits_lands s hlen ((isInFlight_shut id).trans hf) (hd.waits id hf)
    exact ⟨by rw [ha, active_shut]; rfl, fun R => by rw [hflags, isInFlight_shut]⟩
  | false =>
    obtain ⟨ha, hflags⟩ := runWaits_grounded s (d.roundOf id).round.outcome.waiting
      ((isInFlight_shut (c := c) (s := s) id).trans hf)
    refine ⟨by rw [ha, active_shut]; simp, fun R => ?_⟩
    rw [hflags, isInFlight_shut]
    by_cases hR : R = id
    · simp [hR, hf]
    · simp [hR]

end Closing

/-- A change that does not close its round leaves flights alone. -/
theorem Gauged.changeRound_of_open (hd : Gauged base d) (hl : id < d.rounds.length)
    {c : Round.Change} (hs : ((d.roundOf id).round.change c).2 = none)
    (hh : (d.changeRound id c).Honest) : OnlySettles d (d.changeRound id c) := by
  have hb := beside_changeRound d id c
  have hsame : d.changeRound id c = d.withChange id c := by rw [changeRound_eq, hs]
  have hflight : ∀ R, (d.changeRound id c).isInFlight R = d.isInFlight R := by
    intro R
    rw [hsame]
    exact isInFlight_setRound R
  have houtcome : ∀ R, ((d.changeRound id c).roundOf R).round.outcome =
      (d.roundOf R).round.outcome := by
    intro R
    rw [hsame, round_withChange d c hl]
    by_cases hR : R = id
    · rw [if_pos hR, Round.change_waiting, hR]
    · rw [if_neg hR]
  exact hd.still hh (Nat.le_of_eq hb.rounds.symm) hb.current
    (fun R => congrArg Promise.isDone (houtcome R)) hflight
    (fun R h => by rw [houtcome]; exact h) (by rw [hsame]; rfl)

/-- A change that closes its round ends the flight of the round, and no other. -/
theorem Gauged.changeRound_of_closing (hd : Gauged base d) (hl : id < d.rounds.length)
    {c : Round.Change} {s : Summary} (hs : ((d.roundOf id).round.change c).2 = some s)
    (hh : (d.changeRound id c).Honest)
    (hover : ∀ R, (d.roundOf R).round.isDone = true →
      ((d.changeRound id c).roundOf R).round.isDone = true) : OnlySettles d (d.changeRound id c) := by
  have hb := beside_changeRound d id c
  have hround := round_changeRound d c hl
  have hopen : (d.roundOf id).round.isDone = false := Round.open_of_closing (hd.honest id) hs
  have hself : ((d.changeRound id c).roundOf id).round.isDone = true := by
    rw [hround, if_pos rfl, after_closing hs hopen]
    rfl
  have hother : ∀ R, R ≠ id →
      ((d.changeRound id c).roundOf R).round = (d.roundOf R).round := fun R hR => by
    rw [hround, if_neg hR]
  obtain ⟨hactive, hflags⟩ := hd.conclude hl hs hopen
  refine ⟨hh, Nat.le_of_eq hb.rounds.symm, hb.current, hover, fun R => ?_, fun R hR h => ?_, ?_⟩
  · rw [hflags]
    by_cases hR : R = id
    · rw [hR, hself]
      simp
    · rw [hother R hR]
      cases hf : d.isInFlight R with
      | true => simp [hR, hd.opened R hf]
      | false => rfl
  · have hne : R ≠ id := by
      rintro rfl
      rw [hself] at hR
      cases hR
    rw [hother R hne]
    exact h
  · rw [hactive, hflags]
    by_cases hcur : id = d.current
    · subst hcur
      simp
    · have hground : d.isInFlight id = false := by
        cases hf : d.isInFlight id with
        | true => exact absurd (hd.current id hf) hcur
        | false => rfl
      rw [hground]
      simp [Ne.symm hcur]

/-- A change to a round that is not closed by it leaves flights alone; a change that closes a round
    ends its flight. -/
theorem Gauged.changeRound (hd : Gauged base d) (hl : id < d.rounds.length) {c : Round.Change}
    (hc : ∀ e, c = .attach e → (d.roundOf id).round.isDone = false) :
    OnlySettles d (d.changeRound id c) := by
  obtain ⟨ids, hnoticed⟩ := noticed_changeRound hd.honest hl hc
  cases hs : ((d.roundOf id).round.change c).2 with
  | none => exact hd.changeRound_of_open hl hs hnoticed.honest
  | some s =>
    obtain ⟨es, -, hh⟩ := hnoticed.heard
    exact hd.changeRound_of_closing hl hs hnoticed.honest fun R h => (hh.stays R h).1

theorem Gauged.missOwned (hd : Gauged base d) (hl : id < d.rounds.length) (node : NodeId)
    (t : Topology) (p : PartitionId) : OnlySettles d (d.missOwned id node t p) := by
  unfold Demander.missOwned
  split
  · have h := hd.changeRound hl (c := .miss node p) fun _ hc => by cases hc
    exact h.trans ((h.gauged hd).measure fun _ => rfl)
  · exact hd.refl

theorem Gauged.cancelNode (hd : Gauged base d) (hl : id < d.rounds.length) (node : NodeId)
    (reason : CancelReason) : OnlySettles d (d.cancelNode id node reason) := by
  have h := hd.changeRound hl (c := .cancel node) fun _ hc => by cases hc
  exact h.trans ((h.gauged hd).measure (f := (·.streamCancelled reason.label)) fun _ => rfl)

/-- Any number of things of which each only settles rounds. -/
theorem Gauged.foldl {α : Type} {g : Demander → α → Demander} (hd : Gauged base d)
    (hl : id < d.rounds.length)
    (hg : ∀ e a, Gauged base e → id < e.rounds.length → OnlySettles e (g e a)) (l : List α) :
    OnlySettles d (l.foldl g d) := by
  induction l generalizing d with
  | nil => exact hd.refl
  | cons a l ih =>
    have h := hg d a hd hl
    exact h.trans (ih (h.gauged hd) (Nat.lt_of_lt_of_le hl h.rounds))

theorem Gauged.missAll (hd : Gauged base d) (hl : id < d.rounds.length) (node : NodeId)
    (t : Topology) (ps : List PartitionId) :
    OnlySettles d (ps.foldl (fun d p => d.missOwned id node t p) d) :=
  hd.foldl hl (fun _ p he hle => he.missOwned hle node t p) ps

theorem Gauged.settleMissed (hd : Gauged base d) {job : PageJob} (hl : job.round < d.rounds.length) :
    OnlySettles d (d.settleMissed job) := by
  have h := hd.missAll hl job.sender job.demand.topology job.page.missed.toList
  exact h.trans ((h.gauged hd).foldl (Nat.lt_of_lt_of_le hl h.rounds)
    (fun _ p he hle => he.changeRound hle (c := .drain job.sender p) fun _ hc => by cases hc)
      job.page.missed.toList)

theorem Gauged.endShipment (hd : Gauged base d) (hl : id < d.rounds.length) (s : Shipment) :
    OnlySettles d (d.endShipment id s) := by
  rw [endShipment_eq]
  cases s.failure with
  | none => exact hd.refl
  | some cause =>
    have h := hd.missAll hl s.node s.topology ((d.roundOf id).round.outstandingFrom s.node).toList
    exact h.trans ((h.gauged hd).cancelNode (Nat.lt_of_lt_of_le hl h.rounds) s.node _)

theorem Gauged.load (hd : Gauged base d) {job : PageJob} (hl : job.round < d.rounds.length)
    (p : PartitionId) (entries : List Entry) : OnlySettles d (d.load job p entries).1 := by
  have htake : OnlySettles d (d.takenIn job p entries) := by
    refine hd.aside rfl rfl ?_
    exact Site.board_takeInAll (f := fun b => b.activeRounds.value)
      ⟨fun _ => rfl, fun _ => rfl, fun _ => rfl, fun _ => rfl⟩ job.sender p d.site entries
  have hgo : ∀ {e : Demander}, OnlySettles d e → OnlySettles d (e.letGo p) := fun h =>
    h.trans ((h.gauged hd).aside rfl rfl rfl)
  rw [load_cases]
  split
  · have hown : OnlySettles d ((d.takenIn job p entries).ownAndReport job p) := by
      refine htake.trans ((htake.gauged hd).aside rfl rfl ?_)
      unfold active ownAndReport
      rw [Site.board_report]
      rfl
    rw [ownLoaded]
    refine hgo (hown.trans ((hown.gauged hd).changeRound hl (c := .drain job.sender p) ?_))
    exact fun _ hc => by cases hc
  · exact hgo htake

theorem Gauged.withWait (hd : Gauged base d) (hl : id < d.rounds.length) (w : RoundWait) :
    OnlySettles d (d.withWait id w) := by
  have hflight : ∀ R, (d.withWait id w).isInFlight R = d.isInFlight R := fun R => isInFlight_setRound R
  have hround := round_withWait d hl (w := w)
  obtain ⟨-, -, -, -, hclosed, hsum⟩ := Round.onDone_answers (d.roundOf id).round w
  have hdone : ∀ R, ((d.withWait id w).roundOf R).round.isDone = (d.roundOf R).round.isDone := by
    intro R
    rw [hround]
    by_cases hR : R = id
    · rw [if_pos hR, hR]
      exact congrArg Option.isSome hsum
    · rw [if_neg hR]
  refine hd.still (fun R => ?_) (Nat.le_of_eq (beside_setRound d id _).rounds.symm) rfl hdone hflight
    (fun R h => ?_) rfl
  · rw [hdone, hround]
    by_cases hR : R = id
    · rw [if_pos hR, hclosed, hR]
      exact hd.honest id
    · rw [if_neg hR]
      exact hd.honest R
  · rw [hround]
    by_cases hR : R = id
    · rw [if_pos hR]
      rw [hR] at h
      exact (Round.waiting_onDone _ w).subset h
    · rw [if_neg hR]
      exact h

/-- Whoever comes to wait for a round keeps its flight as it is. -/
theorem Gauged.whenDone (hd : Gauged base d) (hl : id < d.rounds.length) (w : RoundWait) :
    OnlySettles d (d.whenDone id w) := by
  have hwait := hd.withWait hl w
  have hfly := hwait.gauged hd
  rw [whenDone_eq]
  split
  · exact hwait
  · next s hs =>
    -- The round is over already, so it is not in flight.
    have hover : (d.roundOf id).round.isDone = true := by
      rw [Round.told_onDone] at hs
      exact congrArg Option.isSome hs
    have hground : (d.withWait id w).isInFlight id = false := by
      rw [hwait.flags, hwait.ended id hover]
      simp
    obtain ⟨hactive, hflags⟩ := runWaits_grounded s [w] hground
    have hround := fun R => round_runWait (d.withWait id w) id R s w
    have hb := beside_runWait (d.withWait id w) id s w
    exact hwait.trans (hfly.still (fun R => by rw [hround]; exact hfly.honest R)
      (Nat.le_of_eq hb.rounds.symm) hb.current (fun R => by rw [hround]) hflags
      (fun R h => by rw [hround]; exact h) hactive)

-- ============================================================================
-- Chores
-- ============================================================================

theorem onlySettles_chore {who : Actor} (h : Chore who d e) (hs : d.Steady) (hf : who.Fits d)
    (hd : Gauged base d) : OnlySettles d e := by
  cases h with
  | note hb hr _ hm =>
    refine hd.same (Nat.le_of_eq hb.rounds.symm) hb.current hr ?_
    obtain ⟨sent, unsent, received, hboard⟩ := hm
    unfold active
    rw [hboard]
  | drain p _ => exact hd.changeRound hf.2.1 fun _ hc => by cases hc
  | settleMissed => exact hd.settleMissed hf.2.1
  | load p entries => exact hd.load hf.2.1 p entries
  | cancel round node reason hl _ => exact hd.cancelNode hl node reason
  | endShipment round s hb _ => exact hd.endShipment hb.1 s
  | openRound => exact hd.same (by simp [openRound]) rfl (roundOf_openRound d) rfl
  | watch tag => exact hd.whenDone hs.current _
  | _ => exact hd.aside rfl rfl rfl

theorem onlySettles_chores {who : Actor} (h : Chores who d e) (hs : d.Steady) (hf : who.Fits d)
    (hd : Gauged base d) : OnlySettles d e := by
  have hkeep := h.keeps (P := OnlySettles d)
    (fun _ _ ht hse hfe he => he.trans (onlySettles_chore ht hse hfe (he.gauged hd))) hs hf hd.refl
  exact hkeep.1

-- ============================================================================
-- Rounds that start, pass or are abandoned
-- ============================================================================

theorem isInFlight_flag (hl : id < d.rounds.length) (b : Bool) (R : RoundId) :
    (d.flag id b).isInFlight R = if R = id then b else d.isInFlight R := by
  unfold Demander.isInFlight flag
  rw [roundOf_setRound]
  by_cases hR : R = id
  · rw [if_pos ⟨hR, hl⟩, if_pos hR]
  · rw [if_neg fun h => hR h.1, if_neg hR]

/-- Up to its flag the beginning of a round leaves the meters alone. -/
theorem Gauged.awaitAll (hd : Gauged base d) (hl : id < d.rounds.length)
    (hopen : (d.roundOf id).round.isDone = false) (plan : Plan) :
    OnlySettles d (d.awaitAll id plan) := by
  have h := hd.changeRound hl (c := .attach plan.exchange) fun _ _ => hopen
  exact h.trans ((h.gauged hd).foldl (Nat.lt_of_lt_of_le hl h.rounds)
    (fun _ e he hle => he.changeRound hle (c := .append e.1 e.2.partitions) (fun _ hc => by cases hc))
    plan.demands.toList)

/-- The demander with the partitions of a plan awaited and their round put in flight. -/
def putInFlight (d : Demander) (id : RoundId) (plan : Plan) : Demander :=
  ((d.awaitAll id plan).measure Board.roundStarted).flag id true

/-- A round that is open when its plan starts it has the meters wait for it. -/
theorem begin_of_open (hs : d.Steady) (hl : id < d.rounds.length)
    (ha : (d.roundOf id).round.attached = false) (plan : Plan) :
    d.begin id plan =
      { (d.putInFlight id plan).withWait id .settle with current := id, plan := some plan } := by
  have hopen : (d.roundOf id).round.isDone = false := hs.open_of_unbound ha
  obtain ⟨-, -, hout, -⟩ := Round.started_answers (hs.standing id) ha plan
  have hround : ((d.putInFlight id plan).roundOf id).round = (d.roundOf id).round.started plan := by
    rw [putInFlight, round_flag, roundOf_measure, round_awaitAll d hl, if_pos rfl]
  have htold : (((d.putInFlight id plan).roundOf id).round.onDone .settle).2 = none := by
    rw [Round.told_onDone, hround, Round.summary, hout]
    simpa [Round.isDone, Promise.isDone] using hopen
  rw [begin_eq, ← putInFlight, whenDone_eq, htold]

/-- A plan that starts a round while none is in flight makes it the one that is. -/
theorem Gauged.begin (hd : Gauged base d) (hs : d.Steady) (hnone : ∀ R, d.isInFlight R = false)
    (hl : id < d.rounds.length) (ha : (d.roundOf id).round.attached = false) (plan : Plan) :
    Gauged base (d.begin id plan) ∧ ∀ R, (d.begin id plan).isInFlight R = decide (R = id) := by
  have hopen : (d.roundOf id).round.isDone = false := hs.open_of_unbound ha
  have hround := round_begin d hl plan
  obtain ⟨-, -, hout, -⟩ := Round.started_answers (hs.standing id) ha plan
  have hx := hd.awaitAll hl hopen plan
  have hground : ∀ R, (d.awaitAll id plan).isInFlight R = false := fun R => by
    rw [hx.flags, hnone]
    rfl
  have hwait := begin_of_open hs hl ha plan
  have hflight : ∀ R, (d.begin id plan).isInFlight R = decide (R = id) := by
    intro R
    rw [hwait]
    refine (isInFlight_setRound (d := d.putInFlight id plan) R).trans ?_
    refine (isInFlight_flag (Nat.lt_of_lt_of_le hl hx.rounds) true R).trans ?_
    by_cases hR : R = id
    · simp [hR]
    · rw [if_neg hR]
      exact (hground R).trans (by simp [hR])
  refine ⟨⟨(unloaded_begin hd.honest hl hopen plan).honest, fun R hR => ?_, fun R hR => ?_,
    fun R hR => ?_, ?_⟩, hflight⟩
  · rw [hflight] at hR
    exact (of_decide_eq_true hR).trans (beside_begin d id plan).current.symm
  · rw [hflight] at hR
    rw [hround, if_pos (of_decide_eq_true hR)]
    refine (congrArg Option.isSome (Round.onDone_answers _ _).2.2.2.2.2).trans ?_
    exact (congrArg (fun o => o.value.isSome) hout).trans hopen
  · rw [hflight] at hR
    rw [hround, if_pos (of_decide_eq_true hR)]
    change _ ∈ (((d.roundOf id).round.started plan).outcome.onDone RoundWait.settle).1.waiting
    rw [hout]
    have hv : (d.roundOf id).round.outcome.value = none := by
      simpa [Round.isDone, Promise.isDone] using hopen
    simp [Promise.onDone, hv]
  · rw [hflight, (beside_begin d id plan).current, hwait]
    change (d.awaitAll id plan).active + 1 = _
    rw [(hx.gauged hd).active_of_none hground]
    simp

/-- The demander with a round bound to a plan that leaves it nothing to do, about to end. -/
def vacate (d : Demander) (id : RoundId) (plan : Plan) : Demander :=
  Demander.flag { d.changeRound id (.attach plan.exchange) with current := id, plan := none } id false

theorem beside_vacate (d : Demander) (id : RoundId) (plan : Plan) :
    Beside { d with current := id, plan := none } (d.vacate id plan) := by
  have h : Beside d (d.changeRound id (.attach plan.exchange)) := beside_changeRound d id _
  exact ⟨h.settings, h.node, h.store, h.affinity, h.recorder, h.clock, h.filter, h.schedule,
    h.rounds.symm ▸ (beside_flag { d.changeRound id (.attach plan.exchange) with
      current := id, plan := none } id false).rounds, rfl, rfl, h.stopping, h.topics, h.fault, h.jobs,
    h.nextJob, h.returns⟩

theorem round_vacate {d : Demander} (hl : id < d.rounds.length) (plan : Plan) (R : RoundId) :
    ((d.vacate id plan).roundOf R).round =
      if R = id then (d.roundOf id).round.attach plan.exchange else (d.roundOf R).round :=
  (round_flag _ id R false).trans (round_changeRound d (.attach plan.exchange) hl R)

/-- Before it ends, the round of a plan that has nothing to do is not in flight. -/
theorem Gauged.vacate (hd : Gauged base d) (hs : d.Steady) (hnone : ∀ R, d.isInFlight R = false)
    (hl : id < d.rounds.length) (ha : (d.roundOf id).round.attached = false) (plan : Plan) :
    Gauged base (d.vacate id plan) ∧ ∀ R, (d.vacate id plan).isInFlight R = false := by
  have hx := hd.changeRound hl (c := .attach plan.exchange) fun _ _ => hs.open_of_unbound ha
  have hground : ∀ R, (d.changeRound id (.attach plan.exchange)).isInFlight R = false := fun R => by
    rw [hx.flags, hnone]
    rfl
  have hflight : ∀ R, (d.vacate id plan).isInFlight R = false := fun R => by
    refine (isInFlight_flag (Nat.lt_of_lt_of_le hl hx.rounds) false R).trans ?_
    by_cases hR : R = id
    · rw [if_pos hR]
    · rw [if_neg hR]
      exact hground R
  refine ⟨.of_none (fun R => ?_) hflight ((hx.gauged hd).active_of_none hground), hflight⟩
  unfold Demander.vacate
  rw [round_flag]
  exact hx.honest R

/-- A plan that leaves its round nothing to do takes nothing into flight. -/
theorem Gauged.pass (hd : Gauged base d) (hs : d.Steady) (hnone : ∀ R, d.isInFlight R = false)
    (hl : id < d.rounds.length) (ha : (d.roundOf id).round.attached = false) (plan : Plan) :
    Gauged base (d.pass id plan) ∧ ∀ R, (d.pass id plan).isInFlight R = false := by
  obtain ⟨hy, hyground⟩ := hd.vacate hs hnone hl ha plan
  have hlen : id < (d.vacate id plan).rounds.length := by
    rw [(beside_vacate d id plan).rounds]
    exact hl
  have hz := hy.changeRound hlen (c := .complete) fun _ hc => by cases hc
  have hend := hz.trans ((hz.gauged hy).measure (f := Board.roundSkipped) fun _ => rfl)
  refine ⟨hend.gauged hy, fun R => ?_⟩
  have hflags := hend.flags R
  rw [hyground] at hflags
  exact hflags

/-- A round that is abandoned is in flight no more. -/
theorem Gauged.abandonRound (hd : Gauged base d) (hl : d.current < d.rounds.length) :
    Gauged base d.abandonRound ∧ ∀ R, d.abandonRound.isInFlight R = false := by
  have hother : ∀ R, R ≠ d.current → d.isInFlight R = false := fun R hR => by
    cases hf : d.isInFlight R with
    | true => exact absurd (hd.current R hf) hR
    | false => rfl
  cases hc : d.isInFlight d.current with
  | false =>
    have hsame : d.abandonRound = d := by
      unfold Demander.abandonRound
      simp only
      rw [if_neg]
      simp [show (d.roundOf d.current).inFlight = false from hc]
    rw [hsame]
    refine ⟨hd, fun R => ?_⟩
    by_cases hR : R = d.current
    · rw [hR]
      exact hc
    · exact hother R hR
  | true =>
    have hleft : d.abandonRound = (d.flag d.current false).measure Board.roundAbandoned := by
      unfold Demander.abandonRound
      simp only
      rw [if_pos]
      · rfl
      · simp [hd.opened _ hc, show (d.roundOf d.current).inFlight = true from hc]
    have hflight : ∀ R, d.abandonRound.isInFlight R = false := fun R => by
      rw [hleft]
      refine (isInFlight_flag hl false R).trans ?_
      by_cases hR : R = d.current
      · rw [if_pos hR]
      · rw [if_neg hR]
        exact hother R hR
    refine ⟨.of_none (fun R => ?_) hflight ?_, hflight⟩
    · rw [round_abandonRound]
      exact hd.honest R
    · rw [hleft]
      change d.active - 1 = base
      rw [hd.gauge, hc]
      simp

end Demander
end Rebalance
