/-
  Rebalance.Proofs.StopState

  What only a stop takes from a demander: whatever is done for plans, pages and
  rounds leaves it going on, and listening where it did (`stopState`).  A demander
  that is stopping was told to (`stop_mem_of_stopping`), and it listens on its
  topics until a stop comes to its end, and on none from then on (`topics_run`).
-/
import Rebalance.Proofs.Reworked
import Rebalance.Proofs.Stopped
import Rebalance.Proofs.Turns

namespace Rebalance
namespace Demander

/-- Whether a demander is stopping, and where it listens. -/
def stopState (d : Demander) : Bool × List Topic := (d.stopping, d.topics)

theorem Near.stopState {d e : Demander} (h : Near d e) : e.stopState = d.stopState := by
  rw [Demander.stopState, Demander.stopState, h.stopping, h.topics]

theorem Beside.stopState {d e : Demander} (h : Beside d e) : e.stopState = d.stopState :=
  h.near.stopState

section StopState

variable (d : Demander) (id : JobId) {i : Input}

-- ============================================================================
-- Plans
-- ============================================================================

theorem stopState_dispatch (R : RoundId) (ships : List Shipment) :
    (d.dispatch id R ships).stopState = d.stopState := by
  induction ships generalizing d with
  | nil => rfl
  | cons s rest ih =>
    unfold dispatch
    split
    · exact (ih _).trans (beside_endShipment d R s).stopState
    · rfl

theorem stopState_launch (R : RoundId) (plan : Plan) :
    (d.launch id R plan).stopState = d.stopState := by
  rw [launch_eq]
  split
  · exact (beside_pass d R plan).stopState
  · exact (stopState_dispatch _ id R _).trans (beside_begin d R _).stopState

theorem stopState_awaitRound (plan : Plan) (previous : RoundId) :
    (d.awaitRound id plan previous).stopState = d.stopState := by
  unfold awaitRound
  split
  · rfl
  · split
    · exact stopState_launch _ id _ plan
    · rfl

theorem stopState_turn (plan : Plan) : (d.turn id plan).stopState = d.stopState := by
  have hstale : (d.cancelIfStale d.current).stopState = d.stopState :=
    (beside_cancelIfStale d d.current).stopState
  unfold turn beginPlan
  split
  · simp only
    split
    · exact (stopState_awaitRound _ id plan _).trans hstale
    · exact (stopState_launch _ id _ plan).trans hstale
  · rfl

theorem stopState_startAdd (plan : Plan) (force : Bool) :
    (d.startAdd id plan force).stopState = d.stopState := by
  have hfault : d.takeFault.1.stopState = d.stopState := by
    unfold takeFault
    cases d.fault <;> rfl
  rw [startAdd_eq]
  split
  · exact hfault
  · split
    · exact hfault
    · split
      · exact hfault
      · split <;> exact hfault
      · exact (stopState_turn _ id plan).trans hfault

-- ============================================================================
-- Pages
-- ============================================================================

theorem stopState_failPage (job : PageJob) (cause : Fault) :
    (d.failPage job cause).stopState = d.stopState := by
  unfold failPage
  split
  · exact (beside_cancelNode d _ _ _).stopState
  · simp only
    split <;> exact (beside_cancelNode d job.round job.sender .processingFault).stopState

theorem stopState_afterWalk (job : PageJob) (x : Demander × Walked) :
    (afterWalk id job x).stopState = x.1.stopState := by
  obtain ⟨d, w⟩ := x
  cases w with
  | finished =>
    change (d.endPage id job).stopState = d.stopState
    rw [endPage_eq]
    split <;> exact (beside_settleMissed d job).stopState
  | blocked p entries rest => rfl
  | failed cause => exact stopState_failPage d job cause

theorem stopState_goOn (job : PageJob) (p : PartitionId) (entries : List Entry)
    (rest : List (PartitionId × List Entry)) :
    (d.goOn job p entries rest).1.stopState = d.stopState := by
  have hload : ((d.withLock p).load job p entries).1.stopState = d.stopState :=
    (near_load (d.withLock p) job p entries).stopState.trans (near_withLock d p).stopState
  unfold goOn
  split
  · exact hload
  · exact (near_walk _ job rest).stopState.trans hload

theorem stopState_letIn (worker : WorkerId) (sender : NodeId) (page : Supply) :
    (d.letIn id worker sender page).stopState = d.stopState := by
  rw [letIn_eq]
  split
  · rw [workPage_eq, stopState_afterWalk]
    exact (near_walk _ _ _).stopState
  · split
    · rfl
    · next demand _ =>
      exact (beside_cancelNode (d.measure Board.pageReceived) d.current sender
        (if d.site.affinity.changedFrom demand.topology then .topologyChanged
        else .classFault)).stopState

theorem stopState_startPage (worker : WorkerId) (sender : NodeId) (page : Supply) :
    (d.startPage id worker sender page).stopState = d.stopState := by
  unfold startPage
  split
  · rfl
  · exact stopState_letIn d id worker sender page

-- ============================================================================
-- What goes on
-- ============================================================================

theorem stopState_resume (h : d.job? id ≠ some .stopping) : (d.resume id).stopState = d.stopState := by
  unfold resume
  split
  · rw [resumeLocking_eq]
    split
    · rfl
    · rw [stopState_afterWalk, stopState_goOn]
  · exact stopState_turn d id _
  · exact stopState_awaitRound d id _ _
  · next hj => exact absurd hj h
  · rfl

theorem stopState_answer (r : Except Fault Unit) : (d.answer id r).stopState = d.stopState := by
  unfold answer
  split
  · next job q _ =>
    have hnote := (beside_noteAnswer d q r).stopState
    cases r with
    | ok _ => exact hnote
    | error cause => exact (stopState_failPage _ job cause).trans hnote
  · next R q s rest _ =>
    have hnote := (beside_noteAnswer d q r).stopState
    cases r with
    | ok _ => exact (stopState_dispatch _ id R (s :: rest)).trans hnote
    | error cause => exact (stopState_dispatch _ id R _).trans hnote
  · rfl

theorem stopState_onSchedule (f : Schedule → Schedule × List Exchange) :
    (d.onSchedule f).stopState = d.stopState := by
  have hemits : ∀ (es : List Exchange) (d : Demander),
      (es.foldl (fun d e => d.emit (.preload e)) d).stopState = d.stopState := by
    intro es
    induction es with
    | nil => exact fun _ => rfl
    | cons e es ih => exact fun d => ih _
  exact hemits _ _

/-- The job of a call to stop goes on. -/
def GetsOnWithStop (i : Input) : Prop := ∃ id, i = .resume id ∧ d.job? id = some .stopping

/-- Nothing but a stop changes whether a demander is stopping, or where it listens. -/
theorem stopState_step (hi : i ≠ .stop) (hstop : ¬ d.GetsOnWithStop i) :
    (d.step i).stopState = d.stopState := by
  cases i with
  | add plan force => exact stopState_startAdd d.spawn.1 d.nextJob plan force
  | page worker sender page => exact stopState_startPage d.spawn.1 d.nextJob worker sender page
  | unreadable sender =>
    change (d.unreadable sender).stopState = d.stopState
    unfold unreadable
    split
    · rfl
    · split
      · exact (beside_cancelNode d _ _ _).stopState
      · rfl
  | nodeLeft node =>
    change (d.nodeLeft node).stopState = d.stopState
    unfold nodeLeft
    split
    · exact (beside_cancelNode d _ _ _).stopState
    · rfl
  | topologyChanged => exact (beside_cancelIfStale d d.current).stopState
  | stop => exact absurd rfl hi
  | resume id => exact stopState_resume d id fun hj => hstop ⟨id, rfl, hj⟩
  | answer id r => exact stopState_answer d id r
  | watch tag => exact (beside_whenDone d d.current (.notify tag d.currentRound.attached)).stopState
  | exchange topology e finished => rfl
  | exchanged e => exact stopState_onSchedule d _
  | remember e => rfl
  | forcePreload => exact stopState_onSchedule d _
  | elapse ms => exact stopState_onSchedule d _
  | disarm => rfl
  | site c => rfl

-- ============================================================================
-- How a stop ends
-- ============================================================================

variable {d id}

theorem stopping_of_endStop (d : Demander) (id : JobId) :
    (d.endStop id).stopping = d.stopping := by
  rw [endStop_eq]
  split <;> rfl

theorem topics_endStop (d : Demander) (id : JobId) :
    (d.endStop id).topics = if d.isBusy = true then d.topics else [] := by
  rw [endStop_eq]
  split <;> rfl

/-- Nothing but a stop makes a demander stop. -/
theorem stopping_step (hi : i ≠ .stop) : (d.step i).stopping = d.stopping := by
  by_cases hstop : d.GetsOnWithStop i
  · obtain ⟨id, rfl, hj⟩ := hstop
    rw [step_resume_stopping hj, stopping_of_endStop]
  · exact congrArg Prod.fst (stopState_step d hi hstop)

/-- A demander that is stopping was stopped. -/
theorem stop_mem_of_stopping {inputs : List Input} (hd : d.stopping = false)
    (h : (d.run inputs).stopping = true) : .stop ∈ inputs := by
  induction inputs generalizing d with
  | nil =>
    change d.stopping = true at h
    rw [hd] at h
    cases h
  | cons i inputs ih =>
    by_cases hi : i = .stop
    · rw [hi]
      exact List.mem_cons_self
    · exact List.mem_cons_of_mem i (ih ((stopping_step hi).trans hd) h)

/-- A stop that is called, or gets on, comes to its end: no page is being taken in. -/
def EndsStop (d : Demander) (i : Input) : Prop :=
  d.isBusy = false ∧ (i = .stop ∨ d.GetsOnWithStop i)

/-- With the end of a stop a demander listens no more. -/
theorem EndsStop.topics (h : d.EndsStop i) (hs : d.Steady) : (d.step i).topics = [] := by
  obtain ⟨hidle, rfl | ⟨id, rfl, hj⟩⟩ := h
  · rw [step_stop, topics_endStop, isBusy_leaving hs, hidle, if_neg Bool.false_ne_true]
  · rw [step_resume_stopping hj, topics_endStop, hidle, if_neg Bool.false_ne_true]

/-- Until then it listens where it did. -/
theorem topics_step (hs : d.Steady) (h : ¬ d.EndsStop i) : (d.step i).topics = d.topics := by
  have hbusy : i = .stop ∨ d.GetsOnWithStop i → d.isBusy = true := fun hi =>
    eq_true_of_ne_false fun hidle => h ⟨hidle, hi⟩
  by_cases hi : i = .stop
  · rw [hi, step_stop, topics_endStop, isBusy_leaving hs, if_pos (hbusy (.inl hi))]
    exact (beside_abandonRound { d.spawn.1 with stopping := true }).topics
  · by_cases hstop : d.GetsOnWithStop i
    · have hb := hbusy (.inr hstop)
      obtain ⟨id, rfl, hj⟩ := hstop
      rw [step_resume_stopping hj, topics_endStop, if_pos hb]
    · exact congrArg Prod.snd (stopState_step d hi hstop)

-- ============================================================================
-- Every run
-- ============================================================================

/-- A stop comes to its end in the course of what happens. -/
def HasStopped (d : Demander) : List Input → Prop
  | [] => False
  | i :: later => d.EndsStop i ∨ (d.step i).HasStopped later

variable {inputs : List Input}

/-- As long as no stop has come to its end, a demander listens where it did. -/
theorem topics_run (hs : d.Steady) (h : ¬ d.HasStopped inputs) :
    (d.run inputs).topics = d.topics := by
  induction inputs generalizing d with
  | nil => rfl
  | cons i inputs ih =>
    obtain ⟨hi, hlater⟩ := not_or.mp h
    exact (ih (steady_step hs i) hlater).trans (topics_step hs hi)

theorem run_silent (hs : d.Steady) (h : d.topics = []) : (d.run inputs).topics = [] := by
  induction inputs generalizing d with
  | nil => exact h
  | cons i inputs ih => exact ih (steady_step hs i) ((closing_step hs i).topics h)

/-- Once a stop has come to its end, it listens nowhere. -/
theorem HasStopped.topics (h : d.HasStopped inputs) (hs : d.Steady) :
    (d.run inputs).topics = [] := by
  induction inputs generalizing d with
  | nil => exact h.elim
  | cons i inputs ih =>
    rcases h with hi | hlater
    · exact run_silent (d := d.step i) (steady_step hs i) (hi.topics hs)
    · exact ih hlater (steady_step hs i)

/-- A call to stop that waits was made. -/
theorem stop_of_waiting (hs : d.Steady) (hj : (d.step i).job? id = some .stopping) :
    i = .stop ∨ d.job? id = some .stopping := by
  obtain ⟨k, hk, hproceeds⟩ := proceeds_step hs hj rfl
  obtain rfl : k = .stopping := by
    cases hproceeds
    rfl
  unfold jobBefore at hk
  split at hk
  · cases i <;> first | exact .inl rfl | cases hk
  · exact .inr hk

/-- No stop comes to its end that was not called. -/
theorem stop_mem_of_hasStopped (hs : d.Steady) (hnone : ∀ id, d.job? id ≠ some .stopping)
    (h : d.HasStopped inputs) : .stop ∈ inputs := by
  induction inputs generalizing d with
  | nil => exact h.elim
  | cons i inputs ih =>
    by_cases hi : i = .stop
    · rw [hi]
      exact List.mem_cons_self
    rcases h with ⟨-, hstop | ⟨id, -, hj⟩⟩ | hlater
    · exact absurd hstop hi
    · exact absurd hj (hnone id)
    · refine List.mem_cons_of_mem i (ih (steady_step hs i) (fun id hj => ?_) hlater)
      exact (stop_of_waiting hs hj).elim hi (hnone id)

/-- A call to stop that waits goes on waiting until a stop comes to its end. -/
theorem waits_step (hs : d.Steady) (hj : d.job? id = some .stopping) (hr : ¬ d.HasReturned id)
    (hi : ¬ d.EndsStop i) :
    (d.step i).job? id = some .stopping ∧ ¬ (d.step i).HasReturned id := by
  by_cases hw : (d.actor i).id? = some id
  · have hsame : d.step i = d := by
      obtain ⟨rfl | ⟨r, rfl⟩, -⟩ := actor_of_begun (hs.young id _ hj) hw
      · have hbusy : d.isBusy = true :=
          eq_true_of_ne_false fun hidle => hi ⟨hidle, .inr ⟨id, rfl, hj⟩⟩
        rw [step_resume_stopping hj, endStop_eq, if_pos hbusy]
      · change d.answer id r = d
        rw [answer, hj]
    rw [hsame]
    exact ⟨hj, hr⟩
  · exact ⟨(job_of_other hs hw).trans hj, not_hasReturned_step hr hs hw⟩

theorem hasStopped_of_waits (hs : d.Steady) (hj : d.job? id = some .stopping)
    (hr : ¬ d.HasReturned id) (h : (d.run inputs).HasReturned id) : d.HasStopped inputs := by
  induction inputs generalizing d with
  | nil => exact absurd h hr
  | cons i inputs ih =>
    by_cases hi : d.EndsStop i
    · exact .inl hi
    · obtain ⟨hj', hr'⟩ := waits_step hs hj hr hi
      exact .inr (ih (steady_step hs i) hj' hr' h)

/-- A call to stop that has returned has come to its end. -/
theorem hasStopped_of_returned (hs : d.Steady)
    (h : ((d.step .stop).run inputs).HasReturned d.nextJob) : d.HasStopped (.stop :: inputs) := by
  by_cases hi : d.EndsStop .stop
  · exact .inl hi
  · cases stopping_stop hs with
    | waits _ hj hr => exact .inr (hasStopped_of_waits (steady_step hs .stop) hj hr h)
    | ended hhalted _ =>
      -- The pages that keep the stop from ending are still being taken in after the call.
      have hbusy : d.isBusy = true := eq_true_of_ne_false fun hidle => hi ⟨hidle, .inl rfl⟩
      have hidle := hhalted.idle
      rw [step_stop, endStop_eq, isBusy_leaving hs, if_pos hbusy, isBusy_leaving hs, hbusy] at hidle
      cases hidle

theorem hasStopped_append {later : List Input} :
    d.HasStopped (inputs ++ later) ↔ d.HasStopped inputs ∨ (d.run inputs).HasStopped later := by
  induction inputs generalizing d with
  | nil => exact ⟨.inr, fun h => h.resolve_left id⟩
  | cons i inputs ih => exact (or_congr_right ih).trans or_assoc.symm

end StopState

end Demander
end Rebalance
