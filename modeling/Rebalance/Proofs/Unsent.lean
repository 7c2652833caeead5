/-
  Rebalance.Proofs.Unsent

  Demands that cannot be sent.  A node to which a demand could not be sent is
  given up when the last demand to it has been tried, and whatever is still
  awaited from it then is missed if it belongs here.  `accounted_run` says what
  has become by then of everything that was awaited at first: pages of the node
  took it off, or the node had been given up before.  `Trying` is what holds of
  the demands still to be sent at every moment of a run, and
  `unsent_demand_loses_nothing` concludes what the call has done when it
  returns.
-/
import Mathlib.Data.List.Induction
import Rebalance.Proofs.Coverage
import Rebalance.Proofs.Redrive

namespace Rebalance

/-- The demands to a node after one of them was answered for: the first failure is kept. -/
def Shipment.told (s : Shipment) : Except Fault Unit → Shipment
  | .ok _ => s
  | .error cause => { s with failure := some (s.failure.getD cause) }

@[simp] theorem Shipment.node_told (s : Shipment) (r : Except Fault Unit) :
    (s.told r).node = s.node := by
  cases r <;> rfl

@[simp] theorem Shipment.topology_told (s : Shipment) (r : Except Fault Unit) :
    (s.told r).topology = s.topology := by
  cases r <;> rfl

@[simp] theorem Shipment.parts_told (s : Shipment) (r : Except Fault Unit) :
    (s.told r).parts = s.parts := by
  cases r <;> rfl

/-- Some demand to the node has failed if one had before or this one has. -/
theorem Shipment.failure_told (s : Shipment) (r : Except Fault Unit) :
    (s.told r).failure.isSome = true ↔ s.failure.isSome = true ∨ ∃ cause, r = .error cause := by
  cases r <;> simp [told]

-- ============================================================================
-- A node whose awaited partitions are missed
-- ============================================================================

section Forsaken

variable {κ : Type} {r : Round κ} {n : NodeId} {p : PartitionId} (hs : r.Standing)
  (ha : r.attached = true) (m : NodeId) (noted : List PartitionId)

include hs ha

/-- What a page says is missing is noted, and is awaited from its sender no more. -/
theorem Round.awaited_of_settled (missing : List PartitionId) :
    (∀ n p, p ∈ ((r.missAll m noted).drainAll m missing).outstandingFrom n ↔
      p ∈ r.outstandingFrom n ∧ ¬ (n = m ∧ p ∈ missing)) ∧
      ((r.missAll m noted).drainAll m missing).givenUp = r.givenUp := by
  obtain ⟨hs', -, -, hout, hgiven, -⟩ := Round.missAll_answers hs ha m noted
  obtain ⟨-, -, -, hgiven', hawaits⟩ := Round.drainAll_answers hs' m missing
  exact ⟨fun n p => by rw [hawaits, Round.outstandingFrom_congr hout], hgiven'.trans hgiven⟩

/-- A node is given up, and what was awaited from it noted, which changes nothing for others. -/
theorem Round.mem_outstandingFrom_forsaken :
    p ∈ ((r.missAll m noted).after (.cancel m)).outstandingFrom n ↔
      p ∈ r.outstandingFrom n ∧ n ≠ m := by
  obtain ⟨hs', -, -, hout, -⟩ := Round.missAll_answers hs ha m noted
  rw [Round.mem_outstandingFrom_cancel _ _ _ _ hs'.toSound, Round.outstandingFrom_congr hout]

theorem Round.mem_givenUp_forsaken :
    n ∈ ((r.missAll m noted).after (.cancel m)).givenUp ↔
      n ∈ r.givenUp ∨ (n = m ∧ m ∈ r.outstandingNodes) := by
  obtain ⟨hs', -, -, hout, hgiven, -⟩ := Round.missAll_answers hs ha m noted
  rw [Round.mem_givenUp_cancel _ _ _ hs'.toSound, hgiven, hs'.toSound.mem_outstandingNodes_iff,
    Round.outstandingFrom_congr hout, ← hs.toSound.mem_outstandingNodes_iff]

theorem Round.mem_missed_forsaken :
    p ∈ ((r.missAll m noted).after (.cancel m)).missed ↔
      p ∈ r.missed ∨ (r.closed = false ∧ p ∈ noted) := by
  obtain ⟨hs', -, -, -, -, hmiss⟩ := Round.missAll_answers hs ha m noted
  rw [Round.missed_cancel _ _ hs'.toSound, hmiss]

end Forsaken

namespace Demander

variable {R : RoundId} {P plan : Plan} {id : JobId} {n : NodeId} {p : PartitionId}
  {d e start : Demander} {i : Input}

-- ============================================================================
-- What becomes of what is awaited
-- ============================================================================

section Moved

variable {who : Actor} {r : Round RoundWait}

/-- Nothing is awaited that was not. -/
theorem Moved.awaited (h : Moved who d R r) (hs : d.Steady) (hb : d.Bound R)
    (hp : p ∈ r.outstandingFrom n) : p ∈ (d.roundOf R).round.outstandingFrom n := by
  have hst := hs.standing R
  cases h with
  | same => exact hp
  | drain i job q hw hr => exact ((Round.mem_outstandingFrom_drain _ _ _ _ _ hst.toSound).mp hp).1
  | settle i job hw hr =>
    exact (((Round.awaited_of_settled hst hb.2 job.sender _ _).1 n p).mp hp).1
  | cancel node => exact ((Round.mem_outstandingFrom_cancel _ _ _ _ hst.toSound).mp hp).1
  | ship i s hs' =>
    exact ((Round.mem_outstandingFrom_forsaken hst hb.2 s.node _).mp hp).1
  | wait w =>
    rw [Round.outstandingFrom_congr (Round.onDone_answers _ w).1] at hp
    exact hp

/-- Who was given up stays so. -/
theorem Moved.givenUp (h : Moved who d R r) (hs : d.Steady) (hb : d.Bound R)
    (hn : n ∈ (d.roundOf R).round.givenUp) : n ∈ r.givenUp := by
  have hst := hs.standing R
  cases h with
  | same => exact hn
  | drain i job q hw hr =>
    rw [(Round.answers_drain _ job.sender q hst.toSound).2]
    exact hn
  | settle i job hw hr =>
    rw [(Round.awaited_of_settled hst hb.2 job.sender _ _).2]
    exact hn
  | cancel node => exact (Round.mem_givenUp_cancel _ node n hst.toSound).mpr (.inl hn)
  | ship i s hs' =>
    exact (Round.mem_givenUp_forsaken hst hb.2 s.node _).mpr (.inl hn)
  | wait w =>
    rw [(Round.onDone_answers _ w).2.2.1]
    exact hn

/-- Whoever takes what is awaited from a node off the round gives the node up, or is a page of it. -/
theorem Moved.leaves (h : Moved who d R r) (hs : d.Steady) (hb : d.Bound R)
    (hp : p ∈ (d.roundOf R).round.outstandingFrom n) :
    p ∈ r.outstandingFrom n ∨ n ∈ r.givenUp ∨
      ∃ id job, who = .page id job ∧ job.round = R ∧ job.sender = n := by
  have hst := hs.standing R
  have hnode : n ∈ (d.roundOf R).round.outstandingNodes :=
    hst.toSound.mem_outstandingNodes_iff.mpr ⟨p, hp⟩
  cases h with
  | same => exact .inl hp
  | drain i job q hw hr =>
    by_cases hn : n = job.sender
    · exact .inr (.inr ⟨i, job, hw, hr, hn.symm⟩)
    · exact .inl ((Round.mem_outstandingFrom_drain _ _ _ _ _ hst.toSound).mpr
        ⟨hp, fun hc => hn hc.1⟩)
  | settle i job hw hr =>
    by_cases hn : n = job.sender
    · exact .inr (.inr ⟨i, job, hw, hr, hn.symm⟩)
    · exact .inl (((Round.awaited_of_settled hst hb.2 job.sender _ _).1 n p).mpr
        ⟨hp, fun hc => hn hc.1⟩)
  | cancel node =>
    by_cases hn : n = node
    · exact .inr (.inl ((Round.mem_givenUp_cancel _ node n hst.toSound).mpr
        (.inr ⟨hn, hn ▸ hnode⟩)))
    · exact .inl ((Round.mem_outstandingFrom_cancel _ _ _ _ hst.toSound).mpr ⟨hp, hn⟩)
  | ship i s hs' =>
    by_cases hn : n = s.node
    · exact .inr (.inl ((Round.mem_givenUp_forsaken hst hb.2 s.node _).mpr
        (.inr ⟨hn, hn ▸ hnode⟩)))
    · exact .inl ((Round.mem_outstandingFrom_forsaken hst hb.2 s.node _).mpr ⟨hp, hn⟩)
  | wait w =>
    refine .inl ?_
    rw [Round.outstandingFrom_congr (Round.onDone_answers _ w).1]
    exact hp

end Moved

/-- What a step makes of a round that is bound, by the ticks that it is made of. -/
theorem moved_step {Q : Round RoundWait → Prop} (hs : d.Steady) (hb : d.Bound R)
    (hq : Q (d.roundOf R).round)
    (hmoved : ∀ e r, e.Steady → e.Bound R → Moved (d.actor i) e R r → Q (e.roundOf R).round → Q r) :
    Q ((d.step i).roundOf R).round := by
  by_cases hsite : ∃ c, i = .site c
  · obtain ⟨c, rfl⟩ := hsite
    exact hq
  · refine (step_keeps (P := fun e => e.Bound R ∧ Q (e.roundOf R).round) hs
      (fun c hc => hsite ⟨c, hc⟩) ?_ fun e f ht hse hf he => ?_).2
    · cases i <;> exact ⟨hb, hq⟩
    · exact ⟨(onward_tick ht hse hf).bound he.1,
        hmoved e _ hse he.1 (moved_tick ht hse hf he.1) he.2⟩

theorem awaited_step (hs : d.Steady) (hb : d.Bound R)
    (hp : p ∈ ((d.step i).roundOf R).round.outstandingFrom n) :
    p ∈ (d.roundOf R).round.outstandingFrom n :=
  moved_step (Q := fun r => p ∈ r.outstandingFrom n → p ∈ (d.roundOf R).round.outstandingFrom n)
    hs hb id (fun _ _ hse hbe hm hq hp => hq (hm.awaited hse hbe hp)) hp

theorem givenUp_step (hs : d.Steady) (hb : d.Bound R) (hn : n ∈ (d.roundOf R).round.givenUp) :
    n ∈ ((d.step i).roundOf R).round.givenUp :=
  moved_step (Q := fun r => n ∈ r.givenUp) hs hb hn fun _ _ hse hbe hm hq => hm.givenUp hse hbe hq

theorem givenUp_run (hs : d.Steady) (hb : d.Bound R) (hn : n ∈ (d.roundOf R).round.givenUp)
    (inputs : List Input) : n ∈ ((d.run inputs).roundOf R).round.givenUp := by
  induction inputs generalizing d with
  | nil => exact hn
  | cons i inputs ih => exact ih (steady_step hs i) (bound_step hs hb i) (givenUp_step hs hb hn)

theorem leaves_step (hs : d.Steady) (hb : d.Bound R)
    (hp : p ∈ (d.roundOf R).round.outstandingFrom n) :
    p ∈ ((d.step i).roundOf R).round.outstandingFrom n ∨
      n ∈ ((d.step i).roundOf R).round.givenUp ∨
      ∃ id job, d.actor i = .page id job ∧ job.round = R ∧ job.sender = n := by
  refine moved_step (Q := fun r => p ∈ r.outstandingFrom n ∨ n ∈ r.givenUp ∨
    ∃ id job, d.actor i = .page id job ∧ job.round = R ∧ job.sender = n) hs hb (.inl hp) ?_
  rintro e r hse hbe hm (hp | hn | hpage)
  · exact hm.leaves hse hbe hp
  · exact .inr (.inl (hm.givenUp hse hbe hn))
  · exact .inr (.inr hpage)

/-- A page of a node takes a partition that is awaited from the node off the round, which does not
    give the node up. -/
structure MarksDone (R : RoundId) (n : NodeId) (p : PartitionId) (d : Demander) (i : Input) : Prop where
  awaited : p ∈ (d.roundOf R).round.outstandingFrom n
  page : ∃ id job, d.actor i = .page id job ∧ job.round = R ∧ job.sender = n
  done : p ∉ ((d.step i).roundOf R).round.outstandingFrom n
  kept : n ∉ ((d.step i).roundOf R).round.givenUp

/-- In a run a page of the node takes the partition off the round. -/
def MarkedDone (R : RoundId) (n : NodeId) (p : PartitionId) (d : Demander) (inputs : List Input) :
    Prop :=
  ∃ before i after, inputs = before ++ i :: after ∧ MarksDone R n p (d.run before) i

/-- What was awaited from a node still is, or the node was given up, or a page of it took it off. -/
theorem accounted_run (hs : d.Steady) (hb : d.Bound R)
    (hp : p ∈ (d.roundOf R).round.outstandingFrom n) (inputs : List Input) :
    p ∈ ((d.run inputs).roundOf R).round.outstandingFrom n ∨
      n ∈ ((d.run inputs).roundOf R).round.givenUp ∨ MarkedDone R n p d inputs := by
  induction inputs generalizing d with
  | nil => exact .inl hp
  | cons i inputs ih =>
    have hs' := steady_step hs i
    have hb' := bound_step hs hb i
    by_cases hout : p ∈ ((d.step i).roundOf R).round.outstandingFrom n
    · refine (ih hs' hb' hout).imp_right fun h => h.imp_right ?_
      rintro ⟨before, j, after, rfl, hdone⟩
      exact ⟨i :: before, j, after, rfl, hdone⟩
    · by_cases hn : n ∈ ((d.step i).roundOf R).round.givenUp
      · exact .inr (.inl (givenUp_run hs' hb' hn inputs))
      · have hpage := ((leaves_step hs hb hp).resolve_left hout).resolve_left hn
        exact .inr (.inr ⟨[], i, inputs, rfl, hp, hpage, hout, hn⟩)

-- ============================================================================
-- Demands that could not be sent
-- ============================================================================

/-- The demands for a round that something reports as not sent. -/
def refused (d : Demander) (R : RoundId) : Input → List Request
  | .answer id (.error cause) => d.answered R (.answer id (.error cause))
  | _ => []

/-- The demands for a round that could not be sent in a run. -/
def unsent (R : RoundId) : Demander → List Input → List Request
  | _, [] => []
  | d, i :: rest => d.refused R i ++ unsent R (d.step i) rest

theorem unsent_snoc (d : Demander) (inputs : List Input) (i : Input) :
    d.unsent R (inputs ++ [i]) = d.unsent R inputs ++ (d.run inputs).refused R i := by
  induction inputs generalizing d with
  | nil => exact List.append_nil _
  | cons j inputs ih =>
    rw [List.cons_append, unsent, ih, unsent, List.append_assoc]
    rfl

/-- What is reported as not sent is answered for. -/
theorem refused_of_none (h : d.answered R i = []) : d.refused R i = [] := by
  cases i with
  | answer id r =>
    cases r with
    | ok _ => rfl
    | error cause => exact h
  | _ => rfl

-- ============================================================================
-- How demands are sent
-- ============================================================================

/-- The demander after the transport has dealt with a demand, before the next one is sent. -/
def counted (d : Demander) (q : Request) : Except Fault Unit → Demander
  | .ok _ => (d.noteAnswer q (.ok ())).measure Board.demandSent
  | .error cause => (d.noteAnswer q (.error cause)).measure Board.demandNotSent

theorem beside_counted (d : Demander) (q : Request) (r : Except Fault Unit) :
    Beside d (d.counted q r) := by
  cases r with
  | ok _ => exact (beside_noteAnswer d q (.ok ())).trans (beside_measure _ _)
  | error cause => exact (beside_noteAnswer d q (.error cause)).trans (beside_measure _ _)

theorem roundOf_counted (d : Demander) (q : Request) (r : Except Fault Unit) (Q : RoundId) :
    (d.counted q r).roundOf Q = d.roundOf Q := by
  cases r <;> rfl

/-- A plan that is told what became of a demand goes on with the next one. -/
theorem step_answer {q : Request} {s : Shipment} {rest : List Shipment}
    (hj : d.job? id = some (.sending R q s rest)) (r : Except Fault Unit) :
    d.step (.answer id r) = (d.counted q r).dispatch id R (s.told r :: rest) := by
  change d.answer id r = _
  rw [answer, hj]
  cases r <;> rfl

/-- Where no demand has failed there is nothing to be done but to send the next one. -/
theorem dispatch_cases (d : Demander) (id : JobId) (R : RoundId) {ships : List Shipment}
    (h : ∀ s ∈ ships, s.failure = none) :
    d.dispatch id R ships = d.finish id (.ok ()) ∨
      ∃ before s rest q parts, ships = before ++ s :: rest ∧ s.parts = q :: parts ∧
        d.dispatch id R ships = d.park id (.sending R q { s with parts } rest) := by
  induction ships with
  | nil => exact .inl rfl
  | cons s rest ih =>
    rw [dispatch]
    cases hp : s.parts with
    | nil =>
      have hend : d.endShipment R s = d := by rw [endShipment, h s List.mem_cons_self]
      rw [hend]
      refine (ih fun x hx => h x (List.mem_cons_of_mem s hx)).imp_right ?_
      rintro ⟨before, x, more, q, parts, rfl, hparts, he⟩
      exact ⟨s :: before, x, more, q, parts, rfl, hparts, he⟩
    | cons q parts => exact .inr ⟨[], s, rest, q, parts, rfl, hp, rfl⟩

theorem dispatch_untried (d : Demander) (id : JobId) (R : RoundId) {ships : List Shipment}
    (h : ∀ s ∈ ships, s.failure = none) :
    (∀ Q, (d.dispatch id R ships).roundOf Q = d.roundOf Q) ∧
      (d.dispatch id R ships).site = d.site := by
  rcases dispatch_cases d id R h with he | ⟨_, _, _, _, _, -, -, he⟩
  · rw [he]
    exact ⟨fun _ => rfl, rfl⟩
  · rw [he]
    exact ⟨fun _ => rfl, rfl⟩

section Answer

variable {q : Request} {s : Shipment} {rest : List Shipment}

/-- An answer ends the demands to a node if it was for the last one, and goes on with the next node. -/
theorem step_answer_last (hj : d.job? id = some (.sending R q s rest)) (hp : s.parts = [])
    (r : Except Fault Unit) :
    d.step (.answer id r) = ((d.counted q r).endShipment R (s.told r)).dispatch id R rest := by
  rw [step_answer hj, dispatch, Shipment.parts_told, hp]

/-- An answer that is not for the last demand to a node leaves the next one to be sent. -/
theorem step_answer_more (hj : d.job? id = some (.sending R q s rest)) {q' : Request}
    {parts : List Request} (hp : s.parts = q' :: parts) (r : Except Fault Unit) :
    d.step (.answer id r) =
      (d.counted q r).park id (.sending R q' { s.told r with parts } rest) := by
  rw [step_answer hj, dispatch, Shipment.parts_told, hp]

/-- An answer changes a round only if it is for the last demand to a node, and one to this node could
    not be sent. -/
theorem round_answer (hb : d.Bound R) (hj : d.job? id = some (.sending R q s rest))
    (hrest : ∀ x ∈ rest, x.failure = none) (r : Except Fault Unit) (Q : RoundId) :
    ((d.step (.answer id r)).roundOf Q).round =
      if s.parts = [] ∧ Q = R ∧ (s.told r).failure.isSome = true then
        ((d.roundOf R).round.missAll s.node
          (((d.roundOf R).round.outstandingFrom s.node).toList.filter
            fun p => d.owns p s.topology)).after (.cancel s.node)
      else (d.roundOf Q).round := by
  cases hp : s.parts with
  | cons q' parts =>
    rw [step_answer_more hj hp, if_neg (by simp)]
    exact congrArg RoundRecord.round (roundOf_counted d q r Q)
  | nil =>
    have hbc := beside_counted d q r
    have hl : R < (d.counted q r).rounds.length := by
      rw [hbc.rounds]
      exact hb.1
    have hend := round_endShipment (d.counted q r) hl (s.told r) Q
    simp only [roundOf_counted, Shipment.node_told, Shipment.topology_told, hbc.owns] at hend
    rw [step_answer_last hj hp, (dispatch_untried _ id R hrest).1]
    simpa using hend

/-- No answer changes what is stored. -/
theorem store_answer (hj : d.job? id = some (.sending R q s rest))
    (hrest : ∀ x ∈ rest, x.failure = none) (r : Except Fault Unit) :
    (d.step (.answer id r)).site.store = d.site.store := by
  cases hp : s.parts with
  | cons q' parts =>
    rw [step_answer_more hj hp]
    exact (beside_counted d q r).store
  | nil =>
    rw [step_answer_last hj hp, (dispatch_untried _ id R hrest).2]
    exact (beside_endShipment _ R _).store.trans (beside_counted d q r).store

end Answer

/-- Demands are ready to be sent: those to one node together, and a node whose demands have been tried
    in part has failed exactly if one of them could not be sent. -/
structure Ready (failed : List Request) (ships : List Shipment) : Prop where
  targets : ∀ s ∈ ships, ∀ q ∈ s.parts, q.target = s.node
  nodes : (ships.map Shipment.node).Nodup
  failures : ∀ s ∈ ships, s.failure.isSome = true ↔ ∃ q ∈ failed, q.target = s.node
  untried : ∀ s ∈ ships.tail, s.failure = none

section Ready

variable {failed : List Request} {s : Shipment} {rest : List Shipment} {q : Request}

theorem Ready.suffix (before : List Shipment) {ships : List Shipment}
    (h : Ready failed (before ++ ships))
    (hnone : ∀ x ∈ ships, x.failure = none) : Ready failed ships where
  targets x hx := h.targets x (List.mem_append_right before hx)
  nodes := by
    have hnodes := h.nodes
    rw [List.map_append] at hnodes
    exact (List.nodup_append.mp hnodes).2.1
  failures x hx := h.failures x (List.mem_append_right before hx)
  untried x hx := hnone x (List.mem_of_mem_tail hx)

theorem Ready.ne_node (h : Ready failed (s :: rest)) {x : Shipment} (hx : x ∈ rest) :
    x.node ≠ s.node := by
  have hnodes := h.nodes
  rw [List.map_cons, List.nodup_cons] at hnodes
  intro heq
  exact hnodes.1 (heq ▸ List.mem_map_of_mem hx)

/-- After one of them was answered for they still are. -/
theorem Ready.told (h : Ready failed ({ s with parts := q :: s.parts } :: rest))
    (r : Except Fault Unit) :
    Ready (failed ++ match r with | .ok _ => [] | .error _ => [q]) (s.told r :: rest) where
  targets x hx y hy := by
    rcases List.mem_cons.mp hx with rfl | hx
    · rw [Shipment.parts_told] at hy
      rw [Shipment.node_told]
      exact h.targets _ List.mem_cons_self y (List.mem_cons_of_mem q hy)
    · exact h.targets x (List.mem_cons_of_mem _ hx) y hy
  nodes := by
    have hnodes := h.nodes
    rw [List.map_cons] at hnodes ⊢
    rwa [Shipment.node_told]
  failures x hx := by
    have hq : q.target = s.node := h.targets _ List.mem_cons_self q List.mem_cons_self
    rcases List.mem_cons.mp hx with rfl | hx
    · have hold := h.failures _ List.mem_cons_self
      rw [Shipment.failure_told, Shipment.node_told]
      change s.failure.isSome = true ↔ ∃ y ∈ failed, y.target = s.node at hold
      rw [hold]
      cases r with
      | ok _ => simp
      | error cause => simp [hq]
    · have hne : q.target ≠ x.node := hq ▸ (h.ne_node hx).symm
      rw [h.failures x (List.mem_cons_of_mem _ hx)]
      cases r with
      | ok _ => simp
      | error cause => simp [hne]
  untried := h.untried

end Ready

theorem refused_of_sending {q : Request} {s : Shipment} {rest : List Shipment}
    (hj : d.job? id = some (.sending R q s rest)) (r : Except Fault Unit) :
    d.refused R (.answer id r) = match r with | .ok _ => [] | .error _ => [q] := by
  cases r with
  | ok _ => rfl
  | error cause => simp [refused, answered, hj]

-- ============================================================================
-- A round whose demands are being sent
-- ============================================================================

/-- The demand that the call waits for is the last one to a node. -/
def EndsSends (R : RoundId) (id : JobId) (n : NodeId) (d : Demander) : Prop :=
  ∃ q more, d.leftFor R id = q :: more ∧ q.target = n ∧ ∀ x ∈ more, x.target ≠ n

/-- What a call has done about a node to which a demand of its round could not be sent: the round
    does not await the node, and of every partition that the node was asked for, when the last
    demand to it had been tried, a page of the node had taken it off the round, it did not belong
    here, it is missed, or the node had been given up before. -/
structure Recovered (R : RoundId) (P : Plan) (id : JobId) (start : Demander) (later : List Input)
    (n : NodeId) : Prop where
  gone : n ∉ ((start.run later).roundOf R).round.outstandingNodes
  accounted : ∃ demand before r after, P.get? n = some demand ∧
    later = before ++ .answer id r :: after ∧ EndsSends R id n (start.run before) ∧
    ∀ p ∈ demand.partitions, MarkedDone R n p start before ∨
      (start.run before).owns p demand.topology = false ∨
      p ∈ ((start.run later).roundOf R).round.missed ∨
      n ∈ ((start.run before).roundOf R).round.givenUp

/-- A round that a call has started: no other one sends its demands, which are all awaited. -/
structure Started (R : RoundId) (P : Plan) (id : JobId) (d : Demander) : Prop where
  steady : d.Steady
  hosts : Hosts R P d
  pursues : Pursues R P d
  sends : Sends R id d
  awaits : ∀ n demand p, P.get? n = some demand → p ∈ demand.partitions →
    p ∈ (d.roundOf R).round.outstandingFrom n

theorem sends_run (hs : d.Steady) (hb : d.Bound R) (h : Sends R id d) (inputs : List Input) :
    Sends R id (d.run inputs) := by
  induction inputs generalizing d with
  | nil => exact h
  | cons i inputs ih => exact ih (steady_step hs i) (bound_step hs hb i) (sends_step hs hb h i)

/-- What holds of the demands to be sent at every moment of a run: they are ready, and each node that
    has failed is the one that is tried, or has been dealt with. -/
structure Trying (R : RoundId) (P : Plan) (id : JobId) (start : Demander) (later : List Input) :
    Prop where
  ready : ∀ q s rest, (start.run later).job? id = some (.sending R q s rest) →
    Ready (start.unsent R later) ({ s with parts := q :: s.parts } :: rest)
  settled : ∀ q ∈ start.unsent R later,
    (∃ q' s rest, (start.run later).job? id = some (.sending R q' s rest) ∧ s.node = q.target) ∨
      Recovered R P id start later q.target

section Started

variable {later : List Input} {q : Request} {s : Shipment} {rest : List Shipment}

theorem Started.now (h : Started R P id start) (later : List Input) :
    (start.run later).Steady ∧ (start.run later).Bound R ∧ Sends R id (start.run later) :=
  ⟨steady_run h.steady later, (hosts_run h.steady h.hosts later).bound,
    sends_run h.steady h.hosts.bound h.sends later⟩

/-- What was dealt with stays so. -/
theorem Recovered.snoc (hr : Recovered R P id start later n) (h : Started R P id start) (i : Input) :
    Recovered R P id start (later ++ [i]) n := by
  obtain ⟨hs, hb, -⟩ := h.now later
  obtain ⟨demand, before, r, after, hget, hlater, hends, hall⟩ := hr.accounted
  refine ⟨fun hn => hr.gone ?_, demand, before, r, after ++ [i], hget, by simp [hlater], hends,
    fun p hp => ?_⟩
  · rw [run_snoc] at hn
    obtain ⟨p, hp⟩ := ((steady_step hs i).standing R).toSound.mem_outstandingNodes_iff.mp hn
    exact (hs.standing R).toSound.mem_outstandingNodes_iff.mpr ⟨p, awaited_step hs hb hp⟩
  · refine (hall p hp).imp_right fun h => h.imp_right fun h => h.imp_left fun hm => ?_
    rw [run_snoc]
    exact (misses_step hs ⟨hb, hm⟩ i).2

/-- The last demand to a node has been tried, and one of them has failed: what is still awaited from
    the node is missed if it belongs here, and the node is given up. -/
theorem Started.recovers (h : Started R P id start) {failed : List Request}
    (hj : (start.run later).job? id = some (.sending R q s rest)) (hp : s.parts = [])
    (hready : Ready failed ({ s with parts := q :: s.parts } :: rest)) {r : Except Fault Unit}
    (hfail : (s.told r).failure.isSome = true) :
    Recovered R P id start (later ++ [.answer id r]) s.node := by
  obtain ⟨hs, hb, hsends⟩ := h.now later
  have hst := hs.standing R
  obtain ⟨demand, hget, htop⟩ := (pursues_run h.steady h.hosts h.pursues later).shipments id _ s hj
    rfl List.mem_cons_self
  have hround := round_answer hb hj hready.untried r R
  rw [if_pos ⟨hp, rfl, hfail⟩, ← htop] at hround
  refine ⟨?_, demand, later, r, [], hget, rfl, ⟨q, rest.flatMap (·.parts), ?_, ?_, ?_⟩, fun p hp => ?_⟩
  · rw [run_snoc]
    intro hn
    obtain ⟨p, hp⟩ := ((steady_step hs _).standing R).toSound.mem_outstandingNodes_iff.mp hn
    rw [hround] at hp
    exact ((Round.mem_outstandingFrom_forsaken hst hb.2 s.node _).mp hp).2 rfl
  · rw [leftFor_of_sending hj, hp, List.nil_append]
  · exact hready.targets _ List.mem_cons_self q List.mem_cons_self
  · intro x hx
    obtain ⟨y, hy, hxy⟩ := List.mem_flatMap.mp hx
    rw [hready.targets y (List.mem_cons_of_mem _ hy) x hxy]
    exact hready.ne_node hy
  · rcases accounted_run h.steady h.hosts.bound (h.awaits s.node demand p hget hp) later with
      hawaited | hgiven | hdone
    · cases howns : (start.run later).owns p demand.topology with
      | false => exact .inr (.inl rfl)
      | true =>
        refine .inr (.inr (.inl ?_))
        rw [run_snoc, hround, Round.mem_missed_forsaken hst hb.2]
        exact .inr ⟨hst.toSound.isOpen hawaited, List.mem_filter.mpr ⟨hawaited, howns⟩⟩
    · exact .inr (.inr (.inr hgiven))
    · exact .inl hdone

/-- Something that is no answer to the call leaves its demands as they are. -/
theorem Trying.aside (h : Started R P id start) (ht : Trying R P id start later) {i : Input}
    (hnone : (start.run later).answered R i = [])
    (hsame : ∀ q s rest, ((start.run later).step i).job? id = some (.sending R q s rest) ↔
      (start.run later).job? id = some (.sending R q s rest)) :
    Trying R P id start (later ++ [i]) := by
  have hunsent : start.unsent R (later ++ [i]) = start.unsent R later := by
    rw [unsent_snoc, refused_of_none hnone, List.append_nil]
  refine ⟨fun q s rest hj => ?_, fun q hq => ?_⟩
  · rw [run_snoc, hsame] at hj
    rw [hunsent]
    exact ht.ready q s rest hj
  · rw [hunsent] at hq
    rw [run_snoc]
    simp only [hsame]
    exact (ht.settled q hq).imp_right fun hr => hr.snoc h i

section Answered

variable {r : Except Fault Unit}

/-- When the transport has dealt with the demand that the call waits for, the demands to its node are
    ready with what is known now. -/
theorem Trying.told (ht : Trying R P id start later)
    (hj : (start.run later).job? id = some (.sending R q s rest)) :
    Ready (start.unsent R (later ++ [.answer id r])) (s.told r :: rest) := by
  have hready := (ht.ready q s rest hj).told r
  rwa [← refused_of_sending hj r, ← unsent_snoc] at hready

/-- Of the demands that have failed by then, those to other nodes have been dealt with. -/
theorem Trying.tried (h : Started R P id start) (ht : Trying R P id start later)
    (hj : (start.run later).job? id = some (.sending R q s rest)) :
    ∀ x ∈ start.unsent R (later ++ [.answer id r]), x.target = s.node ∨
      Recovered R P id start (later ++ [.answer id r]) x.target := by
  intro x hx
  rw [unsent_snoc, refused_of_sending hj r, List.mem_append] at hx
  rcases hx with hx | hx
  · rcases ht.settled x hx with ⟨q', s', rest', hj', hx'⟩ | hrec
    · rw [hj, Option.some.injEq, Job.sending.injEq] at hj'
      exact .inl (hj'.2.2.1 ▸ hx'.symm)
    · exact .inr (hrec.snoc h _)
  · cases r with
    | ok _ => cases hx
    | error cause =>
      rw [List.mem_singleton.mp hx]
      exact .inl ((ht.ready q s rest hj).targets _ List.mem_cons_self q List.mem_cons_self)

/-- The next demand to the same node is sent. -/
theorem Trying.more (h : Started R P id start) (ht : Trying R P id start later)
    (hj : (start.run later).job? id = some (.sending R q s rest)) {q' : Request}
    {parts : List Request} (hp : s.parts = q' :: parts) :
    Trying R P id start (later ++ [.answer id r]) := by
  have hjob : ((start.run later).step (.answer id r)).job? id =
      some (.sending R q' { s.told r with parts } rest) := by
    rw [step_answer_more hj hp, job?_park_self]
  refine ⟨fun q₁ s₁ rest₁ hj₁ => ?_, fun x hx => ?_⟩
  · rw [run_snoc, hjob, Option.some.injEq, Job.sending.injEq] at hj₁
    obtain ⟨-, rfl, rfl, rfl⟩ := hj₁
    have hsame : s.told r = { s.told r with parts := q' :: parts } := by
      rw [← hp, ← Shipment.parts_told s r]
    have hready := ht.told (r := r) hj
    rwa [hsame] at hready
  · rw [run_snoc]
    exact (ht.tried h hj x hx).imp_left fun hnode =>
      ⟨q', _, rest, hjob, (Shipment.node_told s r).trans hnode.symm⟩

/-- The demands to the node have been tried, and those to the next one follow. -/
theorem Trying.last (h : Started R P id start) (ht : Trying R P id start later)
    (hj : (start.run later).job? id = some (.sending R q s rest)) (hp : s.parts = []) :
    Trying R P id start (later ++ [.answer id r]) := by
  have hold := ht.ready q s rest hj
  have hready := ht.told (r := r) hj
  have hended : ∀ x ∈ start.unsent R (later ++ [.answer id r]),
      Recovered R P id start (later ++ [.answer id r]) x.target := by
    intro x hx
    rcases ht.tried h hj x hx with hnode | hrec
    · have hfail := (hready.failures _ List.mem_cons_self).mpr
        ⟨x, hx, hnode.trans (Shipment.node_told s r).symm⟩
      exact hnode ▸ h.recovers hj hp hold hfail
    · exact hrec
  refine ⟨fun q₁ s₁ rest₁ hj₁ => ?_, fun x hx => .inr (hended x hx)⟩
  rw [run_snoc, step_answer_last hj hp r] at hj₁
  rcases dispatch_cases (((start.run later).counted q r).endShipment R (s.told r)) id R
    hold.untried with he | ⟨before, s₂, rest₂, q₂, parts, hrest, hparts, he⟩
  · rw [List.tail_cons] at he
    rw [he, job?_finish_self] at hj₁
    cases hj₁
  · rw [List.tail_cons] at he hrest
    rw [he, job?_park_self, Option.some.injEq, Job.sending.injEq] at hj₁
    obtain ⟨-, rfl, rfl, rfl⟩ := hj₁
    have hsame : s₂ = { s₂ with parts := q₂ :: parts } := by rw [← hparts]
    subst hrest
    have hmore := Ready.suffix (s.told r :: before) hready fun x hx =>
      hold.untried x (List.mem_append_right before hx)
    rwa [hsame] at hmore

end Answered

theorem Trying.snoc (h : Started R P id start) (ht : Trying R P id start later) (i : Input) :
    Trying R P id start (later ++ [i]) := by
  obtain ⟨hs, hb, hsends⟩ := h.now later
  rcases answered_cases hs hb hsends i with ⟨q, s, rest, r, hj, rfl⟩ | ⟨hnone, hsame⟩
  · cases hp : s.parts with
    | cons q' parts => exact ht.more h hj hp
    | nil => exact ht.last h hj hp
  · exact ht.aside h hnone hsame

theorem Trying.run (h : Started R P id start) (ht : Trying R P id start []) (later : List Input) :
    Trying R P id start later := by
  induction later using List.reverseRecOn with
  | nil => exact ht
  | append_singleton later i ih => exact ih.snoc h i

/-- A call does nothing about a node: what is awaited from it, whether it is given up, what is stored
    and what waits, but for the call itself, stay, and nothing else that is awaited is missed. -/
structure Spares (R : RoundId) (id : JobId) (n : NodeId) (d e : Demander) : Prop where
  awaits : ∀ p, p ∈ (e.roundOf R).round.outstandingFrom n ↔ p ∈ (d.roundOf R).round.outstandingFrom n
  givenUp : n ∈ (e.roundOf R).round.givenUp ↔ n ∈ (d.roundOf R).round.givenUp
  missed : ∀ p ∈ (e.roundOf R).round.missed, p ∈ (d.roundOf R).round.missed ∨
    ∃ m, m ≠ n ∧ p ∈ (d.roundOf R).round.outstandingFrom m
  store : e.site.store = d.site.store
  jobs : ∀ k, k ≠ id → e.job? k = d.job? k

/-- An answer to the call is no matter to a node all of whose demands have been sent so far. -/
theorem Trying.spares (h : Started R P id start) (ht : Trying R P id start later)
    {more : List Request} (hleft : (start.run later).leftFor R id = q :: more)
    {r : Except Fault Unit}
    (hsent : ∀ x ∈ start.unsent R (later ++ [.answer id r]), x.target ≠ n) :
    Spares R id n (start.run later) ((start.run later).step (.answer id r)) := by
  obtain ⟨hs, hb, -⟩ := h.now later
  have hst := hs.standing R
  obtain ⟨q', s, rest, hj⟩ : ∃ q' s rest,
      (start.run later).job? id = some (.sending R q' s rest) := by
    by_contra hnone
    rw [leftFor_of_none fun q' s rest hj => hnone ⟨q', s, rest, hj⟩] at hleft
    cases hleft
  have hold := ht.ready q' s rest hj
  have hjobs : ∀ k, k ≠ id →
      ((start.run later).step (.answer id r)).job? k = (start.run later).job? k := by
    intro k hk
    refine job_of_other hs fun hid => hk ?_
    exact (id_of_actorOf hid).1.symm
  have hstore := store_answer hj hold.untried r
  have hround := round_answer hb hj hold.untried r R
  by_cases hc : s.parts = [] ∧ R = R ∧ (s.told r).failure.isSome = true
  swap
  · rw [if_neg hc] at hround
    refine ⟨fun p => by rw [hround], by rw [hround], fun p hp => .inl ?_, hstore, hjobs⟩
    rwa [hround] at hp
  -- The node that has failed is another one.
  have hne : n ≠ s.node := by
    have hready := hold.told r
    rw [← refused_of_sending hj r, ← unsent_snoc] at hready
    obtain ⟨x, hx, hnode⟩ := (hready.failures _ List.mem_cons_self).mp hc.2.2
    rw [Shipment.node_told] at hnode
    exact hnode ▸ (hsent x hx).symm
  rw [if_pos hc] at hround
  refine ⟨fun p => ?_, ?_, fun p hp => ?_, hstore, hjobs⟩
  · rw [hround, Round.mem_outstandingFrom_forsaken hst hb.2, and_iff_left hne]
  · rw [hround, Round.mem_givenUp_forsaken hst hb.2]
    exact or_iff_left fun hcancel => hne hcancel.1
  · rw [hround, Round.mem_missed_forsaken hst hb.2] at hp
    refine hp.imp_right fun hnew => ⟨s.node, hne.symm, ?_⟩
    exact (List.mem_filter.mp hnew.2).1

end Started

-- ============================================================================
-- What the call has done when it returns
-- ============================================================================

/-- The demands of a plan are ready to be sent, and none has been tried. -/
theorem ready_shipments (d : Demander) (P : Plan) :
    Ready [] (d.shipments P) ∧ ∀ s ∈ d.shipments P, s.failure = none := by
  have hnone : ∀ s ∈ d.shipments P, s.failure = none := by
    intro s hs
    obtain ⟨x, -, rfl⟩ := List.mem_map.mp hs
    rfl
  refine ⟨⟨fun s hs q hq => ?_, ?_, fun s hs => ?_, fun s hs => hnone s (List.mem_of_mem_tail hs)⟩,
    hnone⟩
  · obtain ⟨x, -, rfl⟩ := List.mem_map.mp hs
    obtain ⟨worker, p, -, rfl⟩ := mem_parts.mp hq
    rfl
  · have hkeys : (P.demands.toList.map Prod.fst).Nodup :=
      P.demands.ordered.imp fun h => Key.ne_of_below h
    rw [shipments, List.map_map]
    exact hkeys
  · simp [hnone s hs]

/-- A round that has just been started, with all its demands still to be sent. -/
theorem Opens.tries (h : Opens d i R P id plan e) (hs : d.Steady) :
    Started R P id (d.step i) ∧ Trying R P id (d.step i) [] := by
  obtain ⟨hready, hnone⟩ := ready_shipments (e.begin R P) P
  have hfree : (d.roundOf R).round.attached = false := by
    rw [← h.leads.attached]
    exact h.free
  obtain ⟨hhosts, hpursues, -⟩ := pursues_begun hs hfree h.after.1 h.after.2
  refine ⟨⟨steady_step hs i, hhosts, hpursues, (h.left hs).2.2, fun n demand p hn hp => ?_⟩,
    fun q s rest hj => ?_, fun q hq => by cases hq⟩
  · rw [h.starts, (dispatch_untried _ id R hnone).1]
    exact awaits_begin h.steady h.there h.free hn hp
  · change (d.step i).job? id = _ at hj
    rw [h.starts] at hj
    rcases dispatch_cases (e.begin R P) id R hnone with he | ⟨before, s', rest', q', parts, hships,
      hparts, he⟩
    · rw [he, job?_finish_self] at hj
      cases hj
    · rw [he, job?_park_self, Option.some.injEq, Job.sending.injEq] at hj
      obtain ⟨-, rfl, rfl, rfl⟩ := hj
      have hsame : s' = { s' with parts := q' :: parts } := by rw [← hparts]
      rw [hships] at hready hnone
      have hmore := hready.suffix before fun x hx => hnone x (List.mem_append_right before hx)
      rwa [hsame] at hmore

/-- A demand that cannot be sent loses no partition.  Take a demander from its beginning, and the step
    in which it starts a round, for a plan that a call has added, and any run from then on.  When the
    call has returned, each node to which a demand could not be sent is not awaited, and what it was
    asked for is accounted for; and as long as all demands to a node have been sent, what the
    transport says of those to other nodes is no matter to it. -/
theorem unsent_demand_loses_nothing {σ : Type} {settings : Settings} {site : Site}
    {register : Topic → σ → Except Fault σ} {s t : σ}
    (hcreate : create settings site register s = (t, .ok start)) (inputs : List Input) {i : Input}
    (ha : ((start.run inputs).roundOf R).round.attached = false)
    (hc : ((start.run inputs).step i).current = R)
    (hp : ((start.run inputs).step i).plan = some P) :
    ∃ plan force before after id,
      inputs ++ [i] = before ++ .add plan force :: after ∧ id = (start.run before).nextJob ∧
      P = plan.stamp settings.timeout settings.batchSize ∧
      (plan.Uniform → ∀ n demand, P.get? n = some demand → demand.topology = plan.topology) ∧
      ∀ later, let opened := (start.run inputs).step i
        let now := opened.run later
        (now.job? id = none →
          ∀ q ∈ opened.unsent R later, Recovered R P id opened later q.target) ∧
        ∀ q more r n, now.leftFor R id = q :: more →
          (∀ x ∈ opened.unsent R (later ++ [.answer id r]), x.target ≠ n) →
          Spares R id n now (now.step (.answer id r)) := by
  have hs := steady_run (steady_create hcreate) inputs
  obtain ⟨-, hset, hjobs, -, -⟩ := create_blank hcreate
  have hplanless : start.Planless := by
    intro id j hj
    simp [job?, hjobs] at hj
  obtain ⟨id, plan, e, hopens⟩ := opens_of_started hs ha hc hp
  obtain ⟨before, force, after, hinputs, hid⟩ :=
    added_of_reached (steady_create hcreate) hplanless hopens.toReaches
  obtain ⟨hstarted, htries⟩ := hopens.tries hs
  have hP : P = plan.stamp settings.timeout settings.batchSize := by
    rw [← hset, ← settings_run (steady_create hcreate) inputs]
    exact hopens.stamped
  refine ⟨plan, force, before, after, id, hinputs, hid, hP,
    fun hu n demand hn => ?_, fun later => ⟨fun hdone q hq => ?_,
    fun q more r n hleft hsent => (htries.run hstarted later).spares hstarted hleft hsent⟩⟩
  · rw [hP] at hn
    exact hu.stamp _ _ n demand hn
  refine ((htries.run hstarted later).settled q hq).resolve_left ?_
  rintro ⟨q', s', rest', hj, -⟩
  exact absurd (hdone.symm.trans hj) (by simp)

/-- Of two demands to the node 5 the first is answered in full before the second cannot be sent; the
    demand to the node 6 is sent. -/
theorem part_of_plan_is_recovered :
    let start := newborn { poolSize := 2 } 2 ⟨1, 0⟩ ⟨{}, ∅, ∅, ∅⟩ [3, 4, 5, 7]
    let i : Input := .add (planFor ⟨1, 0⟩ [(5, [3, 4, 5]), (6, [7])]) true
    let opened := start.step i
    let tried : List Input := [.answer 0 (.ok ()), .page 0 5 ((Supply.empty 0).markLast 4)]
    let failure : Input := .answer 0 (.error (.network (.nodeLeft 5)))
    let later := tried ++ [failure, .answer 0 (.ok ())]
    create { poolSize := 2 } start.site (fun _ s => .ok s) () = ((), .ok start) ∧
      (start.roundOf 0).round.attached = false ∧ opened.current = 0 ∧
      ((opened.run later).job? 0).isSome = false ∧
      ((opened.run later).roundOf 0).round.missed.toList = [3, 5] ∧
      ((opened.run later).roundOf 0).round.outstandingNodes.toList = [6] ∧
      ∃ P, opened.plan = some P ∧ Recovered 0 P 0 opened later 5 ∧
        Spares 0 0 6 (opened.run tried) ((opened.run tried).step failure) := by
  intro start i opened tried failure later
  have hcreate : create { poolSize := 2 } start.site (fun _ s => .ok s) () = ((), .ok start) :=
    create_newborn rfl rfl 2 ⟨1, 0⟩ _ [3, 4, 5, 7]
  have hfree : (start.roundOf 0).round.attached = false := rfl
  have hcur : opened.current = 0 := by decide +kernel
  have hsome : opened.plan.isSome = true := by decide +kernel
  have hdone : ((opened.run later).job? 0).isSome = false := by decide +kernel
  obtain ⟨P, hP⟩ := Option.isSome_iff_exists.mp hsome
  refine ⟨hcreate, hfree, hcur, hdone, by decide +kernel, by decide +kernel, P, hP, ?_⟩
  obtain ⟨plan, force, before, after, id, hinputs, hid, -, -, hall⟩ :=
    unsent_demand_loses_nothing hcreate [] (i := i) hfree hcur hP
  obtain rfl : before = [] := by
    cases before with
    | cons x before => simp at hinputs
    | nil => rfl
  obtain rfl : id = 0 := hid
  constructor
  · have hfailed : ((opened.unsent 0 later).map (·.target)) = [5] := by decide +kernel
    obtain ⟨q, hq, htarget⟩ : ∃ q ∈ opened.unsent 0 later, q.target = 5 :=
      List.mem_map.mp (hfailed ▸ List.mem_singleton.mpr rfl)
    have hnone : (opened.run later).job? 0 = none := by simpa using hdone
    exact htarget ▸ (hall later).1 hnone q hq
  · have hleft : ((opened.run tried).leftFor 0 0).isEmpty = false := by decide +kernel
    obtain ⟨q, more, hq⟩ := List.exists_cons_of_ne_nil (List.isEmpty_eq_false_iff.mp hleft)
    refine (hall tried).2 q more _ 6 hq fun x hx hnode => ?_
    have hfailed : ((opened.unsent 0 (tried ++ [failure])).all fun x => x.target != 6) = true := by
      decide +kernel
    simpa [hnode] using List.all_eq_true.mp hfailed x hx

end Demander
end Rebalance
