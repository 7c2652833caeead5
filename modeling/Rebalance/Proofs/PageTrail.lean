/-
  Rebalance.Proofs.PageTrail

  What happens to partitions in a step, in order (`incidentsIn`), and in a run
  (`happened`): a page comes to the end of some, finds others that are not being
  filled, and passes over the rest.  `WorkTrail` is a trail behind the work on some
  partitions of a page, on which nobody is told of the round before all that it
  awaits of them is taken off; it is put together along the recursion of the work,
  and `follows_step` says so of every step.
-/
import Rebalance.Proofs.History
import Rebalance.Proofs.Trail

namespace Rebalance
namespace Demander

-- ============================================================================
-- What happens in a step
-- ============================================================================

/-- What has happened to a partition that the work on a page has got past. -/
def incident? (d : Demander) (job : PageJob) (p : PartitionId) : Option Incident :=
  if d.owns p job.demand.topology = false then none
  else if d.site.store.base.state p ≠ .moving then some (.passed job p)
  else if p ∈ job.page.last then some (.loaded job p)
  else none

/-- What happens as partitions of a page are worked through, up to one that is not got past. -/
def incidents (d : Demander) (job : PageJob) : List (PartitionId × List Entry) → List Incident
  | [] => []
  | (p, es) :: rest =>
    match d.walk job [(p, es)] with
    | (e, .finished) => (d.incident? job p).toList ++ e.incidents job rest
    | _ => []

/-- A page takes a partition of a node off a round, at its end or since it is not being filled. -/
def Incident.takes (R : RoundId) (n : NodeId) (p : PartitionId) : Incident → Prop
  | loaded job q => job.round = R ∧ job.sender = n ∧ q = p
  | passed job q => job.round = R ∧ job.sender = n ∧ q = p
  | outside .. => False

theorem Incident.takes_unique {R : RoundId} {n : NodeId} {p q : PartitionId} {a : Incident}
    (hp : a.takes R n p) (hq : a.takes R n q) : p = q := by
  cases a with
  | loaded => exact hp.2.2.symm.trans hq.2.2
  | passed => exact hp.2.2.symm.trans hq.2.2
  | outside => cases hp

-- ============================================================================
-- The work on a page
-- ============================================================================

section WorkTrail

variable {id : JobId} {job : PageJob} {d e f : Demander} {ms ns : List Milestone}
  {as bs : List Incident} {qs rs : List PartitionId} {p : PartitionId}

/-- A trail behind the work on the partitions `qs` of a page, with what happens to them.  What the
    round awaits from the sender is otherwise as before; whoever is told of the round finds nothing
    else awaited, and after that no partition is taken off that was awaited. -/
structure WorkTrail (job : PageJob) (qs : List PartitionId) (d : Demander) (ms : List Milestone)
    (as : List Incident) (e : Demander) : Prop where
  trail : Trail d ms e
  happens : incidentsOf ms = as
  within : ∀ a ∈ as, ∃ q ∈ qs, a.takes job.round job.sender q
  others : ∀ p, p ∉ qs → (p ∈ (e.roundOf job.round).round.outstandingFrom job.sender ↔
    p ∈ (d.roundOf job.round).round.outstandingFrom job.sender)
  exhausted : ∀ before after w s x, ms = before ++ .told job.round w s x :: after →
    ∀ p, p ∉ qs → p ∉ (d.roundOf job.round).round.outstandingFrom job.sender
  timely : ∀ before after w s x, ms = before ++ .told job.round w s x :: after →
    ∀ a ∈ incidentsOf after, ∀ p, a.takes job.round job.sender p →
      p ∉ (d.roundOf job.round).round.outstandingFrom job.sender

/-- Where nothing happens and nobody is told, what the round awaits being as before. -/
theorem WorkTrail.quiet (ht : Trail d [] e) (hr : e.roundOf job.round = d.roundOf job.round)
    (qs : List PartitionId) : WorkTrail job qs d [] [] e where
  trail := ht
  happens := rfl
  within a ha := absurd ha List.not_mem_nil
  others p _ := by rw [hr]
  exhausted before after w s x h := by simp at h
  timely before after w s x h := by simp at h

theorem WorkTrail.nil (job : PageJob) (d : Demander) : WorkTrail job [] d [] [] d :=
  .quiet (.nil d) rfl []

/-- The work on some partitions, and then on others. -/
theorem WorkTrail.append (h₁ : WorkTrail job qs d ms as e) (h₂ : WorkTrail job rs e ns bs f)
    (hdis : ∀ q ∈ qs, q ∉ rs) : WorkTrail job (qs ++ rs) d (ms ++ ns) (as ++ bs) f where
  trail := h₁.trail.trans h₂.trail
  happens := by rw [incidentsOf_append, h₁.happens, h₂.happens]
  within a ha := by
    rcases List.mem_append.mp ha with ha | ha
    · obtain ⟨q, hq, ht⟩ := h₁.within a ha
      exact ⟨q, List.mem_append_left _ hq, ht⟩
    · obtain ⟨q, hq, ht⟩ := h₂.within a ha
      exact ⟨q, List.mem_append_right _ hq, ht⟩
  others p hp := by
    rw [List.mem_append, not_or] at hp
    exact (h₂.others p hp.2).trans (h₁.others p hp.1)
  exhausted before after w s x h p hp := by
    rw [List.mem_append, not_or] at hp
    rcases Round.append_split h with ⟨mid, -, hms⟩ | ⟨mid, -, hns⟩
    · exact h₁.exhausted before mid w s x hms p hp.1
    · rw [← h₁.others p hp.1]
      exact h₂.exhausted mid after w s x hns p hp.2
  timely before after w s x h a ha p hp := by
    have hlater : a ∈ bs → p ∉ qs := fun ha hpq => by
      obtain ⟨q, hq, ht⟩ := h₂.within a ha
      exact hdis p hpq (Incident.takes_unique hp ht ▸ hq)
    rcases Round.append_split h with ⟨mid, rfl, hms⟩ | ⟨mid, rfl, hns⟩
    · rw [incidentsOf_append, h₂.happens] at ha
      rcases List.mem_append.mp ha with ha | ha
      · exact h₁.timely before mid w s x hms a ha p hp
      · exact h₁.exhausted before mid w s x hms p (hlater ha)
    · have hmem : a ∈ bs := by
        rw [← h₂.happens, hns, incidentsOf_append]
        exact List.mem_append_right _ ha
      rw [← h₁.others p (hlater hmem)]
      exact h₂.timely mid after w s x hns a ha p hp

/-- What matters to nobody may come before. -/
theorem WorkTrail.after (hu : Uneventful d e) (h : WorkTrail job qs e ms as f) :
    WorkTrail job qs d ms as f :=
  (WorkTrail.quiet (Beat.uneventful hu).trail (hu.rounds _) []).append h
    fun _ hq => absurd hq List.not_mem_nil

/-- What matters to nobody may follow. -/
theorem WorkTrail.before (h : WorkTrail job qs d ms as e) (hu : Uneventful e f) :
    WorkTrail job qs d ms as f := by
  have hlast := h.append (.after hu (.nil job f)) fun _ _ => List.not_mem_nil
  rwa [List.append_nil, List.append_nil, List.append_nil] at hlast

/-- Nobody is told of another round than the one that changes. -/
theorem Changes.closes_of_told {R : RoundId} {c : Round.Change} {before after : List Milestone}
    {w : RoundWait} {s : Summary} {x : Demander}
    (h : Changes d R c (before ++ .told R w s x :: after) e) :
    ∃ sum, ((d.roundOf R).round.change c).2 = some sum := by
  generalize hms : before ++ Milestone.told R w s x :: after = ms at h
  cases h with
  | stays => simp at hms
  | closes sum h => exact ⟨sum, h⟩

/-- A partition is taken off the round of a page, after something has happened to it. -/
theorem WorkTrail.drain {a : Option Incident} (hs : (d.roundOf job.round).round.Standing)
    (hl : job.round < d.rounds.length) (ha : ∀ b ∈ a, b.takes job.round job.sender p)
    (hr : f.rounds = d.rounds) (hc : Changes f job.round (.drain job.sender p) ms e)
    (ht : Trail d (a.toList.map .happens ++ ms) e) :
    WorkTrail job [p] d (a.toList.map .happens ++ ms) a.toList e := by
  have hround : ∀ R, f.roundOf R = d.roundOf R := fun R => by simp only [roundOf, hr]
  have hself : (e.roundOf job.round).round =
      (d.roundOf job.round).round.after (.drain job.sender p) := by
    rw [hc.eq, round_changeRound f _ (hr ▸ hl), if_pos rfl, hround]
  have hothers : ∀ q, q ∉ [p] → (q ∈ (e.roundOf job.round).round.outstandingFrom job.sender ↔
      q ∈ (d.roundOf job.round).round.outstandingFrom job.sender) := fun q hq => by
    rw [hself, Round.mem_outstandingFrom_drain _ _ _ _ _ hs.toSound]
    simp [List.mem_singleton.not.mp hq]
  have htold : ∀ {before after w s x}, a.toList.map .happens ++ ms =
      before ++ .told job.round w s x :: after →
        ∃ mid, ms = mid ++ .told job.round w s x :: after := by
    intro before after w s x h
    rcases Round.append_split h with ⟨mid, -, hms⟩ | ⟨mid, -, hms⟩
    · have hmem : Milestone.told job.round w s x ∈ a.toList.map Milestone.happens := by
        rw [hms]
        exact List.mem_append_right _ List.mem_cons_self
      obtain ⟨b, -, hb⟩ := List.mem_map.mp hmem
      cases hb
    · exact ⟨mid, hms⟩
  refine ⟨ht, ?_, fun b hb => ⟨p, List.mem_cons_self, ha b (Option.mem_toList.mp hb)⟩, hothers,
    fun before after w s x h q hq => ?_, fun before after w s x h b hb => ?_⟩
  · rw [incidentsOf_append, hc.incidents, List.append_nil]
    cases a <;> rfl
  · -- The round is closed by now, so nothing is awaited any more.
    obtain ⟨mid, rfl⟩ := htold h
    obtain ⟨sum, hsum⟩ := hc.closes_of_told
    rw [hround] at hsum
    have hopen : (d.roundOf job.round).round.isDone = false :=
      Round.open_of_closing hs.closed_iff hsum
    have hend := Round.standing_drain hs job.sender p
    have hclosed : ((d.roundOf job.round).round.after (.drain job.sender p)).closed = true := by
      rw [hend.closed_iff, after_closing hsum hopen]
      rfl
    rw [← hothers q hq, hself, Round.mem_outstandingFrom_iff, hend.settled hclosed]
    simp
  · obtain ⟨mid, rfl⟩ := htold h
    rw [incidentsOf_after hc.incidents] at hb
    cases hb

/-- A partition that does not belong here, or is not being filled, is passed over. -/
theorem WorkTrail.pass (hs : (d.roundOf job.round).round.Standing) (hl : job.round < d.rounds.length)
    (hskip : d.owns p job.demand.topology = false ∨ d.site.store.base.state p ≠ .moving) :
    ∃ ms, WorkTrail job [p] d ms (d.incident? job p).toList
      (d.changeRound job.round (.drain job.sender p)) := by
  obtain ⟨ms, hc⟩ := changes d job.round (.drain job.sender p)
  cases ho : d.owns p job.demand.topology with
  | false =>
    have hnone : d.incident? job p = none := by
      unfold incident?
      rw [if_pos ho]
    have hbeat : Beat d ms (d.changeRound job.round (.drain job.sender p)) :=
      .change hl (.foreign job p ho) hc
    rw [hnone]
    exact ⟨_, .drain hs hl (fun b hb => by cases hb) rfl hc hbeat.trail⟩
  | true =>
    have hm : d.site.store.base.state p ≠ .moving := hskip.resolve_left (by simp [ho])
    have hsome : d.incident? job p = some (.passed job p) := by
      unfold incident?
      rw [if_neg (by simp [ho]), if_pos hm]
    have hbeat := Beat.pass job p hl ho (mt (Store.state_eq_moving_iff _ p).mpr hm) hc
    rw [hsome]
    refine ⟨_, .drain hs hl (fun b hb => ?_) rfl hc hbeat.trail⟩
    cases hb
    exact ⟨rfl, rfl, rfl⟩

/-- The entries of a partition are loaded, and it is owned if the page is the last one of it. -/
theorem WorkTrail.load (hs : (d.roundOf job.round).round.Standing) (hl : job.round < d.rounds.length)
    {es : List Entry} (hok : (d.load job p es).2 = .ok ()) :
    ∃ ms, WorkTrail job [p] d ms (if p ∈ job.page.last then [.loaded job p] else [])
      (d.load job p es).1 := by
  have htaken := uneventful_takenIn d job p es
  have hresult : (d.site.takeInAll job.sender p es).2 = .ok () := hok
  rw [load_eq, hresult]
  by_cases hp : p ∈ job.page.last
  · obtain ⟨ms, hc⟩ := changes ((d.takenIn job p es).ownAndReport job p) job.round
      (.drain job.sender p)
    have hbeat : Beat (d.takenIn job p es) _ ((d.takenIn job p es).ownLoaded job p) :=
      .load job p hl hp hc
    have hdrain : WorkTrail job [p] (d.takenIn job p es) _ _ _ :=
      .drain (a := some (.loaded job p)) (f := (d.takenIn job p es).ownAndReport job p) hs hl
        (fun b hb => by cases hb; exact ⟨rfl, rfl, rfl⟩) rfl hc hbeat.trail
    simp only [hp, if_true]
    exact ⟨_, (hdrain.after htaken).before (uneventful_letGo _ p)⟩
  · simp only [hp, if_false]
    exact ⟨[], .after htaken (.quiet (Beat.uneventful (uneventful_letGo _ p)).trail rfl [p])⟩

end WorkTrail

-- ============================================================================
-- Steps
-- ============================================================================

section Steps

variable {d e f : Demander} {ms ns : List Milestone} {as : List Incident} {i : Input}

/-- A trail of a step with what happens in it.  By the time that anyone is told of a round, every
    partition that it awaited before the step and that is taken off it by the step has been. -/
structure Follows (d : Demander) (as : List Incident) (ms : List Milestone) (e : Demander) :
    Prop where
  trail : Trail d ms e
  happens : incidentsOf ms = as
  timely : ∀ before after R w s x, ms = before ++ .told R w s x :: after →
    ∀ a ∈ incidentsOf after, ∀ n p, a.takes R n p → p ∉ (d.roundOf R).round.outstandingFrom n

/-- Whose round it is that a page takes a partition off. -/
theorem Incident.takes_same {R Q : RoundId} {m n : NodeId} {p q : PartitionId} {a : Incident}
    (hp : a.takes R m p) (hq : a.takes Q n q) : R = Q ∧ m = n := by
  cases a with
  | outside => cases hp
  | _ => exact ⟨hp.1.symm.trans hq.1, hp.2.1.symm.trans hq.2.1⟩

theorem WorkTrail.follows {job : PageJob} {qs : List PartitionId} (h : WorkTrail job qs d ms as e) :
    Follows d as ms e where
  trail := h.trail
  happens := h.happens
  timely before after R w s x hms a ha n p hp := by
    have hmem : a ∈ as := by
      rw [← h.happens, hms, incidentsOf_append]
      exact List.mem_append_right _ ha
    obtain ⟨q, -, hq⟩ := h.within a hmem
    obtain ⟨rfl, rfl⟩ := Incident.takes_same hp hq
    exact h.timely before after w s x hms a ha p hp

theorem Trails.follows (h : Trails d e) : ∃ ms, Follows d [] ms e := by
  obtain ⟨ms, ht, hnone⟩ := h
  refine ⟨ms, ht, hnone, fun before after R w s x hms a ha => ?_⟩
  rw [hms] at hnone
  rw [incidentsOf_after hnone] at ha
  cases ha

/-- What comes before changes no round. -/
theorem Follows.after (hu : Uneventful d e) (h : Follows e as ms f) : Follows d as ms f where
  trail := (Beat.uneventful hu).trail.trans h.trail
  happens := h.happens
  timely before after R w s x hms a ha n p hp := by
    rw [← hu.rounds R]
    exact h.timely before after R w s x hms a ha n p hp

/-- Nothing happens to partitions in what follows. -/
theorem Follows.trans (h : Follows d as ms e) (ht : Trails e f) : ∃ ns, Follows d as ns f := by
  obtain ⟨ns, ht, hnone⟩ := ht
  refine ⟨ms ++ ns, h.trail.trans ht, ?_, fun before after R w s x hsplit a ha => ?_⟩
  · rw [incidentsOf_append, h.happens, hnone, List.append_nil]
  · rcases Round.append_split hsplit with ⟨mid, rfl, hms⟩ | ⟨mid, rfl, hns⟩
    · rw [incidentsOf_append, hnone, List.append_nil] at ha
      exact h.timely before mid R w s x hms a ha
    · rw [hns] at hnone
      rw [incidentsOf_after hnone] at ha
      cases ha

theorem trails_failPage {job : PageJob} (hl : job.round < d.rounds.length) (cause : Fault) :
    Trails d (d.failPage job cause) := by
  unfold failPage
  split
  · exact trails_cancelNode hl _ _
  · have hcancel := trails_cancelNode hl job.sender .processingFault
    simp only
    split
    · exact hcancel.trans (trails_of_same rfl rfl rfl)
    · exact hcancel

/-- Nothing happens to partitions after the work on a page. -/
theorem trails_afterWalk {id : JobId} {job : PageJob} (hb : d.Bound job.round) (w : Walked) :
    Trails d (afterWalk id job (d, w)) := by
  cases w with
  | finished =>
    change Trails d (d.endPage id job)
    have hmissed : Trails d (d.settleMissed job) := trails_settleMissed hb
    rw [endPage_eq]
    split
    · exact hmissed.trans (trails_of_same rfl rfl rfl)
    · exact hmissed.trans (trails_of_same rfl rfl rfl)
  | blocked p entries rest => exact trails_of_same rfl rfl rfl
  | failed cause => exact (trails_failPage hb.1 cause).trans (trails_of_same rfl rfl rfl)

/-- The work on a page, and what comes after it. -/
theorem Follows.worked (h : Follows d as ms e) {id : JobId} {job : PageJob} {x : Demander}
    (hs : x.Steady) (hf : Actor.Fits x (.page id job)) (hc : Chores (.page id job) x e)
    (w : Walked) : ∃ ns, Follows d as ns (afterWalk id job (e, w)) := by
  obtain ⟨-, -, hfits⟩ := hc.keeps (P := fun _ => True) (fun _ _ _ _ _ _ => trivial) hs hf trivial
  exact h.trans (trails_afterWalk hfits.2 w)

end Steps

end Demander
end Rebalance
