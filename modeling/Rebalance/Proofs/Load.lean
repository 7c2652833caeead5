/-
  Rebalance.Proofs.Load

  What loading a partition does to a demander.  `Demander.Near` lists what no
  load touches and says that nothing stored is taken back; a load that
  completes its partition takes it off the round, and the partition is not
  moving any more by then.  The end of a shipment, which may give a node up,
  is here as well.
-/
import Rebalance.Proofs.Frame
import Rebalance.Proofs.Intake

namespace Rebalance
namespace Demander

-- ============================================================================
-- Loading a partition
-- ============================================================================

/-- Two demanders that differ at most in their rounds and in what is stored, recorded, measured
    and noticed, where nothing stored was taken back. -/
structure Near (d e : Demander) : Prop where
  settings : e.settings = d.settings
  site : d.site.Alike e.site
  grows : d.site.store.base.Grows e.site.store.base
  schedule : e.schedule = d.schedule
  rounds : e.rounds.length = d.rounds.length
  current : e.current = d.current
  plan : e.plan = d.plan
  stopping : e.stopping = d.stopping
  topics : e.topics = d.topics
  fault : e.fault = d.fault
  jobs : e.jobs = d.jobs
  nextJob : e.nextJob = d.nextJob
  returns : e.returns = d.returns

namespace Near

theorem refl (d : Demander) : Near d d :=
  ⟨rfl, .refl _, .refl _, rfl, rfl, rfl, rfl, rfl, rfl, rfl, rfl, rfl, rfl⟩

theorem trans {d e f : Demander} (h₁ : Near d e) (h₂ : Near e f) : Near d f where
  settings := h₂.settings.trans h₁.settings
  site := h₁.site.trans h₂.site
  grows := h₁.grows.trans h₂.grows
  schedule := h₂.schedule.trans h₁.schedule
  rounds := h₂.rounds.trans h₁.rounds
  current := h₂.current.trans h₁.current
  plan := h₂.plan.trans h₁.plan
  stopping := h₂.stopping.trans h₁.stopping
  topics := h₂.topics.trans h₁.topics
  fault := h₂.fault.trans h₁.fault
  jobs := h₂.jobs.trans h₁.jobs
  nextJob := h₂.nextJob.trans h₁.nextJob
  returns := h₂.returns.trans h₁.returns

theorem owns {d e : Demander} (h : Near d e) (p : PartitionId) (t : Topology) :
    e.owns p t = d.owns p t := by
  simp only [Demander.owns, h.site.affinity]

theorem pool {d e : Demander} (h : Near d e) : e.pool = d.pool := by
  simp only [Demander.pool, h.settings]

/-- A change of the site that takes nothing back. -/
theorem of_site (d : Demander) {s : Site} (hs : d.site.Alike s)
    (hg : d.site.store.base.Grows s.store.base) : Near d { d with site := s } :=
  ⟨rfl, hs, hg, rfl, rfl, rfl, rfl, rfl, rfl, rfl, rfl, rfl, rfl⟩

end Near

theorem Beside.near {d e : Demander} (h : Beside d e) : Near d e where
  settings := h.settings
  site := ⟨h.node, h.affinity, h.clock, h.filter, by rw [h.store], by rw [h.store], by rw [h.store]⟩
  grows := by
    rw [h.store]
    exact .refl _
  schedule := h.schedule
  rounds := h.rounds
  current := h.current
  plan := h.plan
  stopping := h.stopping
  topics := h.topics
  fault := h.fault
  jobs := h.jobs
  nextJob := h.nextJob
  returns := h.returns

theorem near_onStore (d : Demander) {f : Store → Store}
    (hf : d.site.store.base.Grows (f d.site.store.base)) : Near d (d.onStore f) :=
  .of_site d (Site.alike_onStore d.site f) hf

theorem near_ownAndReport (d : Demander) (job : PageJob) (p : PartitionId) :
    Near d (d.ownAndReport job p) := by
  have h₁ : Near d (d.onStore fun st => (st.own p).1) := near_onStore d (Store.grows_own _ p)
  have h₂ := h₁.trans (beside_measure _ Board.partitionOwned).near
  refine h₂.trans (.of_site _ (Site.alike_report _ _) ?_)
  rw [Site.store_report]
  exact .refl _

section Load

variable (d : Demander) (job : PageJob) (p : PartitionId) (entries : List Entry)

/-- The demander with the entries of a partition taken in, as far as they could be. -/
def takenIn : Demander := { d with site := (d.site.takeInAll job.sender p entries).1 }

theorem near_takenIn : Near d (d.takenIn job p entries) :=
  .of_site d (Site.alike_takeInAll d.site job.sender p entries)
    (Site.grows_takeInAll d.site job.sender p entries)

/-- Give back the reservation and the lock of a partition. -/
def letGo (d : Demander) (p : PartitionId) : Demander :=
  d.onStore fun st => (st.unlock p).release p

theorem near_letGo (d : Demander) (p : PartitionId) : Near d (d.letGo p) :=
  near_onStore d ((Store.grows_unlock _ p).trans (Store.grows_release _ p))

theorem state_letGo (d : Demander) (p q : PartitionId) :
    (d.letGo p).site.store.base.state? q = d.site.store.base.state? q := by
  change ((d.site.store.base.unlock p).release p).state? q = _
  rw [Store.state?_release, Store.state?_unlock]

/-- Whether a load brings its partition to the end: nothing fails, and the page is the last one
    of the partition. -/
def completes : Bool := (d.load job p entries).2.isOk && decide (p ∈ job.page.last)

theorem load_eq :
    (d.load job p entries).1 =
      letGo (match (d.site.takeInAll job.sender p entries).2 with
        | .ok () =>
          if p ∈ job.page.last then (d.takenIn job p entries).ownLoaded job p
          else d.takenIn job p entries
        | .error _ => d.takenIn job p entries) p := rfl

/-- A load takes the entries in, and a load that completes its partition owns it and takes it
    off the round. -/
theorem load_cases :
    (d.load job p entries).1 =
      if d.completes job p entries = true then
        ((d.takenIn job p entries).ownLoaded job p).letGo p
      else (d.takenIn job p entries).letGo p := by
  have h₂ : (d.load job p entries).2 = (d.site.takeInAll job.sender p entries).2 := rfl
  rw [completes, h₂, load_eq]
  cases (d.site.takeInAll job.sender p entries).2 with
  | error cause => rfl
  | ok u =>
    by_cases hp : p ∈ job.page.last
    · simp [hp, Except.isOk, Except.toBool]
    · simp [hp]

theorem near_load : Near d (d.load job p entries).1 := by
  have ht := near_takenIn d job p entries
  rw [load_cases]
  split
  · rw [ownLoaded]
    exact ((ht.trans (near_ownAndReport _ job p)).trans (beside_changeRound _ _ _).near).trans
      (near_letGo _ p)
  · exact ht.trans (near_letGo _ p)

/-- A load that completes its partition takes it off the round, and no load does anything else
    to a round. -/
theorem round_load (h : job.round < d.rounds.length) (id : RoundId) :
    ((d.load job p entries).1.roundOf id).round =
      if id = job.round ∧ d.completes job p entries = true then
        (d.roundOf job.round).round.after (.drain job.sender p)
      else (d.roundOf id).round := by
  rw [load_cases]
  by_cases hl : d.completes job p entries = true
  · rw [if_pos hl, ownLoaded]
    refine (round_changeRound ((d.takenIn job p entries).ownAndReport job p) _ h id).trans ?_
    by_cases hid : id = job.round
    · rw [if_pos hid, if_pos ⟨hid, hl⟩]
      rfl
    · rw [if_neg hid, if_neg (fun hc => hid hc.1)]
      rfl
  · rw [if_neg hl, if_neg (fun hc => hl hc.2)]
    rfl

/-- A partition that a load took off the round is not moving any more. -/
theorem state_load (hl : d.completes job p entries = true) :
    (d.load job p entries).1.site.store.base.state p ≠ .moving := by
  rw [load_cases, if_pos hl, ownLoaded]
  have hb := beside_changeRound ((d.takenIn job p entries).ownAndReport job p) job.round
    (.drain job.sender p)
  intro hm
  rw [Store.state_eq_moving_iff] at hm
  have hm := (near_letGo _ p).grows.moving p hm
  rw [hb.store, ownAndReport, Site.store_report] at hm
  exact Store.state?_own_ne_moving _ p hm

end Load

-- ============================================================================
-- The end of a shipment
-- ============================================================================

theorem endShipment_eq (d : Demander) (id : RoundId) (s : Shipment) :
    d.endShipment id s =
      match s.failure with
      | none => d
      | some cause =>
        (((d.roundOf id).round.outstandingFrom s.node).toList.foldl
          (fun d p => d.missOwned id s.node s.topology p) d).cancelNode id s.node
            (if cause.isNodeLeft then .nodeLeft else .sendFailed) := by
  unfold endShipment
  cases s.failure <;> rfl

theorem beside_endShipment (d : Demander) (id : RoundId) (s : Shipment) :
    Beside d (d.endShipment id s) := by
  rw [endShipment_eq]
  cases s.failure with
  | none => exact .refl d
  | some cause => exact (beside_missAll d id s.node s.topology _).trans (beside_cancelNode _ id _ _)

/-- A shipment that failed leaves what belongs here to be fetched again and gives its node
    up. -/
theorem round_endShipment (d : Demander) {id : RoundId} (h : id < d.rounds.length)
    (s : Shipment) (id' : RoundId) :
    ((d.endShipment id s).roundOf id').round =
      if id' = id ∧ s.failure.isSome = true then
        ((d.roundOf id).round.missAll s.node
          (((d.roundOf id).round.outstandingFrom s.node).toList.filter
            fun p => d.owns p s.topology)).after (.cancel s.node)
      else (d.roundOf id').round := by
  rw [endShipment_eq]
  cases s.failure with
  | none => simp
  | some cause =>
    have hb := beside_missAll d id s.node s.topology
      ((d.roundOf id).round.outstandingFrom s.node).toList
    refine (round_cancelNode _ s.node (by rw [hb.rounds]; exact h) id' _).trans ?_
    rw [round_missAll d h id, round_missAll d h id', if_pos rfl]
    by_cases hid : id' = id
    · rw [if_pos hid, if_pos (show id' = id ∧ (some cause).isSome = true from ⟨hid, rfl⟩)]
    · rw [if_neg hid, if_neg hid, if_neg (fun hc => hid hc.1)]

end Demander
end Rebalance
