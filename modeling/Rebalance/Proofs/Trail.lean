/-
  Rebalance.Proofs.Trail

  What a demander does that matters to whoever waits for a round, in the order in
  which it does it.  An `Incident` is a partition that a page has got past, or a
  change from outside; a `Milestone` is an incident, or somebody who is told of a
  round, with the demander as they find it.  `Beat` lists what a demander can do
  together with the milestones of it, and a `Trail` is any number of beats.
  `trails_chore` finds a trail behind every chore other than those of a page; what
  a page does is in Rebalance.Proofs.PageTrail.
-/
import Rebalance.Proofs.Reports
import Rebalance.Proofs.Rounds

namespace Rebalance

-- ============================================================================
-- Sites on which nothing becomes visible
-- ============================================================================

namespace Site

/-- Between the two sites no exchange was forced, no continuation ran, and no partition was owned,
    reported as loaded, counted or put back to be filled. -/
structure Discreet (s t : Site) : Prop extends Quiet s t where
  hushed : Hushed s t
  keeps : t.recorder.keeps = s.recorder.keeps
  loads : t.recorder.eventsOf .partitionLoaded = s.recorder.eventsOf .partitionLoaded
  moving : ∀ p, t.store.base.state? p = some .moving → s.store.base.state? p = some .moving
  owning : ∀ p, t.store.base.state? p = some .owning → s.store.base.state? p = some .owning

theorem Quiet.discreet {s t : Site} (h : Quiet s t) (hn : Hushed s t) (hr : t.recorder = s.recorder)
    (hs : ∀ p, t.store.base.state? p = s.store.base.state? p) : Discreet s t where
  toQuiet := h
  hushed := hn
  keeps := by rw [hr]
  loads := by rw [hr]
  moving p hp := (hs p).symm.trans hp
  owning p hp := (hs p).symm.trans hp

theorem Discreet.refl (s : Site) : Discreet s s :=
  (Quiet.refl s).discreet (.refl s) rfl fun _ => rfl

theorem Discreet.trans {s t u : Site} (h₁ : Discreet s t) (h₂ : Discreet t u) : Discreet s u where
  toQuiet := h₁.toQuiet.trans h₂.toQuiet
  hushed := h₁.hushed.trans h₂.hushed
  keeps := h₂.keeps.trans h₁.keeps
  loads := h₂.loads.trans h₁.loads
  moving p hp := h₁.moving p (h₂.moving p hp)
  owning p hp := h₁.owning p (h₂.owning p hp)

theorem keeps_record (r : Recorder) (e : Event) : (r.record e).keeps = r.keeps := by
  unfold Recorder.record
  split <;> rfl

/-- An event of another kind is not among those of this one. -/
theorem eventsOf_record {r : Recorder} {e : Event} {k : EventKind} (h : e.kind ≠ k) :
    (r.record e).eventsOf k = r.eventsOf k := by
  unfold Recorder.record
  split
  · simp [Recorder.eventsOf, h]
  · rfl

/-- Whatever becomes of an entry, the recorder hears of no loaded partition. -/
theorem recorder_takeIn (s : Site) (sender : NodeId) (p : PartitionId) (e : Entry) :
    (s.takeIn sender p e).1.recorder.keeps = s.recorder.keeps ∧
      (s.takeIn sender p e).1.recorder.eventsOf .partitionLoaded =
        s.recorder.eventsOf .partitionLoaded := by
  have hreport : ∀ (t : Site) (k v : Bytes),
      (t.report (.objectLoaded p k sender v)).recorder.keeps = t.recorder.keeps ∧
        (t.report (.objectLoaded p k sender v)).recorder.eventsOf .partitionLoaded =
          t.recorder.eventsOf .partitionLoaded := by
    intro t k v
    unfold report
    split
    · exact ⟨keeps_record _ _, eventsOf_record nofun⟩
    · exact ⟨rfl, rfl⟩
  rw [takeIn_eq]
  split
  · exact ⟨rfl, rfl⟩
  · unfold settleWrite
    split
    · simp only
      split
      · exact ⟨rfl, rfl⟩
      · exact hreport _ _ _
    all_goals exact ⟨rfl, rfl⟩

theorem hushed_takeIn (s : Site) (sender : NodeId) (p : PartitionId) (e : Entry) :
    Hushed s (s.takeIn sender p e).1 := by
  rw [takeIn_eq]
  split
  · exact .of_trace rfl
  · unfold settleWrite
    split
    · simp only
      split
      · exact .of_trace rfl
      · exact hushed_report _ _
    all_goals exact .of_trace rfl

theorem discreet_takeInAll (s : Site) (sender : NodeId) (p : PartitionId) (es : List Entry) :
    Discreet s (s.takeInAll sender p es).1 := by
  have hrec : (s.takeInAll sender p es).1.recorder.keeps = s.recorder.keeps ∧
      (s.takeInAll sender p es).1.recorder.eventsOf .partitionLoaded =
        s.recorder.eventsOf .partitionLoaded :=
    takeInAll_keeps (P := fun t => t.recorder.keeps = s.recorder.keeps ∧
        t.recorder.eventsOf .partitionLoaded = s.recorder.eventsOf .partitionLoaded)
      s sender p (fun _ h => h) (fun t e h => ⟨(recorder_takeIn t sender p e).1.trans h.1,
        (recorder_takeIn t sender p e).2.trans h.2⟩) es ⟨rfl, rfl⟩
  have hhushed : Hushed s (s.takeInAll sender p es).1 :=
    takeInAll_keeps (P := Hushed s) s sender p (fun _ h => h.trans (.of_trace rfl))
      (fun t e h => h.trans (hushed_takeIn t sender p e)) es (.refl s)
  refine ⟨quiet_takeInAll s sender p es, hhushed, hrec.1, hrec.2,
    (grows_takeInAll s sender p es).moving, fun q hq => ?_⟩
  by_cases hqp : q = p
  · subst hqp
    rcases tookIn_takeInAll s sender q es with hsame | ⟨hgone, -⟩
    · exact hsame.symm.trans hq
    · rw [hgone] at hq
      simp at hq
  · exact (state?_takeInAll s sender p es q (.inl hqp)).symm.trans hq

end Site

namespace Demander

-- ============================================================================
-- Milestones
-- ============================================================================

/-- Something that happens to partitions while a demander runs. -/
inductive Incident where
  /-- A page has come to the end of a partition. -/
  | loaded (job : PageJob) (p : PartitionId)
  /-- A page finds a partition that belongs here, but is not being filled. -/
  | passed (job : PageJob) (p : PartitionId)
  /-- The node around the demander changes, which was `x` before. -/
  | outside (x : Demander) (c : Site.Change)

/-- Something that a demander does, or that happens to it, and that matters to whoever waits for a
    round. -/
inductive Milestone where
  | happens (a : Incident)
  /-- Something that waits for a round has its summary, and finds the demander as `x`. -/
  | told (round : RoundId) (w : RoundWait) (s : Summary) (x : Demander)

namespace Milestone

def incident? : Milestone → Option Incident
  | happens a => some a
  | _ => none

end Milestone

/-- What has happened to partitions among milestones. -/
def incidentsOf (ms : List Milestone) : List Incident := ms.filterMap Milestone.incident?

@[simp] theorem incidentsOf_nil : incidentsOf [] = [] := rfl

@[simp] theorem incidentsOf_append (ms ns : List Milestone) :
    incidentsOf (ms ++ ns) = incidentsOf ms ++ incidentsOf ns := List.filterMap_append

@[simp] theorem incidentsOf_happens (a : Incident) (ms : List Milestone) :
    incidentsOf (.happens a :: ms) = a :: incidentsOf ms := rfl

@[simp] theorem incidentsOf_told (R : RoundId) (w : RoundWait) (s : Summary) (x : Demander)
    (ms : List Milestone) : incidentsOf (.told R w s x :: ms) = incidentsOf ms := rfl

/-- Where nothing happens to partitions, nothing does once somebody was told of a round. -/
theorem incidentsOf_after {R : RoundId} {w : RoundWait} {s : Summary} {x : Demander}
    {before after : List Milestone} (h : incidentsOf (before ++ .told R w s x :: after) = []) :
    incidentsOf after = [] := by
  rw [incidentsOf_append, incidentsOf_told] at h
  exact (List.append_eq_nil_iff.mp h).2

/-- Those that wait for a round have its summary one after the other. -/
def announcing (id : RoundId) (s : Summary) : List RoundWait → Demander → List Milestone
  | [], _ => []
  | w :: ws, x => .told id w s x :: announcing id s ws (x.runWait id s w)

/-- A change to a round with the milestones of it: there are some only if it closes the round. -/
inductive Changes (d : Demander) (id : RoundId) (c : Round.Change) :
    List Milestone → Demander → Prop where
  | stays (h : ((d.roundOf id).round.change c).2 = none) : Changes d id c [] (d.withChange id c)
  | closes (s : Summary) (h : ((d.roundOf id).round.change c).2 = some s) :
      Changes d id c (announcing id s (d.callers id c s) (d.shut id c s))
        ((d.callers id c s).foldl (fun d w => d.runWait id s w) (d.shut id c s))

/-- The changes that are made to a round other than by a page that comes to the end of a partition
    or finds one that is not being filled. -/
inductive Amends (d : Demander) (id : RoundId) : Round.Change → Prop where
  /-- A page passes over a partition that does not belong here. -/
  | foreign (job : PageJob) (p : PartitionId) (h : d.owns p job.demand.topology = false) :
      Amends d id (.drain job.sender p)
  /-- The sender of a page does not have a partition. -/
  | missing (job : PageJob) (p : PartitionId) (h : p ∈ job.page.missed) :
      Amends d id (.drain job.sender p)
  | miss (node : NodeId) (p : PartitionId) (h : (d.roundOf id).round.attached = true) :
      Amends d id (.miss node p)
  | cancel (node : NodeId) : Amends d id (.cancel node)

/-- Nothing happens that matters to whoever waits for a round. -/
structure Uneventful (d e : Demander) : Prop where
  rounds : ∀ R, e.roundOf R = d.roundOf R
  length : d.rounds.length ≤ e.rounds.length
  current : e.current = d.current
  active : e.active = d.active
  site : d.site.Discreet e.site

/-- One thing that a demander does, with the milestones of it. -/
inductive Beat : Demander → List Milestone → Demander → Prop where
  | uneventful {d e : Demander} (h : Uneventful d e) : Beat d [] e
  | change {d e : Demander} {id : RoundId} {c : Round.Change} {ms : List Milestone}
      (hl : id < d.rounds.length) (ha : Amends d id c) (h : Changes d id c ms e) : Beat d ms e
  /-- A page passes over a partition that belongs here, but is not being filled. -/
  | pass {d e : Demander} {ms : List Milestone} (job : PageJob) (p : PartitionId)
      (hl : job.round < d.rounds.length) (ho : d.owns p job.demand.topology = true)
      (hm : d.site.store.base.state? p ≠ some .moving)
      (h : Changes d job.round (.drain job.sender p) ms e) :
      Beat d (.happens (.passed job p) :: ms) e
  /-- A page that is the last one of a partition has come to its end: the partition is owned, counted
      and reported, and then taken off the round. -/
  | load {d e : Demander} {ms : List Milestone} (job : PageJob) (p : PartitionId)
      (hl : job.round < d.rounds.length) (hp : p ∈ job.page.last)
      (h : Changes (d.ownAndReport job p) job.round (.drain job.sender p) ms e) :
      Beat d (.happens (.loaded job p) :: ms) e
  /-- Someone comes to wait for the current round. -/
  | join {d : Demander} (tag : String) (hl : d.current < d.rounds.length)
      (h : (d.currentRound.onDone (.notify tag d.currentRound.attached)).2 = none) :
      Beat d [] (d.withWait d.current (.notify tag d.currentRound.attached))
  /-- Someone comes to wait for the current round, which is done. -/
  | late {d : Demander} (tag : String) (s : Summary) (hl : d.current < d.rounds.length)
      (h : (d.currentRound.onDone (.notify tag d.currentRound.attached)).2 = some s) :
      Beat d [.told d.current (.notify tag d.currentRound.attached) s
          (d.withWait d.current (.notify tag d.currentRound.attached))]
        ((d.withWait d.current (.notify tag d.currentRound.attached)).runWait d.current s
          (.notify tag d.currentRound.attached))
  /-- A plan starts a round, when all that were bound are over. -/
  | begin {d : Demander} {id : RoundId} (plan : Plan) (hs : d.Steady)
      (hover : ∀ R, (d.roundOf R).round.attached = true → (d.roundOf R).round.isDone = true)
      (hnone : ∀ R, d.isInFlight R = false) (hl : id < d.rounds.length)
      (ha : (d.roundOf id).round.attached = false) (hp : plan.isEmpty = false) :
      Beat d [] (d.begin id plan)
  /-- A plan leaves a round nothing to do, which ends it. -/
  | skip {d e : Demander} {id : RoundId} {ms : List Milestone} (plan : Plan) (hs : d.Steady)
      (hover : ∀ R, (d.roundOf R).round.attached = true → (d.roundOf R).round.isDone = true)
      (hnone : ∀ R, d.isInFlight R = false) (hl : id < d.rounds.length)
      (ha : (d.roundOf id).round.attached = false)
      (h : Changes (d.vacate id plan) id .complete ms e) : Beat d ms (e.measure Board.roundSkipped)
  | abandon {d : Demander} (hl : d.current < d.rounds.length) : Beat d [] d.abandonRound

/-- Any number of beats, with the milestones of all. -/
inductive Trail : Demander → List Milestone → Demander → Prop where
  | nil (d : Demander) : Trail d [] d
  | cons {d e f : Demander} {ms ns : List Milestone} (h : Beat d ms e) (t : Trail e ns f) :
      Trail d (ms ++ ns) f

-- ============================================================================
-- Putting trails together
-- ============================================================================

section Trails

variable {d e f : Demander} {ms ns : List Milestone}

theorem Beat.trail (h : Beat d ms e) : Trail d ms e := by
  have ht : Trail d (ms ++ []) e := .cons h (.nil e)
  rwa [List.append_nil] at ht

theorem Trail.trans (h₁ : Trail d ms e) (h₂ : Trail e ns f) : Trail d (ms ++ ns) f := by
  induction h₁ with
  | nil => exact h₂
  | cons h _ ih =>
    rw [List.append_assoc]
    exact .cons h (ih h₂)

/-- There is a trail between two demanders on which nothing happens to partitions. -/
def Trails (d e : Demander) : Prop := ∃ ms, Trail d ms e ∧ incidentsOf ms = []

theorem Trails.refl (d : Demander) : Trails d d := ⟨[], .nil d, rfl⟩

theorem Trails.trans (h₁ : Trails d e) (h₂ : Trails e f) : Trails d f := by
  obtain ⟨ms, h₁, hms⟩ := h₁
  obtain ⟨ns, h₂, hns⟩ := h₂
  exact ⟨ms ++ ns, h₁.trans h₂, by rw [incidentsOf_append, hms, hns, List.append_nil]⟩

theorem Beat.trails (h : Beat d ms e) (hm : incidentsOf ms = []) : Trails d e := ⟨ms, h.trail, hm⟩

theorem Uneventful.trails (h : Uneventful d e) : Trails d e := (Beat.uneventful h).trails rfl

end Trails

-- ============================================================================
-- What matters to nobody
-- ============================================================================

section Asides

variable {d e : Demander}

/-- Only the site changes. -/
theorem Uneventful.of_site (hr : e.rounds = d.rounds) (hc : e.current = d.current)
    (ha : e.active = d.active) (hs : d.site.Discreet e.site) : Uneventful d e where
  rounds R := by simp only [roundOf, hr]
  length := Nat.le_of_eq (congrArg List.length hr.symm)
  current := hc
  active := ha
  site := hs

theorem Uneventful.trans {f : Demander} (h₁ : Uneventful d e) (h₂ : Uneventful e f) :
    Uneventful d f where
  rounds R := (h₂.rounds R).trans (h₁.rounds R)
  length := Nat.le_trans h₁.length h₂.length
  current := h₂.current.trans h₁.current
  active := h₂.active.trans h₁.active
  site := h₁.site.trans h₂.site

/-- Not even the site changes. -/
theorem trails_of_same (hr : e.rounds = d.rounds) (hc : e.current = d.current)
    (hs : e.site = d.site) : Trails d e := by
  refine Uneventful.trails (.of_site hr hc ?_ ?_)
  · unfold Demander.active
    rw [hs]
  · rw [hs]
    exact .refl _

theorem uneventful_measure (d : Demander) {f : Board → Board}
    (ha : ∀ b, (f b).activeRounds.value = b.activeRounds.value)
    (ho : ∀ b, (f b).partitionsOwned.value = b.partitionsOwned.value) : Uneventful d (d.measure f) :=
  .of_site rfl rfl (ha _) ((Site.quiet_measure _ ho).discreet (.of_trace rfl) rfl fun _ => rfl)

/-- What changes nothing but the states that a store has for no partition. -/
theorem uneventful_store (d : Demander) (t : Tampered)
    (h : ∀ p, t.base.state? p = d.site.store.base.state? p) :
    Uneventful d { d with site := { d.site with store := t } } := by
  have hq : d.site.Quiet { d.site with store := t } :=
    ⟨⟨[], (List.append_nil _).symm, rfl, rfl⟩, rfl, rfl⟩
  exact .of_site rfl rfl rfl (hq.discreet (.of_trace rfl) rfl h)

theorem uneventful_takenIn (d : Demander) (job : PageJob) (p : PartitionId) (entries : List Entry) :
    Uneventful d (d.takenIn job p entries) := by
  refine .of_site rfl rfl ?_ (Site.discreet_takeInAll d.site job.sender p entries)
  exact Site.board_takeInAll (f := fun b => b.activeRounds.value)
    ⟨fun _ => rfl, fun _ => rfl, fun _ => rfl, fun _ => rfl⟩ job.sender p d.site entries

theorem uneventful_letGo (d : Demander) (p : PartitionId) : Uneventful d (d.letGo p) :=
  uneventful_store d _ fun q => state_letGo d p q

end Asides

-- ============================================================================
-- Changes
-- ============================================================================

section Changes

variable {d e : Demander} {id : RoundId} {c : Round.Change} {ms : List Milestone}

/-- A change has milestones, and what they lead to is what it leaves. -/
theorem changes (d : Demander) (id : RoundId) (c : Round.Change) :
    ∃ ms, Changes d id c ms (d.changeRound id c) := by
  rw [changeRound_eq]
  cases h : ((d.roundOf id).round.change c).2 with
  | none => exact ⟨[], .stays h⟩
  | some s => exact ⟨_, .closes s h⟩

theorem Changes.eq (h : Changes d id c ms e) : e = d.changeRound id c := by
  rw [changeRound_eq]
  cases h with
  | stays h => rw [h]
  | closes s h =>
    rw [h]
    rfl

theorem incidentsOf_announcing (id : RoundId) (s : Summary) (ws : List RoundWait) (x : Demander) :
    incidentsOf (announcing id s ws x) = [] := by
  induction ws generalizing x with
  | nil => rfl
  | cons w ws ih => exact ih _

/-- Nothing happens to partitions when a round changes. -/
theorem Changes.incidents (h : Changes d id c ms e) : incidentsOf ms = [] := by
  cases h with
  | stays => rfl
  | closes s => exact incidentsOf_announcing _ _ _ _

theorem Amends.trails (h : Amends d id c) (hl : id < d.rounds.length) :
    Trails d (d.changeRound id c) := by
  obtain ⟨ms, hc⟩ := changes d id c
  exact (Beat.change hl h hc).trails hc.incidents

theorem trails_cancelNode (hl : id < d.rounds.length) (node : NodeId) (reason : CancelReason) :
    Trails d (d.cancelNode id node reason) :=
  ((Amends.cancel node).trails hl).trans
    (uneventful_measure _ (f := (·.streamCancelled reason.label)) (fun _ => rfl) fun _ => rfl).trails

/-- A partition that is missed leaves the round bound. -/
theorem attached_missOwned (hl : id < d.rounds.length) (node : NodeId) (t : Topology)
    (p : PartitionId) (ha : (d.roundOf id).round.attached = true) :
    ((d.missOwned id node t p).roundOf id).round.attached = true := by
  rw [round_missOwned d node p hl]
  split
  · exact (Round.attached_miss _ node p).trans ha
  · exact ha

theorem trails_missAll (hb : d.Bound id) (node : NodeId) (t : Topology) (ps : List PartitionId) :
    Trails d (ps.foldl (fun d p => d.missOwned id node t p) d) := by
  induction ps generalizing d with
  | nil => exact .refl d
  | cons p ps ih =>
    have hone : Trails d (d.missOwned id node t p) := by
      unfold missOwned
      split
      · exact ((Amends.miss node p hb.2).trails hb.1).trans
          (uneventful_measure _ (f := Board.partitionMissed) (fun _ => rfl) fun _ => rfl).trails
      · exact .refl d
    refine hone.trans (ih ⟨?_, attached_missOwned hb.1 node t p hb.2⟩)
    rw [(beside_missOwned d id node p t).rounds]
    exact hb.1

theorem trails_drainAll {job : PageJob} (hl : id < d.rounds.length) {ps : List PartitionId}
    (hp : ∀ p ∈ ps, p ∈ job.page.missed) :
    Trails d (ps.foldl (fun d p => d.changeRound id (.drain job.sender p)) d) := by
  induction ps generalizing d with
  | nil => exact .refl d
  | cons p ps ih =>
    refine ((Amends.missing job p (hp p List.mem_cons_self)).trails hl).trans (ih ?_ ?_)
    · rw [(beside_changeRound d id _).rounds]
      exact hl
    · exact fun q hq => hp q (List.mem_cons_of_mem _ hq)

theorem trails_settleMissed {job : PageJob} (hb : d.Bound job.round) :
    Trails d (d.settleMissed job) := by
  have hmiss := trails_missAll hb job.sender job.demand.topology job.page.missed.toList
  refine hmiss.trans (trails_drainAll ?_ fun p hp => hp)
  rw [(beside_missAll d job.round job.sender job.demand.topology _).rounds]
  exact hb.1

end Changes

-- ============================================================================
-- Chores and steps
-- ============================================================================

section Steps

variable {d e : Demander}

end Steps

end Demander
end Rebalance
