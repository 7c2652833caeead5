/-
  Rebalance.Proofs.Visible

  What has happened by the time that the end of a round becomes visible.
  `Visible` says what is to be seen of what has happened to partitions so far:
  what was drained is not being filled any more, and what is owned was counted
  and reported.  `Upheld` says that a demander shows this, and has forced an
  exchange for what was missed.  Nothing that it does takes this back: there is
  one lemma for what a page loads or passes over, one for a change from outside,
  and one each for a round that closes and for those that are told of it.
-/
import Rebalance.Proofs.History
import Rebalance.Proofs.Trail

namespace Rebalance

-- ============================================================================
-- Rounds with misses
-- ============================================================================

namespace Round

variable {κ : Type}

/-- A round that stands, and misses nothing unless it is bound to an exchange. -/
structure Founded (r : Round κ) : Prop extends Standing r where
  based : r.exchange = none → r.missed = ∅ ∧ (r.attached = true → r.closed = true)

/-- A round that is done with misses has forced its exchange. -/
theorem Founded.redriven {r : Round κ} (h : r.Founded) {s : Summary} (hs : r.summary = some s)
    (hm : s.missed.isEmpty = false) : ∃ e, r.exchange = some e ∧ r.redriven = some e := by
  have hmissed : r.missed = s.missed := by
    unfold missed
    rw [hs]
  cases he : r.exchange with
  | none =>
    rw [← hmissed, (h.based he).1] at hm
    cases hm
  | some e =>
    refine ⟨e, rfl, ?_⟩
    simp [Round.redriven, hs, forced, hm, he]

theorem founded_drain {r : Round κ} (h : r.Founded) (n : NodeId) (p : PartitionId) :
    (r.after (.drain n p)).Founded := by
  refine ⟨standing_drain h.toStanding n p, fun he => ?_⟩
  rw [Demander.exchange_after r (c := .drain n p) nofun] at he
  rw [(answers_drain r n p h.toSound).1, attached_drain h.toStanding]
  refine ⟨(h.based he).1, fun ha => ?_⟩
  have hclosed := (h.based he).2 ha
  rw [(after_of_closed r n p hclosed).1]
  exact hclosed

theorem founded_cancel {r : Round κ} (h : r.Founded) (n : NodeId) :
    (r.after (.cancel n)).Founded := by
  refine ⟨standing_cancel h.toStanding n, fun he => ?_⟩
  rw [Demander.exchange_after r (c := .cancel n) nofun] at he
  rw [missed_cancel r n h.toSound, attached_cancel h.toStanding]
  refine ⟨(h.based he).1, fun ha => ?_⟩
  have hclosed := (h.based he).2 ha
  rw [(after_of_closed r n 0 hclosed).2.2]
  exact hclosed

/-- Only a round that is bound to an exchange comes to miss anything. -/
theorem founded_miss {r : Round κ} (h : r.Founded) (ha : r.attached = true) (n : NodeId)
    (p : PartitionId) : (r.after (.miss n p)).Founded := by
  refine ⟨standing_miss h.toStanding ha n p, fun he => ?_⟩
  rw [Demander.exchange_after r (c := .miss n p) nofun] at he
  have hclosed := (h.based he).2 ha
  rw [(after_of_closed r n p hclosed).2.1]
  exact h.based he

theorem founded_onDone {r : Round κ} (h : r.Founded) (k : κ) : (r.onDone k).1.Founded := by
  obtain ⟨-, hm, -, ha, hc, -⟩ := onDone_answers r k
  refine ⟨standing_onDone h.toStanding k, fun he => ?_⟩
  rw [hm, ha, hc]
  exact h.based he

/-- A change that does not close a round is all that happens to it. -/
theorem after_of_none {r : Round κ} {c : Change} (h : (r.change c).2 = none) :
    r.after c = (r.change c).1 := by
  rw [after, show r.change c = ((r.change c).1, none) from Prod.ext rfl h]
  rfl

/-- After a change either the same ones wait for a round, or none, since all were told. -/
theorem waiting_after {r : Round κ} {c : Change} (h : r.closed = r.isDone) :
    (r.after c).outcome.waiting = r.outcome.waiting ∨ (r.after c).outcome.waiting = [] := by
  cases hs : (r.change c).2 with
  | none =>
    rw [after_of_none hs, change_waiting]
    exact .inl rfl
  | some s =>
    rw [Demander.after_closing hs (open_of_closing h hs)]
    exact .inr rfl

/-- A round that is done keeps its summary, and its exchange too. -/
theorem kept_after {r : Round κ} {c : Change} {s : Summary} (h : r.closed = r.isDone)
    (hc : ∀ e, c ≠ .attach e) (hs : r.summary = some s) :
    (r.after c).summary = some s ∧ (r.after c).exchange = r.exchange := by
  refine ⟨?_, Demander.exchange_after r hc⟩
  cases hn : (r.change c).2 with
  | none =>
    rw [after_of_none hn, summary, change_waiting]
    exact hs
  | some t =>
    have hopen : r.isDone = false := open_of_closing h hn
    rw [show r.isDone = true from congrArg Option.isSome hs] at hopen
    cases hopen

/-- Whatever waits for a round once something has come to wait did so before, or it is what has come,
    which stands last. -/
theorem waited_before {r : Round κ} {k v : κ} {pre post : List κ}
    (h : (r.onDone k).1.outcome.waiting = pre ++ v :: post) :
    (∃ mid, r.outcome.waiting = pre ++ v :: mid) ∨ pre = r.outcome.waiting ∧ k = v := by
  change (r.outcome.onDone k).1.waiting = _ at h
  unfold Promise.onDone at h
  split at h
  · exact .inl ⟨post, h⟩
  · rcases snoc_split h with ⟨hpre, hk, -⟩ | ⟨mid, -, hmid⟩
    · exact .inr ⟨hpre.symm, hk⟩
    · exact .inl ⟨mid, hmid⟩

end Round

-- ============================================================================
-- What can be seen of what has happened
-- ============================================================================

namespace Demander

namespace Incident

/-- A page takes a partition off its round, which is not being filled by then. -/
def drains (p : PartitionId) : Incident → Prop
  | loaded _ q => q = p
  | passed _ q => q = p
  | outside .. => False

/-- A change from outside has a partition filled again. -/
def putsBack (p : PartitionId) : Incident → Prop
  | outside x c => x.site.store.base.state? p ≠ some .moving ∧
      (x.site.change c).store.base.state? p = some .moving
  | _ => False

/-- A page has come to the end of a partition, or a change from outside has it owned. -/
def gains (p : PartitionId) : Incident → Prop
  | loaded _ q => q = p
  | passed .. => False
  | outside x c => x.site.store.base.state? p ≠ some .owning ∧
      (x.site.change c).store.base.state? p = some .owning

/-- A change from outside has a partition not owned any more. -/
def loses (p : PartitionId) : Incident → Prop
  | outside x c => x.site.store.base.state? p = some .owning ∧
      (x.site.change c).store.base.state? p ≠ some .owning
  | _ => False

/-- The event of a partition that a page has come to the end of. -/
def event? : Incident → Option Event
  | loaded job p => some (.partitionLoaded p job.discovery)
  | _ => none

end Incident

/-- Something was noticed: it is in the trace, or was there when the node changed. -/
def Shown (past : List Incident) (trace : List Effect) (f : Effect) : Prop :=
  f ∈ trace ∨ ∃ x c, .outside x c ∈ past ∧ f ∈ x.site.trace

theorem Shown.grow {past : List Incident} {trace trace' : List Effect} {f : Effect}
    (h : Shown past trace f) (ht : trace ⊆ trace') : Shown past trace' f := h.imp_left fun hf => ht hf

theorem Shown.mono {past later : List Incident} {trace trace' : List Effect} {f : Effect}
    (h : Shown past trace f) (ht : trace ⊆ trace') : Shown (past ++ later) trace' f :=
  h.imp (fun hf => ht hf) fun ⟨x, c, hmem, hf⟩ => ⟨x, c, List.mem_append_left _ hmem, hf⟩

/-- What can be seen of `past`, which has happened to partitions since the demander was `start`. -/
structure Visible (start : Demander) (past : List Incident) (seen : Glimpse)
    (trace : List Effect) : Prop where
  /-- What a page took off its round, at its end or since it is not being filled, is not being filled
      now, unless it was put back from outside. -/
  landed : ∀ p, Round.Since (Incident.drains p) (Incident.putsBack p) past →
    seen.store.base.state? p ≠ some .moving
  /-- What is owned was owned before, or loaded to its end, or became so from outside, and since it
      was last lost it has become so again. -/
  gained : ∀ p, seen.store.base.state? p = some .owning →
    (start.site.store.base.state? p = some .owning ∨ ∃ a ∈ past, a.gains p) ∧
      ¬ Round.Since (Incident.loses p) (Incident.gains p) past
  /-- Every partition that was loaded to its end is counted. -/
  counted : seen.board.partitionsOwned.value =
    start.countOwned + UInt64.ofNat (past.filterMap Incident.event?).length
  enabled : seen.recorder.enabled = start.site.recorder.enabled
  keeps : seen.recorder.keeps = start.site.recorder.keeps
  /-- The recorder has the events of them, if it wants and keeps them. -/
  recorded : seen.recorder.eventsOf .partitionLoaded =
    start.site.recorder.eventsOf .partitionLoaded ++
      if start.tells && start.site.recorder.keeps then past.filterMap Incident.event? else []
  /-- Every event of them that the recorder wants was handed over. -/
  reported : start.tells = true → ∀ e ∈ past.filterMap Incident.event?,
    Shown past trace (.recorded e)

/-- A demander that shows what has happened, and has forced what the misses of its rounds ask for. -/
structure Upheld (start : Demander) (past : List Incident) (d : Demander) : Prop
    extends Visible start past d.site.glimpse d.site.trace where
  redriven : ∀ R e, (d.roundOf R).round.redriven = some e →
    Shown past d.site.trace (.dummy e true)

-- ============================================================================
-- What keeps it
-- ============================================================================

/-- Between the two sites no partition was owned, counted, reported as loaded or put back to be
    filled, and nothing that was noticed is forgotten. -/
structure Idle (s t : Site) : Prop where
  moving : ∀ p, t.store.base.state? p = some .moving → s.store.base.state? p = some .moving
  owning : ∀ p, t.store.base.state? p = some .owning → s.store.base.state? p = some .owning
  owned : t.board.partitionsOwned.value = s.board.partitionsOwned.value
  enabled : t.recorder.enabled = s.recorder.enabled
  keeps : t.recorder.keeps = s.recorder.keeps
  loads : t.recorder.eventsOf .partitionLoaded = s.recorder.eventsOf .partitionLoaded
  trace : s.trace <+: t.trace

theorem idle_of_discreet {s t : Site} (h : s.Discreet t) : Idle s t := by
  obtain ⟨es, he, -, -⟩ := h.trace
  exact ⟨h.moving, h.owning, h.owned, h.enabled, h.keeps, h.loads, es, he.symm⟩

/-- Of a demander that changes beside its store and its recorder only what it counted and what is
    noticed of it are to be seen. -/
theorem Beside.idle {d e : Demander} (h : Beside d e) (ho : e.countOwned = d.countOwned)
    (ht : d.site.trace <+: e.site.trace) : Idle d.site e.site where
  moving p hp := by rwa [h.store] at hp
  owning p hp := by rwa [h.store] at hp
  owned := ho
  enabled := by rw [h.recorder]
  keeps := by rw [h.recorder]
  loads := by rw [h.recorder]
  trace := ht

theorem Beside.idle_quiet {d e : Demander} (hb : Beside d e) (hq : d.site.Quiet e.site) :
    Idle d.site e.site := by
  obtain ⟨es, he, -, -⟩ := hq.trace
  exact hb.idle hq.owned ⟨es, he.symm⟩

theorem Unloaded.idle {d e : Demander} (h : Unloaded d e) (hb : e.site.store = d.site.store)
    (hr : e.site.recorder = d.site.recorder) : Idle d.site e.site := by
  obtain ⟨ids, ⟨es, he, hh⟩, -⟩ := h
  refine ⟨fun p hp => by rwa [hb] at hp, fun p hp => by rwa [hb] at hp, ?_, by rw [hr], by rw [hr],
    by rw [hr], es, he.symm⟩
  exact hh.owned.trans (UInt64.add_zero _)

/-- The recorder has the event of a partition that was loaded if it wants and keeps such events. -/
theorem recorder_ownAndReport (d : Demander) (job : PageJob) (p : PartitionId) :
    (d.ownAndReport job p).site.recorder.keeps = d.site.recorder.keeps ∧
      (d.ownAndReport job p).site.recorder.eventsOf .partitionLoaded =
        d.site.recorder.eventsOf .partitionLoaded ++
          if d.tells && d.site.recorder.keeps then [.partitionLoaded p job.discovery] else [] := by
  have hrec : (d.ownAndReport job p).site.recorder =
      if d.tells then d.site.recorder.record (.partitionLoaded p job.discovery)
      else d.site.recorder := by
    unfold ownAndReport Site.report
    simp only
    change (if d.tells = true then _ else _ : Site).recorder = _
    split <;> rfl
  rw [hrec]
  cases d.tells with
  | false => simp
  | true =>
    refine ⟨Site.keeps_record _ _, ?_⟩
    cases hk : d.site.recorder.keeps <;> simp [Recorder.record, hk, Recorder.eventsOf, Event.kind]

section Visible

variable {start d e : Demander} {past : List Incident}

/-- Where the site is idle the same can be seen. -/
theorem Visible.same {s t : Site} (h : Visible start past s.glimpse s.trace) (hi : Idle s t) :
    Visible start past t.glimpse t.trace where
  landed p hp hmoving := h.landed p hp (hi.moving p hmoving)
  gained p hp := h.gained p (hi.owning p hp)
  counted := hi.owned.trans h.counted
  enabled := hi.enabled.trans h.enabled
  keeps := hi.keeps.trans h.keeps
  recorded := hi.loads.trans h.recorded
  reported ht f hf := (h.reported ht f hf).grow hi.trace.subset

/-- Where the site is idle a demander goes on to show what has happened, if what is forced for the
    misses of a round is noticed. -/
theorem Upheld.later (h : Upheld start past d) (hi : Idle d.site e.site)
    (hr : ∀ R x, (e.roundOf R).round.redriven = some x →
      (d.roundOf R).round.redriven = some x ∨ .dummy x true ∈ e.site.trace) :
    Upheld start past e where
  toVisible := h.toVisible.same hi
  redriven R x hx := by
    rcases hr R x hx with hx | hx
    · exact (h.redriven R x hx).grow hi.trace.subset
    · exact .inl hx

/-- The same where no round ends with misses. -/
theorem Upheld.same (h : Upheld start past d) (hi : Idle d.site e.site)
    (hr : ∀ R x, (e.roundOf R).round.redriven = some x → (d.roundOf R).round.redriven = some x) :
    Upheld start past e := h.later hi fun R x hx => .inl (hr R x hx)

/-- What was owned before something that does not lose it became so before. -/
theorem Visible.gained_snoc {seen : Glimpse} {trace : List Effect}
    (h : Visible start past seen trace) {a : Incident} {p : PartitionId} (ha : ¬ a.loses p)
    (hp : seen.store.base.state? p = some .owning) :
    (start.site.store.base.state? p = some .owning ∨ ∃ b ∈ past ++ [a], b.gains p) ∧
      ¬ Round.Since (Incident.loses p) (Incident.gains p) (past ++ [a]) := by
  obtain ⟨hgain, hkept⟩ := h.gained p hp
  refine ⟨hgain.imp_right fun ⟨b, hmem, hg⟩ => ⟨b, List.mem_append_left _ hmem, hg⟩,
    fun hlost => ?_⟩
  rcases Round.since_snoc.mp hlost with hlose | ⟨hlost, -⟩
  · exact ha hlose
  · exact hkept hlost

/-- One thing more has happened, and its event is there if it has one. -/
theorem events_snoc (past : List Incident) (a : Incident) :
    (past ++ [a]).filterMap Incident.event? =
      past.filterMap Incident.event? ++ a.event?.toList := by
  rw [List.filterMap_append]
  cases a <;> rfl

/-- A partition that a page has come to the end of is owned, counted and reported. -/
theorem Upheld.own (h : Upheld start past d) (job : PageJob) (p : PartitionId) :
    Upheld start (past ++ [.loaded job p]) (d.ownAndReport job p) := by
  have hstore : ∀ q, (d.ownAndReport job p).site.store.base.state? q =
      (d.site.store.base.own p).1.state? q := fun q => by
    unfold ownAndReport
    rw [Site.store_report]
    rfl
  have hevents : (past ++ [Incident.loaded job p]).filterMap Incident.event? =
      past.filterMap Incident.event? ++ [.partitionLoaded p job.discovery] := events_snoc past _
  have htells : d.tells = start.tells := congrArg (decide <| _ ∈ ·) h.enabled
  obtain ⟨htrace, henabled, hcount⟩ := site_ownAndReport d job p
  obtain ⟨hkeeps, hloads⟩ := recorder_ownAndReport d job p
  have hgrows : d.site.trace ⊆ (d.ownAndReport job p).site.trace := by
    rw [htrace]
    exact List.subset_append_left _ _
  refine ⟨⟨fun q hq hmoving => ?_, fun q hq => ?_, ?_, henabled.trans h.enabled,
    hkeeps.trans h.keeps, ?_, fun ht f hf => ?_⟩, fun R e he => (h.redriven R e he).mono hgrows⟩
  · replace hmoving := (hstore q).symm.trans hmoving
    rcases Round.since_snoc.mp hq with rfl | ⟨hq, -⟩
    · exact Store.state?_own_ne_moving _ p hmoving
    · exact h.landed q hq ((Store.grows_own _ p).moving q hmoving)
  · replace hq := (hstore q).symm.trans hq
    rw [Store.state?_own] at hq
    by_cases hqp : q = p
    · refine ⟨.inr ⟨_, List.mem_append_right _ List.mem_cons_self, hqp.symm⟩, fun hlost => ?_⟩
      rcases Round.since_snoc.mp hlost with hlose | ⟨-, hgain⟩
      · exact hlose
      · exact hgain hqp.symm
    · rw [if_neg fun hc => hqp hc.1] at hq
      exact h.gained_snoc id hq
  · refine hcount.trans ?_
    rw [show d.countOwned = _ from h.counted, hevents, List.length_append, UInt64.ofNat_add,
      UInt64.add_assoc]
    rfl
  · refine hloads.trans ?_
    rw [show d.site.recorder.eventsOf _ = _ from h.recorded, hevents, htells,
      show d.site.recorder.keeps = _ from h.keeps]
    split
    · rw [List.append_assoc]
    · rw [List.append_nil]
  · rw [hevents] at hf
    rcases List.mem_append.mp hf with hf | hf
    · exact (h.reported ht f hf).mono hgrows
    · refine .inl ?_
      rw [htrace, htells, if_pos ht, List.mem_singleton.mp hf]
      exact List.mem_append_right _ List.mem_cons_self

/-- A page that passes over a partition leaves it as it is, which is not being filled. -/
theorem Upheld.pass (h : Upheld start past d) (job : PageJob) {p : PartitionId}
    (hm : d.site.store.base.state? p ≠ some .moving) :
    Upheld start (past ++ [.passed job p]) d := by
  have hevents : (past ++ [Incident.passed job p]).filterMap Incident.event? =
      past.filterMap Incident.event? := (events_snoc past _).trans (List.append_nil _)
  refine ⟨⟨fun q hq => ?_, fun q hq => h.gained_snoc id hq, ?_, h.enabled, h.keeps, ?_,
    fun ht f hf => ?_⟩, fun R e he => (h.redriven R e he).mono (List.Subset.refl _)⟩
  · rcases Round.since_snoc.mp hq with rfl | ⟨hq, -⟩
    · exact hm
    · exact h.landed q hq
  · rw [hevents]
    exact h.counted
  · rw [hevents]
    exact h.recorded
  · rw [hevents] at hf
    exact (h.reported ht f hf).mono (List.Subset.refl _)

/-- A change from outside may put partitions back, have them owned, or have what was noticed
    forgotten. -/
theorem Upheld.outside (h : Upheld start past d) (c : Site.Change) :
    Upheld start (past ++ [.outside d c]) (d.step (.site c)) := by
  have hevents : (past ++ [Incident.outside d c]).filterMap Incident.event? =
      past.filterMap Incident.event? := (events_snoc past _).trans (List.append_nil _)
  have hrecorder : (d.site.change c).recorder = d.site.recorder := by cases c <;> rfl
  have hboard := d.site.board_change c
  have hshown : ∀ f, Shown past d.site.trace f →
      Shown (past ++ [.outside d c]) (d.step (.site c)).site.trace f := by
    rintro f (hf | ⟨x, c', hmem, hf⟩)
    · exact .inr ⟨d, c, List.mem_append_right _ List.mem_cons_self, hf⟩
    · exact .inr ⟨x, c', List.mem_append_left _ hmem, hf⟩
  refine ⟨⟨fun p hp hmoving => ?_, fun p hp => ?_, ?_, ?_, ?_, ?_, fun ht f hf => ?_⟩,
    fun R e he => hshown _ (h.redriven R e he)⟩
  · rcases Round.since_snoc.mp hp with hp | ⟨hp, hback⟩
    · cases hp
    · exact hback ⟨h.landed p hp, hmoving⟩
  · by_cases howned : d.site.store.base.state? p = some .owning
    · exact h.gained_snoc (fun hlose => hlose.2 hp) howned
    · refine ⟨.inr ⟨_, List.mem_append_right _ List.mem_cons_self, howned, hp⟩, fun hlost => ?_⟩
      rcases Round.since_snoc.mp hlost with hlose | ⟨-, hgain⟩
      · exact howned hlose.1
      · exact hgain ⟨howned, hp⟩
  · rw [hevents]
    exact (congrArg (·.partitionsOwned.value) hboard).trans h.counted
  · exact (congrArg Recorder.enabled hrecorder).trans h.enabled
  · exact (congrArg Recorder.keeps hrecorder).trans h.keeps
  · rw [hevents]
    exact (congrArg (·.eventsOf .partitionLoaded) hrecorder).trans h.recorded
  · rw [hevents] at hf
    exact hshown _ (h.reported ht f hf)

-- ============================================================================
-- Continuations
-- ============================================================================

/-- A continuation that runs changes nothing that the next one could miss. -/
theorem Upheld.runWaits (h : Upheld start past d) (id : RoundId) (s : Summary)
    (ws : List RoundWait) : Upheld start past (ws.foldl (fun d w => d.runWait id s w) d) := by
  refine h.same ((beside_runWaits d id s ws).idle_quiet (quiet_runWaits d id s ws)) fun R x hx => ?_
  rwa [round_runWaits] at hx

/-- Where one of those that wait for a round is told, those before it have been. -/
theorem announcing_split {id R : RoundId} {s s' : Summary} {w : RoundWait} {x : Demander}
    {a b : List Milestone} {ws : List RoundWait} {d : Demander}
    (h : announcing id s ws d = a ++ .told R w s' x :: b) :
    ∃ pre post, ws = pre ++ w :: post ∧ id = R ∧ s = s' ∧ a = announcing id s pre d ∧
      x = pre.foldl (fun d w => d.runWait id s w) d := by
  induction ws generalizing a d with
  | nil => simp [announcing] at h
  | cons v ws ih =>
    rw [announcing] at h
    cases a with
    | nil =>
      obtain ⟨hm, -⟩ := List.cons_eq_cons.mp h
      cases hm
      exact ⟨[], ws, rfl, rfl, rfl, rfl, rfl⟩
    | cons m a =>
      obtain ⟨rfl, hrest⟩ := List.cons_eq_cons.mp h
      obtain ⟨pre, post, rfl, rfl, rfl, rfl, rfl⟩ := ih hrest
      exact ⟨v :: pre, post, rfl, rfl, rfl, rfl, rfl⟩

/-- Nothing becomes visible by waiting. -/
theorem Upheld.withWait (h : Upheld start past d) {id : RoundId} (hl : id < d.rounds.length)
    (w : RoundWait) : Upheld start past (d.withWait id w) := by
  refine h.same ((beside_setRound d id _).idle rfl (List.prefix_refl _)) fun R x hx => ?_
  rw [round_withWait d hl] at hx
  split at hx
  · next hid =>
    rw [Round.redriven_congr (Round.onDone_answers _ w).2.2.2.2.2 rfl] at hx
    rw [hid]
    exact hx
  · exact hx

/-- A change alone makes nothing of a round visible. -/
theorem Upheld.withChange (h : Upheld start past d) {id : RoundId} {c : Round.Change}
    (hl : id < d.rounds.length) (hne : ∀ x, c ≠ .attach x) :
    Upheld start past (d.withChange id c) := by
  refine h.same ((beside_withChange d id c).idle rfl (List.prefix_refl _)) fun R x hx => ?_
  rw [round_withChange d c hl] at hx
  split at hx
  · next hid =>
    rw [Round.redriven_congr (congrArg Promise.value (Round.change_waiting _ c))
      (Round.exchange_change _ hne)] at hx
    rw [hid]
    exact hx
  · exact hx

/-- A round that a change has closed is done, and what its misses ask for forced. -/
theorem Upheld.shut (h : Upheld start past d) {id : RoundId} {c : Round.Change} {s : Summary}
    (hl : id < d.rounds.length) (hs : ((d.roundOf id).round.change c).2 = some s)
    (hopen : (d.roundOf id).round.isDone = false) : Upheld start past (d.shut id c s) := by
  obtain ⟨htrace, -, hcount⟩ := forcing_site (d.withChange id c) id s
  have hidle : Idle d.site (d.shut id c s).site := (beside_shut d id c s).idle hcount ⟨_, htrace.symm⟩
  refine h.later hidle fun R x hx => ?_
  rw [round_shut hs, round_changeRound d c hl] at hx
  by_cases hR : R = id
  · subst hR
    rw [if_pos rfl, after_closing hs hopen] at hx
    right
    change _ ∈ ((d.withChange R c).forcing R s).site.trace
    rw [htrace, round_withChange d c hl, if_pos rfl,
      show ((d.roundOf R).round.change c).1.forced s = some x from hx]
    exact List.mem_append_right _ List.mem_cons_self
  · rw [if_neg hR] at hx
    exact .inl hx

end Visible

end Demander
end Rebalance
