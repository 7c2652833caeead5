/-
  Rebalance.Proofs.Completion

  The end of a round is the last thing to be seen of it.  `Watched` is what any
  beat of a demander keeps: besides what is to be seen, that the round in flight
  is on the gauge, and that the meters stand in line before whoever came to wait
  once the round was bound.  `Carried` adds that whoever is told of a round finds
  everything that comes before behind it (`Fair`), and that rounds stay done.
  With the notes that those who are told leave in the trace,
  `completion_comes_last` says so of every run.
-/
import Rebalance.Proofs.PageTrail
import Rebalance.Proofs.Sightings
import Rebalance.Proofs.Visible

namespace Rebalance
namespace Demander

-- ============================================================================
-- What is watched
-- ============================================================================

/-- A round of `d` is done with a summary, and the site `seen` shows what has happened by then. -/
structure Concluded (start : Demander) (past : List Incident) (d : Demander) (R : RoundId)
    (s : Summary) (seen : Glimpse) (trace : List Effect) : Prop
    extends Visible start past seen trace where
  done : (d.roundOf R).round.summary = some s
  /-- What was missed has forced the exchange of the round. -/
  redriven : s.missed.isEmpty = false →
    ∃ e, (d.roundOf R).round.exchange = some e ∧ Shown past trace (.dummy e true)

/-- A round is not in flight, and the gauge does not count it. -/
structure Grounded (base : Int64) (R : RoundId) (x : Demander) : Prop where
  flag : x.isInFlight R = false
  gauge : x.active = base + if x.isInFlight x.current then 1 else 0

/-- What is so at any moment, also while a round is bound and not begun. -/
structure Abreast (base : Int64) (start : Demander) (past : List Incident) (d : Demander) :
    Prop where
  gauged : Gauged base d
  serial : d.Serial
  /-- Who came to wait once the round was bound stands in line behind the meters. -/
  lined : ∀ R tag pre post,
    (d.roundOf R).round.outcome.waiting = pre ++ .notify tag true :: post →
      (d.roundOf R).round.attached = true ∧ (d.isInFlight R = true → RoundWait.settle ∈ pre)
  upheld : Upheld start past d

/-- What any beat keeps. -/
structure Watched (base : Int64) (start : Demander) (past : List Incident) (d : Demander) : Prop
    extends Abreast base start past d where
  founded : ∀ R, (d.roundOf R).round.Founded

/-- Rounds that are done stay as they ended. -/
def KeepsEnds (d e : Demander) : Prop :=
  ∀ R s, (d.roundOf R).round.summary = some s → (e.roundOf R).round.summary = some s ∧
    (e.roundOf R).round.exchange = (d.roundOf R).round.exchange

/-- Whoever is told of a round in the milestones `ms` finds all that comes before behind it, and the
    gauge down if the round was bound when they came to wait. -/
def Fair (base : Int64) (start : Demander) (past : List Incident) (ms : List Milestone)
    (e : Demander) : Prop :=
  ∀ before R w s x after, ms = before ++ .told R w s x :: after →
    Concluded start (past ++ incidentsOf before) e R s x.site.glimpse x.site.trace ∧
      ∀ tag, w = .notify tag true → x.active = base

/-- Beats that keep what is watched, and are fair to whoever is told. -/
structure Carried (base : Int64) (start : Demander) (past : List Incident) (d : Demander)
    (ms : List Milestone) (e : Demander) : Prop where
  watched : Watched base start (past ++ incidentsOf ms) e
  fair : Fair base start past ms e
  keeps : KeepsEnds d e

section Watched

variable {base : Int64} {start d e f : Demander} {past : List Incident} {ms ns : List Milestone}
  {R : RoundId}

theorem Upheld.concluded (h : Upheld start past d) (hf : (d.roundOf R).round.Founded) {s : Summary}
    (hs : (d.roundOf R).round.summary = some s) :
    Concluded start past d R s d.site.glimpse d.site.trace where
  toVisible := h.toVisible
  done := hs
  redriven hm := by
    obtain ⟨e, he, hr⟩ := hf.redriven hs hm
    exact ⟨e, he, h.redriven R e hr⟩

theorem Concluded.later {s : Summary} {seen : Glimpse} {trace : List Effect}
    (h : Concluded start past d R s seen trace) (hk : KeepsEnds d e) :
    Concluded start past e R s seen trace := by
  obtain ⟨hsummary, hexchange⟩ := hk R s h.done
  refine ⟨h.toVisible, hsummary, fun hm => ?_⟩
  rw [hexchange]
  exact h.redriven hm

theorem Abreast.grounded (h : Abreast base start past d)
    (hd : (d.roundOf R).round.isDone = true) : Grounded base R d := by
  refine ⟨?_, h.gauged.gauge⟩
  cases hf : d.isInFlight R with
  | false => rfl
  | true =>
    rw [h.gauged.opened R hf] at hd
    cases hd

/-- The gauge is down when the current round is not in flight. -/
theorem Grounded.active_eq (h : Grounded base R d) (hR : R = d.current) : d.active = base := by
  have hgauge := h.gauge
  rw [← hR, h.flag] at hgauge
  simpa using hgauge

theorem KeepsEnds.refl (d : Demander) : KeepsEnds d d := fun _ _ hs => ⟨hs, rfl⟩

theorem KeepsEnds.trans (h₁ : KeepsEnds d e) (h₂ : KeepsEnds e f) : KeepsEnds d f := by
  intro R s hs
  obtain ⟨hs, hx⟩ := h₁ R s hs
  obtain ⟨hs, hx'⟩ := h₂ R s hs
  exact ⟨hs, hx'.trans hx⟩

theorem KeepsEnds.of_round (h : ∀ R, (e.roundOf R).round = (d.roundOf R).round) : KeepsEnds d e := by
  intro R s hs
  rw [h]
  exact ⟨hs, rfl⟩

/-- Where only a round that is not done changes. -/
theorem KeepsEnds.of_open {id : RoundId} (hopen : (d.roundOf id).round.isDone = false)
    (h : ∀ R, R ≠ id → (e.roundOf R).round = (d.roundOf R).round) : KeepsEnds d e := by
  intro R s hs
  by_cases hR : R = id
  · rw [hR] at hs
    rw [show (d.roundOf id).round.isDone = true from congrArg Option.isSome hs] at hopen
    cases hopen
  · rw [h R hR]
    exact ⟨hs, rfl⟩

theorem fair_nil : Fair base start past [] e := by
  intro before R w s x after h
  simp at h

theorem Carried.of_untold (hw : Watched base start past e) (hk : KeepsEnds d e) :
    Carried base start past d [] e where
  watched := by rwa [incidentsOf_nil, List.append_nil]
  fair := fair_nil
  keeps := hk

theorem Carried.trans (h₁ : Carried base start past d ms e)
    (h₂ : Carried base start (past ++ incidentsOf ms) e ns f) :
    Carried base start past d (ms ++ ns) f where
  watched := by
    rw [incidentsOf_append, ← List.append_assoc]
    exact h₂.watched
  fair before R w s x after hsplit := by
    rcases Round.append_split hsplit with ⟨mid, -, hms⟩ | ⟨mid, rfl, hns⟩
    · obtain ⟨hend, hgauge⟩ := h₁.fair before R w s x mid hms
      exact ⟨hend.later h₂.keeps, hgauge⟩
    · rw [incidentsOf_append, ← List.append_assoc]
      exact h₂.fair mid R w s x after hns
  keeps := h₁.keeps.trans h₂.keeps

-- ============================================================================
-- What leaves rounds alone
-- ============================================================================

/-- Where rounds only settle, nobody comes to wait, and none is bound. -/
theorem Abreast.settles {later : List Incident} (h : Abreast base start past d)
    (hg : OnlySettles d e)
    (ha : ∀ R, (e.roundOf R).round.attached = (d.roundOf R).round.attached)
    (hw : ∀ R, (e.roundOf R).round.outcome.waiting = (d.roundOf R).round.outcome.waiting ∨
      (e.roundOf R).round.outcome.waiting = [])
    (hu : Upheld start later e) : Abreast base start later e where
  gauged := hg.gauged h.gauged
  serial Q hQ hne := by
    rw [ha] at hQ
    rw [hg.current] at hne
    exact hg.ended Q (h.serial Q hQ hne)
  lined R tag pre post hwait := by
    rcases hw R with hsame | hnone
    · obtain ⟨hatt, hline⟩ := h.lined R tag pre post (hsame.symm.trans hwait)
      refine ⟨(ha R).trans hatt, fun hfly => hline ?_⟩
      rw [hg.flags, Bool.and_eq_true] at hfly
      exact hfly.1
    · rw [hnone] at hwait
      simp at hwait
  upheld := hu

/-- Where rounds stay as they are, only what is to be seen matters. -/
theorem Watched.still {later : List Incident} (h : Watched base start past d)
    (hr : ∀ R, e.roundOf R = d.roundOf R) (hl : d.rounds.length ≤ e.rounds.length)
    (hc : e.current = d.current) (ha : e.active = d.active) (hu : Upheld start later e) :
    Watched base start later e where
  toAbreast := by
    refine h.toAbreast.settles (h.gauged.same hl hc hr ha) (fun R => ?_) (fun R => .inl ?_) hu
    · rw [hr]
    · rw [hr]
  founded R := by
    rw [hr]
    exact h.founded R

theorem Watched.uneventful (h : Watched base start past d) (hi : Uneventful d e) :
    Carried base start past d [] e := by
  have hu : Upheld start past e :=
    h.upheld.same (idle_of_discreet hi.site) fun R x hx => by rwa [hi.rounds] at hx
  exact .of_untold (h.still hi.rounds hi.length hi.current hi.active hu)
    (.of_round fun R => congrArg RoundRecord.round (hi.rounds R))

/-- Something happens to a partition, and no round changes by it. -/
theorem Carried.happens {a : Incident} (h : Watched base start (past ++ [a]) e)
    (hr : ∀ R, e.roundOf R = d.roundOf R) : Carried base start past d [.happens a] e where
  watched := h
  fair before R w s x after hsplit := by
    rcases List.append_eq_singleton_iff.mp hsplit.symm with ⟨-, hcons⟩ | ⟨-, hcons⟩
    · obtain ⟨hm, -⟩ := List.cons_eq_cons.mp hcons
      cases hm
    · cases hcons
  keeps := .of_round fun R => congrArg RoundRecord.round (hr R)

theorem Watched.own (h : Watched base start past d) (job : PageJob) (p : PartitionId) :
    Carried base start past d [.happens (.loaded job p)] (d.ownAndReport job p) := by
  have hactive : (d.ownAndReport job p).active = d.active := by
    unfold active ownAndReport
    rw [Site.board_report]
    rfl
  exact .happens (h.still (fun _ => rfl) (Nat.le_refl _) rfl hactive (h.upheld.own job p)) fun _ => rfl

theorem Watched.pass (h : Watched base start past d) (job : PageJob) {p : PartitionId}
    (hm : d.site.store.base.state? p ≠ some .moving) :
    Carried base start past d [.happens (.passed job p)] d :=
  .happens (h.still (fun _ => rfl) (Nat.le_refl _) rfl rfl (h.upheld.pass job hm)) fun _ => rfl

theorem Watched.outside (h : Watched base start past d) (c : Site.Change) :
    Watched base start (past ++ [.outside d c]) (d.step (.site c)) :=
  h.still (fun _ => rfl) (Nat.le_refl _) rfl
    (congrArg (·.activeRounds.value) (d.site.board_change c)) (h.upheld.outside c)

-- ============================================================================
-- Changes to rounds
-- ============================================================================

section Changes

variable {id : RoundId} {c : Round.Change}

/-- One of those that wait for a round that closes finds it settled if the meters are before it. -/
theorem Gauged.settled (h : Gauged base d) {s : Summary} (hl : id < d.rounds.length)
    {pre : List RoundWait} (hw : d.isInFlight id = true → RoundWait.settle ∈ pre) :
    Grounded base id (pre.foldl (fun d w => d.runWait id s w) (d.shut id c s)) := by
  have hcurrent : (pre.foldl (fun d w => d.runWait id s w) (d.shut id c s)).current = d.current :=
    (beside_runWaits _ id s pre).current.trans (beside_shut d id c s).current
  cases hf : d.isInFlight id with
  | true =>
    have hlen : id < (d.shut id c s).rounds.length := by
      rw [(beside_shut d id c s).rounds]
      exact hl
    obtain ⟨ha, hflags⟩ := runWaits_lands s hlen ((isInFlight_shut id).trans hf) (hw hf)
    have hself : (pre.foldl (fun d w => d.runWait id s w) (d.shut id c s)).isInFlight id = false := by
      rw [hflags]
      simp
    refine ⟨hself, ?_⟩
    rw [hcurrent, ← h.current id hf, hself, ha, active_shut, h.gauge, ← h.current id hf, hf]
    simp
  | false =>
    obtain ⟨ha, hflags⟩ := runWaits_grounded (d := d.shut id c s) s pre ((isInFlight_shut id).trans hf)
    refine ⟨(hflags id).trans ((isInFlight_shut id).trans hf), ?_⟩
    rw [hcurrent, hflags, isInFlight_shut, ha, active_shut, h.gauge]

/-- Those that are told when a change closes a round find everything behind it. -/
theorem Abreast.told (h : Abreast base start past d) (hl : id < d.rounds.length) {s : Summary}
    (hs : ((d.roundOf id).round.change c).2 = some s)
    (hopen : (d.roundOf id).round.isDone = false)
    (hf : ((d.roundOf id).round.after c).Founded) :
    Fair base start past (announcing id s (d.callers id c s) (d.shut id c s))
      (d.changeRound id c) := by
  intro before R w s' x after hsplit
  obtain ⟨pre, post, hcallers, rfl, rfl, rfl, rfl⟩ := announcing_split hsplit
  rw [incidentsOf_announcing, List.append_nil]
  have hu := (h.upheld.shut hl hs hopen).runWaits id s pre
  have hend : ((d.changeRound id c).roundOf id).round = (d.roundOf id).round.after c := by
    rw [round_changeRound d c hl, if_pos rfl]
  have hself : ((pre.foldl (fun d w => d.runWait id s w) (d.shut id c s)).roundOf id).round =
      (d.roundOf id).round.after c := by
    rw [round_runWaits, round_shut hs, hend]
  have hdone : ((d.roundOf id).round.after c).summary = some s := by
    rw [after_closing hs hopen]
    rfl
  refine ⟨⟨hu.toVisible, by rw [hend]; exact hdone, fun hm => ?_⟩, fun tag hw => ?_⟩
  · obtain ⟨e, he, hr⟩ := hf.redriven hdone hm
    rw [hend]
    rw [← hself] at hr
    exact ⟨e, he, hu.redriven id e hr⟩
  · -- The meters are told before it, and no round but the current one is bound and open.
    rw [hw, callers_eq hl hopen] at hcallers
    obtain ⟨hatt, hline⟩ := h.lined id tag pre post hcallers
    refine (h.gauged.settled hl hline).active_eq ?_
    rw [(beside_runWaits _ id s pre).current, (beside_shut d id c s).current]
    by_contra hne
    rw [h.serial id hatt hne] at hopen
    cases hopen

theorem KeepsEnds.changeRound (hh : d.Honest) (hl : id < d.rounds.length)
    (hne : ∀ x, c ≠ .attach x) : KeepsEnds d (d.changeRound id c) := by
  intro R s hs
  rw [round_changeRound d c hl]
  split
  · next hR =>
    rw [hR] at hs ⊢
    exact Round.kept_after (hh id) hne hs
  · exact ⟨hs, rfl⟩

/-- A change that leaves its round in order is fair to those it tells. -/
theorem Abreast.changes (h : Abreast base start past d) (hl : id < d.rounds.length)
    (hc : Changes d id c ms e) (hne : ∀ x, c ≠ .attach x)
    (hf : ((d.roundOf id).round.after c).Founded)
    (hat : ((d.roundOf id).round.after c).attached = (d.roundOf id).round.attached) :
    Abreast base start past e ∧ Fair base start past ms e := by
  have hsettles := h.gauged.changeRound hl fun x hx => absurd hx (hne x)
  have hround := round_changeRound d c hl
  have hattached : ∀ R, ((d.changeRound id c).roundOf R).round.attached =
      (d.roundOf R).round.attached := fun R => by
    rw [hround]
    split
    · next hR => rw [hat, hR]
    · rfl
  have hline : ∀ R, ((d.changeRound id c).roundOf R).round.outcome.waiting =
      (d.roundOf R).round.outcome.waiting ∨
        ((d.changeRound id c).roundOf R).round.outcome.waiting = [] := fun R => by
    rw [hround]
    split
    · next hR =>
      rw [hR]
      exact Round.waiting_after (h.gauged.honest id)
    · exact .inl rfl
  rw [hc.eq]
  cases hc with
  | stays hs =>
    have hsame : d.changeRound id c = d.withChange id c := by rw [changeRound_eq, hs]
    refine ⟨h.settles hsettles hattached hline ?_, fair_nil⟩
    rw [hsame]
    exact h.upheld.withChange hl hne
  | closes s hs =>
    have hopen : (d.roundOf id).round.isDone = false :=
      Round.open_of_closing (h.gauged.honest id) hs
    refine ⟨h.settles hsettles hattached hline ?_, h.told hl hs hopen hf⟩
    rw [changeRound_of_closing hs]
    exact (h.upheld.shut hl hs hopen).runWaits id s _

theorem Amends.founded (h : Amends d id c) (hf : (d.roundOf id).round.Founded) :
    ((d.roundOf id).round.after c).Founded ∧
      ((d.roundOf id).round.after c).attached = (d.roundOf id).round.attached := by
  cases h with
  | foreign job p _ => exact ⟨Round.founded_drain hf _ p, Round.attached_drain hf.toStanding _ p⟩
  | missing job p _ => exact ⟨Round.founded_drain hf _ p, Round.attached_drain hf.toStanding _ p⟩
  | miss node p ha => exact ⟨Round.founded_miss hf ha node p, Round.attached_miss _ node p⟩
  | cancel node => exact ⟨Round.founded_cancel hf node, Round.attached_cancel hf.toStanding node⟩

theorem Amends.ne_attach (h : Amends d id c) (x : Exchange) : c ≠ .attach x := by
  cases h <;> nofun

/-- Every change that leaves its round in order is carried. -/
theorem Watched.changes (h : Watched base start past d) (hl : id < d.rounds.length)
    (hc : Changes d id c ms e) (hne : ∀ x, c ≠ .attach x)
    (hf : ((d.roundOf id).round.after c).Founded)
    (hat : ((d.roundOf id).round.after c).attached = (d.roundOf id).round.attached) :
    Carried base start past d ms e := by
  obtain ⟨hend, hfair⟩ := h.toAbreast.changes hl hc hne hf hat
  refine ⟨?_, hfair, ?_⟩
  · rw [hc.incidents, List.append_nil]
    refine ⟨hend, fun R => ?_⟩
    rw [hc.eq, round_changeRound d c hl]
    split
    · exact hf
    · exact h.founded R
  · rw [hc.eq]
    exact .changeRound h.gauged.honest hl hne

/-- A page takes a partition off its round. -/
theorem Watched.drain (h : Watched base start past d) (hl : id < d.rounds.length) {node : NodeId}
    {p : PartitionId} (hc : Changes d id (.drain node p) ms e) : Carried base start past d ms e :=
  h.changes hl hc nofun (Round.founded_drain (h.founded id) node p)
    (Round.attached_drain (h.founded id).toStanding node p)

end Changes

-- ============================================================================
-- Waiting for a round
-- ============================================================================

section Waiting

/-- The current round is otherwise as it was when someone comes to wait for it. -/
theorem Watched.wait (h : Watched base start past d) (hl : d.current < d.rounds.length)
    (tag : String) :
    Watched base start past (d.withWait d.current (.notify tag d.currentRound.attached)) := by
  have hsettles := h.gauged.withWait hl (.notify tag d.currentRound.attached)
  have hround := round_withWait d hl (w := .notify tag d.currentRound.attached)
  obtain ⟨-, -, -, hatt, -, -⟩ :=
    Round.onDone_answers d.currentRound (.notify tag d.currentRound.attached)
  have hattached : ∀ R,
      ((d.withWait d.current (.notify tag d.currentRound.attached)).roundOf R).round.attached =
        (d.roundOf R).round.attached := fun R => by
    rw [hround]
    split
    · next hR => rw [hR]; exact hatt
    · rfl
  have hflags : ∀ R, (d.withWait d.current (.notify tag d.currentRound.attached)).isInFlight R =
      d.isInFlight R := fun R => isInFlight_setRound R
  refine ⟨⟨hsettles.gauged h.gauged, fun Q hQ hne => ?_, fun R tag' pre post hwait => ?_,
    h.upheld.withWait hl _⟩, fun R => ?_⟩
  · rw [hattached] at hQ
    exact hsettles.ended Q (h.serial Q hQ hne)
  · rw [hattached, hflags]
    rw [hround] at hwait
    split at hwait
    · next hR =>
      subst hR
      rcases Round.waited_before hwait with ⟨mid, hbefore⟩ | ⟨rfl, hlast⟩
      · exact h.lined d.current tag' pre mid hbefore
      · -- With a plan bound the meters are in line already, if the round is in flight.
        obtain ⟨-, hbound⟩ := RoundWait.notify.inj hlast
        exact ⟨hbound, fun hfly => h.gauged.waits d.current hfly⟩
    · exact h.lined R tag' pre post hwait
  · rw [hround]
    split
    · exact Round.founded_onDone (h.founded d.current) _
    · exact h.founded R

theorem KeepsEnds.withWait {id : RoundId} (hl : id < d.rounds.length) (w : RoundWait) :
    KeepsEnds d (d.withWait id w) := by
  intro R s hs
  rw [round_withWait d hl]
  split
  · next hR =>
    rw [hR] at hs ⊢
    exact ⟨(Round.onDone_answers _ w).2.2.2.2.2.trans hs, rfl⟩
  · exact ⟨hs, rfl⟩

/-- Whoever comes to wait for a round that is done is told at once, with everything behind it. -/
theorem Watched.late (h : Watched base start past d) (hl : d.current < d.rounds.length)
    (tag : String) {s : Summary}
    (hs : (d.currentRound.onDone (.notify tag d.currentRound.attached)).2 = some s) :
    let x := d.withWait d.current (.notify tag d.currentRound.attached)
    Carried base start past d [.told d.current (.notify tag d.currentRound.attached) s x]
      (x.runWait d.current s (.notify tag d.currentRound.attached)) := by
  intro x
  have hwait : Watched base start past x := h.wait hl tag
  have hdone : (x.roundOf d.current).round.summary = some s := by
    rw [round_withWait d hl, if_pos rfl, (Round.onDone_answers _ _).2.2.2.2.2,
      ← Round.told_onDone _ (.notify tag d.currentRound.attached)]
    exact hs
  have hground : Grounded base d.current x := hwait.grounded (congrArg Option.isSome hdone)
  have hend : Watched base start past
      (x.runWait d.current s (.notify tag d.currentRound.attached)) :=
    hwait.still (fun _ => rfl) (Nat.le_refl _) rfl rfl
      (hwait.upheld.runWaits d.current s [.notify tag d.currentRound.attached])
  refine ⟨?_, fun before R w s' y after hsplit => ?_, .withWait hl _⟩
  · rwa [incidentsOf_told, incidentsOf_nil, List.append_nil]
  · rcases List.append_eq_singleton_iff.mp hsplit.symm with ⟨rfl, hcons⟩ | ⟨-, hcons⟩
    · obtain ⟨htold, -⟩ := List.cons_eq_cons.mp hcons
      cases htold
      rw [incidentsOf_nil, List.append_nil]
      refine ⟨(hwait.upheld.concluded (hwait.founded _) hdone).later (.of_round fun _ => rfl),
        fun _ _ => hground.active_eq rfl⟩
    · cases hcons

end Waiting

-- ============================================================================
-- Rounds that begin, pass or are abandoned
-- ============================================================================

section Beginnings

variable {id : RoundId}

/-- Nobody who came to wait for a bound round waits for one that is not bound yet. -/
theorem Abreast.ne_of_unbound (h : Abreast base start past d)
    (ha : (d.roundOf id).round.attached = false) {R : RoundId} {tag : String}
    {pre post : List RoundWait}
    (hw : (d.roundOf R).round.outcome.waiting = pre ++ .notify tag true :: post) : R ≠ id := by
  rintro rfl
  rw [(h.lined R tag pre post hw).1] at ha
  cases ha

theorem Watched.begin (h : Watched base start past d) (hs : d.Steady)
    (hover : ∀ R, (d.roundOf R).round.attached = true → (d.roundOf R).round.isDone = true)
    (hnone : ∀ R, d.isInFlight R = false) (hl : id < d.rounds.length)
    (ha : (d.roundOf id).round.attached = false) {plan : Plan} (hp : plan.isEmpty = false) :
    Carried base start past d [] (d.begin id plan) := by
  have hopen : (d.roundOf id).round.isDone = false := hs.open_of_unbound ha
  have hround := round_begin d hl plan
  have hb := beside_begin d id plan
  obtain ⟨hgauged, hflags⟩ := h.gauged.begin hs hnone hl ha plan
  obtain ⟨-, -, hout, hexchange, -⟩ := Round.started_answers (hs.standing id) ha plan
  have hother : ∀ R, R ≠ id → ((d.begin id plan).roundOf R).round = (d.roundOf R).round :=
    fun R hR => by rw [hround, if_neg hR]
  have hnothing : (((d.roundOf id).round.started plan).onDone RoundWait.settle).1.redriven = none := by
    have hv : (d.roundOf id).round.outcome.value = none := by
      simpa [Round.isDone, Promise.isDone] using hopen
    rw [Round.redriven, (Round.onDone_answers _ _).2.2.2.2.2, Round.summary, hout, hv]
    rfl
  refine .of_untold ⟨⟨hgauged, fun Q hQ hne => ?_, fun R tag pre post hwait => ?_, ?_⟩, fun R => ?_⟩
    (.of_open hopen hother)
  · rw [hb.current] at hne
    rw [hother Q hne] at hQ ⊢
    exact hover Q hQ
  · rw [hflags]
    by_cases hR : R = id
    · -- Only the meters have come to wait since.
      subst hR
      rw [hround, if_pos rfl] at hwait
      rcases Round.waited_before hwait with ⟨mid, hbefore⟩ | ⟨-, hlast⟩
      · rw [hout] at hbefore
        exact absurd rfl (h.ne_of_unbound ha hbefore)
      · cases hlast
    · rw [hother R hR] at hwait ⊢
      exact ⟨(h.lined R tag pre post hwait).1, fun hR' => absurd (of_decide_eq_true hR') hR⟩
  · refine h.upheld.same ((unloaded_begin h.gauged.honest hl hopen plan).idle hb.store hb.recorder)
      fun R x hx => ?_
    rw [hround] at hx
    split at hx
    · rw [hnothing] at hx
      cases hx
    · exact hx
  · rw [hround]
    split
    · refine Round.founded_onDone ⟨Round.standing_started (hs.standing id) ha hp, fun he => ?_⟩ _
      rw [hexchange] at he
      cases he
    · exact h.founded R

/-- Before a round that is left nothing to do ends, it is bound and not done, so it has come to nothing
    that could be seen. -/
theorem Abreast.vacate (h : Abreast base start past d) (hs : d.Steady)
    (hover : ∀ R, (d.roundOf R).round.attached = true → (d.roundOf R).round.isDone = true)
    (hnone : ∀ R, d.isInFlight R = false) (hl : id < d.rounds.length)
    (ha : (d.roundOf id).round.attached = false) (plan : Plan) :
    Abreast base start past (d.vacate id plan) := by
  obtain ⟨hgauged, hground⟩ := h.gauged.vacate hs hnone hl ha plan
  have hother : ∀ R, R ≠ id → ((d.vacate id plan).roundOf R).round = (d.roundOf R).round :=
    fun R hR => by rw [round_vacate hl, if_neg hR]
  refine ⟨hgauged, fun Q hQ hne => ?_, fun R tag pre post hwait => ?_,
    h.upheld.same ?_ fun R x hx => ?_⟩
  · rw [(beside_vacate d id plan).current] at hne
    rw [hother Q hne] at hQ ⊢
    exact hover Q hQ
  · have hsame : (d.roundOf R).round.outcome.waiting = pre ++ .notify tag true :: post := by
      rw [← hwait, round_vacate hl]
      split
      · next hR => rw [hR]; rfl
      · rfl
    rw [hother R (h.ne_of_unbound ha hsame), hground]
    exact ⟨(h.lined R tag pre post hsame).1, nofun⟩
  · exact (beside_vacate d id plan).idle rfl (List.prefix_refl _)
  · rw [round_vacate hl] at hx
    split at hx
    · have hdone : ((d.roundOf id).round.attach plan.exchange).isDone = true :=
        done_of_redriven (congrArg Option.isSome hx)
      have hopen := hs.open_of_unbound ha
      rw [show (d.roundOf id).round.isDone = true from hdone] at hopen
      cases hopen
    · exact hx

/-- A round that a plan leaves nothing to do ends at once, which is fair to those who wait. -/
theorem Watched.skip (h : Watched base start past d) (hs : d.Steady)
    (hover : ∀ R, (d.roundOf R).round.attached = true → (d.roundOf R).round.isDone = true)
    (hnone : ∀ R, d.isInFlight R = false) (hl : id < d.rounds.length)
    (ha : (d.roundOf id).round.attached = false) {plan : Plan}
    (hc : Changes (d.vacate id plan) id .complete ms e) :
    Carried base start past d ms (e.measure Board.roundSkipped) := by
  have hopen : (d.roundOf id).round.isDone = false := hs.open_of_unbound ha
  have hlen : id < (d.vacate id plan).rounds.length := by
    rw [(beside_vacate d id plan).rounds]
    exact hl
  have hself := round_vacate hl plan id
  rw [if_pos rfl] at hself
  obtain ⟨hstanding, hatt⟩ := Round.standing_complete
    (r := (d.roundOf id).round.attach plan.exchange) (hs.standing id).closed_iff
  have hfounded : (((d.vacate id plan).roundOf id).round.after .complete).Founded := by
    rw [hself]
    refine ⟨hstanding, fun he => ?_⟩
    rw [exchange_after _ (c := .complete) nofun] at he
    cases he
  obtain ⟨hend, hfair⟩ := (h.toAbreast.vacate hs hover hnone hl ha plan).changes hlen hc nofun
    hfounded (by
      rw [hself]
      exact hatt)
  have hother : ∀ R, R ≠ id → (e.roundOf R).round = (d.roundOf R).round := fun R hR => by
    rw [hc.eq, round_changeRound _ .complete hlen, if_neg hR, round_vacate hl, if_neg hR]
  have hwatched : Watched base start past e := by
    refine ⟨hend, fun R => ?_⟩
    by_cases hR : R = id
    · rw [hR, hc.eq, round_changeRound _ .complete hlen, if_pos rfl]
      exact hfounded
    · rw [hother R hR]
      exact h.founded R
  have hended : Carried base start past d ms e :=
    ⟨by rwa [hc.incidents, List.append_nil], hfair, .of_open hopen hother⟩
  have hcount := uneventful_measure e (f := Board.roundSkipped) (fun _ => rfl) fun _ => rfl
  have hboth := hended.trans (hended.watched.uneventful hcount)
  rwa [List.append_nil] at hboth

theorem Watched.abandon (h : Watched base start past d) (hl : d.current < d.rounds.length) :
    Carried base start past d [] d.abandonRound := by
  have hround := round_abandonRound d
  have hb := beside_abandonRound d
  obtain ⟨hgauged, hground⟩ := h.gauged.abandonRound hl
  refine .of_untold ⟨⟨hgauged, fun Q hQ hne => ?_, fun R tag pre post hwait => ?_, ?_⟩, fun R => ?_⟩
    (.of_round hround)
  · rw [hround] at hQ ⊢
    rw [hb.current] at hne
    exact h.serial Q hQ hne
  · rw [hround] at hwait ⊢
    rw [hground]
    exact ⟨(h.lined R tag pre post hwait).1, nofun⟩
  · refine h.upheld.same ((unloaded_abandonRound h.gauged.honest).idle hb.store hb.recorder)
      fun R x hx => ?_
    rwa [hround] at hx
  · rw [hround]
    exact h.founded R

end Beginnings

-- ============================================================================
-- Trails and runs
-- ============================================================================

/-- Every beat is carried. -/
theorem Watched.beat (h : Watched base start past d) (hb : Beat d ms e) :
    Carried base start past d ms e := by
  cases hb with
  | uneventful hi => exact h.uneventful hi
  | change hl ha hc =>
    obtain ⟨hf, hat⟩ := ha.founded (h.founded _)
    exact h.changes hl hc ha.ne_attach hf hat
  | pass job p hl ho hm hc =>
    have hpass := h.pass job hm
    exact hpass.trans (hpass.watched.drain hl hc)
  | load job p hl hp hc =>
    have hown := h.own job p
    exact hown.trans (hown.watched.drain hl hc)
  | join tag hl hs => exact .of_untold (h.wait hl tag) (.withWait hl _)
  | late tag s hl hs => exact h.late hl tag hs
  | begin plan hs hover hnone hl ha hp => exact h.begin hs hover hnone hl ha hp
  | skip plan hs hover hnone hl ha hc => exact h.skip hs hover hnone hl ha hc
  | abandon hl => exact h.abandon hl

theorem Watched.trail (h : Watched base start past d) (ht : Trail d ms e) :
    Carried base start past d ms e := by
  induction ht generalizing past with
  | nil d => exact .of_untold h (.refl d)
  | cons hb _ ih =>
    have hfirst := h.beat hb
    exact hfirst.trans (ih hfirst.watched)

end Watched

section Runs

variable {σ : Type} {settings : Settings} {site : Site} {register : Topic → σ → Except Fault σ}
  {s t : σ} {start : Demander}

end Runs

/-! ## A continuation behind a loaded and a missed partition -/

end Demander
end Rebalance
