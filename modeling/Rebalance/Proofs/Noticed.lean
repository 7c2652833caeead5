/-
  Rebalance.Proofs.Noticed

  What others notice of a demander at work.  Two things matter: that the
  exchange manager is asked to force an exchange, and that a partition is
  reported as loaded.  `Site.Quiet` is between two sites when neither happens;
  `Demander.Noticed` says of which rounds an exchange was forced between two
  demanders and which partitions were reported.  It adds up along a run.
-/
import Mathlib.Data.List.Basic
import Rebalance.Proofs.Load

namespace Rebalance

namespace Effect

/-- What the exchange manager is asked to force, and whether it is to reassign. -/
def dummy? : Effect → Option (Exchange × Bool)
  | dummy e reassign => some (e, reassign)
  | _ => none

/-- The partition that the recorder is told was loaded. -/
def loaded? : Effect → Option PartitionId
  | recorded (.partitionLoaded p _) => some p
  | _ => none

/-- Whether a continuation of a round ran. -/
def isNotified : Effect → Bool
  | notified .. => true
  | _ => false

end Effect

/-- What the exchange manager was asked to force, in order. -/
def dummiesOf (es : List Effect) : List (Exchange × Bool) := es.filterMap Effect.dummy?

/-- The partitions reported as loaded, in order. -/
def loadedOf (es : List Effect) : List PartitionId := es.filterMap Effect.loaded?

@[simp] theorem dummiesOf_append (es fs : List Effect) :
    dummiesOf (es ++ fs) = dummiesOf es ++ dummiesOf fs := List.filterMap_append

@[simp] theorem loadedOf_append (es fs : List Effect) :
    loadedOf (es ++ fs) = loadedOf es ++ loadedOf fs := List.filterMap_append

theorem Recorder.enabled_record (r : Recorder) (e : Event) : (r.record e).enabled = r.enabled := by
  unfold record
  split <;> rfl

-- ============================================================================
-- Sites of which nothing is noticed
-- ============================================================================

namespace Site

/-- Between the two sites no exchange was forced, and no partition reported or counted as
    loaded. -/
structure Quiet (s t : Site) : Prop where
  trace : ∃ es, t.trace = s.trace ++ es ∧ dummiesOf es = [] ∧ loadedOf es = []
  enabled : t.recorder.enabled = s.recorder.enabled
  owned : t.board.partitionsOwned.value = s.board.partitionsOwned.value

theorem Quiet.refl (s : Site) : Quiet s s := ⟨⟨[], by simp, rfl, rfl⟩, rfl, rfl⟩

theorem Quiet.trans {s t u : Site} (h₁ : Quiet s t) (h₂ : Quiet t u) : Quiet s u := by
  obtain ⟨es, he, hd, hl⟩ := h₁.trace
  obtain ⟨fs, hf, hd', hl'⟩ := h₂.trace
  refine ⟨⟨es ++ fs, ?_, ?_, ?_⟩, h₂.enabled.trans h₁.enabled, h₂.owned.trans h₁.owned⟩
  · rw [hf, he, List.append_assoc]
  · rw [dummiesOf_append, hd, hd']
    rfl
  · rw [loadedOf_append, hl, hl']
    rfl

/-- Between the two sites no continuation of a round ran. -/
def Hushed (s t : Site) : Prop :=
  ∃ es, t.trace = s.trace ++ es ∧ ∀ e ∈ es, e.isNotified = false

theorem Hushed.of_trace {s t : Site} (h : t.trace = s.trace) : Hushed s t :=
  ⟨[], by rw [h, List.append_nil], fun _ he => absurd he List.not_mem_nil⟩

theorem Hushed.refl (s : Site) : Hushed s s := .of_trace rfl

theorem Hushed.trans {s t u : Site} (h₁ : Hushed s t) (h₂ : Hushed t u) : Hushed s u := by
  obtain ⟨es, he, hes⟩ := h₁
  obtain ⟨fs, hf, hfs⟩ := h₂
  exact ⟨es ++ fs, by rw [hf, he, List.append_assoc], fun e hmem =>
    (List.mem_append.mp hmem).elim (hes e) (hfs e)⟩

theorem hushed_emit (s : Site) {e : Effect} (h : e.isNotified = false) : Hushed s (s.emit e) :=
  ⟨[e], rfl, fun f hf => by rwa [List.mem_singleton.mp hf]⟩

theorem hushed_report (s : Site) (e : Event) : Hushed s (s.report e) := by
  unfold report
  split
  · exact hushed_emit _ rfl
  · exact .refl s

theorem quiet_measure (s : Site) {f : Board → Board}
    (hf : ∀ b, (f b).partitionsOwned.value = b.partitionsOwned.value) : Quiet s (s.measure f) :=
  ⟨⟨[], by simp [measure], rfl, rfl⟩, rfl, hf s.board⟩

theorem quiet_emit (s : Site) {e : Effect} (hd : e.dummy? = none) (hl : e.loaded? = none) :
    Quiet s (s.emit e) := by
  refine ⟨⟨[e], rfl, ?_, ?_⟩, rfl, rfl⟩
  · simp [dummiesOf, hd]
  · simp [loadedOf, hl]

theorem quiet_report (s : Site) {e : Event} (hl : (Effect.recorded e).loaded? = none) :
    Quiet s (s.report e) := by
  unfold report
  split
  · refine ⟨⟨[.recorded e], rfl, rfl, ?_⟩, Recorder.enabled_record _ _, rfl⟩
    simp [loadedOf, hl]
  · exact .refl s

/-- The recorder is told of a loaded partition if it wants to know. -/
theorem report_loaded (s : Site) (p : PartitionId) (discovery : Discovery) :
    (s.report (.partitionLoaded p discovery)).trace = s.trace ++
        (if s.recorder.isRecordable .partitionLoaded then
          [.recorded (.partitionLoaded p discovery)] else []) ∧
      (s.report (.partitionLoaded p discovery)).recorder.enabled = s.recorder.enabled ∧
      (s.report (.partitionLoaded p discovery)).board = s.board := by
  by_cases h : s.recorder.isRecordable .partitionLoaded = true
  · have hs : s.report (.partitionLoaded p discovery) =
        { s with recorder := s.recorder.record (.partitionLoaded p discovery) }.emit
          (.recorded (.partitionLoaded p discovery)) := if_pos h
    rw [hs, if_pos h]
    exact ⟨rfl, Recorder.enabled_record _ _, rfl⟩
  · have hs : s.report (.partitionLoaded p discovery) = s := if_neg h
    rw [hs, if_neg h]
    exact ⟨(List.append_nil _).symm, rfl, rfl⟩

theorem quiet_settleWrite (s : Site) (sender : NodeId) (p : PartitionId) (e : Entry)
    (r : Except StoreFault InsertOutcome) : Quiet s (s.settleWrite sender p e r).1 := by
  unfold settleWrite
  split
  · have h : Quiet s ((s.onStore (·.track p e.key)).measure Board.entryApplied) :=
      ⟨⟨[], by simp [measure, onStore], rfl, rfl⟩, rfl, rfl⟩
    simp only
    split
    · exact h
    · exact h.trans (quiet_report _ rfl)
  · exact quiet_measure s fun _ => rfl
  · exact quiet_measure s fun _ => rfl
  · exact .refl s
  · exact ⟨⟨[], by simp [measure, onStore], rfl, rfl⟩, rfl, rfl⟩
  · exact .refl s

theorem quiet_takeIn (s : Site) (sender : NodeId) (p : PartitionId) (e : Entry) :
    Quiet s (s.takeIn sender p e).1 := by
  unfold takeIn
  split
  · exact quiet_measure s fun _ => rfl
  · split
    · exact quiet_measure s fun _ => rfl
    · have h := quiet_settleWrite { s with store := (s.store.insertIfNewer p e).1 } sender p e
        (s.store.insertIfNewer p e).2
      exact ⟨h.trace, h.enabled, h.owned⟩

/-- However many entries are taken in, no partition is reported as loaded. -/
theorem quiet_takeInAll (s : Site) (sender : NodeId) (p : PartitionId) (entries : List Entry) :
    Quiet s (s.takeInAll sender p entries).1 := by
  induction entries generalizing s with
  | nil => exact .refl s
  | cons e rest ih =>
    unfold takeInAll
    split
    · exact (quiet_measure s (f := Board.entrySkipped) fun _ => rfl).trans (ih _)
    · have h := quiet_takeIn s sender p e
      split
      · next t ht =>
        rw [ht] at h
        exact h.trans (ih _)
      · next t ht =>
        rw [ht] at h
        exact h
      · next t cause ht =>
        rw [ht] at h
        exact h

end Site

-- ============================================================================
-- Demanders
-- ============================================================================

/-- The exchange that was forced when a round ended. -/
def Round.redriven {κ : Type} (r : Round κ) : Option Exchange := r.summary.bind r.forced

theorem Round.redriven_congr {κ : Type} {r t : Round κ} (hs : t.summary = r.summary)
    (he : t.exchange = r.exchange) : t.redriven = r.redriven := by
  have hforced : t.forced = r.forced := funext fun s => by simp only [forced, he]
  rw [redriven, redriven, hs, hforced]

namespace Demander

/-- A round says that it is done as soon as it is closed. -/
def Honest (d : Demander) : Prop :=
  ∀ id, (d.roundOf id).round.closed = (d.roundOf id).round.isDone

/-- What the manager is asked for the sake of rounds. -/
def redrives (d : Demander) (ids : List RoundId) : List (Exchange × Bool) :=
  ids.filterMap fun id => (d.roundOf id).round.redriven.map fun e => (e, true)

/-- Whether the recorder is told of loaded partitions. -/
def tells (d : Demander) : Bool := d.site.recorder.isRecordable .partitionLoaded

/-- How many partitions were counted as loaded. -/
def countOwned (d : Demander) : UInt64 := d.site.board.partitionsOwned.value

/-- What the effects `es` tell between two demanders: an exchange was forced for each of the rounds
    `ids`, which are those that ended with misses, and the partitions `ps` were counted, and
    reported if the recorder wants to know, as loaded. -/
structure Heard (d e : Demander) (es : List Effect) (ids : List RoundId) (ps : List PartitionId) :
    Prop where
  dummies : dummiesOf es = e.redrives ids
  loaded : loadedOf es = if d.tells then ps else []
  enabled : e.site.recorder.enabled = d.site.recorder.enabled
  owned : e.countOwned = d.countOwned + UInt64.ofNat ps.length
  once : ids.Nodup
  ended : ∀ id, id ∈ ids ↔
    (d.roundOf id).round.isDone = false ∧ (e.roundOf id).round.redriven.isSome = true
  stays : ∀ id, (d.roundOf id).round.isDone = true →
    (e.roundOf id).round.isDone = true ∧
      (e.roundOf id).round.redriven = (d.roundOf id).round.redriven

/-- What is noticed between two demanders while one works. -/
structure Noticed (d e : Demander) (ids : List RoundId) (ps : List PartitionId) : Prop where
  heard : ∃ es, e.site.trace = d.site.trace ++ es ∧ Heard d e es ids ps
  honest : e.Honest

theorem done_of_redriven {κ : Type} {r : Round κ} (h : r.redriven.isSome = true) :
    r.isDone = true := by
  cases hs : r.summary with
  | none => simp [Round.redriven, hs] at h
  | some s => exact congrArg Option.isSome hs

theorem Heard.trans {d e f : Demander} {es fs : List Effect} {ids ids' : List RoundId}
    {ps ps' : List PartitionId} (h₁ : Heard d e es ids ps) (h₂ : Heard e f fs ids' ps') :
    Heard d f (es ++ fs) (ids ++ ids') (ps ++ ps') := by
  -- A round of `ids` is done by then, so what was forced for it stays, and it is not among `ids'`.
  have hdone : ∀ id ∈ ids, (e.roundOf id).round.isDone = true := fun id hid =>
    done_of_redriven ((h₁.ended id).mp hid).2
  have htells : e.tells = d.tells := by
    simp only [tells, Recorder.isRecordable, h₁.enabled]
  refine ⟨?_, ?_, h₂.enabled.trans h₁.enabled, ?_, ?_, fun id => ?_, fun id hid => ?_⟩
  · have hsame : e.redrives ids = f.redrives ids :=
      List.filterMap_congr fun id hid => by rw [(h₂.stays id (hdone id hid)).2]
    rw [dummiesOf_append, h₁.dummies, h₂.dummies, hsame]
    exact List.filterMap_append.symm
  · rw [loadedOf_append, h₁.loaded, h₂.loaded, htells]
    split <;> rfl
  · rw [h₂.owned, h₁.owned, List.length_append, UInt64.ofNat_add, UInt64.add_assoc]
  · refine List.nodup_append.mpr ⟨h₁.once, h₂.once, ?_⟩
    rintro id hid _ hid' rfl
    have hopen := ((h₂.ended id).mp hid').1
    rw [hdone id hid] at hopen
    cases hopen
  · rw [List.mem_append, h₁.ended, h₂.ended]
    cases hd : (d.roundOf id).round.isDone with
    | true => simp [(h₁.stays id hd).1]
    | false =>
      cases he : (e.roundOf id).round.isDone with
      | true => simp [(h₂.stays id he).2]
      | false =>
        have hn : (e.roundOf id).round.redriven.isSome = false := by
          rw [Bool.eq_false_iff]
          intro hsome
          rw [done_of_redriven hsome] at he
          cases he
        simp [hn]
  · obtain ⟨he, hr⟩ := h₁.stays id hid
    obtain ⟨hf, hr'⟩ := h₂.stays id he
    exact ⟨hf, hr'.trans hr⟩

/-- Nothing is heard between two demanders whose rounds end no more than before. -/
theorem Heard.of_rounds {d e : Demander} {es : List Effect} (hd : dummiesOf es = [])
    (hl : loadedOf es = []) (he : e.site.recorder.enabled = d.site.recorder.enabled)
    (ho : e.countOwned = d.countOwned)
    (hr : ∀ id, (e.roundOf id).round.summary = (d.roundOf id).round.summary ∧
      ((d.roundOf id).round.isDone = true →
        (e.roundOf id).round.exchange = (d.roundOf id).round.exchange)) :
    Heard d e es [] [] := by
  have hdone : ∀ id, (e.roundOf id).round.isDone = (d.roundOf id).round.isDone := fun id =>
    congrArg Option.isSome (hr id).1
  refine ⟨hd, by simp [hl], he, ?_, List.nodup_nil, fun id => ?_, fun id hid => ?_⟩
  · rw [ho]
    exact (UInt64.add_zero _).symm
  · simp only [List.not_mem_nil, false_iff, not_and]
    intro hfalse hsome
    rw [← hdone, done_of_redriven hsome] at hfalse
    cases hfalse
  · exact ⟨(hdone id).trans hid, Round.redriven_congr (hr id).1 ((hr id).2 hid)⟩

theorem Noticed.trans {d e f : Demander} {ids ids' : List RoundId} {ps ps' : List PartitionId}
    (h₁ : Noticed d e ids ps) (h₂ : Noticed e f ids' ps') :
    Noticed d f (ids ++ ids') (ps ++ ps') := by
  obtain ⟨es, he, h₁⟩ := h₁.heard
  obtain ⟨fs, hf, h⟩ := h₂.heard
  exact ⟨⟨es ++ fs, by rw [hf, he, List.append_assoc], h₁.trans h⟩, h₂.honest⟩

/-- Nothing is noticed of a quiet site whose rounds end no more than before. -/
theorem Noticed.of_quiet {d e : Demander} (hd : d.Honest) (h : d.site.Quiet e.site)
    (hr : ∀ id, (e.roundOf id).round.summary = (d.roundOf id).round.summary ∧
      ((d.roundOf id).round.isDone = true →
        (e.roundOf id).round.exchange = (d.roundOf id).round.exchange) ∧
      (e.roundOf id).round.closed = (d.roundOf id).round.closed) :
    Noticed d e [] [] := by
  obtain ⟨es, he, hdum, hl⟩ := h.trace
  refine ⟨⟨es, he, .of_rounds hdum hl h.enabled h.owned fun id => ⟨(hr id).1, (hr id).2.1⟩⟩,
    fun id => ?_⟩
  rw [(hr id).2.2, hd id]
  exact congrArg Option.isSome (hr id).1.symm

theorem Noticed.of_rounds {d e : Demander} (hd : d.Honest) (h : d.site.Quiet e.site)
    (hr : ∀ id, (e.roundOf id).round = (d.roundOf id).round) : Noticed d e [] [] :=
  .of_quiet hd h fun id => by
    rw [hr]
    exact ⟨rfl, fun _ => rfl, rfl⟩

-- ============================================================================
-- Changes to rounds
-- ============================================================================

/-- The meters settle a round without a trace. -/
theorem trace_settleRound (d : Demander) (id : RoundId) (s : Summary) :
    (d.settleRound id s).site.trace = d.site.trace := by
  unfold settleRound
  simp only
  split <;> rfl

theorem quiet_settleRound (d : Demander) (id : RoundId) (s : Summary) :
    d.site.Quiet (d.settleRound id s).site := by
  unfold settleRound
  simp only
  split
  · exact ⟨⟨[], (List.append_nil _).symm, rfl, rfl⟩, rfl, rfl⟩
  · exact Site.quiet_measure d.site (f := (·.roundCompleted s.missed.size)) fun _ => rfl

theorem quiet_runWaits (d : Demander) (id : RoundId) (s : Summary) (ws : List RoundWait) :
    d.site.Quiet (ws.foldl (fun d w => d.runWait id s w) d).site := by
  induction ws generalizing d with
  | nil => exact .refl _
  | cons w ws ih =>
    refine Site.Quiet.trans ?_ (ih _)
    have hseen : d.site.Quiet (d.emit (.notified id w s d.site.glimpse)).site :=
      Site.quiet_emit _ rfl rfl
    cases w with
    | settle => exact hseen.trans (quiet_settleRound _ id s)
    | notify tag bound => exact hseen

/-- The demander once the exchange that a summary asks for is forced. -/
def forcing (d : Demander) (id : RoundId) (s : Summary) : Demander :=
  match (d.roundOf id).round.forced s with
  | none => d
  | some e => d.emit (.dummy e true)

theorem conclude_eq (d : Demander) (id : RoundId) (s : Summary) :
    d.conclude id s = ((d.roundOf id).round.announce s).2.foldl (fun d w => d.runWait id s w)
      ((d.forcing id s).setRound id
        { d.roundOf id with round := ((d.roundOf id).round.announce s).1 }) := rfl

/-- The exchange is forced, and whoever waited for the round hears of nothing else. -/
theorem quiet_conclude (d : Demander) (id : RoundId) (s : Summary) :
    (d.forcing id s).site.Quiet (d.conclude id s).site := by
  rw [conclude_eq]
  exact quiet_runWaits ((d.forcing id s).setRound id _) id s _

theorem forcing_site (d : Demander) (id : RoundId) (s : Summary) :
    (d.forcing id s).site.trace = d.site.trace ++
        ((d.roundOf id).round.forced s).toList.map (fun e => .dummy e true) ∧
      (d.forcing id s).site.recorder = d.site.recorder ∧
      (d.forcing id s).countOwned = d.countOwned := by
  unfold forcing
  cases (d.roundOf id).round.forced s with
  | none => simp
  | some e => exact ⟨rfl, rfl, rfl⟩

/-- No change but to bind the round touches its exchange. -/
theorem exchange_after {κ : Type} (r : Round κ) {c : Round.Change} (hc : ∀ e, c ≠ .attach e) :
    (r.after c).exchange = r.exchange := by
  rw [← Round.exchange_change r hc, Round.after]
  cases h : r.change c with
  | mk t s =>
    cases s with
    | none => rfl
    | some s =>
      simp only [Round.announced, Round.announce]
      split <;> rfl

/-- The change that closes a round, with the announcement that follows. -/
theorem after_closing {κ : Type} {r : Round κ} {c : Round.Change} {s : Summary}
    (h : (r.change c).2 = some s) (hd : r.isDone = false) :
    r.after c = { (r.change c).1 with outcome := { value := some s, waiting := [] } } := by
  have hpair : r.change c = ((r.change c).1, some s) := Prod.ext rfl h
  have hv : (r.change c).1.outcome.value = none := by
    rw [Round.change_waiting]
    simpa [Round.isDone, Promise.isDone] using hd
  rw [Round.after, hpair]
  simp [Round.announced, Round.announce, Promise.complete, hv]

/-- One round ends, the exchange that it asks for is forced, and else nothing is noticed. -/
theorem Noticed.of_end {d e : Demander} (hd : d.Honest) {id : RoundId} {x : Site}
    (hx : x.trace = d.site.trace ++
      (e.roundOf id).round.redriven.toList.map (fun e => .dummy e true))
    (hr : x.recorder = d.site.recorder)
    (ho : x.board.partitionsOwned.value = d.countOwned) (hq : x.Quiet e.site)
    (hopen : (d.roundOf id).round.isDone = false)
    (hself : (e.roundOf id).round.closed = true ∧ (e.roundOf id).round.isDone = true)
    (hother : ∀ id', id' ≠ id → (e.roundOf id').round = (d.roundOf id').round) :
    Noticed d e (if (e.roundOf id).round.redriven.isSome then [id] else []) [] := by
  obtain ⟨es, he, hdum, hload⟩ := hq.trace
  refine ⟨⟨_, by rw [he, hx, List.append_assoc], ?_, ?_, ?_, ?_, ?_, fun id' => ?_,
    fun id' hdone => ?_⟩, fun id' => ?_⟩
  · rw [dummiesOf_append, hdum, List.append_nil, redrives]
    cases hf : (e.roundOf id).round.redriven with
    | none => rfl
    | some e => simp [hf, dummiesOf, Effect.dummy?]
  · rw [loadedOf_append, hload, List.append_nil, ite_self]
    cases (e.roundOf id).round.redriven <;> rfl
  · rw [hq.enabled, hr]
  · exact (hq.owned.trans ho).trans (UInt64.add_zero _).symm
  · split <;> simp
  · by_cases hid : id' = id
    · rw [hid, hopen]
      cases (e.roundOf id).round.redriven <;> simp
    · rw [hother id' hid]
      constructor
      · intro hmem
        split at hmem <;> simp_all
      · rintro ⟨hfalse, hsome⟩
        rw [done_of_redriven hsome] at hfalse
        cases hfalse
  · have hne : id' ≠ id := by
      rintro rfl
      rw [hopen] at hdone
      cases hdone
    rw [hother id' hne]
    exact ⟨hdone, rfl⟩
  · by_cases hid : id' = id
    · rw [hid, hself.1, hself.2]
    · rw [hother id' hid]
      exact hd id'

/-- What is noticed of a change to a round: if it closes the round with misses, an exchange is
    forced. -/
theorem noticed_changeRound {d : Demander} (hd : d.Honest) {id : RoundId}
    (hl : id < d.rounds.length) {c : Round.Change}
    (hc : ∀ e, c = .attach e → (d.roundOf id).round.isDone = false) :
    ∃ ids, Noticed d (d.changeRound id c) ids [] := by
  have hround := round_changeRound d c hl
  cases hs : ((d.roundOf id).round.change c).2 with
  | none =>
    have hsame : d.changeRound id c = d.withChange id c := by rw [changeRound_eq, hs]
    rw [hsame]
    refine ⟨[], .of_quiet hd (.refl _) fun id' => ?_⟩
    rw [round_withChange d c hl]
    by_cases hid : id' = id
    · subst hid
      rw [if_pos rfl]
      refine ⟨?_, fun hdone => Round.exchange_change _ fun e he => ?_, ?_⟩
      · rw [Round.summary, Round.change_waiting]
        rfl
      · rw [hc e he] at hdone
        cases hdone
      · rw [Round.change_closed, hs]
        simp
    · rw [if_neg hid]
      exact ⟨rfl, fun _ => rfl, rfl⟩
  | some s =>
    have hopen : (d.roundOf id).round.isDone = false := Round.open_of_closing (hd id) hs
    have hself : ((d.changeRound id c).roundOf id).round =
        { ((d.roundOf id).round.change c).1 with
          outcome := { value := some s, waiting := [] } } := by
      rw [hround, if_pos rfl, after_closing hs hopen]
    have heq : d.changeRound id c = (d.withChange id c).conclude id s := by
      rw [changeRound_eq, hs]
    obtain ⟨htrace, hrec, hown⟩ := forcing_site (d.withChange id c) id s
    have hforced : ((d.withChange id c).roundOf id).round.forced s =
        ((d.changeRound id c).roundOf id).round.redriven := by
      rw [round_withChange d c hl, if_pos rfl, hself]
      rfl
    rw [hforced] at htrace
    have hquiet := quiet_conclude (d.withChange id c) id s
    rw [← heq] at hquiet
    refine ⟨_, .of_end hd htrace hrec hown hquiet hopen ?_ fun id' hne => ?_⟩
    · rw [hself]
      exact ⟨(Round.change_closed _ c).trans (by rw [hs]; simp), rfl⟩
    · rw [hround, if_neg hne]

-- ============================================================================
-- What is noticed of everything but loads
-- ============================================================================

/-- Nothing that is noticed is about loaded partitions. -/
def Unloaded (d e : Demander) : Prop := ∃ ids, Noticed d e ids []

theorem Unloaded.honest {d e : Demander} (h : Unloaded d e) : e.Honest := h.elim fun _ h => h.honest

theorem Unloaded.trans {d e f : Demander} (h₁ : Unloaded d e) (h₂ : Unloaded e f) :
    Unloaded d f := by
  obtain ⟨ids, h₁⟩ := h₁
  obtain ⟨ids', h₂⟩ := h₂
  exact ⟨ids ++ ids', h₁.trans h₂⟩

theorem Unloaded.of_rounds {d e : Demander} (hd : d.Honest) (h : d.site.Quiet e.site)
    (hr : ∀ id, (e.roundOf id).round = (d.roundOf id).round) : Unloaded d e :=
  ⟨[], .of_rounds hd h hr⟩

theorem unloaded_measure {d : Demander} (hd : d.Honest) {f : Board → Board}
    (hf : ∀ b, (f b).partitionsOwned.value = b.partitionsOwned.value) : Unloaded d (d.measure f) :=
  .of_rounds hd (Site.quiet_measure _ hf) fun _ => rfl

theorem unloaded_flag {d : Demander} (hd : d.Honest) (id : RoundId) (b : Bool) :
    Unloaded d (d.flag id b) :=
  .of_rounds hd (.refl _) fun id' => round_flag d id id' b

theorem unloaded_foldl {α : Type} {f : Demander → α → Demander} {id : RoundId}
    (hf : ∀ d a, d.Honest → id < d.rounds.length →
      Unloaded d (f d a) ∧ (f d a).rounds.length = d.rounds.length)
    {d : Demander} (hd : d.Honest) (hl : id < d.rounds.length) (l : List α) :
    Unloaded d (l.foldl f d) := by
  induction l generalizing d with
  | nil => exact .of_rounds hd (.refl _) fun _ => rfl
  | cons a l ih =>
    obtain ⟨h, hlen⟩ := hf d a hd hl
    exact h.trans (ih h.honest (by rw [hlen]; exact hl))

section Rounds

variable {d : Demander} (hd : d.Honest) {id : RoundId} (hl : id < d.rounds.length)

include hd hl

theorem unloaded_changeRound {c : Round.Change} (hc : ∀ e, c ≠ .attach e) :
    Unloaded d (d.changeRound id c) :=
  noticed_changeRound hd hl fun e he => absurd he (hc e)

theorem unloaded_cancelNode (node : NodeId) (reason : CancelReason) :
    Unloaded d (d.cancelNode id node reason) := by
  have h : Unloaded d (d.changeRound id (.cancel node)) := unloaded_changeRound hd hl nofun
  exact h.trans (unloaded_measure h.honest fun _ => rfl)

theorem unloaded_missOwned (node : NodeId) (t : Topology) (p : PartitionId) :
    Unloaded d (d.missOwned id node t p) := by
  unfold missOwned
  split
  · have h : Unloaded d (d.changeRound id (.miss node p)) := unloaded_changeRound hd hl nofun
    exact h.trans (unloaded_measure h.honest fun _ => rfl)
  · exact .of_rounds hd (.refl _) fun _ => rfl

theorem unloaded_missAll (node : NodeId) (t : Topology) (ps : List PartitionId) :
    Unloaded d (ps.foldl (fun d p => d.missOwned id node t p) d) :=
  unloaded_foldl (fun d p hd hl =>
    ⟨unloaded_missOwned hd hl node t p, (beside_missOwned d id node p t).rounds⟩) hd hl ps

theorem unloaded_changeRounds {α : Type} {c : α → Round.Change} (hc : ∀ a e, c a ≠ .attach e)
    (l : List α) : Unloaded d (l.foldl (fun d a => d.changeRound id (c a)) d) :=
  unloaded_foldl (fun d a hd hl =>
    ⟨unloaded_changeRound hd hl (hc a), (beside_changeRound d id (c a)).rounds⟩) hd hl l

theorem unloaded_endShipment (s : Shipment) : Unloaded d (d.endShipment id s) := by
  rw [endShipment_eq]
  cases s.failure with
  | none => exact .of_rounds hd (.refl _) fun _ => rfl
  | some cause =>
    have h := unloaded_missAll hd hl s.node s.topology
      ((d.roundOf id).round.outstandingFrom s.node).toList
    refine h.trans (unloaded_cancelNode h.honest ?_ s.node _)
    rw [(beside_missAll d id s.node s.topology _).rounds]
    exact hl

theorem unloaded_whenDone (w : RoundWait) : Unloaded d (d.whenDone id w) := by
  have hwait : Unloaded d (d.withWait id w) := by
    refine ⟨[], .of_quiet hd (.refl _) fun id' => ?_⟩
    obtain ⟨-, -, -, -, hclosed, hsum⟩ := Round.onDone_answers (d.roundOf id).round w
    unfold withWait
    rw [roundOf_setRound]
    by_cases hid : id' = id
    · rw [if_pos ⟨hid, hl⟩, hid]
      exact ⟨hsum, fun _ => rfl, hclosed⟩
    · rw [if_neg fun h => hid h.1]
      exact ⟨rfl, fun _ => rfl, rfl⟩
  rw [whenDone_eq]
  split
  · exact hwait
  · next s hs =>
    exact hwait.trans (.of_rounds hwait.honest (quiet_runWaits (d.withWait id w) id s [w])
      fun id' => round_runWait _ id id' s w)

theorem unloaded_awaitAll (hopen : (d.roundOf id).round.isDone = false) (plan : Plan) :
    Unloaded d (d.awaitAll id plan) := by
  have h₁ : Unloaded d (d.changeRound id (.attach plan.exchange)) :=
    noticed_changeRound hd hl fun _ _ => hopen
  have hl₁ : id < (d.changeRound id (.attach plan.exchange)).rounds.length := by
    rw [(beside_changeRound d id _).rounds]
    exact hl
  exact h₁.trans (unloaded_changeRounds h₁.honest hl₁
    (c := fun e : NodeId × Demand => .append e.1 e.2.partitions) nofun plan.demands.toList)

/-- A plan that starts a round that is not done. -/
theorem unloaded_begin (hopen : (d.roundOf id).round.isDone = false) (plan : Plan) :
    Unloaded d (d.begin id plan) := by
  have h₁ := unloaded_awaitAll hd hl hopen plan
  have h₂ := h₁.trans (unloaded_measure h₁.honest (f := Board.roundStarted) fun _ => rfl)
  have h₃ := h₂.trans (unloaded_flag h₂.honest id true)
  have hl₃ : id < (((d.awaitAll id plan).measure Board.roundStarted).flag id true).rounds.length := by
    rw [(beside_flag _ id true).rounds, (beside_measure _ _).rounds,
      (beside_awaitAll d id plan).rounds]
    exact hl
  have h₄ := h₃.trans (unloaded_whenDone h₃.honest hl₃ .settle)
  exact h₄.trans (.of_rounds h₄.honest (.refl _) fun _ => rfl)

/-- A plan that leaves a round that is not done nothing to do. -/
theorem unloaded_pass (hopen : (d.roundOf id).round.isDone = false) (plan : Plan) :
    Unloaded d (d.pass id plan) := by
  have h₁ : Unloaded d (d.changeRound id (.attach plan.exchange)) :=
    noticed_changeRound hd hl fun _ _ => hopen
  have h₂ : Unloaded d { d.changeRound id (.attach plan.exchange) with
      current := id, plan := none } :=
    h₁.trans (.of_rounds h₁.honest (.refl _) fun _ => rfl)
  have h₃ := h₂.trans (unloaded_flag h₂.honest id false)
  have h₄ := h₃.trans (unloaded_changeRound h₃.honest (c := .complete)
    (by rw [(beside_flag _ id false).rounds]; exact (beside_changeRound d id _).rounds ▸ hl) nofun)
  exact h₄.trans (unloaded_measure h₄.honest fun _ => rfl)

end Rounds

/-- A partition that was loaded is counted, and reported if the recorder wants to know. -/
theorem site_ownAndReport (d : Demander) (job : PageJob) (p : PartitionId) :
    (d.ownAndReport job p).site.trace = d.site.trace ++
        (if d.tells then [.recorded (.partitionLoaded p job.discovery)] else []) ∧
      (d.ownAndReport job p).site.recorder.enabled = d.site.recorder.enabled ∧
      (d.ownAndReport job p).countOwned = d.countOwned + 1 := by
  have h := Site.report_loaded ((d.onStore fun st => (st.own p).1).measure
    Board.partitionOwned).site p job.discovery
  exact ⟨h.1, h.2.1, congrArg (·.partitionsOwned.value) h.2.2⟩

section Pages

variable {d : Demander} (hd : d.Honest) {job : PageJob} (hl : job.round < d.rounds.length)

include hd hl

theorem unloaded_settleMissed : Unloaded d (d.settleMissed job) := by
  have h := unloaded_missAll hd hl job.sender job.demand.topology job.page.missed.toList
  refine h.trans (unloaded_changeRounds h.honest ?_ (c := fun p => .drain job.sender p) nofun _)
  rw [(beside_missAll d job.round job.sender job.demand.topology _).rounds]
  exact hl

omit hl in
theorem noticed_ownAndReport (job : PageJob) (p : PartitionId) :
    Noticed d (d.ownAndReport job p) [] [p] := by
  have hrounds : ∀ id, ((d.ownAndReport job p).roundOf id).round = (d.roundOf id).round :=
    fun _ => rfl
  have hsite := site_ownAndReport d job p
  refine ⟨⟨_, hsite.1, ?_, ?_, hsite.2.1, hsite.2.2, List.nodup_nil, fun id => ?_,
    fun id hid => ?_⟩, fun id => ?_⟩
  · split <;> rfl
  · split <;> rfl
  · simp only [hrounds, List.not_mem_nil, false_iff, not_and]
    intro hfalse hsome
    rw [done_of_redriven hsome] at hfalse
    cases hfalse
  · simp [hrounds, hid]
  · rw [hrounds]
    exact hd id

/-- Of a load that completes its partition it is noticed that the partition was loaded. -/
theorem noticed_load (p : PartitionId) (entries : List Entry) :
    ∃ ids, Noticed d (d.load job p entries).1 ids
      (if d.completes job p entries then [p] else []) := by
  have h₁ : Noticed d (d.takenIn job p entries) [] [] :=
    .of_rounds hd (Site.quiet_takeInAll d.site job.sender p entries) fun _ => rfl
  have hgo : ∀ {e : Demander}, e.Honest → Noticed e (e.letGo p) [] [] := fun he =>
    .of_rounds he ⟨⟨[], by simp [letGo, onStore, Site.onStore], rfl, rfl⟩, rfl, rfl⟩ fun _ => rfl
  rw [load_cases]
  by_cases hc : d.completes job p entries = true
  · have h₂ := h₁.trans (noticed_ownAndReport h₁.honest job p)
    have hl₂ : job.round < ((d.takenIn job p entries).ownAndReport job p).rounds.length := hl
    obtain ⟨ids, h₃⟩ := unloaded_changeRound h₂.honest hl₂ (c := .drain job.sender p) (by rintro e ⟨⟩)
    rw [if_pos hc, if_pos hc, ownLoaded]
    exact ⟨_, (h₂.trans h₃).trans (hgo h₃.honest)⟩
  · rw [if_neg hc, if_neg hc]
    exact ⟨_, h₁.trans (hgo h₁.honest)⟩

end Pages

end Demander
end Rebalance
