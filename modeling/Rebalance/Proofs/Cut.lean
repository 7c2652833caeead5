/-
  Rebalance.Proofs.Cut

  A page that fails is cut at the failing point.  `takeInAll_error` finds the
  entry at which the store stops a partition, and `Walks.cut` the partition at
  which the work on a page stops; what came before goes as in any other page, and
  what comes after is not looked at.  `failing_page_is_cut` draws the consequences:
  nothing but what came before is left behind, and the sender is given up.
-/
import Rebalance.Proofs.Duplicate
import Rebalance.Proofs.PartitionHold

namespace Rebalance

-- ============================================================================
-- Writes that fail
-- ============================================================================

namespace Tampered

variable {s : Tampered} {p : PartitionId} {e : Entry}

/-- A write that fails for another reason than want of room leaves the store as it is. -/
theorem insertIfNewer_of_error {f : StoreFault} (h : (s.insertIfNewer p e).2 = .error f)
    (hf : ∀ q, f ≠ .capacityExceeded q) : (s.insertIfNewer p e).1 = s := by
  rcases s.insertIfNewer_cases p e with ⟨reason, -, hr⟩ | ⟨-, before, hb, hstore, hins⟩
  · rw [hr]
  · rw [h] at hins
    generalize hafter : (s.insertIfNewer p e).1.base = after at hins hstore
    cases hins with
    | refused => exact absurd rfl (hf p)
    | absent hp =>
      -- Of a partition that is not there no state can be changed either.
      have hsame : before = s.base := by
        rw [hb] at hp ⊢
        split at hp
        · next hk =>
          rw [if_pos hk]
          rw [Store.setState, Store.get?_modify, if_pos rfl, Option.map_eq_none_iff] at hp
          rw [Store.setState, Store.modify, hp]
        · next hk => rw [if_neg hk]
      rw [hstore, hsame]

/-- A write that finds its partition taken away writes nothing. -/
theorem insertIfNewer_of_invalidating (hr : s.rejected.get? e.key = none)
    (hk : e.key ∈ s.invalidating) :
    (s.insertIfNewer p e).2 = .ok .partitionInvalid ∨
      (s.insertIfNewer p e).2 = .error (.partitionNotFound p) := by
  simp only [Tampered.insertIfNewer, hr, if_pos hk]
  unfold Store.insertIfNewer
  rw [Store.setState, Store.get?_modify, if_pos rfl]
  cases s.base.get? p with
  | none => exact .inr rfl
  | some part => exact .inl rfl

end Tampered

namespace Site

variable {s : Site} {sender : NodeId} {p : PartitionId} {e : Entry}

/-- An entry gets as far as the store, which fails to write it, and not for want of room. -/
structure Stops (s : Site) (p : PartitionId) (e : Entry) (f : StoreFault) : Prop where
  permitted : s.store.base.loadPermitted p e.key e.revision = true
  fresh : e.isExpired s.clock = false
  accepted : s.accepts p e = true
  refused : (s.store.insertIfNewer p e).2 = .error f
  other : ∀ q, f ≠ .capacityExceeded q

/-- An entry at which an intake stops leaves no trace. -/
theorem Stops.takeIn {f : StoreFault} (h : s.Stops p e f) (sender : NodeId) :
    s.takeIn sender p e = (s, .error (.entryNotApplied sender p e.keyText f.message)) := by
  rw [takeIn_eq, if_neg (by simp [h.fresh, h.accepted]),
    Tampered.insertIfNewer_of_error h.refused h.other, h.refused]
  cases f with
  | capacityExceeded q => exact absurd rfl (h.other q)
  | _ => rfl

theorem Stops.takeInAll {f : StoreFault} (h : s.Stops p e f) (sender : NodeId) (rest : List Entry) :
    s.takeInAll sender p (e :: rest) =
      (s, .error (.entryNotApplied sender p e.keyText f.message)) := by
  rw [Site.takeInAll, h.permitted, h.takeIn sender]
  rfl

/-- Nothing but such an entry ends an intake with a failure. -/
theorem stops_of_error {cause : Fault} (hl : s.store.base.loadPermitted p e.key e.revision = true)
    (h : (s.takeIn sender p e).2 = .error cause) :
    ∃ f, s.Stops p e f ∧ cause = .entryNotApplied sender p e.keyText f.message := by
  rw [takeIn_eq] at h
  split at h
  · cases h
  · next hpass =>
    simp only [not_or, Bool.not_eq_true, Bool.not_eq_false] at hpass
    have hstops : ∀ f, (s.store.insertIfNewer p e).2 = .error f → (∀ q, f ≠ .capacityExceeded q) →
        s.Stops p e f := fun f hr ho => ⟨hl, hpass.1, hpass.2, hr, ho⟩
    cases hr : (s.store.insertIfNewer p e).2 with
    | ok outcome =>
      rw [hr] at h
      cases outcome <;> cases h
    | error f =>
      rw [hr] at h
      cases f with
      | capacityExceeded q => cases h
      | partitionNotFound q =>
        cases h
        exact ⟨_, hstops _ hr nofun, rfl⟩
      | writeRejected reason =>
        cases h
        exact ⟨_, hstops _ hr nofun, rfl⟩

/-- An entry after which others may follow leaves the state of its partition alone. -/
theorem state?_takeIn_of_more (h : (s.takeIn sender p e).2 = .ok .more) (q : PartitionId) :
    (s.takeIn sender p e).1.store.base.state? q = s.store.base.state? q := by
  by_cases hk : e.key ∈ s.store.invalidating
  · rw [takeIn_eq] at h ⊢
    split at h
    · next hpass => rw [if_pos hpass]; rfl
    · next hpass =>
      rw [if_neg hpass]
      cases hr : s.store.rejected.get? e.key with
      | some reason =>
        rw [Tampered.insertIfNewer, hr] at h
        cases h
      | none =>
        rcases Tampered.insertIfNewer_of_invalidating (p := p) hr hk with hgone | hgone
        · rw [hgone] at h
          cases h
        · rw [hgone] at h
          cases h
  · exact state?_takeIn s sender p e q (.inr hk)

/-- The intake of a partition stops at an entry: those before it are taken in as they would be
    whatever follows them, and leave the state of the partition alone. -/
structure HaltsAt (s : Site) (sender : NodeId) (p : PartitionId) (seen : List Entry) (e : Entry)
    (f : StoreFault) : Prop where
  goesOn : ∀ more, s.takeInAll sender p (seen ++ more) =
    (s.takeInAll sender p seen).1.takeInAll sender p more
  state : (s.takeInAll sender p seen).1.store.base.state? p = s.store.base.state? p
  stops : (s.takeInAll sender p seen).1.Stops p e f

theorem HaltsAt.takeInAll {seen : List Entry} {f : StoreFault} (h : s.HaltsAt sender p seen e f)
    (unseen : List Entry) :
    s.takeInAll sender p (seen ++ e :: unseen) = ((s.takeInAll sender p seen).1,
      .error (.entryNotApplied sender p e.keyText f.message)) := by
  rw [h.goesOn, h.stops.takeInAll]

/-- An entry that is passed over, or after which others follow, comes before the one that stops. -/
theorem HaltsAt.cons {t : Site} {x : Entry} {seen : List Entry} {f : StoreFault}
    (hx : ∀ more, s.takeInAll sender p (x :: more) = t.takeInAll sender p more)
    (hs : t.store.base.state? p = s.store.base.state? p) (h : t.HaltsAt sender p seen e f) :
    s.HaltsAt sender p (x :: seen) e f where
  goesOn more := by rw [List.cons_append, hx, hx, h.goesOn]
  state := by rw [hx, h.state, hs]
  stops := by
    rw [hx]
    exact h.stops

/-- An intake that fails stops at one of its entries. -/
theorem takeInAll_error {es : List Entry} {cause : Fault}
    (h : (s.takeInAll sender p es).2 = .error cause) :
    ∃ seen e unseen f, es = seen ++ e :: unseen ∧ s.HaltsAt sender p seen e f ∧
      cause = .entryNotApplied sender p e.keyText f.message := by
  induction es generalizing s with
  | nil => cases h
  | cons x rest ih =>
    cases hl : s.store.base.loadPermitted p x.key x.revision with
    | false =>
      have hx : ∀ more, s.takeInAll sender p (x :: more) =
          (s.measure Board.entrySkipped).takeInAll sender p more :=
        fun _ => takeInAll_of_not_permitted sender hl
      rw [hx] at h
      obtain ⟨seen, e, unseen, f, rfl, hhalts, hcause⟩ := ih h
      exact ⟨x :: seen, e, unseen, f, rfl, hhalts.cons hx rfl, hcause⟩
    | true =>
      cases hr : (s.takeIn sender p x).2 with
      | error fault =>
        obtain ⟨f, hstops, rfl⟩ := stops_of_error hl hr
        rw [hstops.takeInAll] at h
        cases h
        exact ⟨[], x, rest, f, rfl, ⟨fun _ => rfl, rfl, hstops⟩, rfl⟩
      | ok verdict =>
        cases verdict with
        | partitionGone =>
          have htake : s.takeIn sender p x = ((s.takeIn sender p x).1, .ok .partitionGone) :=
            Prod.ext rfl hr
          rw [Site.takeInAll, hl, htake] at h
          cases h
        | more =>
          have hx : ∀ more, s.takeInAll sender p (x :: more) =
              (s.takeIn sender p x).1.takeInAll sender p more :=
            fun _ => takeInAll_of_more sender hl (Prod.ext rfl hr)
          rw [hx] at h
          obtain ⟨seen, e, unseen, f, rfl, hhalts, hcause⟩ := ih h
          exact ⟨x :: seen, e, unseen, f, rfl,
            hhalts.cons hx (state?_takeIn_of_more hr p), hcause⟩

end Site

namespace Demander

variable {d : Demander} {job : PageJob} {p : PartitionId} {cause : Fault}

-- ============================================================================
-- Where the work on a page fails
-- ============================================================================

/-- A page is cut at a partition that cannot be reserved, or at an entry of it: the demander is then
    as the entries before that one have left it, and lets go of the partition. -/
inductive CutsAt (d : Demander) (job : PageJob) (p : PartitionId) :
    List Entry → Fault → Demander → Prop where
  | unreservable {es : List Entry} (h : (d.site.store.reserve p).2 = false) :
      CutsAt d job p es (.invariant (.unreservable p)) d
  | entry {seen : List Entry} {e : Entry} {unseen : List Entry} {f : StoreFault}
      (hr : (d.site.store.reserve p).2 = true)
      (hl : ((d.pinned p).site.store.base.tryLock p).2 = true)
      (h : (d.held p).site.HaltsAt job.sender p seen e f) :
      CutsAt d job p (seen ++ e :: unseen) (.entryNotApplied job.sender p e.keyText f.message)
        (((d.held p).takenIn job p seen).letGo p)

/-- A load that fails. -/
theorem load_error {es : List Entry} (h : (d.load job p es).2 = .error cause) :
    ∃ seen e unseen f, es = seen ++ e :: unseen ∧ d.site.HaltsAt job.sender p seen e f ∧
      cause = .entryNotApplied job.sender p e.keyText f.message ∧
      (d.load job p es).1 = (d.takenIn job p seen).letGo p := by
  obtain ⟨seen, e, unseen, f, rfl, hhalts, hcause⟩ := Site.takeInAll_error (s := d.site) h
  refine ⟨seen, e, unseen, f, rfl, hhalts, hcause, ?_⟩
  have hincomplete : (d.load job p (seen ++ e :: unseen)).2 = .ok () → p ∉ job.page.last := by
    intro hok
    rw [h] at hok
    cases hok
  rw [load_of_incomplete hincomplete, takenIn, hhalts.takeInAll]
  rfl

/-- The work on a page comes to a partition that is to be filled, and is cut there.  What came
    before is worked through as it is whatever follows. -/
structure FailsAt (d : Demander) (job : PageJob) (before : List (PartitionId × List Entry))
    (p : PartitionId) (es : List Entry) (cause : Fault) (cut : Demander) : Prop where
  goesOn : ∀ more, d.walk job (before ++ more) = (d.walk job before).1.walk job more
  owned : (d.walk job before).1.owns p job.demand.topology = true
  moving : (d.walk job before).1.site.store.base.state? p = some .moving
  cuts : (d.walk job before).1.CutsAt job p es cause cut

/-- A partition that is passed over or filled comes before the one at which the page is cut. -/
theorem FailsAt.cons {e cut : Demander} {x : PartitionId × List Entry}
    {before : List (PartitionId × List Entry)} {es : List Entry}
    (hx : ∀ more, d.walk job (x :: more) = e.walk job more)
    (h : e.FailsAt job before p es cause cut) : d.FailsAt job (x :: before) p es cause cut where
  goesOn more := by rw [List.cons_append, hx, hx, h.goesOn]
  owned := by rw [hx]; exact h.owned
  moving := by rw [hx]; exact h.moving
  cuts := by rw [hx]; exact h.cuts

/-- Work on a page that fails is cut at one of its partitions. -/
theorem Walks.cut {e : Demander} {todo : List (PartitionId × List Entry)} {w : Walked}
    (h : Walks job d todo e w) (hw : w = .failed cause) :
    ∃ before p es after, todo = before ++ (p, es) :: after ∧ d.FailsAt job before p es cause e := by
  induction h with
  | finished => cases hw
  | passed hskip _ ih =>
    obtain ⟨before, q, qs, after, rfl, hfails⟩ := ih hw
    refine ⟨_ :: before, q, qs, after, rfl, hfails.cons fun more => ?_⟩
    exact (Walks.passed hskip (walks _ job more)).eq
  | unreservable ho hm hr =>
    cases hw
    exact ⟨[], _, _, _, rfl, fun _ => rfl, ho, hm, .unreservable hr⟩
  | blocked => cases hw
  | failed ho hm hr hl herr =>
    cases hw
    obtain ⟨seen, e, unseen, f, rfl, hhalts, rfl, hcut⟩ := load_error herr
    rw [hcut]
    exact ⟨[], _, _, _, rfl, fun _ => rfl, ho, hm, .entry hr hl hhalts⟩
  | loaded ho hm hr hl hok _ ih =>
    obtain ⟨before, q, qs, after, rfl, hfails⟩ := ih hw
    refine ⟨_ :: before, q, qs, after, rfl, hfails.cons fun more => ?_⟩
    exact (Walks.loaded ho hm hr hl hok (walks _ job more)).eq

end Demander

-- ============================================================================
-- What is noticed of a page
-- ============================================================================

/-- What may be noticed while a page is worked through: a round ends, entries of some partitions are
    written, and some partitions are loaded to their end. -/
def Effect.Within (touched done : List PartitionId) : Effect → Prop
  | recorded (.objectLoaded p _ _ _) => p ∈ touched
  | recorded (.partitionLoaded p _) => p ∈ done
  | dummy _ _ => True
  | notified .. => True
  | _ => False

theorem Effect.Within.mono {touched touched' done done' : List PartitionId} {x : Effect}
    (h : x.Within touched done) (ht : touched ⊆ touched') (hd : done ⊆ done') :
    x.Within touched' done' := by
  cases x with
  | recorded event =>
    cases event with
    | objectLoaded => exact ht h
    | partitionLoaded => exact hd h
  | _ => exact h

namespace Site

/-- What is noticed between two sites is within what may be noticed of a page. -/
def Notes (touched done : List PartitionId) (s t : Site) : Prop :=
  ∃ effects, t.trace = s.trace ++ effects ∧ ∀ x ∈ effects, x.Within touched done

variable {touched touched' done done' : List PartitionId} {s t u : Site}

namespace Notes

theorem of_trace (h : t.trace = s.trace) : Notes touched done s t :=
  ⟨[], by rw [h, List.append_nil], fun _ hx => absurd hx List.not_mem_nil⟩

theorem refl (s : Site) : Notes touched done s s := of_trace rfl

theorem single {x : Effect} (h : t.trace = s.trace ++ [x]) (hx : x.Within touched done) :
    Notes touched done s t :=
  ⟨[x], h, fun y hy => by rw [List.mem_singleton.mp hy]; exact hx⟩

theorem trans (h₁ : Notes touched done s t) (h₂ : Notes touched done t u) :
    Notes touched done s u := by
  obtain ⟨es, hes, hin⟩ := h₁
  obtain ⟨fs, hfs, hin'⟩ := h₂
  refine ⟨es ++ fs, by rw [hfs, hes, List.append_assoc], fun x hx => ?_⟩
  exact (List.mem_append.mp hx).elim (hin x) (hin' x)

theorem mono (h : Notes touched done s t) (ht : touched ⊆ touched') (hd : done ⊆ done') :
    Notes touched' done' s t := by
  obtain ⟨es, hes, hin⟩ := h
  exact ⟨es, hes, fun x hx => (hin x hx).mono ht hd⟩

end Notes

theorem notes_report (s : Site) {e : Event} (h : (Effect.recorded e).Within touched done) :
    Notes touched done s (s.report e) := by
  unfold report
  split
  · exact .single rfl h
  · exact .refl s

theorem notes_takeIn (s : Site) (sender : NodeId) (p : PartitionId) (e : Entry) :
    Notes [p] [] s (s.takeIn sender p e).1 := by
  have hsettle : ∀ (s : Site) (r : Except StoreFault InsertOutcome),
      Notes [p] [] s (s.settleWrite sender p e r).1 := by
    intro s r
    unfold settleWrite
    split
    · have hwritten : Notes [p] [] s ((s.onStore (·.track p e.key)).measure Board.entryApplied) :=
        .of_trace rfl
      simp only
      split
      · exact hwritten
      · exact hwritten.trans (notes_report _ (List.mem_singleton.mpr rfl))
    all_goals exact .of_trace rfl
  rw [takeIn_eq]
  split
  · exact .of_trace rfl
  · exact Notes.trans (.of_trace rfl) (hsettle { s with store := (s.store.insertIfNewer p e).1 } _)

theorem notes_takeInAll (s : Site) (sender : NodeId) (p : PartitionId) (es : List Entry) :
    Notes [p] [] s (s.takeInAll sender p es).1 :=
  takeInAll_keeps s sender p (fun _ h => h.trans (.of_trace rfl))
    (fun t e h => h.trans (notes_takeIn t sender p e)) es (.refl s)

end Site

namespace Demander

open Site (Notes)

variable {d : Demander} {job : PageJob} {p : PartitionId} {cause : Fault}

theorem notes_runWaits (d : Demander) (id : RoundId) (s : Summary) (ws : List RoundWait) :
    Notes [] [] d.site (ws.foldl (fun d w => d.runWait id s w) d).site := by
  induction ws generalizing d with
  | nil => exact .refl _
  | cons w ws ih =>
    refine Notes.trans ?_ (ih _)
    cases w with
    | settle => exact .single (trace_settleRound _ id s) trivial
    | notify tag bound => exact .single rfl trivial

/-- A change to a round forces an exchange and tells who waits at most. -/
theorem notes_changeRound (d : Demander) (id : RoundId) (c : Round.Change) :
    Notes [] [] d.site (d.changeRound id c).site := by
  rw [changeRound_eq]
  split
  · exact .of_trace rfl
  · next s _ =>
    have hforce : Notes [] [] d.site ((d.withChange id c).forcing id s).site := by
      unfold forcing
      split
      · exact .of_trace rfl
      · exact .single rfl trivial
    rw [conclude_eq]
    exact hforce.trans (notes_runWaits (((d.withChange id c).forcing id s).setRound id _) id s _)

theorem notes_takenIn (d : Demander) (job : PageJob) (p : PartitionId) (es : List Entry) :
    Notes [p] [] d.site (d.takenIn job p es).site :=
  Site.notes_takeInAll d.site job.sender p es

theorem notes_load (d : Demander) (job : PageJob) (p : PartitionId) (es : List Entry) :
    Notes [p] [p] d.site (d.load job p es).1.site := by
  have hin : Notes [p] [p] d.site (d.takenIn job p es).site :=
    (notes_takenIn d job p es).mono (List.Subset.refl _) (List.nil_subset _)
  have hgo : ∀ e : Demander, Notes [p] [p] e.site (e.letGo p).site := fun _ => .of_trace rfl
  rw [load_cases]
  split
  · rw [ownLoaded]
    have hown : Notes [p] [p] (d.takenIn job p es).site
        ((d.takenIn job p es).ownAndReport job p).site :=
      Notes.trans (.of_trace rfl) (Site.notes_report (((d.takenIn job p es).onStore fun st =>
        (st.own p).1).measure Board.partitionOwned).site
        (e := .partitionLoaded p job.discovery) (List.mem_singleton.mpr rfl))
    have hdrain := (notes_changeRound ((d.takenIn job p es).ownAndReport job p) job.round
      (.drain job.sender p)).mono (List.nil_subset [p]) (List.nil_subset [p])
    exact ((hin.trans hown).trans hdrain).trans (hgo _)
  · exact hin.trans (hgo _)

/-- Only the partitions of a page are noticed while it is worked through. -/
theorem Walks.notes {e : Demander} {todo : List (PartitionId × List Entry)} {w : Walked}
    (h : Walks job d todo e w) : Notes (todo.map Prod.fst) (todo.map Prod.fst) d.site e.site := by
  have hload : ∀ (d : Demander) (p : PartitionId) (es : List Entry)
      (rest : List (PartitionId × List Entry)),
      Notes (((p, es) :: rest).map Prod.fst) (((p, es) :: rest).map Prod.fst) d.site
        ((d.held p).load job p es).1.site := by
    intro d p es rest
    have hhead : [p] ⊆ ((p, es) :: rest).map Prod.fst := by simp
    exact Notes.trans (.of_trace rfl) ((notes_load (d.held p) job p es).mono hhead hhead)
  induction h with
  | finished => exact .refl _
  | @passed d _ p _ _ _ _ _ ih =>
    have hdrain := notes_changeRound d job.round (.drain job.sender p)
    exact (hdrain.mono (List.nil_subset _) (List.nil_subset _)).trans
      (ih.mono (List.subset_cons_self _ _) (List.subset_cons_self _ _))
  | unreservable => exact .refl _
  | blocked => exact .of_trace rfl
  | failed => exact hload _ _ _ _
  | loaded _ _ _ _ _ _ ih =>
    exact (hload _ _ _ _).trans
      (ih.mono (List.subset_cons_self _ _) (List.subset_cons_self _ _))

-- ============================================================================
-- What becomes of the rounds
-- ============================================================================

/-- Of the round of a page some partitions are taken off, and the other rounds stay. -/
def Drains (job : PageJob) (ps : List PartitionId) (d e : Demander) : Prop :=
  ∀ id, (e.roundOf id).round =
    if id = job.round then (d.roundOf job.round).round.drainAll job.sender ps
    else (d.roundOf id).round

namespace Drains

variable {e f : Demander} {ps qs : List PartitionId}

theorem of_same (h : ∀ id, (e.roundOf id).round = (d.roundOf id).round) : Drains job [] d e := by
  intro id
  rw [h]
  split
  · next hid => rw [hid]; rfl
  · rfl

theorem trans (h₁ : Drains job ps d e) (h₂ : Drains job qs e f) : Drains job (ps ++ qs) d f := by
  intro id
  rw [h₂ id, h₁ id, h₁ job.round, if_pos rfl]
  split
  · exact List.foldl_append.symm
  · rfl

theorem drain (hl : job.round < d.rounds.length) (p : PartitionId) :
    Drains job [p] d (d.changeRound job.round (.drain job.sender p)) :=
  fun id => round_changeRound d (.drain job.sender p) hl id

end Drains

theorem drains_load (hl : job.round < d.rounds.length) (p : PartitionId) (es : List Entry) :
    ∃ ps, ps ⊆ [p] ∧ Drains job ps d ((d.held p).load job p es).1 := by
  have hround := round_load (d.held p) job p es hl
  by_cases hc : (d.held p).completes job p es = true
  · refine ⟨[p], List.Subset.refl _, fun id => (hround id).trans ?_⟩
    by_cases hid : id = job.round
    · rw [if_pos ⟨hid, hc⟩, if_pos hid]
      rfl
    · rw [if_neg fun h => hid h.1, if_neg hid]
      rfl
  · refine ⟨[], List.nil_subset _, .of_same fun id => (hround id).trans ?_⟩
    rw [if_neg fun h => hc h.2]
    rfl

/-- The work on a page takes some of its partitions off its round. -/
theorem Walks.drains {e : Demander} {todo : List (PartitionId × List Entry)} {w : Walked}
    (h : Walks job d todo e w) (hl : job.round < d.rounds.length) :
    ∃ ps, ps ⊆ todo.map Prod.fst ∧ Drains job ps d e := by
  have hfirst : ∀ {p : PartitionId} {ps qs : List PartitionId} {es : List Entry}
      {rest : List (PartitionId × List Entry)}, ps ⊆ [p] → qs ⊆ rest.map Prod.fst →
      ps ++ qs ⊆ ((p, es) :: rest).map Prod.fst := by
    intro p ps qs es rest hps hqs
    refine List.append_subset.mpr ⟨List.Subset.trans hps ?_, List.Subset.trans hqs ?_⟩
    · simp
    · exact List.subset_cons_self _ _
  induction h with
  | finished => exact ⟨[], List.Subset.refl _, .of_same fun _ => rfl⟩
  | @passed d _ p _ _ _ _ _ ih =>
    obtain ⟨qs, hqs, hdrains⟩ := ih (by rw [(beside_changeRound d _ _).rounds]; exact hl)
    exact ⟨[p] ++ qs, hfirst (List.Subset.refl _) hqs, (Drains.drain hl p).trans hdrains⟩
  | unreservable => exact ⟨[], List.nil_subset _, .of_same fun _ => rfl⟩
  | blocked => exact ⟨[], List.nil_subset _, .of_same fun _ => rfl⟩
  | @failed d p es =>
    obtain ⟨ps, hps, hload⟩ := drains_load hl p es
    exact ⟨ps, List.Subset.trans hps (by simp), hload⟩
  | @loaded d _ p es _ _ _ _ _ _ _ _ ih =>
    obtain ⟨ps, hps, hload⟩ := drains_load hl p es
    have hnear := (near_held d p).trans (near_load (d.held p) job p es)
    obtain ⟨qs, hqs, hdrains⟩ := ih (by rw [hnear.rounds]; exact hl)
    exact ⟨ps ++ qs, hfirst hps hqs, hload.trans hdrains⟩

end Demander

-- ============================================================================
-- A round that loses a node
-- ============================================================================

/-- A round that loses a node of which some partitions were awaited no more by then: `r` is the round
    at first, `cut` when the node is lost, and `s` after it. -/
structure Round.CutOff {κ : Type} (n : NodeId) (before : List PartitionId) (r cut s : Round κ) :
    Prop where
  /-- Until then only some of the partitions before are taken off. -/
  awaited : ∀ q, q ∉ before → (q ∈ cut.outstandingFrom n ↔ q ∈ r.outstandingFrom n)
  /-- What is awaited from other nodes stays so. -/
  others : ∀ m q, m ≠ n → (q ∈ s.outstandingFrom m ↔ q ∈ r.outstandingFrom m)
  /-- No partition is recorded as missing. -/
  missed : s.missed = r.missed
  /-- The node is awaited no more, and counts as cancelled if it was awaited until then. -/
  givenUp : n ∉ s.outstandingNodes
  cancelled : ∀ m, m ∈ s.givenUp ↔ m ∈ r.givenUp ∨ (m = n ∧ n ∈ cut.outstandingNodes)

/-- A round that is given up by a node after some of its partitions. -/
theorem Round.Standing.cutOff {κ : Type} {r : Round κ} (hs : r.Standing) (n : NodeId)
    {before ps : List PartitionId} (hps : ps ⊆ before) :
    CutOff n before r (r.drainAll n ps) ((r.drainAll n ps).after (.cancel n)) := by
  obtain ⟨hstanding, -, hmissed, hgivenUp, hawaited⟩ := drainAll_answers hs n ps
  refine ⟨fun q hq => ?_, fun m q hm => ?_, ?_, not_awaited_cancel hstanding n, fun m => ?_⟩
  · exact (hawaited n q).trans ⟨And.left, fun hout => ⟨hout, fun hin => hq (hps hin.2)⟩⟩
  · rw [mem_outstandingFrom_cancel _ _ _ _ hstanding.toSound, hawaited m q]
    exact ⟨fun hout => hout.1.1, fun hout => ⟨⟨hout, fun hin => hm hin.1⟩, hm⟩⟩
  · exact (missed_cancel _ _ hstanding.toSound).trans hmissed
  · rw [mem_givenUp_cancel _ _ _ hstanding.toSound, hgivenUp]

namespace Demander

open Site (Notes)
open Store (Handling)

variable {d : Demander} {job : PageJob} {p : PartitionId} {cause : Fault}

-- ============================================================================
-- What a page leaves behind that is cut
-- ============================================================================

/-- What a page of a node leaves behind that is cut at a partition after some others: `d` is the
    demander before the page, `cut` where the page fails, and `e` after it. -/
structure LeftBehind (d : Demander) (n : NodeId) (before : List (PartitionId × List Entry))
    (p : PartitionId) (cut e : Demander) : Prop where
  /-- From the failure on nothing is written and nothing reported. -/
  kept : e.site.store = cut.site.store
  silent : Notes [] [] cut.site e.site
  /-- Of the other partitions nothing is written. -/
  store : ∀ q, q ∉ before.map Prod.fst → q ≠ p →
    e.site.store.base.get? q = d.site.store.base.get? q
  /-- The failing partition is not owned. -/
  moving : e.site.store.base.state? p = some .moving
  /-- All that was reserved and locked is given back. -/
  pins : Store.SamePins d.site.store.base e.site.store.base
  /-- Only entries of the failing partition and of those before it are reported, and only those
      before it are reported as loaded. -/
  noticed : Notes (p :: before.map Prod.fst) (before.map Prod.fst) d.site e.site
  /-- Its round is cut off, and the other rounds stay as they are. -/
  round : Round.CutOff n (before.map Prod.fst) d.currentRound (cut.roundOf d.current).round
    (e.roundOf d.current).round
  rounds : ∀ id, id ≠ d.current → (e.roundOf id).round = (d.roundOf id).round
  /-- The page is over, and asks for no other one. -/
  jobs : e.jobs = d.jobs
  returns : e.returns = d.returns ++ [(d.nextJob, .ok ())]

/-- Where a page is cut the store differs from the one before at most in the partition, which is as
    it was reserved and locked, and no round differs. -/
theorem CutsAt.leaves {es : List Entry} {cut : Demander} (h : d.CutsAt job p es cause cut)
    (hm : d.site.store.base.state? p = some .moving) :
    Near d cut ∧ Store.Only p d.site.store.base cut.site.store.base ∧
      cut.site.store.base.state? p = some .moving ∧
      Store.SamePins d.site.store.base cut.site.store.base ∧ Notes [p] [] d.site cut.site ∧
      ∀ id, (cut.roundOf id).round = (d.roundOf id).round := by
  cases h with
  | unreservable => exact ⟨.refl d, .refl p _, hm, .refl _, .refl _, fun _ => rfl⟩
  | @entry seen e unseen f hr hl h =>
    refine ⟨?_, ?_, ?_, ?_, ?_, fun _ => rfl⟩
    · exact ((near_held d p).trans (near_takenIn (d.held p) job p seen)).trans (near_letGo _ p)
    · exact ((only_held d p).trans (Site.only_takeInAll job.sender (d.held p).site p seen)).trans
        ((Store.only_modify _ p _).trans (Store.only_modify _ p _))
    · rw [state_letGo]
      exact h.state.trans ((state?_held d p p).trans hm)
    · have hwork := handling_work (.locked p) (samePins_takenIn (d.held p) job p seen)
      exact Store.samePins_of_handling
        (((handling_locked hr hl).trans hwork).trans (handling_letGo _ p))
    · exact (Notes.of_trace rfl).trans ((notes_takenIn (d.held p) job p seen).trans (.of_trace rfl))

/-- A page that is cut has got through everything before the failing partition. -/
theorem FailsAt.finished {before : List (PartitionId × List Entry)} {es : List Entry}
    {cut : Demander} (h : d.FailsAt job before p es cause cut) :
    (d.walk job before).2 = .finished := by
  have hwalk := h.goesOn []
  rw [List.append_nil] at hwalk
  exact congrArg Prod.snd hwalk

/-- Where a page is cut some partitions before the failing one were taken off its round, and the
    store differs from the one before at most in those and in the failing one. -/
theorem FailsAt.leaves {before : List (PartitionId × List Entry)} {es : List Entry}
    {cut : Demander} (h : d.FailsAt job before p es cause cut) (hl : job.round < d.rounds.length) :
    Near d cut ∧ (∀ q, q ∉ before.map Prod.fst → q ≠ p →
        cut.site.store.base.get? q = d.site.store.base.get? q) ∧
      cut.site.store.base.state? p = some .moving ∧
      Store.SamePins d.site.store.base cut.site.store.base ∧
      Notes (p :: before.map Prod.fst) (before.map Prod.fst) d.site cut.site ∧
      ∃ ps, ps ⊆ before.map Prod.fst ∧ Drains job ps d cut := by
  obtain ⟨hnear, honly, hmoving, hpins, hnotes, hround⟩ := h.cuts.leaves h.moving
  have hwalk : Handling (d.holding .free) ((d.walk job before).1.holding .free) := by
    have hhold := handling_walk d job before
    rw [h.finished] at hhold
    exact hhold
  have hbefore := (walks d job before).notes.mono
    (List.subset_cons_self p (before.map Prod.fst)) (List.Subset.refl _)
  have hlast : Notes (p :: before.map Prod.fst) (before.map Prod.fst)
      (d.walk job before).1.site cut.site := hnotes.mono (by simp) (List.nil_subset _)
  refine ⟨(near_walk d job before).trans hnear, fun q hq hqp => ?_, hmoving,
    (Store.samePins_of_handling hwalk).trans hpins, hbefore.trans hlast, ?_⟩
  · exact (honly.others q hqp).trans (get?_walk hq)
  · obtain ⟨ps, hps, hdrains⟩ := (walks d job before).drains hl
    exact ⟨ps, hps, fun id => (hround id).trans (hdrains id)⟩

/-- What is left behind by a page that is cut, once its sender is given up and it has ended. -/
theorem leftBehind_of_cut {start cut : Demander} {before : List (PartitionId × List Entry)}
    {es : List Entry} (hs : d.Steady) (hstart : start = d.spawn.1.measure Board.pageReceived)
    (hr : job.round = d.current) (h : start.FailsAt job before p es cause cut) :
    LeftBehind d job.sender before p cut ((cut.failPage job cause).finish d.nextJob (.ok ())) := by
  subst hstart
  have hl : job.round < d.rounds.length := by
    rw [hr]
    exact hs.current
  obtain ⟨hnear, hstore, hmoving, hpins, hnotes, ps, hps, hdrains⟩ := h.leaves hl
  obtain ⟨reason, fault, heq, -⟩ := failPage_eq cut job cause
  rw [heq]
  have hbeside := beside_cancelNode cut job.round job.sender reason
  have hround := round_cancelNode cut job.sender
    (show job.round < cut.rounds.length by rw [hnear.rounds]; exact hl)
  rw [hr] at hbeside hround ⊢
  have hsilent : Notes [] [] cut.site (cut.cancelNode d.current job.sender reason).site :=
    (notes_changeRound cut d.current _).trans (.of_trace rfl)
  constructor
  case kept => exact hbeside.store
  case silent => exact hsilent
  case store =>
    intro q hq hqp
    refine Eq.trans ?_ (hstore q hq hqp)
    exact congrArg (·.base.get? q) hbeside.store
  case moving => exact (congrArg (·.base.state? p) hbeside.store).trans hmoving
  case pins => exact hpins.trans hbeside.samePins
  case noticed =>
    exact Notes.trans (Notes.trans (.of_trace rfl) hnotes)
      (hsilent.mono (List.nil_subset _) (List.nil_subset _))
  case round =>
    have hcut : (cut.roundOf d.current).round = d.currentRound.drainAll job.sender ps := by
      rw [hdrains d.current, if_pos hr.symm, hr]
      rfl
    have hnow := (hround d.current reason).trans (if_pos rfl)
    rw [hcut] at hnow ⊢
    exact Eq.subst hnow.symm ((hs.standing d.current).cutOff job.sender hps)
  case rounds =>
    intro id hid
    refine (hround id reason).trans ?_
    rw [if_neg hid, hdrains id, if_neg fun h => hid (h.trans hr)]
    rfl
  case jobs =>
    refine Eq.trans ?_ (erase_nextJob hs)
    exact congrArg (·.erase d.nextJob) (hbeside.jobs.trans hnear.jobs)
  case returns => exact congrArg (· ++ _) (hbeside.returns.trans hnear.returns)

/-- Take any page that is worked through, at once, until it fails.  It fails at one of its
    partitions, since this cannot be reserved or since the store fails to write an entry, and not for
    want of room.  What comes before is treated as in any other page, and what comes after is not
    looked at: it is not written, not reported and not taken off the round, none of what the page says
    is missing is recorded, and no other page is asked for.  The partition is given back, and the
    sender is given up. -/
theorem failing_page_is_cut (hd : d.Reachable) {worker : WorkerId} {sender : NodeId} {page : Supply}
    (ha : d.accepted worker sender page = some job)
    (hf : ((d.spawn.1.measure Board.pageReceived).walk job page.entries.toList).2 = .failed cause) :
    ∃ before p es after cut, page.entries.toList = before ++ (p, es) :: after ∧
      p ∉ before.map Prod.fst ∧
      (d.spawn.1.measure Board.pageReceived).FailsAt job before p es cause cut ∧
      d.step (.page worker sender page) = (cut.failPage job cause).finish d.nextJob (.ok ()) ∧
      LeftBehind d sender before p cut (d.step (.page worker sender page)) := by
  obtain ⟨before, p, es, after, htodo, hfails⟩ := (walks _ _ _).cut hf
  have hkeys : p ∉ before.map Prod.fst := by
    have hn := SortedMap.keys_nodup page.entries
    rw [htodo, List.map_append, List.map_cons, List.nodup_append] at hn
    exact fun hp => hn.2.2 p hp p List.mem_cons_self rfl
  obtain ⟨-, plan, demand, -, -, -, -, hjob⟩ := accepted_round ha
  have hstep : d.step (.page worker sender page) =
      (((d.spawn.1.measure Board.pageReceived).walk job page.entries.toList).1.failPage job
        cause).finish d.nextJob (.ok ()) := by
    rw [step_page ha, show job.page = page by rw [hjob]]
    generalize hw : (d.spawn.1.measure Board.pageReceived).walk job page.entries.toList = w at hf
    obtain ⟨e, walked⟩ := w
    cases hf
    rfl
  refine ⟨before, p, es, after, _, htodo, hkeys, hfails, hstep, ?_⟩
  rw [hstep]
  have hleft := leftBehind_of_cut hd.steady rfl (by rw [hjob]) hfails
  rw [show job.sender = sender by rw [hjob]] at hleft
  exact hleft

/-! ## A page that is cut in its second partition -/

/-- Two nodes are to supply partitions to a node whose store rejects the writes of one key. -/
def rejecting : Demander :=
  (newborn { poolSize := 1 } 2 ⟨1, 0⟩ ⟨{}, ∅, SortedMap.insert [99] "disk full" ∅, ∅⟩ [3, 4, 9]).run
    [.add (planFor ⟨1, 0⟩ [(5, [3, 4, 9]), (6, [4])]) true, .answer 0 (.ok ()), .answer 0 (.ok ())]

/-- A page that fills one partition to its end, has an entry of a second one before the one that is
    rejected, and ends a third one; it says that the second one is missing. -/
def brokenPage : Supply :=
  (((((Supply.empty 0).addEntries 3 [{ key := [107], value := [1], revision := ⟨1, 0⟩ }]).markLast
    3).addEntries 4 [{ key := [108], value := [2], revision := ⟨1, 0⟩ },
      { key := [99], value := [3], revision := ⟨1, 0⟩ },
      { key := [109], value := [4], revision := ⟨1, 0⟩ }]).markLast 4).addEntries 9
    [{ key := [110], value := [5], revision := ⟨1, 0⟩ }] |>.markLast 9 |>.markMissed 4

theorem broken_page_is_cut :
    let after := rejecting.step (.page 0 5 brokenPage)
    rejecting.Reachable ∧
      (∃ before cut, before.map Prod.fst = [3] ∧ LeftBehind rejecting 5 before 4 cut after) ∧
      (after.site.store.base.state? 3 = some .owning ∧
        after.site.store.base.state? 4 = some .moving ∧
        after.site.store.base.state? 9 = some .moving) ∧
      (after.site.store.base.read 3 [107] = some ([1], ⟨1, 0⟩) ∧
        after.site.store.base.read 4 [108] = some ([2], ⟨1, 0⟩) ∧
        after.site.store.base.read 4 [99] = none ∧ after.site.store.base.read 4 [109] = none ∧
        after.site.store.base.read 9 [110] = none) ∧
      (after.currentRound.outstandingNodes.toList = [6] ∧
        after.currentRound.givenUp.toList = [5] ∧ after.currentRound.missed.toList = []) := by
  intro after
  have hd : rejecting.Reachable := Reachable.run (reachable_newborn rfl rfl 2 ⟨1, 0⟩ _ [3, 4, 9]) _
  let job : PageJob := ⟨0, 5, 0, ⟨0, .nodeJoined, 0⟩,
    ⟨SortedSet.ofList [3, 4, 9], ⟨1, 0⟩, Span.ofSecs 10, 524288, none⟩, brokenPage⟩
  let walked := (rejecting.spawn.1.measure Board.pageReceived).walk job brokenPage.entries.toList
  have ha : rejecting.accepted 0 5 brokenPage = some job := rfl
  let cause : Fault := .entryNotApplied 5 4 "63" "write rejected: disk full"
  have hf : walked.2 = .failed cause := by
    have hcause : (match walked.2 with
        | .failed c => decide (c = cause)
        | _ => false) = true := by decide +kernel
    cases hw : walked.2 with
    | failed c =>
      rw [hw] at hcause
      exact congrArg Walked.failed (of_decide_eq_true hcause)
    | _ =>
      rw [hw] at hcause
      cases hcause
  obtain ⟨before, p, es, rest, cut, htodo, honce, hfails, -, hleft⟩ := failing_page_is_cut hd ha hf
  -- The cause names the partition at which the page is cut.
  obtain rfl : p = 4 := by
    have hcuts := hfails.cuts
    generalize hc : cause = c at hcuts
    cases hcuts with
    | unreservable => exact absurd hc nofun
    | entry => exact (Fault.entryNotApplied.inj hc).2.1.symm
  have hkeys : before.map Prod.fst = [3] := by
    have hall : brokenPage.entries.toList.map Prod.fst = [3, 4, 9] := by decide +kernel
    rw [htodo, List.map_append, List.map_cons] at hall
    rcases before with _ | ⟨x, _ | ⟨y, more⟩⟩
    · exact absurd (List.cons.inj hall).1 (show (4 : PartitionId) ≠ 3 by decide)
    · exact congrArg (· :: []) (List.cons.inj hall).1
    · have hy : y.1 = 4 := (List.cons.inj (List.cons.inj hall).2).1
      exact absurd (by simp [hy]) honce
  exact ⟨hd, ⟨before, cut, hkeys, hleft⟩, by decide +kernel, by decide +kernel, by decide +kernel⟩

end Demander
end Rebalance
