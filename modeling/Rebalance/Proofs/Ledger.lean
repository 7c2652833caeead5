/-
  Rebalance.Proofs.Ledger

  The ledger of a page.  It books the entries of the partitions that belong
  here and are being filled when the page comes to them, in page order, up to
  the entry at which a partition is found taken away, and of the whole page up
  to the one that fails.  Nothing else that a page does counts, reports or
  writes an entry, so a page comes to its ledger: `entries_are_accounted`.
-/
import Rebalance.Proofs.Fates
import Rebalance.Proofs.Hearing

namespace Rebalance

-- ============================================================================
-- What is booked of a partition
-- ============================================================================

namespace Site

variable {s : Site} {sender : NodeId} {p : PartitionId}

/-- The entries of a partition are booked in order, up to the first one without a fate. -/
theorem bookings_cut (s : Site) (sender : NodeId) (p : PartitionId) (es : List Entry) :
    ∃ unseen, es = (s.bookings sender p es).map (·.entry) ++ unseen ∧
      ∀ e ∈ unseen.head?, (s.takeInAll sender p ((s.bookings sender p es).map (·.entry))).1.fate? p e
        = none := by
  induction es generalizing s with
  | nil => exact ⟨[], rfl, by rintro e ⟨⟩⟩
  | cons e rest ih =>
    obtain ⟨-, hgo⟩ := takeIn_accounts s sender p e
    rw [bookings]
    cases hf : s.fate? p e with
    | none =>
      refine ⟨e :: rest, rfl, fun x hx => ?_⟩
      rw [List.head?_cons, Option.mem_some] at hx
      rw [← hx]
      exact hf
    | some f =>
      obtain ⟨unseen, hes, hend⟩ := ih (s.takeInAll sender p [e]).1
      refine ⟨unseen, congrArg (e :: ·) hes, fun x hx => ?_⟩
      simp only [List.map_cons]
      rw [hgo, hf]
      exact hend x hx

theorem partition_of_bookings {es : List Entry} {b : Booking}
    (h : b ∈ s.bookings sender p es) : b.partition = p := by
  induction es generalizing s with
  | nil => cases h
  | cons e rest ih =>
    rw [bookings] at h
    split at h
    · cases h
    · rcases List.mem_cons.mp h with rfl | h
      · rfl
      · exact ih h

end Site

namespace Demander

open Site (Accounts Notes)

variable {d e : Demander} {job : PageJob} {sender : NodeId}

-- ============================================================================
-- What counts no entry
-- ============================================================================

/-- Something is done beside the store that reports no entry and counts none. -/
theorem accounts_beside (h : Beside d e) (hn : Notes [] [] d.site e.site)
    (hb : e.site.board.entryCounts = d.site.board.entryCounts) :
    Accounts sender d.site e.site [] := by
  obtain ⟨es, htrace, hwithin⟩ := hn
  refine .nothing hb ⟨es, htrace, objectsOf_within hwithin⟩ (by rw [h.recorder]) (fun q => ?_)
    fun q k => ?_
  · rw [h.store]
  · rw [Site.held?, h.store]
    rfl

theorem accounts_changeRound (d : Demander) (id : RoundId) (c : Round.Change) :
    Accounts sender d.site (d.changeRound id c).site [] :=
  accounts_beside (beside_changeRound d id c) (notes_changeRound d id c)
    (blind_changeRound Board.blind_entryCounts d id c)

theorem notes_changeRounds {α : Type} (d : Demander) (id : RoundId) (l : List α)
    (c : α → Round.Change) : Notes [] [] d.site (l.foldl (fun d a => d.changeRound id (c a)) d).site := by
  induction l generalizing d with
  | nil => exact .refl _
  | cons a l ih => exact (notes_changeRound d id (c a)).trans (ih _)

theorem notes_missAll (d : Demander) (id : RoundId) (node : NodeId) (t : Topology)
    (ps : List PartitionId) :
    Notes [] [] d.site (ps.foldl (fun d p => d.missOwned id node t p) d).site := by
  induction ps generalizing d with
  | nil => exact .refl _
  | cons p ps ih =>
    refine Notes.trans ?_ (ih _)
    change Notes [] [] d.site (d.missOwned id node t p).site
    unfold missOwned
    split
    · exact (notes_changeRound d id _).trans (.of_trace rfl)
    · exact .refl _

theorem accounts_settleMissed (sender : NodeId) (d : Demander) (job : PageJob) :
    Accounts sender d.site (d.settleMissed job).site [] :=
  accounts_beside (beside_settleMissed d job)
    ((notes_missAll d job.round job.sender job.demand.topology job.page.missed.toList).trans
      (notes_changeRounds _ job.round _ fun p => .drain job.sender p))
    (blind_settleMissed Board.blind_entryCounts d job)

theorem accounts_failPage (d : Demander) (job : PageJob) (cause : Fault) :
    Accounts sender d.site (d.failPage job cause).site [] := by
  obtain ⟨reason, fault, heq, -⟩ := failPage_eq d job cause
  rw [heq]
  exact accounts_beside (e := d.cancelNode job.round job.sender reason)
    (beside_cancelNode d job.round job.sender reason)
    ((notes_changeRound d job.round _).trans (.of_trace rfl))
    (blind_changeRound Board.blind_entryCounts d job.round _)

/-- What follows when a page was worked through counts no entry. -/
theorem accounts_afterWalk (sender : NodeId) (id : JobId) (job : PageJob) (x : Demander × Walked) :
    Accounts sender x.1.site (afterWalk id job x).site [] := by
  obtain ⟨e, w⟩ := x
  cases w with
  | finished =>
    have h := accounts_settleMissed sender e job
    change Accounts sender e.site (e.endPage id job).site []
    rw [endPage_eq]
    split
    · exact h
    · exact h
  | blocked q es rest => exact .refl sender e.site
  | failed cause => exact accounts_failPage e job cause

theorem accounts_pinned (d : Demander) (p : PartitionId) :
    Accounts sender d.site (d.pinned p).site [] := by
  have hstore : (d.pinned p).site.store.base = d.site.store.base ∨
      (d.pinned p).site.store.base = (d.site.store.base.reserve p).1 := by
    unfold pinned Tampered.reserve
    split
    · exact .inl rfl
    · exact .inr rfl
  refine .nothing rfl ⟨[], (List.append_nil _).symm, rfl⟩ rfl (fun q => ?_) fun q k => ?_
  · rcases hstore with h | h
    · rw [h]
    · rw [h, Store.tracked_reserve]
  · rw [Site.held?]
    rcases hstore with h | h
    · rw [h]
      rfl
    · rw [h]
      exact Store.held?_of_slot? (Store.slot?_reserve _ p q k)

theorem accounts_held (d : Demander) (p : PartitionId) :
    Accounts sender d.site (d.held p).site [] :=
  (accounts_pinned d p).trans
    (.onStore _ (fun q => Store.tracked_tryLock _ p q) fun q k => Store.slot?_tryLock _ p q k)

theorem accounts_letGo (d : Demander) (p : PartitionId) :
    Accounts sender d.site (d.letGo p).site [] :=
  .onStore _ (fun q => by simp) fun q k => by simp

theorem accounts_ownAndReport (d : Demander) (job : PageJob) (p : PartitionId) :
    Accounts sender d.site (d.ownAndReport job p).site [] := by
  let owned := (d.onStore fun st => (st.own p).1).measure Board.partitionOwned
  obtain ⟨htrace, hen, hboard⟩ := Site.report_loaded owned.site p job.discovery
  have hstore : (d.ownAndReport job p).site.store.base = (d.site.store.base.own p).1 :=
    congrArg Tampered.base (Site.store_report owned.site (.partitionLoaded p job.discovery))
  have hcounts : (d.ownAndReport job p).site.board.entryCounts = d.site.board.entryCounts :=
    (congrArg Board.entryCounts hboard).trans rfl
  refine .nothing hcounts ⟨_, htrace, ?_⟩ hen (fun q => ?_) fun q k => ?_
  · split <;> rfl
  · rw [hstore, Store.tracked_own]
  · rw [Site.held?, hstore]
    exact Store.held?_of_slot? (Store.slot?_own _ p q k)

-- ============================================================================
-- The ledger
-- ============================================================================

/-- The entries of a partition that a page accounts for when it comes to it: none, unless the
    partition belongs here, is being filled, and can be reserved and locked. -/
def bookings (d : Demander) (job : PageJob) (p : PartitionId) (es : List Entry) : List Booking :=
  if d.owns p job.demand.topology = true ∧ d.site.store.base.state? p = some .moving ∧
      (d.site.store.reserve p).2 = true ∧ ((d.pinned p).site.store.base.tryLock p).2 = true then
    (d.held p).site.bookings job.sender p es
  else []

/-- The entries of some partitions that a page accounts for, one partition after the other until it
    fails or has to wait. -/
def ledger (d : Demander) (job : PageJob) : List (PartitionId × List Entry) → List Booking
  | [] => []
  | (p, es) :: rest =>
    d.bookings job p es ++
      match d.walk job [(p, es)] with
      | (e, .finished) => e.ledger job rest
      | _ => []

theorem ledger_of_finished {p : PartitionId} {es : List Entry} (h : d.walk job [(p, es)] = (e, .finished))
    (rest : List (PartitionId × List Entry)) :
    d.ledger job ((p, es) :: rest) = d.bookings job p es ++ e.ledger job rest := by
  rw [ledger, h]

theorem ledger_of_ended {p : PartitionId} {es : List Entry} {w : Walked}
    (h : d.walk job [(p, es)] = (e, w)) (hw : w ≠ .finished)
    (rest : List (PartitionId × List Entry)) :
    d.ledger job ((p, es) :: rest) = d.bookings job p es := by
  rw [ledger, h]
  cases w with
  | finished => exact absurd rfl hw
  | _ => exact List.append_nil _

/-- A load comes to the entries it books. -/
theorem accounts_load (d : Demander) (job : PageJob) (p : PartitionId) (es : List Entry) :
    Accounts job.sender d.site (d.load job p es).1.site (d.site.bookings job.sender p es) := by
  have hin : Accounts job.sender d.site (d.takenIn job p es).site
      (d.site.bookings job.sender p es) := Site.accounts_takeInAll d.site job.sender p es
  have hnone := List.append_nil (d.site.bookings job.sender p es)
  rw [load_cases, ← hnone]
  split
  · rw [ownLoaded]
    exact hin.trans ((accounts_ownAndReport _ job p).trans
      ((accounts_changeRound _ job.round _).trans (accounts_letGo _ p)))
  · exact hin.trans (accounts_letGo _ p)

theorem bookings_of_passed {p : PartitionId} {es : List Entry}
    (h : d.owns p job.demand.topology = false ∨ d.site.store.base.state p ≠ .moving) :
    d.bookings job p es = [] := by
  rw [bookings, if_neg]
  rintro ⟨ho, hm, -⟩
  exact not_passed ho hm h

/-- The work on a page comes to its ledger. -/
theorem Walks.accounts {todo : List (PartitionId × List Entry)} {w : Walked}
    (h : Walks job d todo e w) : Accounts job.sender d.site e.site (d.ledger job todo) := by
  have hload : ∀ (d : Demander) (p : PartitionId) (es : List Entry),
      d.owns p job.demand.topology = true → d.site.store.base.state? p = some .moving →
      (d.site.store.reserve p).2 = true → ((d.pinned p).site.store.base.tryLock p).2 = true →
      Accounts job.sender d.site ((d.held p).load job p es).1.site (d.bookings job p es) := by
    intro d p es ho hm hr hl
    rw [bookings, if_pos ⟨ho, hm, hr, hl⟩]
    exact (accounts_held d p).trans (accounts_load (d.held p) job p es)
  induction h with
  | finished => exact .refl _ _
  | @passed d e p es rest w hskip _ ih =>
    rw [ledger_of_finished (Walks.passed hskip .finished).eq, bookings_of_passed hskip]
    exact (accounts_changeRound d job.round _).trans ih
  | @unreservable d p es rest ho hm hr =>
    have hnone : d.bookings job p es = [] := if_neg fun h => by rw [hr] at h; cases h.2.2.1
    rw [ledger_of_ended (Walks.unreservable ho hm hr).eq (by rintro ⟨⟩), hnone]
    exact .refl _ _
  | @blocked d p es rest ho hm hr hl =>
    have hnone : d.bookings job p es = [] := if_neg fun h => by rw [hl] at h; cases h.2.2.2
    rw [ledger_of_ended (Walks.blocked ho hm hr hl).eq (by rintro ⟨⟩), hnone]
    exact accounts_pinned d p
  | @failed d p es rest cause ho hm hr hl herr =>
    rw [ledger_of_ended (Walks.failed ho hm hr hl herr).eq (by rintro ⟨⟩)]
    exact hload d p es ho hm hr hl
  | @loaded d e p es rest w ho hm hr hl hok _ ih =>
    rw [ledger_of_finished (Walks.loaded ho hm hr hl hok .finished).eq]
    exact (hload d p es ho hm hr hl).trans ih

-- ============================================================================
-- Where the entries of a page are booked
-- ============================================================================

/-- The entries that a page brings, each with its partition, in page order. -/
def items (todo : List (PartitionId × List Entry)) : List (PartitionId × Entry) :=
  todo.flatMap fun x => x.2.map (x.1, ·)

/-- The ledger goes on after some partitions if they were all worked through, and ends with them if
    not. -/
theorem Walks.ledger_append {before : List (PartitionId × List Entry)} {w : Walked}
    (h : Walks job d before e w) (more : List (PartitionId × List Entry)) :
    (w = .finished → d.ledger job (before ++ more) = d.ledger job before ++ e.ledger job more) ∧
      (w ≠ .finished → d.ledger job (before ++ more) = d.ledger job before) := by
  have hon : ∀ {d t e : Demander} {p : PartitionId} {es : List Entry}
      {rest : List (PartitionId × List Entry)} {w : Walked},
      d.walk job [(p, es)] = (t, .finished) →
      (w = .finished → t.ledger job (rest ++ more) = t.ledger job rest ++ e.ledger job more) ∧
        (w ≠ .finished → t.ledger job (rest ++ more) = t.ledger job rest) →
      (w = .finished → d.ledger job ((p, es) :: rest ++ more) =
          d.ledger job ((p, es) :: rest) ++ e.ledger job more) ∧
        (w ≠ .finished → d.ledger job ((p, es) :: rest ++ more) = d.ledger job ((p, es) :: rest)) := by
    intro d t e p es rest w ht hrest
    rw [List.cons_append, ledger_of_finished ht, ledger_of_finished ht]
    exact ⟨fun hw => by rw [hrest.1 hw, List.append_assoc], fun hw => by rw [hrest.2 hw]⟩
  have hend : ∀ {d t e : Demander} {p : PartitionId} {es : List Entry}
      {rest : List (PartitionId × List Entry)} {v w : Walked}, v ≠ .finished → w ≠ .finished →
      d.walk job [(p, es)] = (t, v) →
      (w = .finished → d.ledger job ((p, es) :: rest ++ more) =
          d.ledger job ((p, es) :: rest) ++ e.ledger job more) ∧
        (w ≠ .finished → d.ledger job ((p, es) :: rest ++ more) = d.ledger job ((p, es) :: rest)) := by
    intro d t e p es rest v w hv hw ht
    rw [List.cons_append, ledger_of_ended ht hv, ledger_of_ended ht hv]
    exact ⟨fun h => absurd h hw, fun _ => rfl⟩
  induction h with
  | finished => exact ⟨fun _ => rfl, fun h => absurd rfl h⟩
  | passed hskip _ ih => exact hon (Walks.passed hskip .finished).eq ih
  | unreservable ho hm hr =>
    exact hend (by rintro ⟨⟩) (by rintro ⟨⟩) (Walks.unreservable ho hm hr).eq
  | blocked ho hm hr hl =>
    exact hend (by rintro ⟨⟩) (by rintro ⟨⟩) (Walks.blocked ho hm hr hl).eq
  | failed ho hm hr hl herr =>
    exact hend (by rintro ⟨⟩) (by rintro ⟨⟩) (Walks.failed ho hm hr hl herr).eq
  | loaded ho hm hr hl hok _ ih => exact hon (Walks.loaded ho hm hr hl hok .finished).eq ih

theorem partition_of_ledger {todo : List (PartitionId × List Entry)} {b : Booking}
    (h : b ∈ d.ledger job todo) : b.partition ∈ todo.map Prod.fst := by
  induction todo generalizing d with
  | nil => cases h
  | cons x rest ih =>
    obtain ⟨p, es⟩ := x
    rw [ledger] at h
    rcases List.mem_append.mp h with h | h
    · refine List.mem_cons.mpr (.inl ?_)
      unfold bookings at h
      split at h
      · exact Site.partition_of_bookings h
      · cases h
    · refine List.mem_cons_of_mem _ ?_
      split at h
      · exact ih h
      · cases h

/-- Every entry of a page is booked at most once, and in page order. -/
theorem ledger_sublist (d : Demander) (job : PageJob) (todo : List (PartitionId × List Entry)) :
    ((d.ledger job todo).map fun b => (b.partition, b.entry)).Sublist (items todo) := by
  induction todo generalizing d with
  | nil => exact .slnil
  | cons x rest ih =>
    obtain ⟨p, es⟩ := x
    rw [ledger, items, List.flatMap_cons, List.map_append]
    refine List.Sublist.append ?_ ?_
    · unfold bookings
      split
      · obtain ⟨unseen, hes, -⟩ := Site.bookings_cut (d.held p).site job.sender p es
        have hpairs : ((d.held p).site.bookings job.sender p es).map (fun b => (b.partition, b.entry)) =
            (((d.held p).site.bookings job.sender p es).map (·.entry)).map (p, ·) := by
          rw [List.map_map]
          exact List.map_congr_left fun b hb => by rw [Site.partition_of_bookings hb]; rfl
        rw [hpairs]
        refine List.Sublist.map _ ?_
        conv => rhs; rw [hes]
        exact List.sublist_append_left _ _
      · exact List.nil_sublist _
    · split
      · exact ih _
      · exact List.nil_sublist _

theorem filter_of_ne {bs : List Booking} {p : PartitionId} (h : ∀ b ∈ bs, b.partition ≠ p) :
    bs.filter (·.partition = p) = [] :=
  List.filter_eq_nil_iff.mpr fun b hb => by simpa using h b hb

/-- What is booked of one partition, of several that come once each. -/
theorem ledger_filter {before after : List (PartitionId × List Entry)} {p : PartitionId}
    {es : List Entry} (hn : ((before ++ (p, es) :: after).map Prod.fst).Nodup) :
    (∀ t, d.walk job before = (t, .finished) →
      (d.ledger job (before ++ (p, es) :: after)).filter (·.partition = p) =
        t.bookings job p es) ∧
    ((d.walk job before).2 ≠ .finished →
      (d.ledger job (before ++ (p, es) :: after)).filter (·.partition = p) = []) := by
  rw [List.map_append, List.map_cons, List.nodup_append, List.nodup_cons] at hn
  have hbefore : (d.ledger job before).filter (·.partition = p) = [] :=
    filter_of_ne fun b hb heq => hn.2.2 p (heq ▸ partition_of_ledger hb) p List.mem_cons_self rfl
  obtain ⟨hfinished, hended⟩ := (walks d job before).ledger_append ((p, es) :: after)
  refine ⟨fun t ht => ?_, fun hw => ?_⟩
  · have hself : (t.bookings job p es).filter (·.partition = p) = t.bookings job p es := by
      refine List.filter_eq_self.mpr fun b hb => ?_
      unfold bookings at hb
      split at hb
      · simpa using Site.partition_of_bookings hb
      · cases hb
    rw [hfinished (congrArg Prod.snd ht), List.filter_append, hbefore, congrArg Prod.fst ht,
      List.nil_append]
    -- What follows is about other partitions.
    generalize hx : t.walk job [(p, es)] = x
    obtain ⟨u, w⟩ := x
    by_cases hw : w = .finished
    · have hafter : (u.ledger job after).filter (·.partition = p) = [] :=
        filter_of_ne fun b hb heq => hn.2.1.1 (heq ▸ partition_of_ledger hb)
      rw [hw] at hx
      rw [ledger_of_finished hx, List.filter_append, hself, hafter, List.append_nil]
    · rw [ledger_of_ended hx hw, hself]
  · rw [hended hw, hbefore]

/-- What a page books: of a partition that it comes to while it belongs here and is being filled, the
    entries before the one that finds the partition taken away or fails. -/
structure Books (d : Demander) (job : PageJob) (bs : List Booking) : Prop where
  /-- In page order, every entry at most once. -/
  ordered : (bs.map fun b => (b.partition, b.entry)).Sublist (items job.page.entries.toList)
  /-- The page comes to a partition after the ones before were worked through. -/
  reached : ∀ before p es after t, job.page.entries.toList = before ++ (p, es) :: after →
    d.walk job before = (t, .finished) → bs.filter (·.partition = p) = t.bookings job p es
  /-- It does not come to one after it has failed or has to wait. -/
  unreached : ∀ before p es after, job.page.entries.toList = before ++ (p, es) :: after →
    (d.walk job before).2 ≠ .finished → bs.filter (·.partition = p) = []
  /-- Of a partition all entries are booked before the first one without a fate. -/
  cut : ∀ (t : Demander) p es, t.owns p job.demand.topology = true →
    t.site.store.base.state? p = some .moving → (t.site.store.reserve p).2 = true →
    ((t.pinned p).site.store.base.tryLock p).2 = true →
    ∃ unseen, es = (t.bookings job p es).map (·.entry) ++ unseen ∧
      ∀ e ∈ unseen.head?, ((t.held p).site.takeInAll job.sender p
        ((t.bookings job p es).map (·.entry))).1.fate? p e = none

theorem books_ledger (d : Demander) (job : PageJob) :
    d.Books job (d.ledger job job.page.entries.toList) where
  ordered := ledger_sublist d job _
  reached before p es after t htodo ht := by
    have hn := SortedMap.keys_nodup job.page.entries
    rw [htodo] at hn ⊢
    exact (ledger_filter hn).1 t ht
  unreached before p es after htodo hw := by
    have hn := SortedMap.keys_nodup job.page.entries
    rw [htodo] at hn ⊢
    exact (ledger_filter hn).2 hw
  cut t p es ho hm hr hl := by
    rw [bookings, if_pos ⟨ho, hm, hr, hl⟩]
    exact Site.bookings_cut (t.held p).site job.sender p es

/-- Take any page that is worked through.  It books the entries of the partitions that belong here
    and are being filled when it comes to them, up to the one at which a partition is found taken
    away and up to the one that fails.  Each of them moves one of three meters; the written ones are
    reported in page order, unless they are internal or the recorder does not want them; their keys
    are tracked, and nothing else is written. -/
theorem entries_are_accounted {worker : WorkerId} {page : Supply}
    (ha : d.accepted worker sender page = some job) :
    let start := d.spawn.1.measure Board.pageReceived
    let ledger := start.ledger job page.entries.toList
    let after := d.step (.page worker sender page)
    start.Books job ledger ∧ Accounts sender d.site after.site ledger ∧
      after.site.board.entriesApplied.value + after.site.board.entriesSkipped.value +
          after.site.board.entriesDropped.value =
        d.site.board.entriesApplied.value + d.site.board.entriesSkipped.value +
          d.site.board.entriesDropped.value + UInt64.ofNat ledger.length ∧
      objectsOf (d.said (.page worker sender page)) =
        if d.site.recorder.isRecordable .objectLoaded then
          ledger.filterMap (Booking.event? sender)
        else [] := by
  intro start ledger after
  obtain ⟨-, plan, demand, -, -, -, -, hjob⟩ := accepted_round ha
  have hpage : job.page = page := by rw [hjob]
  have hsender : job.sender = sender := by rw [hjob]
  have hbooks := books_ledger start job
  rw [hpage] at hbooks
  have hstart : Accounts sender d.site start.site [] :=
    .nothing rfl ⟨[], (List.append_nil _).symm, rfl⟩ rfl (fun _ => rfl) fun _ _ => rfl
  have hwalk := (walks start job page.entries.toList).accounts
  rw [hsender] at hwalk
  have haccounts : Accounts sender d.site after.site ledger := by
    have hafter := accounts_afterWalk sender d.nextJob job (start.walk job page.entries.toList)
    have hstep : after = afterWalk d.nextJob job (start.walk job page.entries.toList) := by
      rw [← hpage]
      exact step_page (hpage ▸ ha)
    rw [← hstep] at hafter
    have hall := hstart.trans (hwalk.trans hafter)
    rwa [List.nil_append, List.append_nil] at hall
  refine ⟨hbooks, haccounts, ?_, ?_⟩
  · rw [haccounts.applied, haccounts.skipped, haccounts.dropped, ← Booking.tally_all]
    ac_rfl
  · obtain ⟨es, htrace, hes⟩ := haccounts.events
    rw [said, show (d.step (.page worker sender page)).site.trace = d.site.trace ++ es from htrace,
      List.drop_left]
    exact hes

/-! ## A page with every kind of entry -/

/-- A node of which the store has room for two values, takes a partition away when one key is
    written, and rejects the writes of another; it is supplied with four partitions. -/
def packed : Demander :=
  (newborn { poolSize := 1 } 2 ⟨1, 0⟩ ⟨{ capacity := some 2 }, ∅,
    SortedMap.insert [99] "disk full" ∅, SortedSet.ofList [[98]]⟩ [3, 4, 5, 6]).run
    [.add (planFor ⟨1, 0⟩ [(5, [3, 4, 5, 6])]) true, .answer 0 (.ok ())]

/-- An entry of a key, at a revision. -/
def entryAt (key : UInt8) (order : UInt64) : Entry :=
  { key := [key], value := [order.toUInt8], revision := ⟨order, 0⟩ }

/-- Of the first partition an internal entry and another one are written, an older one is passed over
    and a third key is dropped; the second one is taken away, the third one fails, and the fourth one
    is not looked at. -/
def mixedPage : Supply :=
  ((((Supply.empty 0).addEntries 3 [{ entryAt 10 1 with internal := true }, entryAt 11 2, entryAt 11 1,
    entryAt 12 1]).addEntries 4 [entryAt 20 1, entryAt 98 1, entryAt 21 1]).addEntries 5
    [entryAt 30 1, entryAt 99 1, entryAt 31 1]).addEntries 6 [entryAt 40 1]

theorem mixed_page_is_accounted :
    let start := packed.spawn.1.measure Board.pageReceived
    let after := packed.step (.page 0 5 mixedPage)
    ∃ job, packed.accepted 0 5 mixedPage = some job ∧
      start.Books job (start.ledger job mixedPage.entries.toList) ∧
      Accounts 5 packed.site after.site (start.ledger job mixedPage.entries.toList) ∧
      (start.ledger job mixedPage.entries.toList).map (fun b => (b.partition, b.entry.key, b.fate)) =
        [(3, [10], .written), (3, [11], .written), (3, [11], .skipped), (3, [12], .dropped),
          (4, [20], .dropped), (5, [30], .dropped)] ∧
      (after.site.board.entriesApplied.value, after.site.board.entriesSkipped.value,
        after.site.board.entriesDropped.value) = (2, 1, 3) ∧
      objectsOf (packed.said (.page 0 5 mixedPage)) = [.objectLoaded 3 [11] 5 [2]] ∧
      after.site.store.base.tracked 3 = SortedSet.ofList [[10], [11]] := by
  intro start after
  let job : PageJob := ⟨0, 5, 0, ⟨0, .nodeJoined, 0⟩,
    ⟨SortedSet.ofList [3, 4, 5, 6], ⟨1, 0⟩, Span.ofSecs 10, 524288, none⟩, mixedPage⟩
  have ha : packed.accepted 0 5 mixedPage = some job := rfl
  obtain ⟨hbooks, haccounts, -, -⟩ := entries_are_accounted ha
  exact ⟨job, ha, hbooks, haccounts, by decide +kernel, by decide +kernel, by decide +kernel,
    by decide +kernel⟩

end Demander
end Rebalance
