/-
  Rebalance.Proofs.Timely

  When a page may write.  Whether a page is stale is asked once, as it arrives,
  and not again after it has waited for a lock.  `Site.Unwritten` is between two
  sites when nothing was written; `writes_are_timely` says that whatever a step
  writes, it writes for a page that was taken up at the topology of its demand,
  and that has waited for locks ever since.  While it waits the topology may
  change, and then it writes too late (`late_write_happens`).
-/
import Rebalance.Proofs.Meters
import Rebalance.Proofs.Transfer

namespace Rebalance

-- ============================================================================
-- Sites to which nothing was written
-- ============================================================================

namespace Board

/-- The meters of entries and loaded partitions. -/
def loads (b : Board) : List UInt64 :=
  [b.entriesApplied.value, b.entriesSkipped.value, b.entriesDropped.value, b.partitionsOwned.value]

theorem blind_loads : Blind loads where
  completed _ _ := rfl
  settled _ := rfl
  missed _ := rfl
  messages b c h := by
    obtain ⟨sent, unsent, received, rfl⟩ := h
    rfl
  cancelled _ _ _ := rfl

/-- Giving a node up is no load, whatever the reason. -/
theorem loads_streamCancelled (b : Board) (reason : String) :
    (b.streamCancelled reason).loads = b.loads := rfl

end Board

namespace Site

/-- Nothing was written between two sites: the store is the same, and neither an event nor an entry
    nor a loaded partition was recorded. -/
structure Unwritten (s t : Site) : Prop where
  store : t.store = s.store
  recorder : t.recorder = s.recorder
  loads : t.board.loads = s.board.loads

theorem Unwritten.refl (s : Site) : Unwritten s s := ⟨rfl, rfl, rfl⟩

theorem Unwritten.trans {s t u : Site} (h₁ : Unwritten s t) (h₂ : Unwritten t u) :
    Unwritten s u :=
  ⟨h₂.store.trans h₁.store, h₂.recorder.trans h₁.recorder, h₂.loads.trans h₁.loads⟩

end Site

namespace Demander

-- ============================================================================
-- Ticks
-- ============================================================================

theorem Beside.unwritten {d e : Demander} (h : Beside d e)
    (hl : e.site.board.loads = d.site.board.loads) : d.site.Unwritten e.site :=
  ⟨h.store, h.recorder, hl⟩

theorem unwritten_cancelNode (d : Demander) (round : RoundId) (node : NodeId)
    (reason : CancelReason) : d.site.Unwritten (d.cancelNode round node reason).site :=
  (beside_cancelNode d round node reason).unwritten
    ((Board.loads_streamCancelled _ _).trans (blind_changeRound Board.blind_loads d round _))

/-- A chore writes nothing unless it is to load a partition. -/
theorem unwritten_chore {who : Actor} {d e : Demander} (h : Chore who d e)
    (hw : ∀ id job, who ≠ .page id job) : d.site.Unwritten e.site := by
  have hb : Beside d e → d.site.Unwritten e.site := fun hbeside => by
    rcases blind_chore Board.blind_loads h with hl | ⟨id, job, p, es, hpage, -⟩ | ⟨-, r, n, rfl⟩
    · exact hbeside.unwritten hl
    · exact absurd hpage (hw id job)
    · exact unwritten_cancelNode d r n _
  cases h with
  | note hbeside _ _ _ => exact hb hbeside
  | cancel round node reason _ _ => exact hb (beside_cancelNode d round node reason)
  | endShipment round s _ _ => exact hb (beside_endShipment d round s)
  | watch tag => exact hb (beside_whenDone d d.current _)
  | keep => exact .refl _
  | parkCall => exact .refl _
  | finish => exact .refl _
  | openRound => exact .refl _
  | _ => exact absurd rfl (hw _ _)

theorem unwritten_tick {who : Actor} {d e : Demander} (h : Tick who d e)
    (hw : ∀ id job, who ≠ .page id job) : d.site.Unwritten e.site := by
  have hl := Board.blind_loads
  cases h with
  | chore h => exact unwritten_chore h hw
  | begin round plan _ _ _ _ =>
    have hb := beside_begin d round plan
    exact ⟨hb.store, hb.recorder, blind_begin hl d round (fun _ => rfl) plan⟩
  | pass round plan _ _ =>
    have hb := beside_pass d round plan
    exact ⟨hb.store, hb.recorder, blind_pass hl d round (fun _ => rfl) plan⟩
  | abandon => exact (beside_abandonRound d).unwritten (blind_abandonRound d fun _ => rfl)

/-- Whoever does not work on a page writes nothing. -/
theorem unwritten_ticks {who : Actor} {d e : Demander} (h : Ticks who d e)
    (hw : ∀ id job, who ≠ .page id job) : d.site.Unwritten e.site := by
  induction h with
  | refl => exact .refl _
  | head h _ ih => exact (unwritten_tick h hw).trans ih

theorem unwritten_replied (d : Demander) (id : JobId) (job : PageJob) (r : Except Fault Unit) :
    d.site.Unwritten (d.replied id job r).site := by
  have hfail : ∀ cause, d.site.Unwritten (d.failPage job cause).site := by
    intro cause
    unfold failPage
    split
    · exact unwritten_cancelNode d _ _ _
    · have h := unwritten_cancelNode d job.round job.sender .processingFault
      simp only
      split
      · exact h
      · exact h
  unfold replied
  split
  · exact ⟨rfl, rfl, rfl⟩
  · exact hfail _

-- ============================================================================
-- Pages that wait for locks
-- ============================================================================

/-- A job is a page that waits for the lock of a partition. -/
def Locks (d : Demander) (id : JobId) (job : PageJob) : Prop :=
  ∃ p es rest, d.job? id = some (.locking job p es rest)

/-- A page arrives in a step of a run that is taken up, as a job of its own. -/
def Admits (d : Demander) (inputs : List Input) (j : Nat) (id : JobId) (job : PageJob) : Prop :=
  ∃ worker sender page, inputs[j]? = some (.page worker sender page) ∧
    (d.moment inputs j).accepted worker sender page = some job ∧
    (d.moment inputs j).nextJob = id

/-- A page is taken up at the topology of its demand. -/
theorem Admits.timely {d : Demander} {inputs : List Input} {j : Nat} {id : JobId} {job : PageJob}
    (h : d.Admits inputs j id job) :
    (d.moment inputs j).site.affinity.current = job.demand.topology := by
  obtain ⟨worker, sender, page, -, hacc, -⟩ := h
  obtain ⟨-, plan, demand, -, -, hc, -, rfl⟩ := accepted_round hacc
  simpa [Affinity.changedFrom] using hc

/-- A page that waits for the lock of a partition after a step has done so before, or the step was
    its own. -/
theorem locking_step {d : Demander} (hs : d.Steady) {i : Input} {id : JobId} {job : PageJob}
    {p : PartitionId} {es : List Entry} {rest : List (PartitionId × List Entry)}
    (hj : (d.step i).job? id = some (.locking job p es rest)) :
    d.job? id = some (.locking job p es rest) ∨ d.actor i = .page id job := by
  by_cases hid : (d.actor i).id? = some id
  swap
  · exact .inl ((job_of_other hs hid).symm.trans hj)
  have hi : ∀ c, i ≠ .site c := by
    rintro c rfl
    cases hid
  rcases (step_ticks hs hi).job hj with hold | ⟨-, f, hparks⟩
  · left
    cases i <;> exact hold
  right
  generalize d.actor i = who at hid hparks
  cases hparks with
  | call hx _ _ => cases hx
  | page hx _ _ =>
    cases hid
    cases hx
    rfl

/-- A page that waits for a lock after a step has done so before, or has just arrived. -/
theorem locks_step {d : Demander} (hs : d.Steady) {i : Input} {id : JobId} {job : PageJob}
    (h : (d.step i).Locks id job) :
    d.Locks id job ∨ ∃ worker sender page, i = .page worker sender page ∧
      d.accepted worker sender page = some job ∧ d.nextJob = id := by
  obtain ⟨p, es, rest, hj⟩ := h
  rcases locking_step hs hj with hold | hw
  · exact .inl ⟨p, es, rest, hold⟩
  have hstep := pageStep hw
  generalize d.step i = e at hj hstep
  cases hstep with
  | arrives hid ha => exact .inr ⟨_, _, _, rfl, ha, hid.symm⟩
  | goesOn hold _ => exact .inl ⟨_, _, _, hold⟩
  | replied hold r =>
    rw [job?_replied] at hj
    cases hj
  | waits => exact .inl ⟨p, es, rest, hj⟩

/-- A page that waits for a lock has arrived in the run, and has waited for locks ever since. -/
theorem locks_since {d : Demander} (hs : d.Steady)
    (hn : ∀ id j, d.job? id = some j → j.page? = none) (inputs : List Input) {m : Nat}
    {id : JobId} {job : PageJob} (h : (d.moment inputs m).Locks id job) :
    ∃ j, j < m ∧ d.Admits inputs j id job ∧
      ∀ l, j < l → l ≤ m → (d.moment inputs l).Locks id job := by
  induction m with
  | zero =>
    obtain ⟨p, es, rest, hj⟩ := h
    have hpage := hn id _ hj
    cases hpage
  | succ m ih =>
    have since : (d.moment inputs m).Locks id job → ∃ j, j < m + 1 ∧ d.Admits inputs j id job ∧
        ∀ l, j < l → l ≤ m + 1 → (d.moment inputs l).Locks id job := by
      intro hbefore
      obtain ⟨j, hjm, ha, hl⟩ := ih hbefore
      refine ⟨j, by omega, ha, fun l hjl hlm => ?_⟩
      by_cases hlast : l = m + 1
      · rw [hlast]
        exact h
      · exact hl l hjl (by omega)
    cases hi : inputs[m]? with
    | none =>
      -- The run is over, and nothing happens any more.
      have hlen : inputs.length ≤ m := List.getElem?_eq_none_iff.mp hi
      rw [moment, List.take_of_length_le (by omega)] at h
      apply since
      rw [moment, List.take_of_length_le hlen]
      exact h
    | some i =>
      rw [moment_succ d hi] at h
      rcases locks_step (steady_moment hs inputs m) h with hbefore | ⟨w, s, page, rfl, hacc, hid⟩
      · exact since hbefore
      · refine ⟨m, by omega, ⟨w, s, page, hi, hacc, hid⟩, fun l hml hlm => ?_⟩
        rw [show l = m + 1 by omega, moment_succ d hi]
        exact h

-- ============================================================================
-- Every write
-- ============================================================================

/-- A step that writes is that of a page that arrives and is taken up, or of one that has waited for
    a lock. -/
theorem unwritten_step {d : Demander} (hs : d.Steady) {i : Input} (hi : ∀ c, i ≠ .site c) :
    d.site.Unwritten (d.step i).site ∨
      (∃ worker sender page job, i = .page worker sender page ∧
        d.accepted worker sender page = some job) ∨
      ∃ id job, i = .resume id ∧ d.Locks id job := by
  have hticks := step_ticks hs hi
  by_cases hw : ∀ id job, d.actor i ≠ .page id job
  · have h := unwritten_ticks hticks hw
    rw [site_base] at h
    exact .inl h
  obtain ⟨id, job, hw⟩ : ∃ id job, d.actor i = .page id job := by
    simpa only [not_forall, not_not] using hw
  have hstep := pageStep hw
  generalize d.step i = e at hstep
  cases hstep with
  | arrives _ ha => exact .inr (.inl ⟨_, _, _, job, rfl, ha⟩)
  | goesOn hj _ => exact .inr (.inr ⟨id, job, rfl, _, _, _, hj⟩)
  | replied _ r =>
    have hnote : ∀ q, d.site.Unwritten (d.noteAnswer q r).site := by
      intro q
      cases r <;> exact ⟨rfl, rfl, rfl⟩
    exact .inl ((hnote _).trans (unwritten_replied _ id job r))
  | waits => exact .inl (.refl _)

/-- Whatever a step of a run writes, it writes for a page that was taken up when the current
    topology was that of its demand: in this very step, or before, and then the page has waited for
    locks all the time since.  Take any run that begins with no page under way. -/
theorem writes_are_timely {d : Demander} (hd : d.Reachable)
    (hn : ∀ id j, d.job? id = some j → j.page? = none) (inputs : List Input) {m : Nat} {i : Input}
    (hm : inputs[m]? = some i) (hi : ∀ c, i ≠ .site c) :
    (d.moment inputs m).site.Unwritten (d.moment inputs (m + 1)).site ∨
      ∃ j id job, d.Admits inputs j id job ∧
        (d.moment inputs j).site.affinity.current = job.demand.topology ∧
        (d.moment inputs m).actor i = .page id job ∧
        (j = m ∨ j < m ∧ i = .resume id ∧
          ∀ l, j < l → l ≤ m → (d.moment inputs l).Locks id job) := by
  have hs := hd.steady
  rw [moment_succ d hm]
  rcases unwritten_step (steady_moment hs inputs m) hi with
    h | ⟨worker, sender, page, job, rfl, hacc⟩ | ⟨id, job, rfl, hlocks⟩
  · exact .inl h
  · have hadmits : d.Admits inputs m (d.moment inputs m).nextJob job :=
      ⟨worker, sender, page, hm, hacc, rfl⟩
    exact .inr ⟨m, _, job, hadmits, hadmits.timely, by simp only [actor, hacc], .inl rfl⟩
  · obtain ⟨j, hjm, hadmits, hl⟩ := locks_since hs hn inputs hlocks
    obtain ⟨p, es, rest, hj⟩ := hlocks
    exact .inr ⟨j, id, job, hadmits, hadmits.timely, actorOf_of_page hj rfl,
      .inr ⟨hjm, rfl, hl⟩⟩

/-! ## A page that waits while the topology changes -/

/-- A plan asks a node for a partition whose lock is taken elsewhere; the page waits for it, and the
    lock is given back. -/
def contendedRun (meanwhile : List Input) : List Input :=
  [.add (planFor ⟨1, 0⟩ [(5, [3])]) true, .answer 0 (.ok ()),
    .site (.store fun st => st.onBase fun s => (s.tryLock 3).1),
    .page 0 5 (((Supply.empty 0).addEntries 3
      [{ key := [107], value := [1], revision := ⟨1, 0⟩ }]).markLast 3)] ++
  meanwhile ++ [.site (.store fun st => st.onBase (·.unlock 3)), .resume 1]

/-- Without a change the page writes once it has the lock, at the topology of its demand. -/
theorem waiting_page_is_timely :
    let inputs := contendedRun []
    (solo 3).Reachable ∧ (∀ id j, (solo 3).job? id = some j → j.page? = none) ∧
      inputs[5]? = some (.resume 1) ∧ (∀ c, Input.resume 1 ≠ .site c) ∧
      (((solo 3).moment inputs 5).site.Unwritten ((solo 3).moment inputs 6).site ∨
        ∃ j id job, (solo 3).Admits inputs j id job ∧
          ((solo 3).moment inputs j).site.affinity.current = job.demand.topology ∧
          ((solo 3).moment inputs 5).actor (.resume 1) = .page id job ∧
          (j = 5 ∨ j < 5 ∧ Input.resume 1 = .resume id ∧
            ∀ l, j < l → l ≤ 5 → ((solo 3).moment inputs l).Locks id job)) ∧
      ((solo 3).moment inputs 6).site.store.base.read 3 [107] = some ([1], ⟨1, 0⟩) := by
  intro inputs
  have hn : ∀ id j, (solo 3).job? id = some j → j.page? = none := by
    intro id j hj
    cases hj
  exact ⟨reachable_solo 3, hn, rfl, nofun, writes_are_timely (reachable_solo 3) hn inputs rfl nofun,
    by decide +kernel⟩

/-- The topology changes and the demander is told, which gives the node up; but when the lock is
    free, the entry of the page is written, and the partition is owned and reported as loaded. -/
theorem late_write_happens :
    let inputs := contendedRun [.site (.advance ⟨2, 0⟩), .topologyChanged]
    let before := (solo 3).moment inputs 7
    let after := (solo 3).moment inputs 8
    (solo 3).Reachable ∧ inputs[7]? = some (.resume 1) ∧
      before.site.affinity.current = ⟨2, 0⟩ ∧
      ((before.job? 1).bind Job.page?).map (·.demand.topology) = some ⟨1, 0⟩ ∧
      5 ∉ before.currentRound.outstandingNodes ∧
      before.site.store.base.read 3 [107] = none ∧
      before.site.store.base.state 3 = .moving ∧
      before.site.recorder.events = [] ∧
      after.site.store.base.read 3 [107] = some ([1], ⟨1, 0⟩) ∧
      after.site.store.base.state 3 = .owning ∧
      after.site.recorder.events =
        [.objectLoaded 3 [107] 5 [1], .partitionLoaded 3 ⟨0, .nodeJoined, 0⟩] := by
  refine ⟨reachable_solo 3, rfl, ?_, ?_, ?_, ?_, ?_, ?_, ?_, ?_, ?_⟩
  · decide +kernel
  · decide +kernel
  · decide +kernel
  · decide +kernel
  · decide +kernel
  · decide +kernel
  · decide +kernel
  · decide +kernel
  · decide +kernel

end Demander
end Rebalance
