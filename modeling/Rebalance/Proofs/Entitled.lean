/-
  Rebalance.Proofs.Entitled

  What a demander changes in the store of its node over a run.  A page is
  entitled to a partition once its work has come to it while the partition
  belonged here and was being filled; between that turn and the load the page
  may wait for a lock.  The steps of a page keep to the footprint of the
  partitions it is entitled to, and all other steps leave the store alone:
  `changes_are_entitled`.
-/
import Rebalance.Proofs.Footprint
import Rebalance.Proofs.Timely

namespace Rebalance
namespace Demander

variable {d e x : Demander} {id : JobId} {job : PageJob} {p q : PartitionId}
  {todo rest : List (PartitionId × List Entry)} {w : Walked}

-- ============================================================================
-- The turn of a partition
-- ============================================================================

/-- The work on some partitions comes to one of them, and this is the demander at that moment. -/
def GetsTo (d : Demander) (job : PageJob) (todo : List (PartitionId × List Entry))
    (q : PartitionId) (x : Demander) : Prop :=
  ∃ before es after, todo = before ++ (q, es) :: after ∧ d.walk job before = (x, .finished)

/-- A partition belongs here at the topology of a demand, and is being filled. -/
structure ToFill (d : Demander) (job : PageJob) (q : PartitionId) : Prop where
  owned : d.owns q job.demand.topology = true
  moving : d.site.store.base.state? q = some .moving

/-- The work on some partitions comes to one that is to be filled then. -/
def Due (d : Demander) (job : PageJob) (todo : List (PartitionId × List Entry)) (q : PartitionId) :
    Prop := ∃ x, d.GetsTo job todo q x ∧ x.ToFill job q

theorem getsTo_head (d : Demander) (job : PageJob) (p : PartitionId) (es : List Entry)
    (rest : List (PartitionId × List Entry)) : d.GetsTo job ((p, es) :: rest) p d :=
  ⟨[], es, rest, rfl, rfl⟩

/-- What the work comes to after its first partition. -/
theorem Due.tail {t : Demander} {y : PartitionId × List Entry}
    (hy : ∀ more, d.walk job (y :: more) = t.walk job more) (h : t.Due job rest q) :
    d.Due job (y :: rest) q := by
  obtain ⟨x, ⟨before, es, after, rfl, hwalk⟩, hfill⟩ := h
  exact ⟨x, ⟨y :: before, es, after, rfl, (hy before).trans hwalk⟩, hfill⟩

theorem Due.mem (h : d.Due job todo q) : q ∈ todo.map Prod.fst := by
  obtain ⟨x, ⟨before, es, after, rfl, -⟩, -⟩ := h
  simp

/-- The partition whose lock a page waits for is due. -/
theorem Walks.due (h : Walks job d todo e w) {es : List Entry} (hw : w = .blocked p es rest) :
    d.Due job todo p := by
  induction h with
  | finished => cases hw
  | passed hskip _ ih => exact (ih hw).tail fun more => (Walks.passed hskip (walks _ job more)).eq
  | unreservable => cases hw
  | blocked ho hm =>
    cases hw
    exact ⟨_, getsTo_head _ job _ _ _, ho, hm⟩
  | failed => cases hw
  | loaded ho hm hr hl hok _ ih =>
    exact (ih hw).tail fun more => (Walks.loaded ho hm hr hl hok (walks _ job more)).eq

/-- Some entries are among those that a page brings. -/
def Excerpt (todo : List (PartitionId × List Entry)) (page : Supply) : Prop :=
  todo <:+ page.entries.toList

theorem Excerpt.tail {y : PartitionId × List Entry} {page : Supply}
    (h : Excerpt (y :: todo) page) : Excerpt todo page := (List.suffix_cons y todo).trans h

theorem Excerpt.brings {page : Supply} {es : List Entry} (h : Excerpt ((p, es) :: todo) page) :
    ∀ e ∈ es, page.Brings p e := fun _ he =>
  ⟨es, SortedMap.get?_eq_some_iff.mpr (h.mem List.mem_cons_self), he⟩

theorem Excerpt.keys {page : Supply} (h : Excerpt todo page) (hq : q ∈ todo.map Prod.fst) :
    q ∈ page.entries.keys := by
  obtain ⟨y, hy, rfl⟩ := List.mem_map.mp hq
  rw [SortedMap.mem_keys_iff, SortedMap.get?_eq_some_iff.mpr (h.mem hy)]
  rfl

-- ============================================================================
-- The work on a page
-- ============================================================================

/-- The work on a page keeps to the partitions that are due. -/
theorem Walks.footprint (h : Walks job d todo e w) (hi : d.site.store.invalidating = ∅)
    (ht : Excerpt todo job.page) :
    Store.Footprint job.page (d.Due job todo) d.site.store.base e.site.store.base := by
  have hload : ∀ {d : Demander} {p : PartitionId} {es : List Entry}
      {rest : List (PartitionId × List Entry)}, d.ToFill job p → d.site.store.invalidating = ∅ →
      Excerpt ((p, es) :: rest) job.page →
      Store.Footprint job.page (d.Due job ((p, es) :: rest)) d.site.store.base
        ((d.held p).load job p es).1.site.store.base := by
    intro d p es rest hfill hi ht
    have hheld : (d.held p).site.store.invalidating = ∅ :=
      ((near_held d p).site.invalidating).trans hi
    exact (footprint_pinned d p).trans ((footprint_withLock (d.pinned p) p).trans
      (footprint_load (d.held p) hheld ⟨d, getsTo_head d job p es rest, hfill⟩ ht.brings))
  induction h with
  | finished => exact .refl _
  | @passed d e p es rest w hskip _ ih =>
    have hb := beside_changeRound d job.round (.drain job.sender p)
    have hstill := (hb.near.site.invalidating).trans hi
    have hrest := ih hstill ht.tail
    rw [hb.store] at hrest
    exact hrest.mono fun q hq => hq.tail fun more => (Walks.passed hskip (walks _ job more)).eq
  | unreservable => exact .refl _
  | blocked => exact footprint_pinned _ _
  | failed ho hm => exact hload ⟨ho, hm⟩ hi ht
  | @loaded d e p es rest w ho hm hr hl hok _ ih =>
    have hnear := (near_held d p).trans (near_load (d.held p) job p es)
    have hrest := ih ((hnear.site.invalidating).trans hi) ht.tail
    exact (hload ⟨ho, hm⟩ hi ht).trans (hrest.mono fun q hq =>
      hq.tail fun more => (Walks.loaded ho hm hr hl hok (walks _ job more)).eq)

-- ============================================================================
-- The steps of a page
-- ============================================================================

/-- In a step, the work on a page comes to a partition, and this is the demander at that moment. -/
inductive ComesTo (d : Demander) (id : JobId) (job : PageJob) (q : PartitionId) (x : Demander) :
    Input → Prop where
  | arriving {worker : WorkerId} {sender : NodeId} {page : Supply} (hid : id = d.nextJob)
      (ha : d.accepted worker sender page = some job)
      (h : (d.spawn.1.measure Board.pageReceived).GetsTo job job.page.entries.toList q x) :
      ComesTo d id job q x (.page worker sender page)
  | goingOn {p : PartitionId} {es : List Entry} {rest : List (PartitionId × List Entry)}
      (hj : d.job? id = some (.locking job p es rest))
      (hl : (d.site.store.base.tryLock p).2 = true)
      (hok : ((d.withLock p).load job p es).2 = .ok ())
      (h : ((d.withLock p).load job p es).1.GetsTo job rest q x) :
      ComesTo d id job q x (.resume id)

/-- In a step, the work on a page comes to a partition that is to be filled then. -/
def Turn (d : Demander) (id : JobId) (job : PageJob) (q : PartitionId) (i : Input) : Prop :=
  ∃ x, d.ComesTo id job q x i ∧ x.ToFill job q

/-- Before a moment of a run the work on a page came to a partition that was to be filled then. -/
def Entitled (d : Demander) (inputs : List Input) (m : Nat) (id : JobId) (job : PageJob)
    (q : PartitionId) : Prop :=
  ∃ j, j < m ∧ ∃ i, inputs[j]? = some i ∧ (d.moment inputs j).Turn id job q i

theorem Entitled.later {inputs : List Input} {m n : Nat} (h : d.Entitled inputs m id job q)
    (hmn : m ≤ n) : d.Entitled inputs n id job q := by
  obtain ⟨j, hj, hturn⟩ := h
  exact ⟨j, Nat.lt_of_lt_of_le hj hmn, hturn⟩

/-- A page that waits for a lock after it was worked through is blocked there. -/
theorem blocked_of_afterWalk {y : Demander × Walked} {job' : PageJob} {es : List Entry}
    (h : (afterWalk id job y).job? id = some (.locking job' p es rest)) :
    y.2 = .blocked p es rest := by
  obtain ⟨e, w⟩ := y
  cases w with
  | finished =>
    change (e.endPage id job).job? id = _ at h
    rw [endPage_eq] at h
    split at h
    · rw [job?_finish_self] at h
      cases h
    · rw [job?_park_self] at h
      cases h
  | blocked =>
    change (e.park id _).job? id = _ at h
    rw [job?_park_self] at h
    cases h
    rfl
  | failed cause =>
    change ((e.failPage job cause).finish id (.ok ())).job? id = _ at h
    rw [job?_finish_self] at h
    cases h

/-- A page that goes on with a free lock goes on after a load that ended well. -/
theorem goOn_cases (d : Demander) (job : PageJob) (p : PartitionId) (es : List Entry)
    (rest : List (PartitionId × List Entry)) :
    (∃ cause, d.goOn job p es rest = (((d.withLock p).load job p es).1, .failed cause)) ∨
      ((d.withLock p).load job p es).2 = .ok () ∧
        d.goOn job p es rest = ((d.withLock p).load job p es).1.walk job rest := by
  unfold goOn
  cases ((d.withLock p).load job p es).2 with
  | error cause => exact .inl ⟨cause, rfl⟩
  | ok _ => exact .inr ⟨rfl, rfl⟩

/-- A page that begins to wait for the lock of a partition has come to it. -/
theorem turn_of_locking (hs : d.Steady) {i : Input} {es : List Entry}
    (h : (d.step i).job? id = some (.locking job p es rest)) :
    d.job? id = some (.locking job p es rest) ∨ d.Turn id job p i := by
  rcases locking_step hs h with hold | hw
  · exact .inl hold
  have hstep := pageStep hw
  generalize d.step i = e at h hstep
  cases hstep with
  | @arrives worker sender page hid ha =>
    obtain ⟨x, hx, hfill⟩ := (walks _ job _).due (blocked_of_afterWalk h)
    exact .inr ⟨x, .arriving hid ha hx, hfill⟩
  | @goesOn p' es' rest' hj hl =>
    have hblocked := blocked_of_afterWalk h
    rcases goOn_cases d job p' es' rest' with ⟨cause, hgo⟩ | ⟨hok, hgo⟩
    · rw [hgo] at hblocked
      cases hblocked
    · rw [hgo] at hblocked
      obtain ⟨x, hx, hfill⟩ := (walks _ job _).due hblocked
      exact .inr ⟨x, .goingOn hj hl hok hx, hfill⟩
  | replied hj r =>
    rw [job?_replied] at h
    cases h
  | waits => exact .inl h

/-- A page that waits for the lock of a partition is entitled to it. -/
theorem entitled_of_locking (hs : d.Steady)
    (hn : ∀ id j, d.job? id = some j → j.page? = none) (inputs : List Input) {m : Nat}
    {es : List Entry} (h : (d.moment inputs m).job? id = some (.locking job p es rest)) :
    d.Entitled inputs m id job p := by
  induction m with
  | zero =>
    have hpage := hn id _ h
    cases hpage
  | succ m ih =>
    cases hi : inputs[m]? with
    | none =>
      have hlen : inputs.length ≤ m := List.getElem?_eq_none_iff.mp hi
      rw [moment, List.take_of_length_le (by omega)] at h
      refine (ih ?_).later (Nat.le_succ m)
      rw [moment, List.take_of_length_le hlen]
      exact h
    | some i =>
      rw [moment_succ d hi] at h
      rcases turn_of_locking (steady_moment hs inputs m) h with hold | hturn
      · exact (ih hold).later (Nat.le_succ m)
      · exact ⟨m, Nat.lt_succ_self m, i, hi, hturn⟩

/-- A page comes only to partitions that it mentions. -/
theorem Turn.mem (hs : d.Steady) {i : Input} (h : d.Turn id job q i) :
    q ∈ job.page.entries.keys := by
  obtain ⟨x, hx, hfill⟩ := h
  cases hx with
  | arriving hid ha hx =>
    exact Excerpt.keys (List.suffix_refl _) (Due.mem ⟨x, hx, hfill⟩)
  | goingOn hj hl hok hx =>
    exact Excerpt.keys (Excerpt.tail (hs.todo id _ job hj rfl)) (Due.mem ⟨x, hx, hfill⟩)

/-- What a step of a page leaves behind: it keeps to the partition whose lock it has waited for and
    to those it comes to. -/
theorem footprint_pageStep (hs : d.Steady) {i : Input} (hw : d.actor i = .page id job)
    (hi : d.site.store.invalidating = ∅) :
    Store.Footprint job.page
      (fun q => d.Turn id job q i ∨ ∃ es rest, d.job? id = some (.locking job q es rest))
      d.site.store.base (d.step i).site.store.base := by
  have hstep := pageStep hw
  generalize d.step i = e at hstep
  cases hstep with
  | @arrives worker sender page hid ha =>
    rw [(site_afterWalk id job _).1]
    have hwalk := (walks (d.spawn.1.measure Board.pageReceived) job _).footprint hi
      (List.suffix_refl job.page.entries.toList)
    refine hwalk.mono fun q hq => ?_
    obtain ⟨x, hx, hfill⟩ := hq
    exact .inl ⟨x, .arriving hid ha hx, hfill⟩
  | @goesOn p es rest hj hl =>
    rw [(site_afterWalk id job _).1]
    have htodo : Excerpt ((p, es) :: rest) job.page := hs.todo id _ job hj rfl
    have hload : Store.Footprint job.page (fun q => d.Turn id job q (.resume id) ∨
        ∃ es rest, d.job? id = some (.locking job q es rest))
        d.site.store.base ((d.withLock p).load job p es).1.site.store.base :=
      (footprint_withLock d p).trans
        (footprint_load (d.withLock p) hi (.inr ⟨es, rest, hj⟩) htodo.brings)
    have hstill : ((d.withLock p).load job p es).1.site.store.invalidating = ∅ :=
      ((near_load (d.withLock p) job p es).site.invalidating).trans hi
    rcases goOn_cases d job p es rest with ⟨cause, hgo⟩ | ⟨hok, hgo⟩
    · rw [hgo]
      exact hload
    · rw [hgo]
      refine hload.trans (((walks _ job rest).footprint hstill htodo.tail).mono fun q hq => ?_)
      obtain ⟨x, hx, hfill⟩ := hq
      exact .inl ⟨x, .goingOn hj hl hok hx, hfill⟩
  | replied hj r =>
    rw [site_replied]
    cases r <;> exact .refl _
  | waits => exact .refl _

-- ============================================================================
-- Every run
-- ============================================================================

/-- Whatever a step of a run changes in the store, it changes for a page, in partitions that the page
    mentions and that belonged here and were being filled when their turn came; and there it keeps to
    its footprint, and takes no stored value back.  Take any run that begins with no page under
    way. -/
theorem changes_are_entitled (hd : d.Reachable)
    (hn : ∀ id j, d.job? id = some j → j.page? = none) (inputs : List Input) {m : Nat} {i : Input}
    (hm : inputs[m]? = some i) (hi : ∀ c, i ≠ .site c)
    (hv : (d.moment inputs m).site.store.invalidating = ∅) :
    let before := (d.moment inputs m).site.store
    let after := (d.moment inputs (m + 1)).site.store
    after = before ∨ ∃ id job, (d.moment inputs m).actor i = .page id job ∧
      Store.Footprint job.page
        (fun q => q ∈ job.page.entries.keys ∧ d.Entitled inputs (m + 1) id job q)
        before.base after.base ∧
      ∀ q k v r, before.base.read q k = some (v, r) →
        ∃ v' r', after.base.read q k = some (v', r') ∧ r.atMost r' = true := by
  intro before after
  have hs := steady_moment hd.steady inputs m
  have hafter : after = ((d.moment inputs m).step i).site.store := by
    rw [← moment_succ d hm]
  by_cases hw : ∀ id job, (d.moment inputs m).actor i ≠ .page id job
  · have h := unwritten_ticks (step_ticks hs hi) hw
    rw [site_base] at h
    exact .inl (hafter.trans h.store)
  obtain ⟨id, job, hw⟩ : ∃ id job, (d.moment inputs m).actor i = .page id job := by
    simpa only [not_forall, not_not] using hw
  have hfoot := footprint_pageStep hs hw hv
  rw [← hafter] at hfoot
  refine .inr ⟨id, job, hw, hfoot.mono fun q hq => ?_, fun q k v r => hfoot.stays⟩
  rcases hq with hturn | ⟨es, rest, hj⟩
  · exact ⟨hturn.mem hs, m, Nat.lt_succ_self m, i, hm, hturn⟩
  · have htodo : Excerpt ((q, es) :: rest) job.page := hs.todo id _ job hj rfl
    exact ⟨htodo.keys List.mem_cons_self,
      (entitled_of_locking hd.steady hn inputs hj).later (Nat.le_succ m)⟩

/-- A page that has waited for the lock of a partition writes to it, two steps after it came to it
    (`contendedRun`). -/
theorem waiting_page_is_entitled :
    let inputs := contendedRun []
    let before := ((solo 3).moment inputs 5).site.store
    let after := ((solo 3).moment inputs 6).site.store
    (solo 3).Reachable ∧ (∀ id j, (solo 3).job? id = some j → j.page? = none) ∧
      inputs[5]? = some (.resume 1) ∧ (∀ c, Input.resume 1 ≠ .site c) ∧
      before.invalidating = ∅ ∧
      (after = before ∨ ∃ id job, ((solo 3).moment inputs 5).actor (.resume 1) = .page id job ∧
        Store.Footprint job.page
          (fun q => q ∈ job.page.entries.keys ∧ (solo 3).Entitled inputs 6 id job q)
          before.base after.base ∧
        ∀ q k v r, before.base.read q k = some (v, r) →
          ∃ v' r', after.base.read q k = some (v', r') ∧ r.atMost r' = true) ∧
      before.base.read 3 [107] = none ∧ after.base.read 3 [107] = some ([1], ⟨1, 0⟩) ∧
      before.base.state 3 = .moving ∧ after.base.state 3 = .owning := by
  intro inputs before after
  have hn : ∀ id j, (solo 3).job? id = some j → j.page? = none := by
    intro id j hj
    cases hj
  have hv : before.invalidating = ∅ := by decide +kernel
  exact ⟨reachable_solo 3, hn, rfl, by rintro c ⟨⟩, hv,
    changes_are_entitled (reachable_solo 3) hn inputs rfl (by rintro c ⟨⟩) hv,
    by decide +kernel, by decide +kernel, by decide +kernel, by decide +kernel⟩

end Demander
end Rebalance
