/-
  Rebalance.Proofs.Transfer

  What has become of the entries of a partition by the time that it is owned.
  Of every page of the same sender and round that was worked through without a
  failure, each entry was expired or turned away, or the store answers for it
  (`transfer_keeps_entries`).  A page that fails gives its sender up, but the
  pages that follow are worked through all the same, so its entries are lost
  (`failed_page_is_lost`).
-/
import Rebalance.Proofs.Account
import Rebalance.Proofs.Host

namespace Rebalance
namespace Demander

variable {R : RoundId} {P : Plan}

-- ============================================================================
-- Moments of a run
-- ============================================================================

/-- The demander after so many steps of a run. -/
def moment (d : Demander) (inputs : List Input) (m : Nat) : Demander := d.run (inputs.take m)

theorem moment_succ (d : Demander) {inputs : List Input} {m : Nat} {i : Input}
    (h : inputs[m]? = some i) : d.moment inputs (m + 1) = (d.moment inputs m).step i := by
  obtain ⟨hm, hi⟩ := List.getElem?_eq_some_iff.mp h
  unfold moment run
  rw [List.take_succ_eq_append_getElem hm, hi, List.foldl_append]
  rfl

/-- A run goes on from any of its moments. -/
theorem run_moment (d : Demander) (inputs : List Input) (m : Nat) :
    (d.moment inputs m).run (inputs.drop m) = d.run inputs := by
  rw [moment, run, run, run, ← List.foldl_append, List.take_append_drop]

theorem steady_moment {d : Demander} (hs : d.Steady) (inputs : List Input) (m : Nat) :
    (d.moment inputs m).Steady := steady_run hs _

theorem hosts_moment {d : Demander} (hs : d.Steady) (h : Hosts R P d) (inputs : List Input)
    (m : Nat) : Hosts R P (d.moment inputs m) := hosts_run hs h _

-- ============================================================================
-- Locks that pages wait for
-- ============================================================================

/-- Every partition of the round whose lock a page waits for belongs here. -/
def LocksOwned (R : RoundId) (d : Demander) : Prop :=
  ∀ id j job p, d.job? id = some j → j.page? = some job → job.round = R →
    j.waitsFor? = some p → d.owns p job.demand.topology = true

theorem locksOwned_tick {who : Actor} {d e : Demander} (h : Tick who d e)
    (hl : LocksOwned R d) : LocksOwned R e := by
  intro id j job p hj hp hr hw
  rw [owns, (site_tick h).1.affinity]
  rcases job_tick h hj with hj | ⟨-, hparks⟩
  · exact hl id j job p hj hp hr hw
  · cases hparks with
    | page hx _ ho =>
      rw [hp, Option.some.injEq] at hx
      rw [hx]
      exact ho p hw
    | call hx _ _ =>
      rw [hp] at hx
      cases hx

-- ============================================================================
-- Who moves a partition
-- ============================================================================

section Moves

variable {job : PageJob} {p : PartitionId}

/-- The work on a page moves no partition that does not belong here. -/
theorem Walks.owned {d e : Demander} {todo : List (PartitionId × List Entry)} {w : Walked}
    (h : Walks job d todo e w) (hm : d.site.store.base.state? p = some .moving)
    (hn : e.site.store.base.state? p ≠ some .moving) : d.owns p job.demand.topology = true := by
  have hload : ∀ (d : Demander) (q : PartitionId) (es : List Entry), p ≠ q →
      ((d.held q).load job q es).1.site.store.base.state? p = d.site.store.base.state? p :=
    fun d q es hpq => (state_load_ne hpq es).trans (state?_held d q p)
  induction h with
  | finished => exact absurd hm hn
  | @passed d _ q _ _ _ _ _ ih =>
    have hb := beside_changeRound d job.round (.drain job.sender q)
    rw [← hb.owns]
    exact ih (by rw [hb.store]; exact hm) hn
  | unreservable => exact absurd hm hn
  | @blocked d q => exact absurd ((state?_pinned d q p).trans hm) hn
  | @failed d q es _ _ ho =>
    by_cases hpq : p = q
    · exact hpq ▸ ho
    · exact absurd ((hload d q es hpq).trans hm) hn
  | @loaded d _ q es _ _ ho _ _ _ _ _ ih =>
    by_cases hpq : p = q
    · exact hpq ▸ ho
    · rw [← ((near_held d q).trans (near_load (d.held q) job q es)).owns]
      exact ih ((hload d q es hpq).trans hm) hn

theorem owned_of_walk {d : Demander} {todo : List (PartitionId × List Entry)}
    (hm : d.site.store.base.state? p = some .moving)
    (hn : (d.walk job todo).1.site.store.base.state? p ≠ some .moving) :
    d.owns p job.demand.topology = true := (walks d job todo).owned hm hn

theorem owned_of_goOn {d : Demander} {q : PartitionId} {es : List Entry}
    {rest : List (PartitionId × List Entry)}
    (hq : d.owns q job.demand.topology = true)
    (hm : d.site.store.base.state? p = some .moving)
    (hn : (d.goOn job q es rest).1.site.store.base.state? p ≠ some .moving) :
    d.owns p job.demand.topology = true := by
  by_cases hpq : p = q
  · rw [hpq]
    exact hq
  · have hlock : (d.withLock q).site.store.base.state? p = some .moving :=
      (Store.state?_tryLock _ q p).trans hm
    have hload : ((d.withLock q).load job q es).1.site.store.base.state? p = some .moving :=
      (state_load_ne hpq es).trans hlock
    have hnear := (near_withLock d q).trans (near_load (d.withLock q) job q es)
    unfold goOn at hn
    split at hn
    · exact absurd hload hn
    · have := owned_of_walk hload hn
      rwa [hnear.owns] at this

/-- The partition that a step of a page moves belongs here. -/
theorem owned_of_step {d : Demander} (hl : LocksOwned R d) {i : Input} {id : JobId}
    (hw : d.actor i = .page id job) (hr : job.round = R)
    (hm : d.site.store.base.state? p = some .moving)
    (hn : (d.step i).site.store.base.state? p ≠ some .moving) :
    d.owns p job.demand.topology = true := by
  have hstep := pageStep hw
  generalize d.step i = e at hn hstep
  cases hstep with
  | arrives hid ha =>
    rw [(site_afterWalk _ _ _).1] at hn
    exact owned_of_walk (d := d.spawn.1.measure Board.pageReceived) hm hn
  | goesOn hj hlock =>
    rw [(site_afterWalk _ _ _).1] at hn
    exact owned_of_goOn (hl id _ job _ hj rfl hr rfl) hm hn
  | replied hj r =>
    rw [site_replied, (beside_noteAnswer d _ r).store] at hn
    exact absurd hm hn
  | waits => exact absurd hm hn

end Moves

-- ============================================================================
-- A page over its whole life
-- ============================================================================

/-- How far a page gets in a step in which it is worked on, and its job. -/
def progress? (d : Demander) : Input → Option (JobId × Walked)
  | .page worker sender page =>
    (d.accepted worker sender page).map fun job =>
      (d.nextJob, ((d.spawn.1.measure Board.pageReceived).walk job page.entries.toList).2)
  | .resume id =>
    match d.job? id with
    | some (.locking job p entries rest) =>
      if (d.site.store.base.tryLock p).2 then some (id, (d.goOn job p entries rest).2) else none
    | _ => none
  | _ => none

/-- The page of a job fails in a step. -/
def Fails (d : Demander) (id : JobId) (i : Input) : Prop :=
  ∃ cause, d.progress? i = some (id, .failed cause)

/-- A partition of a page is still ahead of it. -/
def StillAhead (d : Demander) (id : JobId) (job : PageJob) (x : PartitionId × List Entry) : Prop :=
  ∃ q es rest, d.job? id = some (.locking job q es rest) ∧ x ∈ (q, es) :: rest

/-- A change of the site that writes nothing to the store, lets no key take a partition away, and
    leaves alone what belongs here by the plan. -/
def Untouched (P : Plan) (d : Demander) (i : Input) : Prop :=
  ∀ c, i = .site c →
    d.site.store.base.Grows (d.site.change c).store.base ∧
    (d.site.change c).store.invalidating = d.site.store.invalidating ∧
    ∀ n demand p, P.get? n = some demand →
      (d.site.change c).affinity.isOwned p demand.topology =
        d.site.affinity.isOwned p demand.topology

/-- What follows on the work on a page, for the entries of one partition. -/
theorem afterWalk_accounts {id : JobId} {job : PageJob} {x : Demander × Walked}
    {p : PartitionId} {entries : List Entry} (h : WalkAccounts p entries x)
    (hf : ∀ cause, x.2 ≠ .failed cause) :
    (afterWalk id job x).StillAhead id job (p, entries) ∨
      ∀ e ∈ entries, (afterWalk id job x).Accounted p e := by
  have later : (∀ e ∈ entries, x.1.Accounted p e) →
      ∀ e ∈ entries, (afterWalk id job x).Accounted p e := by
    intro hacc e he
    obtain ⟨hstore, halike⟩ := site_afterWalk id job x
    refine (hacc e he).later halike ?_
    rw [hstore]
    exact .refl _
  obtain ⟨f, w⟩ := x
  cases w with
  | finished => exact .inr (later h)
  | blocked q es rest =>
    rcases h with h | h
    · refine .inl ⟨q, es, rest, ?_, h⟩
      change (f.park id (.locking job q es rest)).job? id = _
      rw [job?_park_self]
    · exact .inr (later h)
  | failed cause => exact absurd rfl (hf cause)

section Life

variable {d : Demander} {job : PageJob} {p : PartitionId} {entries : List Entry}

/-- The step in which a page arrives. -/
theorem arrival_accounts {worker : WorkerId} {sender : NodeId} {page : Supply}
    (ha : d.accepted worker sender page = some job) (hp : job.page.entries.get? p = some entries)
    (hf : d.Fillable job.demand.topology p)
    (hok : ¬ d.Fails d.nextJob (.page worker sender page)) :
    (d.step (.page worker sender page)).StillAhead d.nextJob job (p, entries) ∨
      ∀ e ∈ entries, (d.step (.page worker sender page)).Accounted p e := by
  have hpage : job.page = page := by
    obtain ⟨-, plan, demand, -, -, -, -, rfl⟩ := accepted_round ha
    rfl
  rw [step_page ha]
  refine afterWalk_accounts ?_ fun cause hc => hok ⟨cause, ?_⟩
  · exact walk_accounts ⟨hf.owned, hf.moving, hf.stays⟩ (SortedMap.get?_eq_some_iff.mp hp)
      (SortedMap.keys_nodup _)
  · rw [progress?, ha, Option.map_some, ← hpage, hc]

/-- A step in which a page goes on that had the partition ahead. -/
theorem resume_accounts {id : JobId} (hs : d.Steady) (hp : d.StillAhead id job (p, entries))
    (hf : d.Fillable job.demand.topology p) (hok : ¬ d.Fails id (.resume id)) :
    (d.step (.resume id)).StillAhead id job (p, entries) ∨
      ∀ e ∈ entries, (d.step (.resume id)).Accounted p e := by
  obtain ⟨q, es, rest, hj, hmem⟩ := hp
  rw [step_resume_locking hj]
  split
  · exact .inl ⟨q, es, rest, hj, hmem⟩
  · next hlock =>
    have htodo : ((q, es) :: rest) <:+ job.page.entries.toList := hs.todo id _ job hj rfl
    have hk : (((q, es) :: rest).map Prod.fst).Nodup :=
      (SortedMap.keys_nodup job.page.entries).sublist (htodo.sublist.map Prod.fst)
    refine afterWalk_accounts (goOn_accounts hf hmem hk) fun cause hc => hok ⟨cause, ?_⟩
    rw [progress?, hj]
    simp only
    rw [if_pos (by simpa using hlock), hc]

/-- A step in which a page that waits for a lock does not go on. -/
theorem stillAhead_step {id : JobId} (hs : d.Steady) (hp : d.StillAhead id job (p, entries))
    {i : Input} (hi : i ≠ .resume id) : (d.step i).StillAhead id job (p, entries) := by
  obtain ⟨q, es, rest, hj, hmem⟩ := hp
  refine ⟨q, es, rest, ?_, hmem⟩
  have hyoung := hs.young id _ hj
  by_cases hsite : ∃ c, i = .site c
  · obtain ⟨c, rfl⟩ := hsite
    exact hj
  · by_cases ha : ∃ r, i = .answer id r
    · obtain ⟨r, rfl⟩ := ha
      change (d.answer id r).job? id = _
      unfold answer
      rw [hj]
      exact hj
    · have hbase : (d.base i).job? id = d.job? id := by
        cases i <;> rfl
      have hof : ∀ id', id' ≠ id → (d.actorOf id').id? ≠ some id := by
        intro id' hne
        unfold actorOf
        split
        · exact fun h => hne (Option.some.inj h)
        · split
          · exact fun h => hne (Option.some.inj h)
          · exact fun h => by cases h
      have hnext : some d.nextJob ≠ some id :=
        fun h => Nat.ne_of_gt hyoung (Option.some.inj h)
      have hactor : (d.actor i).id? ≠ some id := by
        cases i with
        | add plan force => exact hnext
        | stop => exact hnext
        | page worker sender page =>
          simp only [actor]
          split
          · exact hnext
          · exact hnext
        | resume id' => exact hof id' fun h => hi (by rw [h])
        | answer id' r => exact hof id' fun h => ha ⟨r, by rw [h]⟩
        | _ => exact fun h => by cases h
      rw [(step_ticks hs fun c hc => hsite ⟨c, hc⟩).jobs hactor, hbase]
      exact hj

end Life

-- ============================================================================
-- What a run keeps
-- ============================================================================

/-- What a run that nothing interferes with keeps: nothing stored is taken back, the keys that
    take a partition away are the same, and so is what belongs here by the plan. -/
structure Kept (P : Plan) (d e : Demander) : Prop where
  grows : d.site.store.base.Grows e.site.store.base
  invalidating : e.site.store.invalidating = d.site.store.invalidating
  owned : ∀ n demand p, P.get? n = some demand →
    e.owns p demand.topology = d.owns p demand.topology

namespace Kept

theorem refl (P : Plan) (d : Demander) : Kept P d d := ⟨.refl _, rfl, fun _ _ _ _ => rfl⟩

theorem trans {d e f : Demander} (h₁ : Kept P d e) (h₂ : Kept P e f) : Kept P d f :=
  ⟨h₁.grows.trans h₂.grows, h₂.invalidating.trans h₁.invalidating,
    fun n demand p hn => (h₂.owned n demand p hn).trans (h₁.owned n demand p hn)⟩

end Kept

theorem kept_step {d : Demander} (hs : d.Steady) {i : Input} (hi : Untouched P d i) :
    Kept P d (d.step i) := by
  by_cases hsite : ∃ c, i = .site c
  · obtain ⟨c, rfl⟩ := hsite
    obtain ⟨hg, hinv, howns⟩ := hi c rfl
    exact ⟨hg, hinv, howns⟩
  · have hbase : (d.base i).site = d.site := by
      cases i <;> rfl
    obtain ⟨ha, hg⟩ := (step_ticks hs fun c hc => hsite ⟨c, hc⟩).site
    rw [hbase] at ha hg
    refine ⟨hg, ha.invalidating, fun n demand p _ => ?_⟩
    simp only [owns, ha.affinity]

theorem locksOwned_step {d : Demander} (hs : d.Steady) (hh : Hosts R P d) (hl : LocksOwned R d)
    {i : Input} (hi : Untouched P d i) : LocksOwned R (d.step i) := by
  by_cases hsite : ∃ c, i = .site c
  · obtain ⟨c, rfl⟩ := hsite
    intro id j job p hj hp hr hw
    have hg := hh.pages id j job hj hp hr
    exact ((kept_step hs hi).owned _ _ p hg).trans (hl id j job p hj hp hr hw)
  · refine step_keeps hs (fun c hc => hsite ⟨c, hc⟩) ?_ fun e f ht _ _ he => locksOwned_tick ht he
    cases i <;> exact hl

section Run

variable {d : Demander} {inputs : List Input}

theorem kept_moment (hs : d.Steady)
    (hu : ∀ m i, inputs[m]? = some i → Untouched P (d.moment inputs m) i) {l m : Nat}
    (hlm : l ≤ m) : Kept P (d.moment inputs l) (d.moment inputs m) := by
  induction hlm with
  | refl => exact .refl P _
  | @step m _ ih =>
    cases hi : inputs[m]? with
    | none =>
      have hlen := List.getElem?_eq_none_iff.mp hi
      have hsame : d.moment inputs (m + 1) = d.moment inputs m := by
        unfold moment
        rw [List.take_of_length_le hlen, List.take_of_length_le (by omega)]
      rw [hsame]
      exact ih
    | some i =>
      rw [moment_succ d hi]
      exact ih.trans (kept_step (steady_moment hs inputs m) (hu m i hi))

theorem locksOwned_moment (hs : d.Steady) (hh : Hosts R P d) (hl : LocksOwned R d)
    (hu : ∀ m i, inputs[m]? = some i → Untouched P (d.moment inputs m) i) (m : Nat) :
    LocksOwned R (d.moment inputs m) := by
  induction m with
  | zero => exact hl
  | succ m ih =>
    cases hi : inputs[m]? with
    | none =>
      have hlen := List.getElem?_eq_none_iff.mp hi
      have hsame : d.moment inputs (m + 1) = d.moment inputs m := by
        unfold moment
        rw [List.take_of_length_le hlen, List.take_of_length_le (by omega)]
      rw [hsame]
      exact ih
    | some i =>
      rw [moment_succ d hi]
      exact locksOwned_step (steady_moment hs inputs m) (hosts_moment hs hh inputs m) ih (hu m i hi)

/-- An entry that was expired or turned away at some moment since a page arrived, or that the
    store answers for. -/
def Settled (d : Demander) (inputs : List Input) (p : PartitionId) (e : Entry) (j m : Nat) : Prop :=
  (∃ l, j < l ∧ l ≤ m ∧ (e.isExpired (d.moment inputs l).site.clock = true ∨
    (d.moment inputs l).site.accepts p e = false)) ∨
    (d.moment inputs m).site.store.base.Answers p e

theorem Settled.of_accounted {p : PartitionId} {e : Entry} {j m : Nat} (hjm : j < m)
    (h : (d.moment inputs m).Accounted p e) : Settled d inputs p e j m := by
  rcases h with h | h | h
  · exact .inl ⟨m, hjm, Nat.le_refl m, .inl h⟩
  · exact .inl ⟨m, hjm, Nat.le_refl m, .inr h⟩
  · exact .inr h

theorem Settled.later {p : PartitionId} {e : Entry} {j m : Nat} (h : Settled d inputs p e j m)
    (hg : (d.moment inputs m).site.store.base.Grows (d.moment inputs (m + 1)).site.store.base) :
    Settled d inputs p e j (m + 1) := by
  rcases h with ⟨l, hj, hl, h⟩ | h
  · exact .inl ⟨l, hj, Nat.le_succ_of_le hl, h⟩
  · exact .inr (h.grows hg)

/-- From the step in which a page arrives to any later moment, as long as one of its partitions is
    moving and the page does not fail, the partition is still ahead of it or its entries are
    settled. -/
theorem page_settles (hs : d.Steady) (hinv : d.site.store.invalidating = ∅)
    (hu : ∀ m i, inputs[m]? = some i → Untouched P (d.moment inputs m) i)
    {j k : Nat} {worker : WorkerId} {sender : NodeId} {page : Supply} {job : PageJob}
    (hj : inputs[j]? = some (.page worker sender page))
    (ha : (d.moment inputs j).accepted worker sender page = some job)
    {p : PartitionId} {entries : List Entry} (hp : job.page.entries.get? p = some entries)
    (hserves : P.get? job.sender = some job.demand)
    (hm : (d.moment inputs k).site.store.base.state? p = some .moving)
    (howns : (d.moment inputs k).owns p job.demand.topology = true)
    (hok : ∀ m i, j ≤ m → m ≤ k → inputs[m]? = some i →
      ¬ (d.moment inputs m).Fails (d.moment inputs j).nextJob i)
    (hk : k < inputs.length) {m : Nat} (hjm : j + 1 ≤ m) (hmk : m ≤ k + 1) :
    (d.moment inputs m).StillAhead (d.moment inputs j).nextJob job (p, entries) ∨
      ∀ e ∈ entries, Settled d inputs p e j m := by
  have hfill : ∀ l, l ≤ k → (d.moment inputs l).Fillable job.demand.topology p := by
    intro l hl
    have hkept := kept_moment hs hu hl
    have hstart := kept_moment hs hu (Nat.zero_le l)
    refine ⟨(hkept.owned _ _ p hserves).symm.trans howns, hkept.grows.moving p hm, ?_⟩
    exact hstart.invalidating.trans hinv
  induction hjm with
  | refl =>
    rw [moment_succ d hj]
    rcases arrival_accounts ha hp (hfill j (by omega)) (hok j _ (Nat.le_refl j) (by omega) hj) with
      h | h
    · exact .inl h
    · refine .inr fun e he => .of_accounted (Nat.lt_succ_self j) ?_
      rw [moment_succ d hj]
      exact h e he
  | @step m hjm ih =>
    have hjm : j + 1 ≤ m := hjm
    obtain ⟨i, hi⟩ : ∃ i, inputs[m]? = some i :=
      ⟨inputs[m], List.getElem?_eq_getElem (by omega)⟩
    have hsm := steady_moment hs inputs m
    have hnext := moment_succ d hi
    rcases ih (by omega) with h | h
    · by_cases hres : i = .resume (d.moment inputs j).nextJob
      · subst hres
        rcases resume_accounts hsm h (hfill m (by omega)) (hok m _ (by omega) (by omega) hi) with
          h | h
        · rw [hnext]
          exact .inl h
        · refine .inr fun e he => .of_accounted (by omega) ?_
          rw [hnext]
          exact h e he
      · rw [hnext]
        exact .inl (stillAhead_step hsm h hres)
    · exact .inr fun e he => (h e he).later (kept_moment hs hu (Nat.le_succ m)).grows

end Run

-- ============================================================================
-- The transfer of a partition
-- ============================================================================

/-- When a round starts, no page waits for it yet. -/
theorem locksOwned_begin {d : Demander} (hs : d.Steady)
    (ha : (d.roundOf R).round.attached = false) (plan : Plan) : LocksOwned R (d.begin R plan) := by
  intro id j job p hj hp hr _
  rw [job?, (beside_begin d R plan).jobs] at hj
  have hb := hs.bound id j R hj ((Job.round?_of_page? hp).trans (congrArg some hr))
  rw [hb.2] at ha
  cases ha

/-- No data is lost at the transfer of a partition, as far as no page fails.  Take any demander
    that can be there, anything that makes a plan start the round `R`, and any run after that in
    which nothing interferes.  At some moment `j` a page arrives and is accepted for the round, and
    at a moment `k` that is not earlier a page from the same sender moves one of its partitions on
    from moving to owning.  If the first page has not failed by then and is past the partition, then
    every entry that it brought for the partition was expired or turned away, or the store answers
    for it: the entry was evicted, its key was removed, there was no room for it, or the store
    holds its key at its revision or a later one. -/
theorem transfer_keeps_entries {d : Demander} (hd : d.Reachable)
    (ha : (d.roundOf R).round.attached = false) {i : Input} (hc : (d.step i).current = R)
    (hp : (d.step i).plan = some P) (hinv : (d.step i).site.store.invalidating = ∅)
    {inputs : List Input}
    (hu : ∀ m x, inputs[m]? = some x → Untouched P ((d.step i).moment inputs m) x)
    {j k : Nat} (hjk : j ≤ k) {worker : WorkerId} {sender : NodeId} {page : Supply}
    (hj : inputs[j]? = some (.page worker sender page)) {job : PageJob}
    (hacc : ((d.step i).moment inputs j).accepted worker sender page = some job)
    (hround : job.round = R) {last : Input} (hk : inputs[k]? = some last) {id : JobId}
    {job' : PageJob} (hby : ((d.step i).moment inputs k).actor last = .page id job')
    (hsender : job'.sender = sender) (hround' : job'.round = R) {p : PartitionId}
    (hbefore : ((d.step i).moment inputs k).site.store.base.state p = .moving)
    (hafter : ((d.step i).moment inputs (k + 1)).site.store.base.state p = .owning)
    {entries : List Entry} (hentries : page.entries.get? p = some entries)
    (hok : ∀ m x, j ≤ m → m ≤ k → inputs[m]? = some x →
      ¬ ((d.step i).moment inputs m).Fails ((d.step i).moment inputs j).nextJob x)
    (hpast : ¬ ((d.step i).moment inputs (k + 1)).StillAhead ((d.step i).moment inputs j).nextJob
      job (p, entries)) :
    ∀ e ∈ entries, Settled (d.step i) inputs p e j (k + 1) := by
  have hs := steady_step hd.steady i
  obtain ⟨hh, hl⟩ := begun_keeps (Q := fun _ e => LocksOwned R e)
    (fun _ plan hse _ hfresh => locksOwned_begin hse hfresh plan)
    (fun _ _ _ _ ht _ _ _ _ hq => locksOwned_tick ht hq) hd.steady ha hc hp
  have hjob : job.sender = sender ∧ job.page = page := by
    obtain ⟨-, plan, demand, -, -, -, -, rfl⟩ := accepted_round hacc
    exact ⟨rfl, rfl⟩
  have hserves : P.get? job.sender = some job.demand :=
    (hosts_moment hs hh inputs j).serves_accepted hacc hround
  -- The page that moves the partition answers the same demand, and it belongs here by that.
  have hserves' : P.get? job'.sender = some job'.demand := by
    have h := (hosts_moment hs hh inputs k).serves last
    rw [hby] at h
    exact h hround'
  have hdemand : job'.demand = job.demand := by
    rw [hsender, ← hjob.1, hserves, Option.some.injEq] at hserves'
    exact hserves'.symm
  have hm := (Store.state_eq_moving_iff _ _).mp hbefore
  have howns : ((d.step i).moment inputs k).owns p job.demand.topology = true := by
    rw [← hdemand]
    refine owned_of_step (locksOwned_moment hs hh hl hu k) hby hround' hm fun hmoving => ?_
    rw [← moment_succ _ hk, ← Store.state_eq_moving_iff, hafter] at hmoving
    cases hmoving
  have hlen : k < inputs.length := (List.getElem?_eq_some_iff.mp hk).1
  rcases page_settles hs hinv hu hj hacc (by rw [hjob.2]; exact hentries) hserves hm howns hok hlen
    (m := k + 1) (by omega) (Nat.le_refl _) with h | h
  · exact absurd h hpast
  · exact h

/-! ## What a failed page brought is lost -/

/-- A demander of two partitions, whose store may reject the writes of some keys. -/
def pickyStart (rejected : SortedMap Bytes String) : Demander :=
  newborn { poolSize := 1 } 2 ⟨1, 0⟩ ⟨{}, ∅, rejected, ∅⟩ [3, 4]

/-- Two nodes are asked for one partition each. -/
def pairAdded : Input := .add (planFor ⟨1, 0⟩ [(5, [3]), (6, [4])]) true

/-- A page with one entry of a partition, and then the last page of it. -/
def twoPages : List Input :=
  [.answer 0 (.ok ()), .answer 0 (.ok ()),
    .page 0 5 ((Supply.empty 0).addEntries 3 [{ key := [107], value := [1], revision := ⟨1, 0⟩ }]),
    .page 0 5 ((Supply.empty 0).markLast 3)]

/-- Without a rejected key the entry is settled, and in fact held, when the partition is owned. -/
theorem both_pages_are_kept :
    let d := (pickyStart ∅).step pairAdded
    let e : Entry := { key := [107], value := [1], revision := ⟨1, 0⟩ }
    (pickyStart ∅).Reachable ∧
      (d.moment twoPages 3).site.store.base.state 3 = .moving ∧
      (d.moment twoPages 4).site.store.base.state 3 = .owning ∧
      Settled d twoPages 3 e 2 4 ∧
      (d.moment twoPages 4).site.store.base.read 3 e.key = some (e.value, e.revision) := by
  intro d e
  have hreach : (pickyStart ∅).Reachable := reachable_newborn rfl rfl 2 ⟨1, 0⟩ _ [3, 4]
  let plan := (planFor ⟨1, 0⟩ [(5, [3]), (6, [4])]).stamp (Span.ofSecs 10) 524288
  let demand : Demand := ⟨SortedSet.ofList [3], ⟨1, 0⟩, Span.ofSecs 10, 524288, none⟩
  let first : Supply := (Supply.empty 0).addEntries 3 [e]
  let final : Supply := (Supply.empty 0).markLast 3
  have hu : ∀ m x, twoPages[m]? = some x → Untouched plan (d.moment twoPages m) x := by
    rintro m x hx c rfl
    have hmem := List.mem_of_getElem? hx
    simp [twoPages] at hmem
  -- The first page is dealt with at once, and does not fail.
  have hok : ∀ m x, 2 ≤ m → m ≤ 3 → twoPages[m]? = some x →
      ¬ (d.moment twoPages m).Fails (d.moment twoPages 2).nextJob x := by
    rintro m x h₁ h₂ hx ⟨cause, hc⟩
    have hstops : ∀ l, l < 4 → ((twoPages[l]?.bind (d.moment twoPages l).progress?).all fun w =>
        match w.2 with
        | .failed _ => false
        | _ => true) = true := by decide +kernel
    have hm := hstops m (by omega)
    rw [hx, Option.bind_some, hc] at hm
    cases hm
  have hpast : ¬ (d.moment twoPages 4).StillAhead (d.moment twoPages 2).nextJob
      ⟨0, 5, 0, ⟨0, .nodeJoined, 0⟩, demand, first⟩ (3, [e]) := by
    rintro ⟨q, es, rest, hj, -⟩
    have hthrough : ((d.moment twoPages 4).job? (d.moment twoPages 2).nextJob).all
        (fun x => x.todo.isEmpty) = true := by decide +kernel
    rw [hj] at hthrough
    cases hthrough
  have h := transfer_keeps_entries hreach rfl (i := pairAdded) (R := 0) (P := plan) rfl rfl rfl hu
    (j := 2) (k := 3) (by decide) rfl (show _ = some ⟨0, 5, 0, ⟨0, .nodeJoined, 0⟩, demand, first⟩
      from rfl) rfl rfl rfl rfl rfl (p := 3) (by decide +kernel) (by decide +kernel) rfl hok hpast e
    List.mem_cons_self
  exact ⟨hreach, by decide +kernel, by decide +kernel, h, by decide +kernel⟩

/-- The write of the entry is rejected, the page fails and its sender is given up; but the last
    page is worked through, and the partition is owned without the entry. -/
theorem failed_page_is_lost :
    let d := (pickyStart (SortedMap.insert [107] "disk full" ∅)).step pairAdded
    let e : Entry := { key := [107], value := [1], revision := ⟨1, 0⟩ }
    (pickyStart (SortedMap.insert [107] "disk full" ∅)).Reachable ∧
      (d.moment twoPages 2).accepted 0 5 ((Supply.empty 0).addEntries 3 [e]) ≠ none ∧
      (d.moment twoPages 3).site.store.base.state 3 = .moving ∧
      (d.moment twoPages 4).site.store.base.state 3 = .owning ∧
      (∀ m, m ≤ 4 → e.isExpired (d.moment twoPages m).site.clock = false ∧
        (d.moment twoPages m).site.accepts 3 e = true) ∧
      (d.moment twoPages 4).site.store.base.loadPermitted 3 e.key e.revision = true ∧
      ((d.moment twoPages 4).site.store.base.slotFor 3 e.key).obsolete = false ∧
      (d.moment twoPages 4).site.store.base.isFull = false ∧
      (d.moment twoPages 4).site.store.base.read 3 e.key = none := by
  intro d e
  refine ⟨reachable_newborn rfl rfl 2 ⟨1, 0⟩ _ [3, 4], ?_, ?_, ?_, ?_, ?_, ?_, ?_, ?_⟩
  · intro h
    have hsome : ((d.moment twoPages 2).accepted 0 5
        ((Supply.empty 0).addEntries 3 [e])).isSome = true := by decide +kernel
    rw [h] at hsome
    cases hsome
  · decide +kernel
  · decide +kernel
  · decide +kernel
  · decide +kernel
  · decide +kernel
  · decide +kernel
  · decide +kernel

end Demander
end Rebalance
