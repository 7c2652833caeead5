/-
  Rebalance.Proofs.Stopped

  A demander that was told to stop, on one thread.  The call waits while pages are
  taken in, and no new one is; `Stopping` says so of a demander at any moment after
  the call, and `Halted` is what it comes to when the call returns.  From then on
  the demander pays no heed to its store and its recorder, whatever else happens to
  it, and nobody reaches it on its demand topics.  `Proofs/LatePages` says what is
  left of this where calls run on several threads.
-/
import Rebalance.Proofs.Heedless
import Rebalance.Proofs.Isolation
import Rebalance.Proofs.Listening

namespace Rebalance
namespace Demander

/-- A call has returned. -/
def HasReturned (d : Demander) (id : JobId) : Prop := (d.returns.any fun x => x.1 == id) = true

instance (d : Demander) (id : JobId) : Decidable (d.HasReturned id) :=
  inferInstanceAs (Decidable (_ = true))

theorem hasReturned_iff {d : Demander} {id : JobId} :
    d.HasReturned id ↔ id ∈ d.returns.map Prod.fst := by
  simp [HasReturned]

theorem hasReturned_finish (d : Demander) (id : JobId) (r : Except Fault Unit) :
    (d.finish id r).HasReturned id := by
  rw [hasReturned_iff]
  simp [finish]

theorem HasReturned.finish {d : Demander} {id : JobId} (h : d.HasReturned id) (k : JobId)
    (r : Except Fault Unit) : (d.finish k r).HasReturned id := by
  rw [hasReturned_iff] at h ⊢
  rw [Demander.finish, List.map_append]
  exact List.mem_append_left _ h

theorem isBusy_eq_false_iff {d : Demander} :
    d.isBusy = false ↔ ∀ id j, d.job? id = some j → j.page? = none := by
  have hpage : ∀ j : Job, j.isPage = false ↔ j.page? = none := by
    intro j
    cases j <;> simp [Job.isPage, Job.page?]
  unfold isBusy
  rw [List.any_eq_false]
  constructor
  · intro h id j hj
    rw [← hpage, ← Bool.not_eq_true]
    exact h j (SortedMap.mem_values_iff.mpr ⟨id, hj⟩)
  · intro h j hj
    obtain ⟨id, hj⟩ := SortedMap.mem_values_iff.mp hj
    rw [Bool.not_eq_true, hpage]
    exact h id j hj

/-- A call to stop that waits is no page that is being taken in. -/
theorem isBusy_leaving {d : Demander} (hs : d.Steady) :
    (d.leaving.park d.nextJob .stopping).isBusy = d.isBusy := by
  have hjobs : d.leaving.jobs = d.jobs :=
    (beside_abandonRound { d.spawn.1 with stopping := true }).jobs
  rw [Bool.eq_iff_iff, ← not_iff_not, Bool.not_eq_true, Bool.not_eq_true, isBusy_eq_false_iff,
    isBusy_eq_false_iff]
  constructor
  · intro h id j hj
    refine h id j ?_
    rw [job?_park_of_ne (Nat.ne_of_lt (hs.young id j hj)), job?, hjobs]
    exact hj
  · intro h id j hj
    rcases of_job?_park hj with ⟨-, rfl⟩ | ⟨-, hj⟩
    · rfl
    · rw [job?, hjobs] at hj
      exact h id j hj

-- ============================================================================
-- What no tick takes back
-- ============================================================================

/-- A demander that stops goes on stopping, and where it listens no more it does not begin again. -/
structure Closing (d e : Demander) : Prop where
  stopping : d.stopping = true → e.stopping = true
  topics : d.topics = [] → e.topics = []

theorem Closing.trans {d e f : Demander} (h₁ : Closing d e) (h₂ : Closing e f) : Closing d f :=
  ⟨fun h => h₂.stopping (h₁.stopping h), fun h => h₂.topics (h₁.topics h)⟩

theorem Closing.of_same {d e : Demander} (hs : e.stopping = d.stopping) (ht : e.topics = d.topics) :
    Closing d e :=
  ⟨fun h => hs.trans h, fun h => ht.trans h⟩

theorem Beside.closing {d e : Demander} (h : Beside d e) : Closing d e :=
  .of_same h.stopping h.topics

theorem closing_chore {who : Actor} {d e : Demander} (h : Chore who d e) : Closing d e := by
  cases h with
  | note hb _ _ _ => exact hb.closing
  | keep schedule topics fault stopping ht hs =>
    refine ⟨hs, fun h => ?_⟩
    rcases ht with rfl | rfl
    · exact h
    · rfl
  | drain p _ => exact (beside_changeRound d _ _).closing
  | settleMissed => exact (beside_settleMissed d _).closing
  | load p entries =>
    exact .of_same (near_load d _ p entries).stopping (near_load d _ p entries).topics
  | cancel round node reason _ _ => exact (beside_cancelNode d round node reason).closing
  | endShipment round s _ _ => exact (beside_endShipment d round s).closing
  | watch tag => exact (beside_whenDone d d.current _).closing
  | _ => exact .of_same rfl rfl

theorem closing_tick {who : Actor} {d e : Demander} (h : Tick who d e) : Closing d e := by
  cases h with
  | chore h => exact closing_chore h
  | begin round plan _ _ _ _ =>
    exact .of_same (beside_begin d round plan).stopping (beside_begin d round plan).topics
  | pass round plan _ _ =>
    exact .of_same (beside_pass d round plan).stopping (beside_pass d round plan).topics
  | abandon => exact (beside_abandonRound d).closing

theorem closing_ticks {who : Actor} {d e : Demander} (h : Ticks who d e) : Closing d e := by
  induction h with
  | refl => exact .of_same rfl rfl
  | head h _ ih => exact (closing_tick h).trans ih

theorem closing_step {d : Demander} (hs : d.Steady) (i : Input) : Closing d (d.step i) := by
  by_cases hi : ∃ c, i = .site c
  · obtain ⟨c, rfl⟩ := hi
    exact .of_same rfl rfl
  · have hbase : Closing d (d.base i) := by
      cases i <;> exact .of_same rfl rfl
    exact hbase.trans (closing_ticks (step_ticks hs fun c hc => hi ⟨c, hc⟩))

/-- Only whoever is at work returns. -/
theorem returns_ticks {who : Actor} {d e : Demander} (h : Ticks who d e) :
    ∃ rs, e.returns = d.returns ++ rs ∧ ∀ x ∈ rs, who.id? = some x.1 := by
  induction h with
  | refl => exact ⟨[], (List.append_nil _).symm, fun x hx => absurd hx List.not_mem_nil⟩
  | @head d e f h _ ih =>
    obtain ⟨rs, hrs, hwho⟩ := ih
    have hsame : e.returns = d.returns →
        ∃ rs, f.returns = d.returns ++ rs ∧ ∀ x ∈ rs, who.id? = some x.1 :=
      fun h => ⟨rs, by rw [hrs, h], hwho⟩
    cases shape_tick h with
    | along h => exact hsame h.returns
    | park _ _ _ _ he => exact hsame (by rw [he]; rfl)
    | install _ _ _ _ _ h => exact hsame h.returns
    | finish id r hid he =>
      refine ⟨(id, r) :: rs, ?_, fun x hx => ?_⟩
      · rw [hrs, he, finish, List.append_assoc, List.singleton_append]
      · rcases List.mem_cons.mp hx with rfl | hx
        · exact hid
        · exact hwho x hx

/-- What has returned stays so. -/
theorem HasReturned.ticks {who : Actor} {d e : Demander} {id : JobId} (h : d.HasReturned id)
    (ht : Ticks who d e) : e.HasReturned id := by
  obtain ⟨rs, hrs, -⟩ := returns_ticks ht
  rw [hasReturned_iff] at h ⊢
  rw [hrs, List.map_append]
  exact List.mem_append_left _ h

theorem not_hasReturned_ticks {who : Actor} {d e : Demander} {id : JobId} (h : ¬ d.HasReturned id)
    (ht : Ticks who d e) (hw : who.id? ≠ some id) : ¬ e.HasReturned id := by
  obtain ⟨rs, hrs, hwho⟩ := returns_ticks ht
  rw [hasReturned_iff] at h ⊢
  rw [hrs, List.map_append]
  intro hmem
  rcases List.mem_append.mp hmem with hmem | hmem
  · exact h hmem
  · obtain ⟨x, hx, rfl⟩ := List.mem_map.mp hmem
    exact hw (hwho x hx)

theorem hasReturned_base (d : Demander) (i : Input) {id : JobId} :
    (d.base i).HasReturned id ↔ d.HasReturned id := by
  cases i <;> exact Iff.rfl

theorem HasReturned.step {d : Demander} {id : JobId} (h : d.HasReturned id) (hs : d.Steady)
    (i : Input) : (d.step i).HasReturned id := by
  by_cases hi : ∃ c, i = .site c
  · obtain ⟨c, rfl⟩ := hi
    exact h
  · exact ((hasReturned_base d i).mpr h).ticks (step_ticks hs fun c hc => hi ⟨c, hc⟩)

theorem not_hasReturned_step {d : Demander} {id : JobId} (h : ¬ d.HasReturned id) (hs : d.Steady)
    {i : Input} (hw : (d.actor i).id? ≠ some id) : ¬ (d.step i).HasReturned id := by
  by_cases hi : ∃ c, i = .site c
  · obtain ⟨c, rfl⟩ := hi
    exact h
  · exact not_hasReturned_ticks (mt (hasReturned_base d i).mp h)
      (step_ticks hs fun c hc => hi ⟨c, hc⟩) hw

/-- The job that begins next has not returned. -/
theorem not_hasReturned_nextJob {d : Demander} (hs : d.Steady) : ¬ d.HasReturned d.nextJob := by
  rw [hasReturned_iff]
  intro hmem
  obtain ⟨x, hx, hid⟩ := List.mem_map.mp hmem
  exact absurd (hs.ended x hx) (by rw [hid]; exact Nat.lt_irrefl _)

-- ============================================================================
-- Pages
-- ============================================================================

theorem Job.page?_of_isPage {j : Job} (h : j.isPage = true) : j.page?.isSome = true := by
  cases j with
  | locking => rfl
  | replying => rfl
  | _ => cases h

/-- A page is still being taken in, or has been dealt with. -/
def Handles (d : Demander) (id : JobId) : Prop :=
  (∃ j, d.job? id = some j ∧ j.page?.isSome = true) ∨ d.HasReturned id

theorem Handles.congr {d e : Demander} {id : JobId} (h : d.Handles id)
    (hj : e.job? id = d.job? id) (hr : e.returns = d.returns) : e.Handles id := by
  unfold Handles HasReturned
  rw [hj, hr]
  exact h

theorem handles_tick {who : Actor} {d e : Demander} (h : Tick who d e) {id : JobId}
    (hw : who.id? = some id → ∃ job, who = .page id job) (hd : d.Handles id) : e.Handles id := by
  cases shape_tick h with
  | along h => exact hd.congr (by rw [job?, h.jobs, job?]) h.returns
  | install _ _ _ _ _ h => exact hd.congr (by rw [job?, h.jobs, job?]) h.returns
  | park k j hid hj he =>
    rw [he]
    by_cases hk : id = k
    · subst hk
      obtain ⟨job, rfl⟩ := hw hid
      cases hj with
      | page hj _ _ => exact .inl ⟨j, by rw [job?_park_self], by rw [hj]; rfl⟩
    · exact hd.congr (by rw [job?_park_of_ne hk]) rfl
  | finish k r hid he =>
    rw [he]
    by_cases hk : id = k
    · subst hk
      exact .inr (hasReturned_finish d id r)
    · rcases hd with ⟨j, hj, hp⟩ | hreturned
      · exact .inl ⟨j, by rw [job?_finish_of_ne hk]; exact hj, hp⟩
      · exact .inr (hreturned.finish k r)

/-- Whoever goes on as a page that waits is that page. -/
theorem page_at_work {d : Demander} (hs : d.Steady) {id : JobId} {j : Job} (hj : d.job? id = some j)
    (hp : j.page?.isSome = true) {i : Input} (hw : (d.actor i).id? = some id) :
    ∃ job, d.actor i = .page id job := by
  obtain ⟨job, hjob⟩ := Option.isSome_iff_exists.mp hp
  obtain ⟨rfl | ⟨r, rfl⟩, -⟩ := actor_of_begun (hs.young id j hj) hw
  · exact ⟨job, actorOf_of_page hj hjob⟩
  · exact ⟨job, actorOf_of_page hj hjob⟩

/-- A page that is being taken in is, or has been dealt with, after whatever happens next. -/
theorem Handles.step {d : Demander} {id : JobId} (h : d.Handles id) (hs : d.Steady) (i : Input) :
    (d.step i).Handles id := by
  rcases h with ⟨j, hj, hp⟩ | hreturned
  · by_cases hi : ∃ c, i = .site c
    · obtain ⟨c, rfl⟩ := hi
      exact .inl ⟨j, hj, hp⟩
    · refine step_keeps (P := fun e => e.Handles id) hs (fun c hc => hi ⟨c, hc⟩) (.inl ⟨j, ?_, hp⟩)
        fun e f ht _ _ he => handles_tick ht (page_at_work hs hj hp) he
      cases i <;> exact hj
  · exact .inr (hreturned.step hs i)

theorem Handles.run {d : Demander} {id : JobId} (h : d.Handles id) (hs : d.Steady)
    (inputs : List Input) : (d.run inputs).Handles id := by
  induction inputs generalizing d with
  | nil => exact h
  | cons i inputs ih => exact ih (h.step hs i) (steady_step hs i)

-- ============================================================================
-- Stopping
-- ============================================================================

/-- A stop is over: no page is taken in, and no topic is listened on. -/
structure Halted (d : Demander) : Prop where
  stopping : d.stopping = true
  idle : d.isBusy = false
  topics : d.topics = []

/-- A stop was called: it waits, and has not returned, or it is over. -/
inductive Stopping (id : JobId) (d : Demander) : Prop where
  | waits (hs : d.stopping = true) (hj : d.job? id = some .stopping) (hr : ¬ d.HasReturned id)
  | ended (h : d.Halted) (hr : d.HasReturned id)

theorem stopping_endStop {d : Demander} {id : JobId} (hs : d.stopping = true)
    (hj : d.job? id = some .stopping) (hr : ¬ d.HasReturned id) : Stopping id (d.endStop id) := by
  rw [endStop_eq]
  split
  · exact .waits hs hj hr
  · next hbusy =>
    rw [Bool.not_eq_true, isBusy_eq_false_iff] at hbusy
    refine .ended ⟨hs, isBusy_eq_false_iff.mpr fun k j hk => ?_, rfl⟩ (hasReturned_finish _ _ _)
    have hold := job?_of_finish hk
    exact hbusy k j hold

/-- A call to stop. -/
theorem stopping_stop {d : Demander} (hs : d.Steady) : Stopping d.nextJob (d.step .stop) := by
  have hleaving : d.leaving.stopping = true := by
    unfold leaving
    rw [(beside_abandonRound _).stopping]
  rw [step_stop]
  refine stopping_endStop hleaving (by rw [job?_park_self]) ?_
  have hreturns : (d.leaving.park d.nextJob .stopping).returns = d.returns :=
    (beside_abandonRound _).returns
  rw [hasReturned_iff, hreturns, ← hasReturned_iff]
  exact not_hasReturned_nextJob hs

/-- No page is at work in a demander that has stopped, whatever happens. -/
theorem Halted.no_page {d : Demander} (h : d.Halted) (i : Input) (id : JobId) (job : PageJob) :
    d.actor i ≠ .page id job := by
  have hnone := isBusy_eq_false_iff.mp h.idle
  intro hw
  cases i with
  | page worker sender page =>
    have hacc : d.accepted worker sender page = none := by rw [accepted, if_pos h.stopping]
    rw [actor, hacc] at hw
    cases hw
  | resume k =>
    obtain ⟨-, j, hj, hp⟩ := job_of_actorOf hw
    cases (hnone id j hj).symm.trans hp
  | answer k r =>
    obtain ⟨-, j, hj, hp⟩ := job_of_actorOf hw
    cases (hnone id j hj).symm.trans hp
  | _ => cases hw

theorem Halted.step {d : Demander} (h : d.Halted) (hs : d.Steady) (i : Input) :
    (d.step i).Halted := by
  have hclosing := closing_step hs i
  refine ⟨hclosing.stopping h.stopping, isBusy_eq_false_iff.mpr fun k j hj => ?_,
    hclosing.topics h.topics⟩
  have hnone := isBusy_eq_false_iff.mp h.idle
  by_cases hi : ∃ c, i = .site c
  · obtain ⟨c, rfl⟩ := hi
    exact hnone k j hj
  · rcases page_of_actor hs (fun c hc => hi ⟨c, hc⟩) hj (h.no_page i k) with hold | hp
    · exact hnone k j hold
    · exact hp

theorem Halted.run {d : Demander} (h : d.Halted) (hs : d.Steady) (inputs : List Input) :
    (d.run inputs).Halted := by
  induction inputs generalizing d with
  | nil => exact h
  | cons i inputs ih => exact ih (h.step hs i) (steady_step hs i)

/-- A stop that waits comes to its end if it can. -/
theorem step_resume_stopping {d : Demander} {id : JobId} (hj : d.job? id = some .stopping) :
    d.step (.resume id) = d.endStop id := by
  change d.resume id = _
  rw [resume, hj]

/-- A stop that waits goes on waiting, unless it gets its chance while no page is taken in. -/
theorem Stopping.step {d : Demander} {id : JobId} (h : Stopping id d) (hs : d.Steady) (i : Input) :
    Stopping id (d.step i) := by
  cases h with
  | ended h hr => exact .ended (h.step hs i) (hr.step hs i)
  | waits hstop hj hr =>
    by_cases hw : (d.actor i).id? = some id
    · obtain ⟨rfl | ⟨r, rfl⟩, -⟩ := actor_of_begun (hs.young id _ hj) hw
      · rw [step_resume_stopping hj]
        exact stopping_endStop hstop hj hr
      · have hstep : d.step (.answer id r) = d := by
          change d.answer id r = _
          rw [answer, hj]
        rw [hstep]
        exact .waits hstop hj hr
    · exact .waits ((closing_step hs i).stopping hstop) ((job_of_other hs hw).trans hj)
        (not_hasReturned_step hr hs hw)

theorem Stopping.run {d : Demander} {id : JobId} (h : Stopping id d) (hs : d.Steady)
    (inputs : List Input) : Stopping id (d.run inputs) := by
  induction inputs generalizing d with
  | nil => exact h
  | cons i inputs ih => exact ih (h.step hs i) (steady_step hs i)

-- ============================================================================
-- After the stop
-- ============================================================================

/-- Nothing is left for a demander to do: no page is taken in, no topic is listened on, whatever
    happens pays no heed to its store and its recorder and leaves them as they are, unless that is a
    change to the node, and a plan that is added returns at once and changes nothing if no failure is
    recorded. -/
structure Inert (d : Demander) : Prop where
  idle : d.isBusy = false
  topics : d.topics = []
  heedless : ∀ i : Input, (∀ c, i ≠ .site c) → Heedless (·.step i) d
  store : ∀ i : Input, (∀ c, i ≠ .site c) → (d.step i).site.store = d.site.store
  recorder : ∀ i : Input, (∀ c, i ≠ .site c) → (d.step i).site.recorder = d.site.recorder
  ignores : d.fault = none → ∀ plan force, d.step (.add plan force) = d.returned

/-- A plan that is added while the demander is stopping, with no failure recorded, changes
    nothing. -/
theorem add_returned {d : Demander} (hs : d.Steady) (hstop : d.stopping = true)
    (hf : d.fault = none) (plan : Plan) (force : Bool) : d.step (.add plan force) = d.returned := by
  have hfault : ({ d.spawn.1 with fault := none } : Demander) = d.spawn.1 :=
    (congrArg (fun fault => ({ d.spawn.1 with fault } : Demander)) hf).symm
  change d.add plan force = _
  rw [add_of_stopping d plan force hstop, hfault, hf]
  exact finish_nextJob hs

theorem Halted.inert {d : Demander} (h : d.Halted) (hs : d.Steady) : d.Inert := by
  have hheedless : ∀ i : Input, (∀ c, i ≠ .site c) → Heedless (·.step i) d := fun i hi =>
    heedless_step d h.stopping hi (h.no_page i)
  refine ⟨h.idle, h.topics, hheedless, fun i hi => (hheedless i hi).store,
    fun i hi => (hheedless i hi).recorder, add_returned hs h.stopping⟩

/-- No page is being taken in any more, so each one has been dealt with. -/
theorem Halted.handled {d : Demander} (h : d.Halted) {id : JobId} (hh : d.Handles id) :
    d.HasReturned id := by
  rcases hh with ⟨j, hj, hp⟩ | hreturned
  · rw [isBusy_eq_false_iff.mp h.idle id j hj] at hp
    cases hp
  · exact hreturned

/-- A demander that is alone on its demand topics and listens on none has none registered. -/
theorem unregistered_run {start : Demander} (hs : start.Steady) {c c' : Cluster}
    {deeds : List Deed} (hf : c.Fresh start) (hsole : c.network.Sole start)
    (hruns : Cluster.Runs c deeds c') (ht : (start.run (Deed.inputs deeds)).topics = []) :
    c'.demanders = [start.run (Deed.inputs deeds)] ∧
      ∀ t ∈ start.pool.topics .demand, c'.network.isRegistered start.site.node t = false := by
  have hsole' := Cluster.sole_run hf hsole hruns
  have hpool : (start.run (Deed.inputs deeds)).pool = start.pool := by
    rw [pool, settings_run hs, pool]
  refine ⟨(Cluster.ordered_run hf.ordered hf.numbered hruns).1.demanders, fun t hmem => ?_⟩
  rw [← hpool] at hmem
  rw [← node_run hs (Deed.inputs deeds)]
  exact hsole'.unregistered ht t hmem

/-- On one thread a stop is final, whenever it is called and whatever happens before and after it.
    It returns when it gets its chance while no page is taken in, and then only: every page that was
    being taken in as it was called has been dealt with.  From then on the demander is inert for
    good; and wherever it is alone on its demand topics, none of them is registered on the network
    of its cluster. -/
theorem stop_is_final {start : Demander} (hd : start.Reachable)
    (before meanwhile later : List Input) :
    let d := start.run before
    let now := (d.step .stop).run meanwhile
    (¬ now.HasReturned d.nextJob → now.isBusy = false →
        (now.step (.resume d.nextJob)).HasReturned d.nextJob) ∧
      (now.HasReturned d.nextJob →
        (∀ id j, d.job? id = some j → j.isPage = true → now.HasReturned id) ∧
          (now.run later).Inert ∧
          ∀ (c c' : Cluster) (deeds : List Deed), c.Fresh start → c.network.Sole start →
            Cluster.Runs c deeds c' → Deed.inputs deeds = before ++ .stop :: (meanwhile ++ later) →
              c'.demanders = [now.run later] ∧
                ∀ t ∈ start.pool.topics .demand,
                  c'.network.isRegistered start.site.node t = false) := by
  intro d now
  have hs : d.Steady := (hd.run before).steady
  have hstopped : (d.step .stop).Steady := steady_step hs .stop
  have hnow : now.Steady := steady_run hstopped meanwhile
  have hstops : Stopping d.nextJob now := (stopping_stop hs).run hstopped meanwhile
  refine ⟨fun hnot hidle => ?_, fun hr => ?_⟩
  · cases hstops with
    | ended _ hr => exact absurd hr hnot
    | waits _ hj _ =>
      rw [step_resume_stopping hj, endStop_eq, if_neg (by rw [hidle]; exact Bool.false_ne_true)]
      exact hasReturned_finish _ _ _
  have hhalted : now.Halted := by
    cases hstops with
    | waits _ _ hnot => exact absurd hr hnot
    | ended h _ => exact h
  have hend : (now.run later).Halted := hhalted.run hnow later
  refine ⟨fun id j hj hp => ?_, hend.inert (steady_run hnow later), ?_⟩
  · exact hhalted.handled
      ((Handles.step (.inl ⟨j, hj, Job.page?_of_isPage hp⟩) hs .stop).run hstopped meanwhile)
  · intro c c' deeds hf hsole hruns hinputs
    have hrun : start.run (Deed.inputs deeds) = now.run later := by
      rw [hinputs]
      simp only [run, List.foldl_append, List.foldl_cons]
      rfl
    rw [← hrun] at hend ⊢
    exact unregistered_run hd.steady hf hsole hruns hend.topics

/-! ## A page that waits for a lock as the demander is stopped -/

namespace Held

/-- Both suppliers were asked, and their pages are in the queue of the demander. -/
def asked : Cluster :=
  (Cluster.pair.step 0 (.add Cluster.pairPlan true)).follow (Cluster.pairMoves.take 10)

/-- Somebody else takes the lock of a partition. -/
def lock : Input := .site (.store fun st => st.onBase fun s => (s.tryLock 3).1)

/-- The lock is given back. -/
def unlock : Input := .site (.store fun st => st.onBase (·.unlock 3))

/-- The first page comes to that partition, and the demander is stopped. -/
def stopped : Cluster := ((asked.step 0 lock).follow [.listen 2]).step 0 .stop

/-- The page gets the lock, asks for the next one and ends, and then the stop does. -/
def ending : List Cluster.Move := [.resume 0 1, .submit 0 1, .report 4, .resume 0 2]

/-- What is noted until the stop is called. -/
def before : List Deed :=
  [.input (.add Cluster.pairPlan true)] ++
    (Cluster.pair.step 0 (.add Cluster.pairPlan true)).noted (Cluster.pairMoves.take 10) ++
    [.input lock] ++ (asked.step 0 lock).noted [.listen 2]

/-- What is noted until the stop returns. -/
def meanwhile : List Deed := [.input unlock] ++ (stopped.step 0 unlock).noted ending

/-- The page of the other supplier was still in the queue. -/
def later : List Deed := ((stopped.step 0 unlock).follow ending).noted [.listen 2, .listen 2]

/-- The cluster in the end. -/
def done : Cluster := ((stopped.step 0 unlock).follow ending).follow [.listen 2, .listen 2]

theorem runs_done :
    Cluster.Runs Cluster.pair (before ++ [.input .stop] ++ (meanwhile ++ later)) done := by
  have hasked : Cluster.Runs Cluster.pair ([.input (.add Cluster.pairPlan true)] ++ _) asked :=
    Cluster.Runs.trans (.tail .refl (.happens (.add Cluster.pairPlan true) rfl))
      (Cluster.runs_follow _ _)
  have hheld : Cluster.Runs Cluster.pair before ((asked.step 0 lock).follow [.listen 2]) :=
    Cluster.Runs.trans (.tail hasked (.happens lock rfl)) (Cluster.runs_follow _ _)
  have hlast : Cluster.Runs stopped (meanwhile ++ later) done :=
    Cluster.Runs.trans
      (Cluster.Runs.trans (.tail .refl (.happens unlock rfl)) (Cluster.runs_follow _ _))
      (Cluster.runs_follow _ _)
  exact Cluster.Runs.trans (.tail hheld (.happens .stop rfl)) hlast

end Held

/-- The page was waiting for the lock when the demander was stopped, and the stop waits for it; its
    entries are loaded, and its continuation is sent, before the stop returns. -/
theorem held_page_ends_first :
    let start := Cluster.pairDemander
    let d := start.run (Deed.inputs Held.before)
    let now := (d.step .stop).run (Deed.inputs Held.meanwhile)
    let last := now.run (Deed.inputs Held.later)
    start.Reachable ∧ now.HasReturned d.nextJob ∧
      (d.job? 1).map Job.isPage = some true ∧ ¬ (d.step .stop).HasReturned d.nextJob ∧
      now.HasReturned 1 ∧ last.Inert ∧ Held.done.demanders = [last] ∧
      Cluster.pair.network.isRegistered 2 (start.pool.demandTopic 0) = true ∧
      ∀ t ∈ start.pool.topics .demand, Held.done.network.isRegistered 2 t = false := by
  intro start d now last
  have hf : Cluster.pair.Fresh start := Cluster.fresh_together rfl rfl (by decide) [3, 4] 0
  have hsole : Cluster.pair.network.Sole start :=
    ⟨by decide +kernel, fun t ht _ => ht⟩
  have hr : now.HasReturned d.nextJob := by decide +kernel
  have hpage : (d.job? 1).map Job.isPage = some true := by decide +kernel
  obtain ⟨hpages, hinert, hcluster⟩ := (stop_is_final hf.reachable (Deed.inputs Held.before)
    (Deed.inputs Held.meanwhile) (Deed.inputs Held.later)).2 hr
  obtain ⟨hone, htopics⟩ := hcluster Cluster.pair Held.done _ hf hsole Held.runs_done (by
    rw [Deed.inputs_append, Deed.inputs_append, Deed.inputs_append, List.append_assoc]
    rfl)
  obtain ⟨j, hj, hp⟩ := Option.map_eq_some_iff.mp hpage
  exact ⟨hf.reachable, hr, hpage, by decide +kernel, hpages 1 j hj hp, hinert, hone,
    by decide +kernel, htopics⟩

end Demander
end Rebalance
