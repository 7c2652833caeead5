/-
  Rebalance.Proofs.LatePages

  What a stop is worth where calls run on several threads.  A page that found the
  demander not stopping may come to the gate after a stop has given it back, and is
  taken in like any other; `late_page_writes` is such a run.  Nothing else touches
  the data of the node once a stop has returned (`stop_is_final_but_for_late_pages`):
  a page in hand looked before the demander was stopping (`looked_early`), each step
  leaves at most those in hand that were, and whatever is none of theirs pays no
  heed to the store and the recorder.
-/
import Mathlib.Data.List.Induction
import Rebalance.Proofs.Gate

namespace Rebalance
namespace Gated

open Demander (Heedless Input)

variable {g h : Gated} {id : JobId} {m : Move}

-- ============================================================================
-- Pages in hand
-- ============================================================================

/-- A page is on its way to the gate, or inside. -/
def HasPage (g : Gated) (id : JobId) : Prop :=
  (∃ a, g.arrivals.get? id = some a) ∨ ∃ j, g.demander.job? id = some j ∧ j.page?.isSome = true

/-- What happens aside lets no page in. -/
theorem page_before_aside {d : Demander} (hs : d.Steady) {i : Input} (hi : i.isAside = true)
    {j : Job} (hj : (d.step i).job? id = some j) (hp : j.page?.isSome = true) :
    ∃ k, d.job? id = some k ∧ k.page?.isSome = true := by
  by_cases hsite : ∃ c, i = .site c
  · obtain ⟨c, rfl⟩ := hsite
    exact ⟨j, hj, hp⟩
  by_cases hw : ∀ job, d.actor i ≠ .page id job
  · rcases Demander.page_of_actor hs (fun c hc => hsite ⟨c, hc⟩) hj hw with hold | hnone
    · exact ⟨j, hold, hp⟩
    · rw [hnone] at hp
      cases hp
  simp only [not_forall, not_not] at hw
  obtain ⟨job, hw⟩ := hw
  have hthere : ∀ k, d.actorOf k = .page id job → ∃ k, d.job? id = some k ∧ k.page?.isSome = true := by
    intro k hk
    obtain ⟨-, j, hj, hjob⟩ := Demander.job_of_actorOf hk
    exact ⟨j, hj, by rw [hjob]; rfl⟩
  cases i with
  | resume k => exact hthere k hw
  | answer k r => exact hthere k hw
  | page => cases hi
  | _ => cases hw

/-- A page is in hand that was before, or has just found that the demander is not stopping. -/
theorem hasPage_before (hg : g.Sound) (ho : g.Outcome m h) (hp : h.HasPage id) :
    g.HasPage id ∨ (∃ a, h.arrivals.get? id = some a) ∧ h.demander.stopping = false := by
  rcases hp with ⟨a, ha⟩ | ⟨j, hj, hpage⟩
  · have herase : ∀ {k : JobId}, (g.arrivals.erase k).get? id = some a → g.HasPage id := by
      intro k ha
      exact .inl ⟨a, (SortedMap.of_get?_erase ha).2⟩
    cases ho with
    | look hs => exact .inr ⟨⟨a, ha⟩, hs⟩
    | refuse => exact .inl (herase ha)
    | letIn => exact .inl (herase ha)
    | _ => exact .inl (.inl ⟨a, ha⟩)
  · rcases hg.job_after ho hj with hold | ⟨harrived, -⟩ | ⟨i, hi, rfl, hj⟩
    · exact .inl (.inr ⟨j, hold, hpage⟩)
    · exact .inl (.inl harrived)
    · exact .inl (.inr (page_before_aside hg.steady hi hj hpage))

theorem run_append (g : Gated) (before after : List Move) :
    g.run (before ++ after) = (g.run before).run after := List.foldl_append

/-- Every page in hand found at some moment of the run that the demander is not stopping. -/
theorem looked_early (hg : g.Sound) (hnew : ∀ id, ¬ g.HasPage id) {moves : List Move}
    (hp : (g.run moves).HasPage id) :
    ∃ early, early <+: moves ∧ (∃ a, (g.run early).arrivals.get? id = some a) ∧
      (g.run early).demander.stopping = false := by
  induction moves using List.reverseRecOn with
  | nil => exact absurd hp (hnew id)
  | append_singleton moves m ih =>
    have hrun : g.run (moves ++ [m]) = (g.run moves).step m := run_append g moves [m]
    rw [hrun] at hp
    rcases hasPage_before (hg.run moves) (outcome_step _ m) hp with hold | hlook
    · obtain ⟨early, hpre, hearly⟩ := ih hold
      exact ⟨early, hpre.trans (List.prefix_append _ _), hearly⟩
    · rw [← hrun] at hlook
      exact ⟨_, List.prefix_rfl, hlook⟩

/-- Where the demander is stopping no page comes in hand. -/
theorem hasPage_of_run (hg : g.Sound) (hc : g.Closed) {moves : List Move}
    (hp : (g.run moves).HasPage id) : g.HasPage id := by
  induction moves generalizing g with
  | nil => exact hp
  | cons m moves ih =>
    have ho := outcome_step g m
    have hclosed : (g.step m).Closed := hc.wane (ho.wanes hg.steady)
    rcases hasPage_before hg ho (ih (hg.step m) hclosed hp) with hold | ⟨-, hstop⟩
    · exact hold
    · rw [hclosed.stopping] at hstop
      cases hstop

-- ============================================================================
-- Pages inside
-- ============================================================================

theorem returned_after (hg : g.Sound) (ho : g.Outcome m h) (hr : g.demander.HasReturned id) :
    h.demander.HasReturned id := by
  by_cases hm : m.isSite = false
  · refine Demander.HasReturned.ticks ?_ (ho.ticks hg.steady hm)
    cases m with
    | aside i hi => exact (Demander.hasReturned_base g.demander i).mpr hr
    | _ => exact hr
  · cases ho with
    | @aside i hi => exact hr.step hg.steady i
    | _ => exact absurd rfl hm

/-- A page that is inside goes on inside, until it has been dealt with. -/
theorem handles_after (hg : g.Sound) (ho : g.Outcome m h) (hh : g.demander.Handles id) :
    h.demander.Handles id := by
  rcases hh with ⟨j, hj, hp⟩ | hr
  swap
  · exact .inr (returned_after hg ho hr)
  -- Whoever comes to the gate, or stops the demander, is another call.
  have hother : ∀ {k : JobId}, g.demander.Outside k → id ≠ k := by
    rintro k hk rfl
    cases hk.jobless.symm.trans hj
  cases ho with
  | drop =>
    refine .inl ⟨j, ?_, hp⟩
    rw [Demander.job?_finish_of_ne (Nat.ne_of_lt (hg.steady.young id j hj))]
    exact hj
  | refuse ha =>
    refine .inl ⟨j, ?_, hp⟩
    rw [Demander.job?_finish_of_ne (hother (hg.arrived _ _ ha))]
    exact hj
  | @letIn k a ha =>
    have hticks := Demander.chores_letIn hg.steady.current k a.worker a.sender a.page
    refine .inl ⟨j, ?_, hp⟩
    rw [hticks.ticks.jobs, hj]
    rw [Demander.id?_guest]
    exact fun he => hother (hg.arrived k a ha) (Option.some.inj he).symm
  | next _ hn =>
    exact .inl ⟨j, (congrArg (·.get? id) (hn.along g.demander).jobs).trans hj, hp⟩
  | returns hk =>
    refine .inl ⟨j, ?_, hp⟩
    rw [Demander.returnFault_eq, Demander.job?_finish_of_ne (hother (hg.called _ _ hk))]
    exact hj
  | @aside i hi => exact Demander.Handles.step (.inl ⟨j, hj, hp⟩) hg.steady i
  | _ => exact .inl ⟨j, hj, hp⟩

-- ============================================================================
-- A call to stop
-- ============================================================================

/-- Whether a call to stop has, or has had, the gate to itself. -/
def gotIn : StopPhase → Bool
  | .closing _ => true
  | .released => true
  | .unarmed => true
  | _ => false

/-- A call to stop goes on, or it has ended and the demander is closed. The gate was its own only
    after some pages had been dealt with. -/
inductive Ends (id : JobId) (inside : JobId → Prop) (g : Gated) : Prop where
  | goesOn (phase : StopPhase) (hp : g.stops.get? id = some phase)
      (hi : gotIn phase = true → ∀ k, inside k → g.demander.HasReturned k)
  | ended (hc : g.Closed) (hr : g.demander.HasReturned id)
      (hi : ∀ k, inside k → g.demander.HasReturned k)

/-- A call to stop is where it was unless it gets its chance. -/
theorem stops_after (hg : g.Sound) (ho : g.Outcome m h) {phase : StopPhase}
    (hp : g.stops.get? id = some phase) (hm : m ≠ .proceed id) : h.stops.get? id = some phase := by
  cases ho with
  | call =>
    exact (SortedMap.get?_insert_of_ne (Nat.ne_of_lt (hg.called id phase hp).young)).trans hp
  | next =>
    exact (SortedMap.get?_insert_of_ne fun he => hm (congrArg Move.proceed he.symm)).trans hp
  | returns =>
    exact (SortedMap.get?_erase_of_ne fun he => hm (congrArg Move.proceed he.symm)).trans hp
  | _ => exact hp

theorem Ends.after {inside : JobId → Prop} (he : Ends id inside g) (hg : g.Sound)
    (ho : g.Outcome m h) (hh : ∀ k, inside k → g.demander.Handles k) : Ends id inside h := by
  have hreturned : (∀ k, inside k → g.demander.HasReturned k) →
      ∀ k, inside k → h.demander.HasReturned k :=
    fun hi k hk => returned_after hg ho (hi k hk)
  cases he with
  | ended hc hr hi =>
    exact .ended (hc.wane (ho.wanes hg.steady)) (returned_after hg ho hr) (hreturned hi)
  | goesOn phase hp hi =>
    by_cases hm : m = .proceed id
    swap
    · exact .goesOn phase (stops_after hg ho hp hm) fun hgot => hreturned (hi hgot)
    subst hm
    have hclosed := fun hu : g.Upholds .unarmed => hu.wane (ho.wanes hg.steady)
    cases ho with
    | wait => exact .goesOn phase hp hi
    | returns hp' =>
      obtain rfl := Option.some.inj (hp.symm.trans hp')
      exact .ended (hclosed (hg.upheld id _ hp)) (hasReturned_leave id .unarmed g.demander)
        (hreturned (hi rfl))
    | @next _ was phase' f kept hp' hn =>
      obtain rfl := Option.some.inj (hp.symm.trans hp')
      refine .goesOn phase' SortedMap.get?_insert_self fun hgot => hreturned ?_
      cases hn with
      | raise => cases hgot
      | abandon => cases hgot
      | ask => cases hgot
      | close hb _ =>
        -- The gate is its own now, so no page is inside.
        intro k hk
        rcases hh k hk with ⟨j, hj, hpage⟩ | hr
        · rw [Demander.isBusy_eq_false_iff.mp hb k j hj] at hpage
          cases hpage
        · exact hr
      | forget => exact hi rfl
      | release => exact hi rfl
      | disarm => exact hi rfl

theorem Ends.run {inside : JobId → Prop} (he : Ends id inside g) (hg : g.Sound)
    (hh : ∀ k, inside k → g.demander.Handles k) (moves : List Move) :
    Ends id inside (g.run moves) := by
  induction moves generalizing g with
  | nil => exact he
  | cons m moves ih =>
    have ho := outcome_step g m
    exact ih (he.after hg ho hh) (hg.step m) fun k hk => handles_after hg ho (hh k hk)

-- ============================================================================
-- Nothing else touches the data
-- ============================================================================

/-- The demander after something has happened, if it were another one. -/
def demanderAfter (g : Gated) (m : Move) (d : Demander) : Demander :=
  ({ g with demander := d }.step m).demander

theorem heedless_proceed (g : Gated) (id : JobId) :
    Heedless (g.demanderAfter (.proceed id)) g.demander := by
  have hrefl := Heedless.refl g.demander
  cases hp : g.stops.get? id with
  | none => exact hrefl.congr fun _ _ => by simp only [demanderAfter, step, proceed, hp]
  | some phase =>
    cases phase with
    | called =>
      exact (Demander.heedless_raiseFlag _).congr fun _ _ => by
        simp only [demanderAfter, step, proceed, hp, advance]
    | raised =>
      exact (Demander.heedless_abandonRound _).congr fun _ _ => by
        simp only [demanderAfter, step, proceed, hp, advance]
    | abandoned =>
      exact hrefl.congr fun _ _ => by simp only [demanderAfter, step, proceed, hp, advance]
    | asking =>
      by_cases hb : (g.demander.isBusy || g.isHeld) = true
      · refine hrefl.congr fun _ _ => ?_
        simp only [demanderAfter, step, proceed, hp]
        exact congrArg Gated.demander (if_pos hb)
      · refine (Demander.heedless_dropTopics _).congr fun _ _ => ?_
        simp only [demanderAfter, step, proceed, hp]
        exact congrArg Gated.demander (if_neg hb)
    | closing left =>
      cases left <;>
        exact hrefl.congr fun _ _ => by simp only [demanderAfter, step, proceed, hp, advance]
    | released =>
      exact (Demander.heedless_stopSchedule _).congr fun _ _ => by
        simp only [demanderAfter, step, proceed, hp, advance]
    | unarmed =>
      exact (Demander.heedless_returnFault _ id).congr fun _ _ => by
        simp only [demanderAfter, step, proceed, hp]

/-- Where the demander is stopping, whatever is not done by a page in hand pays no heed to the data
    of the node, unless the node changes. -/
theorem heedless_of_stopping (hs : g.demander.stopping = true) (hm : m.isSite = false)
    (hp : ∀ id, m.job? = some id → ¬ g.HasPage id) : Heedless (g.demanderAfter m) g.demander := by
  cases m with
  | arrive worker sender page =>
    refine ((Demander.heedless_spawn g.demander).comp
      (Demander.heedless_finish _ g.demander.nextJob (.ok ()))).congr fun _ _ => ?_
    exact congrArg Gated.demander (if_pos hs)
  | enter id =>
    have ha : g.arrivals.get? id = none := by
      cases ha : g.arrivals.get? id with
      | none => rfl
      | some a => exact absurd (.inl ⟨a, ha⟩) (hp id rfl)
    exact (Heedless.refl g.demander).congr fun _ _ => by simp only [demanderAfter, step, enter, ha]
  | callStop => exact (Demander.heedless_spawn g.demander).congr fun _ _ => rfl
  | proceed id => exact heedless_proceed g id
  | aside i hi =>
    have hnone : ∀ k, g.HasPage k ∨ ∀ id job, g.demander.actorOf k ≠ .page id job := by
      intro k
      by_cases hk : g.HasPage k
      · exact .inl hk
      · refine .inr fun id job hw => hk (.inr ?_)
        obtain ⟨rfl, j, hj, hjob⟩ := Demander.job_of_actorOf hw
        exact ⟨j, hj, by rw [hjob]; rfl⟩
    refine Demander.heedless_step g.demander hs (fun c hc => ?_) fun id job hw => ?_
    · subst hc
      cases hm
    · cases i with
      | resume k => exact (hnone k).elim (hp k rfl) fun h => h id job hw
      | answer k r => exact (hnone k).elim (hp k rfl) fun h => h id job hw
      | page => cases hi
      | _ => cases hw

-- ============================================================================
-- After a stop
-- ============================================================================

/-- What a demander can still do to its node after a call to stop has returned: nobody calls it, it
    takes no page in hand that was not, and whatever is not done by a page in hand pays no heed to
    the data of the node.  A page that is delivered, and a plan that is added with no failure
    recorded, return at once and change nothing.  If no page was in hand, nothing is left to do. -/
structure Withdrawn (now last : Gated) : Prop where
  uncalled : last.handlers = []
  inHand : ∀ id, last.HasPage id → now.HasPage id
  heedless : ∀ m : Move, m.isSite = false → (∀ id, m.job? = some id → ¬ last.HasPage id) →
    Heedless (last.demanderAfter m) last.demander
  drops : ∀ worker sender page,
    last.step (.arrive worker sender page) = { last with demander := last.demander.returned }
  ignores : last.demander.fault = none → ∀ plan force,
    last.step (.aside (.add plan force) rfl) = { last with demander := last.demander.returned }
  inert : (∀ id, ¬ now.HasPage id) → last.demander.Inert

theorem Closed.drops (hc : g.Closed) (hg : g.Sound) (worker : WorkerId) (sender : NodeId)
    (page : Supply) :
    g.step (.arrive worker sender page) = { g with demander := g.demander.returned } := by
  have hstep : g.step (.arrive worker sender page) =
      { g with demander := g.demander.spawn.1.finish g.demander.nextJob (.ok ()) } :=
    if_pos hc.stopping
  rw [hstep, Demander.finish_nextJob hg.steady]

/-- Where no page is in hand nothing happens to the data any more. -/
theorem Closed.halted (hc : g.Closed) (hp : ∀ id, ¬ g.HasPage id) : g.demander.Halted where
  stopping := hc.stopping
  idle := Demander.isBusy_eq_false_iff.mpr fun id j hj =>
    Option.not_isSome_iff_eq_none.mp fun hpage => hp id (.inr ⟨j, hj, hpage⟩)
  topics := hc.topics

/-- What is closed stays closed. -/
theorem Closed.run (hc : g.Closed) (hg : g.Sound) (moves : List Move) : (g.run moves).Closed := by
  induction moves generalizing g with
  | nil => exact hc
  | cons m moves ih => exact ih (hc.wane ((outcome_step g m).wanes hg.steady)) (hg.step m)

theorem withdrawn_of_closed (hg : g.Sound) (hc : g.Closed) (later : List Move) :
    g.Withdrawn (g.run later) := by
  have hlast : (g.run later).Sound := hg.run later
  have hinHand : ∀ id, (g.run later).HasPage id → g.HasPage id := fun _ => hasPage_of_run hg hc
  have hclosed : (g.run later).Closed := hc.run hg later
  exact {
    uncalled := hclosed.handlers
    inHand := hinHand
    heedless := fun m hm hp => heedless_of_stopping hclosed.stopping hm hp
    drops := hclosed.drops hlast
    ignores := fun hfault plan force =>
      congrArg (fun d => ({ g.run later with demander := d } : Gated))
        (Demander.add_returned hlast.steady hclosed.stopping hfault plan force)
    inert := fun hnone =>
      (hclosed.halted fun id hp => hnone id (hinHand id hp)).inert hlast.steady }

/-- A stop is final but for the pages that looked too early.  Take any run of a demander whose calls
    run on several threads, in which a stop is called at any moment.  The call returns once it gets
    its chances while no page is inside and no other call has the gate.  When it has returned, every
    page that was inside at the call has been dealt with; each page that is in hand found, at some
    moment of the run, that the demander was not stopping; and from then on the demander has
    withdrawn from its node, whatever happens, but for these pages. -/
theorem stop_is_final_but_for_late_pages {σ : Type} {settings : Settings} {site : Site}
    {register : Topic → σ → Except Fault σ} {s t : σ} {start : Demander}
    (hc : Demander.create settings site register s = (t, .ok start))
    (before meanwhile later : List Move) :
    let g := (opened start).run before
    let id := g.demander.nextJob
    let now := (g.step .callStop).run meanwhile
    (now.demander.isBusy = false → (∀ k left, now.stops.get? k = some (.closing left) → k = id) →
        ∃ n, (now.run (List.replicate n (.proceed id))).demander.HasReturned id) ∧
      (now.demander.HasReturned id →
        (∀ k j, g.demander.job? k = some j → j.isPage = true → now.demander.HasReturned k) ∧
          (∀ k, now.HasPage k → ∃ early, early <+: before ++ .callStop :: meanwhile ∧
            (∃ a, ((opened start).run early).arrivals.get? k = some a) ∧
              ((opened start).run early).demander.stopping = false) ∧
          now.Withdrawn (now.run later)) := by
  intro g id now
  have hnew : (opened start).Sound := sound_opened hc
  have hg : g.Sound := hnew.run before
  have hcalled : (g.step .callStop).Sound := hg.step .callStop
  have hnow : now.Sound := hcalled.run meanwhile
  have hruns : now = (opened start).run (before ++ .callStop :: meanwhile) :=
    (run_append (opened start) before (.callStop :: meanwhile)).symm
  have hends : Ends id (fun k => ∃ j, g.demander.job? k = some j ∧ j.page?.isSome = true) now := by
    refine Ends.run (.goesOn .called SortedMap.get?_insert_self fun hgot => ?_)
      hcalled ?_ meanwhile
    · cases hgot
    · exact fun k hk => handles_after hg (outcome_step g .callStop) (.inl hk)
  refine ⟨fun hidle hfree => ?_, fun hr => ?_⟩
  · cases hends with
    | goesOn phase hp _ =>
      refine ⟨stepsLeft now.demander phase, ?_⟩
      rw [proceed_in_a_row hp hidle hfree]
      exact hasReturned_leave id phase now.demander
    | ended _ hr _ => exact ⟨0, hr⟩
  · cases hends with
    | goesOn phase hp _ => exact absurd hr (hnow.called id phase hp).unended
    | ended hclosed _ hinside =>
      refine ⟨fun k j hj hp => hinside k ⟨j, hj, Demander.Job.page?_of_isPage hp⟩, fun k hk => ?_,
        withdrawn_of_closed hnow hclosed later⟩
      · refine looked_early hnew (fun k hk => ?_) (hruns ▸ hk)
        rcases hk with ⟨a, ha⟩ | ⟨j, hj, -⟩
        · cases ha
        · rw [opened, Demander.job?, (Demander.create_blank hc).2.2.1] at hj
          cases hj

/-! ## A page that comes to the gate after the stop -/

/-- A demander whose node is to fill a partition. -/
def idle : Demander := Demander.newborn { poolSize := 1 } 2 ⟨1, 0⟩ ⟨{}, ∅, ∅, ∅⟩ [3]

/-- The partition is demanded of another node, and its only page finds that the demander is not
    stopping. -/
def delivered : List Move :=
  [.aside (.add (Demander.planFor ⟨1, 0⟩ [(5, [3])]) true) rfl, .aside (.answer 0 (.ok ())) rfl,
    .arrive 0 5 { Demander.entryPage 3 [107] with last := SortedSet.ofList [3] }]

/-- The call to stop gets as many chances as it needs. -/
def stopped : List Move := List.replicate 8 (.proceed 2)

/-- The stop has returned, nobody calls the demander, and no page is inside.  Then the page comes to
    the gate and is taken in: its entry is written, its partition is owned, and both are
    reported. -/
theorem late_page_writes :
    let g := (opened idle).run delivered
    let now := (g.step .callStop).run stopped
    let last := now.step (.enter 1)
    g.demander.nextJob = 2 ∧ now.demander.HasReturned 2 ∧ ¬ now.demander.HasReturned 1 ∧
      now.handlers = [] ∧ now.demander.topics = [] ∧ now.demander.isBusy = false ∧
      now.demander.site.store.base.read 3 [107] = none ∧
      now.demander.site.store.base.state 3 = .moving ∧
      now.demander.site.recorder.events = [] ∧
      last.demander.site.store.base.read 3 [107] = some ([1], ⟨1, 0⟩) ∧
      last.demander.site.store.base.state 3 = .owning ∧
      last.demander.site.recorder.events.length = 2 := by
  decide +kernel

/-- The page is all that is left for that demander to do once its stop has returned. -/
theorem withdrawn_but_for_a_page :
    let g := (opened idle).run delivered
    let now := (g.step .callStop).run stopped
    Demander.create { poolSize := 1 } idle.site (fun _ s => .ok s) () = ((), .ok idle) ∧
      now.demander.HasReturned 2 ∧ now.HasPage 1 ∧ now.Withdrawn (now.run [.enter 1]) := by
  intro g now
  have hc : Demander.create { poolSize := 1 } idle.site (fun _ s => .ok s) () = ((), .ok idle) :=
    Demander.create_newborn rfl rfl 2 ⟨1, 0⟩ ⟨{}, ∅, ∅, ∅⟩ [3]
  have hr : now.demander.HasReturned 2 := by decide +kernel
  have hpage : (now.arrivals.get? 1).isSome = true := by decide +kernel
  obtain ⟨a, ha⟩ := Option.isSome_iff_exists.mp hpage
  obtain ⟨-, hfinal⟩ := stop_is_final_but_for_late_pages hc delivered stopped [.enter 1]
  exact ⟨hc, hr, .inl ⟨a, ha⟩, (hfinal hr).2.2⟩

end Gated
end Rebalance
