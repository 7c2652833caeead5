/-
  Rebalance.Proofs.Gate

  A demander whose calls run on several threads, and what a stop is worth there.
  Whatever happens is made of the ticks of one call (`ticks_step`), as in a run on
  one thread; `Sound` keeps the calls apart that are on their way to the gate or
  stop the demander, and says how much each of these has got done.  A stop that
  has returned leaves nothing that touches the data of the node, except for the
  pages that were on their way, or had come in since: the gate does not look at
  the flag again (`stop_is_final_but_for_late_pages`).
-/
import Rebalance.Demander.Gate
import Rebalance.Proofs.StopState

namespace Rebalance

-- ============================================================================
-- Calls outside the demander
-- ============================================================================

namespace Demander

/-- A call that has begun and has not returned, and nothing of it is among the jobs. -/
structure Outside (d : Demander) (id : JobId) : Prop where
  young : id < d.nextJob
  jobless : d.job? id = none
  unended : ¬ d.HasReturned id

section Outside

variable {d e : Demander} {id : JobId}

theorem outside_spawn (hs : d.Steady) : d.spawn.1.Outside d.nextJob where
  young := Nat.lt_succ_self d.nextJob
  jobless := (job?_of_le hs (Nat.le_refl _) : d.job? d.nextJob = none)
  unended := not_hasReturned_nextJob hs

theorem Outside.spawn (h : d.Outside id) : d.spawn.1.Outside id :=
  ⟨Nat.lt_succ_of_lt h.young, h.jobless, h.unended⟩

/-- Another call leaves it outside. -/
theorem Outside.ticks {who : Actor} (h : d.Outside id) (ht : Ticks who d e)
    (hw : who.id? ≠ some id) : e.Outside id where
  young := Nat.lt_of_lt_of_eq h.young (nextJob_ticks ht).symm
  jobless := (ht.jobs hw).trans h.jobless
  unended := not_hasReturned_ticks h.unended ht hw

theorem Outside.along (h : d.Outside id) (ha : Along d e) : e.Outside id where
  young := Nat.lt_of_lt_of_eq h.young ha.nextJob.symm
  jobless := (congrArg (·.get? id) ha.jobs).trans h.jobless
  unended := by
    rw [hasReturned_iff, ha.returns, ← hasReturned_iff]
    exact h.unended

/-- Nothing that a demander does sets it to work. -/
theorem Outside.idle (h : d.Outside id) (i : Input) : (d.actor i).id? ≠ some id := by
  intro hw
  obtain ⟨-, k, hk⟩ := actor_of_begun h.young hw
  cases h.jobless.symm.trans hk

end Outside

/-- What leaves the jobs as they are leaves a demander as busy as it is. -/
theorem isBusy_congr {d e : Demander} (h : e.jobs = d.jobs) : e.isBusy = d.isBusy := by
  rw [isBusy, h]
  rfl

end Demander

namespace Gated

open Demander (Actor Along Beside Closing Heedless Input Outside Tick Ticks)

variable {g h : Gated} {id : JobId} {m : Move}

-- ============================================================================
-- Who is at work
-- ============================================================================

/-- The node around the demander changes. -/
def Move.isSite : Move → Bool
  | .aside i _ => i.isSite
  | _ => false

/-- The call that goes on. -/
def Move.job? : Move → Option JobId
  | .enter id => some id
  | .proceed id => some id
  | .aside (.resume id) _ => some id
  | .aside (.answer id _) _ => some id
  | _ => none

/-- Who works when something happens. -/
def actor (g : Gated) : Move → Actor
  | .arrive .. => .call g.demander.nextJob
  | .enter id =>
    match g.arrivals.get? id with
    | none => .nobody
    | some a =>
      if g.isShut then .call id else g.demander.guest id a.worker a.sender a.page
  | .callStop => .nobody
  | .proceed id => if (g.stops.get? id).isSome then .call id else .nobody
  | .aside i _ => g.demander.actor i

/-- The demander with the call begun that something begins. -/
def base (g : Gated) : Move → Demander
  | .arrive .. => g.demander.spawn.1
  | .callStop => g.demander.spawn.1
  | .aside i _ => g.demander.base i
  | _ => g.demander

/-- What a call to stop does next, how far it has come then, and what is left of the handlers. -/
inductive Next (g : Gated) :
    StopPhase → StopPhase → (Demander → Demander) → List Topic → Prop where
  | raise : Next g .called .raised Demander.raiseFlag g.handlers
  | abandon : Next g .raised .abandoned Demander.abandonRound g.handlers
  | ask : Next g .abandoned .asking (fun d => d) g.handlers
  | close (hb : g.demander.isBusy = false) (hu : g.isHeld = false) :
      Next g .asking (.closing g.demander.topics) Demander.dropTopics g.handlers
  | forget (t : Topic) (left : List Topic) :
      Next g (.closing (t :: left)) (.closing left) (fun d => d) (g.handlers.filter (· ≠ t))
  | release : Next g (.closing []) .released (fun d => d) g.handlers
  | disarm : Next g .released .unarmed Demander.stopSchedule g.handlers

/-- All that can come of what happens. -/
inductive Outcome (g : Gated) : Move → Gated → Prop where
  /-- A page finds that the demander is stopping. -/
  | drop {worker : WorkerId} {sender : NodeId} {page : Supply} (hs : g.demander.stopping = true) :
      Outcome g (.arrive worker sender page)
        { g with demander := g.demander.spawn.1.finish g.demander.nextJob (.ok ()) }
  /-- A page finds that it is not. -/
  | look {worker : WorkerId} {sender : NodeId} {page : Supply} (hs : g.demander.stopping = false) :
      Outcome g (.arrive worker sender page)
        { g with
          demander := g.demander.spawn.1
          arrivals := g.arrivals.insert g.demander.nextJob ⟨worker, sender, page⟩ }
  /-- There is no such page. -/
  | astray {id : JobId} (ha : g.arrivals.get? id = none) : Outcome g (.enter id) g
  /-- A page finds the gate shut. -/
  | refuse {id : JobId} {a : Arrival} (ha : g.arrivals.get? id = some a) (hu : g.isShut = true) :
      Outcome g (.enter id)
        { g with demander := g.demander.finish id (.ok ()), arrivals := g.arrivals.erase id }
  /-- A page is let in. -/
  | letIn {id : JobId} {a : Arrival} (ha : g.arrivals.get? id = some a) (hu : g.isShut = false) :
      Outcome g (.enter id)
        { g with
          demander := g.demander.letIn id a.worker a.sender a.page
          arrivals := g.arrivals.erase id }
  /-- A stop is called. -/
  | call :
      Outcome g .callStop
        { g with
          demander := g.demander.spawn.1
          stops := g.stops.insert g.demander.nextJob .called }
  /-- There is no such call to stop, or it has to wait. -/
  | wait {id : JobId} (hw : g.stops.get? id = none ∨ g.stops.get? id = some .asking ∧
      (g.demander.isBusy = true ∨ g.isHeld = true)) : Outcome g (.proceed id) g
  /-- A call to stop does what is next. -/
  | next {id : JobId} {was phase : StopPhase} {f : Demander → Demander} {kept : List Topic}
      (hp : g.stops.get? id = some was) (hn : g.Next was phase f kept) :
      Outcome g (.proceed id) { g.advance id phase f with handlers := kept }
  /-- A call to stop returns. -/
  | returns {id : JobId} (hp : g.stops.get? id = some .unarmed) :
      Outcome g (.proceed id)
        { g with demander := g.demander.returnFault id, stops := g.stops.erase id }
  /-- Something else happens to the demander. -/
  | aside {i : Input} (hi : i.isAside = true) :
      Outcome g (.aside i hi) { g with demander := g.demander.step i }

theorem outcome_step (g : Gated) (m : Move) : g.Outcome m (g.step m) := by
  cases m with
  | arrive worker sender page =>
    change g.Outcome _ (g.arrive worker sender page)
    unfold arrive
    simp only
    split
    · next hs => exact .drop hs
    · next hs => exact .look (Bool.not_eq_true _ ▸ hs)
  | enter id =>
    change g.Outcome _ (g.enter id)
    unfold enter
    split
    · next ha => exact .astray ha
    · next a ha =>
      simp only
      split
      · next hu => exact .refuse ha hu
      · next hu => exact .letIn ha (Bool.not_eq_true _ ▸ hu)
  | callStop => exact .call
  | proceed id =>
    change g.Outcome _ (g.proceed id)
    unfold proceed
    split
    · next hp => exact .wait (.inl hp)
    · next hp => exact .next hp .raise
    · next hp => exact .next hp .abandon
    · next hp => exact .next hp .ask
    · next hp =>
      split
      · next hw => exact .wait (.inr ⟨hp, by simpa using hw⟩)
      · next hw =>
        simp only [Bool.or_eq_true, not_or, Bool.not_eq_true] at hw
        exact .next hp (.close hw.1 hw.2)
    · next t left hp => exact .next hp (.forget t left)
    · next hp => exact .next hp .release
    · next hp => exact .next hp .disarm
    · next hp => exact .returns hp
  | aside i hi => exact .aside hi

section Next

variable {was phase : StopPhase} {f : Demander → Demander} {kept : List Topic}

theorem Next.ticks (hn : g.Next was phase f kept) (id : JobId) (d : Demander) :
    Ticks (.call id) d (f d) := by
  cases hn with
  | raise => exact .single (.chore (.keep d.schedule d.topics d.fault true (.inl rfl) fun _ => rfl))
  | abandon => exact .single .abandon
  | close => exact .single (.chore (.keep d.schedule [] d.fault d.stopping (.inr rfl) fun h => h))
  | disarm =>
    exact .single (.chore (.keep d.schedule.stop d.topics d.fault d.stopping (.inl rfl) fun h => h))
  | _ => exact .refl d

theorem Next.along (hn : g.Next was phase f kept) (d : Demander) : Along d (f d) := by
  cases hn with
  | abandon => exact (Demander.beside_abandonRound d).near.along
  | _ => exact ⟨.refl _, .refl _, Nat.le_refl _, rfl, rfl, rfl, rfl, rfl⟩

theorem Next.subset (hn : g.Next was phase f kept) : ∀ t ∈ kept, t ∈ g.handlers := by
  cases hn with
  | forget => exact fun t ht => (List.mem_filter.mp ht).1
  | _ => exact fun t ht => ht

end Next

namespace Outcome

/-- Whatever happens is made of the ticks of one call. -/
theorem ticks (ho : g.Outcome m h) (hs : g.demander.Steady) (hm : m.isSite = false) :
    Ticks (g.actor m) (g.base m) h.demander := by
  cases ho with
  | drop => exact .single (.chore (.finish _ rfl))
  | look => exact .refl _
  | astray => exact .refl _
  | @refuse id a ha hu =>
    simp only [actor, ha, hu, if_true]
    exact .single (.chore (.finish _ rfl))
  | @letIn id a ha hu =>
    simp only [actor, ha, hu, Bool.false_eq_true, if_false]
    exact (Demander.chores_letIn hs.current id a.worker a.sender a.page).ticks
  | call => exact .refl _
  | wait => exact .refl _
  | @next id was phase f kept hp hn =>
    simp only [actor, hp, Option.isSome_some, if_true]
    exact hn.ticks id g.demander
  | @returns id hp =>
    simp only [actor, hp, Option.isSome_some, if_true]
    exact (Demander.chores_returnFault g.demander).ticks
  | @aside i hi =>
    refine Demander.step_ticks hs fun c hc => ?_
    subst hc
    cases hm

/-- No handler comes back. -/
theorem handlers (ho : g.Outcome m h) : ∀ t ∈ h.handlers, t ∈ g.handlers := by
  cases ho with
  | next hp hn => exact hn.subset
  | _ => exact fun t ht => ht

end Outcome

-- ============================================================================
-- What no step takes back
-- ============================================================================

/-- The demander is stopping, listens nowhere, and is called by nobody. -/
structure Closed (g : Gated) : Prop where
  stopping : g.demander.stopping = true
  topics : g.demander.topics = []
  handlers : g.handlers = []

/-- A demander that stops goes on stopping, and topics that were given up stay so. -/
structure Wanes (g h : Gated) : Prop where
  closing : Closing g.demander h.demander
  handlers : ∀ t ∈ h.handlers, t ∈ g.handlers

theorem Closed.wane (hc : g.Closed) (hw : g.Wanes h) : h.Closed where
  stopping := hw.closing.stopping hc.stopping
  topics := hw.closing.topics hc.topics
  handlers := List.eq_nil_iff_forall_not_mem.mpr fun t ht =>
    List.not_mem_nil (hc.handlers ▸ hw.handlers t ht)

theorem closing_base (g : Gated) (m : Move) : Closing g.demander (g.base m) := by
  cases m with
  | aside i hi => cases i <;> exact .of_same rfl rfl
  | _ => exact .of_same rfl rfl

theorem Outcome.wanes (ho : g.Outcome m h) (hs : g.demander.Steady) : g.Wanes h := by
  refine ⟨?_, ho.handlers⟩
  by_cases hm : m.isSite = false
  · exact (closing_base g m).trans (Demander.closing_ticks (ho.ticks hs hm))
  · cases ho with
    | @aside i hi => exact Demander.closing_step hs i
    | _ => exact absurd rfl hm

-- ============================================================================
-- The calls at the gate
-- ============================================================================

/-- What a call to stop has got done when it has come so far. -/
def Upholds (g : Gated) : StopPhase → Prop
  | .called => True
  | .closing _ => g.demander.stopping = true ∧ g.demander.topics = []
  | .released => g.Closed
  | .unarmed => g.Closed
  | _ => g.demander.stopping = true

theorem Upholds.wane {phase : StopPhase} (hu : g.Upholds phase) (hw : g.Wanes h) :
    h.Upholds phase := by
  cases phase with
  | called => trivial
  | closing left => exact ⟨hw.closing.stopping hu.1, hw.closing.topics hu.2⟩
  | released => exact Closed.wane hu hw
  | unarmed => exact Closed.wane hu hw
  | _ => exact hw.closing.stopping hu

/-- The pages on their way and the calls to stop are different calls outside the demander, each
    stop has done what it has come to, one at most has the gate, and the transport calls the
    demander on those topics only that it listens on, or that this stop has still to give up. -/
structure Sound (g : Gated) : Prop where
  steady : g.demander.Steady
  unstopped : ∀ id, g.demander.job? id ≠ some .stopping
  arrived : ∀ id a, g.arrivals.get? id = some a → g.demander.Outside id
  called : ∀ id phase, g.stops.get? id = some phase → g.demander.Outside id
  apart : ∀ id a, g.arrivals.get? id = some a → g.stops.get? id = none
  alone : ∀ id id' left left', g.stops.get? id = some (.closing left) →
    g.stops.get? id' = some (.closing left') → id = id'
  upheld : ∀ id phase, g.stops.get? id = some phase → g.Upholds phase
  handled : ∀ t ∈ g.handlers, t ∈ g.demander.topics ∨
    ∃ id left, g.stops.get? id = some (.closing left) ∧ t ∈ left

theorem sound_opened {σ : Type} {settings : Settings} {site : Site}
    {register : Topic → σ → Except Fault σ} {s t : σ} {d : Demander}
    (hc : Demander.create settings site register s = (t, .ok d)) : (opened d).Sound where
  steady := Demander.steady_create hc
  unstopped id := by
    rw [opened, Demander.job?, (Demander.create_blank hc).2.2.1]
    exact fun hj => by cases hj
  arrived id a ha := by cases ha
  called id phase hp := by cases hp
  apart id a ha := by cases ha
  alone id id' left left' hp := by cases hp
  upheld id phase hp := by cases hp
  handled t ht := .inl ht

namespace Sound

theorem steady_base (hg : g.Sound) (m : Move) : (g.base m).Steady := by
  cases m with
  | arrive => exact hg.steady.spawn
  | callStop => exact hg.steady.spawn
  | aside i hi => exact Demander.steady_base hg.steady i
  | _ => exact hg.steady

theorem fits (hg : g.Sound) (m : Move) : (g.actor m).Fits (g.base m) := by
  cases m with
  | arrive => exact Nat.lt_succ_self _
  | enter id =>
    cases ha : g.arrivals.get? id with
    | none =>
      simp only [actor, ha]
      trivial
    | some a =>
      have hid := (hg.arrived id a ha).young
      simp only [actor, ha]
      split
      · exact hid
      · unfold Demander.guest
        split
        · next job hjob =>
          obtain ⟨plan, demand, hp, -, -, -, rfl⟩ := Demander.wanted_eq_some hjob
          exact ⟨hid, hg.steady.current, hg.steady.planned (by rw [hp]; rfl)⟩
        · exact hid
  | callStop => trivial
  | proceed id =>
    cases hp : g.stops.get? id with
    | none =>
      simp only [actor, hp]
      trivial
    | some phase =>
      simp only [actor, hp]
      exact (hg.called id phase hp).young
  | aside i hi => exact Demander.fits_actor hg.steady i

theorem steady_after (hg : g.Sound) (ho : g.Outcome m h) : h.demander.Steady := by
  by_cases hm : m.isSite = false
  · exact ((ho.ticks hg.steady hm).keeps (P := fun _ => True) (fun _ _ _ _ _ _ => trivial)
      (hg.steady_base m) (hg.fits m) trivial).2.1
  · cases ho with
    | @aside i hi => exact Demander.steady_step hg.steady i
    | _ => exact absurd rfl hm

theorem arrivals_of_stop (hg : g.Sound) {phase : StopPhase} (hp : g.stops.get? id = some phase) :
    g.arrivals.get? id = none := by
  cases ha : g.arrivals.get? id with
  | none => rfl
  | some a => cases (hg.apart id a ha).symm.trans hp

/-- A call outside the demander stays there until it goes on. -/
theorem outside_after (hg : g.Sound) (ho : g.Outcome m h) (hout : g.demander.Outside id)
    (ha : m = .enter id → g.arrivals.get? id = none)
    (hp : m = .proceed id → g.stops.get? id = none) : h.demander.Outside id := by
  by_cases hsite : m.isSite = false
  swap
  · cases ho with
    | @aside i hi =>
      cases i with
      | site c => exact ⟨hout.young, hout.jobless, hout.unended⟩
      | _ => exact absurd rfl hsite
    | _ => exact absurd rfl hsite
  have hbase : (g.base m).Outside id := by
    cases m with
    | arrive => exact hout.spawn
    | callStop => exact hout.spawn
    | aside i hi =>
      cases i <;> first | exact hout | exact hout.spawn
    | _ => exact hout
  refine hbase.ticks (ho.ticks hg.steady hsite) ?_
  cases m with
  | arrive => exact fun hid => Nat.ne_of_gt hout.young (Option.some.inj hid)
  | enter k =>
    simp only [actor]
    split
    · exact fun hid => by cases hid
    · next a hk =>
      have hid : some k ≠ some id := by
        intro hid
        obtain rfl := Option.some.inj hid
        cases (ha rfl).symm.trans hk
      split
      · exact hid
      · rw [Demander.id?_guest]
        exact hid
  | callStop => exact fun hid => by cases hid
  | proceed k =>
    simp only [actor]
    split
    · next hk =>
      intro hid
      obtain rfl := Option.some.inj hid
      rw [hp rfl] at hk
      cases hk
    · exact fun hid => by cases hid
  | aside i hi => exact hout.idle i

theorem arrival_after (hg : g.Sound) (ho : g.Outcome m h) {a : Arrival}
    (ha : g.arrivals.get? id = some a) (hm : m ≠ .enter id) : h.demander.Outside id :=
  hg.outside_after ho (hg.arrived id a ha) (fun he => absurd he hm) fun _ => hg.apart id a ha

theorem stop_after (hg : g.Sound) (ho : g.Outcome m h) {phase : StopPhase}
    (hp : g.stops.get? id = some phase) (hm : m ≠ .proceed id) : h.demander.Outside id :=
  hg.outside_after ho (hg.called id phase hp) (fun _ => hg.arrivals_of_stop hp) fun he => absurd he hm

/-- A job that is there afterwards was there before, or is that of a page that was let in, or is
    there because of what else happened to the demander. -/
theorem job_after (hg : g.Sound) (ho : g.Outcome m h) {j : Job} (hj : h.demander.job? id = some j) :
    g.demander.job? id = some j ∨ (∃ a, g.arrivals.get? id = some a) ∧ j.page?.isSome = true ∨
      ∃ i hi, m = .aside i hi ∧ (g.demander.step i).job? id = some j := by
  cases ho with
  | drop => exact .inl (Demander.job?_of_finish (d := g.demander.spawn.1) hj)
  | refuse => exact .inl (Demander.job?_of_finish hj)
  | letIn ha _ =>
    rcases Demander.job?_letIn hg.steady.current hj with hold | ⟨rfl, hpage⟩
    · exact .inl hold
    · exact .inr (.inl ⟨⟨_, ha⟩, hpage⟩)
  | next hp hn => exact .inl ((congrArg (·.get? id) (hn.along g.demander).jobs).symm.trans hj)
  | returns hp =>
    change (g.demander.returnFault _).job? id = some j at hj
    rw [Demander.returnFault_eq] at hj
    exact .inl (Demander.job?_of_finish (d := { g.demander with fault := none }) hj)
  | @aside i hi => exact .inr (.inr ⟨i, hi, rfl, hj⟩)
  | _ => exact .inl hj

theorem unstopped_after (hg : g.Sound) (ho : g.Outcome m h) (id : JobId) :
    h.demander.job? id ≠ some .stopping := by
  intro hj
  rcases hg.job_after ho hj with hold | ⟨-, hpage⟩ | ⟨i, hi, rfl, hj⟩
  · exact hg.unstopped id hold
  · cases hpage
  · rcases Demander.stop_of_waiting hg.steady hj with rfl | hold
    · cases hi
    · exact hg.unstopped id hold

/-- What happens aside from pages and stops leaves the topics. -/
theorem topics_aside (hg : g.Sound) {i : Input} (hi : i.isAside = true) :
    (g.demander.step i).topics = g.demander.topics := by
  refine congrArg Prod.snd (Demander.stopState_step g.demander (i := i) ?_ ?_)
  · rintro rfl
    cases hi
  · rintro ⟨id, -, hj⟩
    exact hg.unstopped id hj

/-- What happens to pages, or aside, leaves the calls to stop. -/
theorem of_stops (hg : g.Sound) (ho : g.Outcome m h) (hm : ∀ id, m ≠ .proceed id)
    (hstops : h.stops = g.stops) (hhandlers : h.handlers = g.handlers)
    (htopics : h.demander.topics = g.demander.topics)
    (harrived : ∀ id a, h.arrivals.get? id = some a →
      h.demander.Outside id ∧ g.stops.get? id = none) : h.Sound where
  steady := hg.steady_after ho
  unstopped := hg.unstopped_after ho
  arrived id a ha := (harrived id a ha).1
  called id phase hp := hg.stop_after ho (hstops ▸ hp) (hm id)
  apart id a ha := by
    rw [hstops]
    exact (harrived id a ha).2
  alone := by
    rw [hstops]
    exact hg.alone
  upheld := by
    rw [hstops]
    exact fun id phase hp => (hg.upheld id phase hp).wane (ho.wanes hg.steady)
  handled := by
    rw [hstops, hhandlers, htopics]
    exact hg.handled

theorem stops_nextJob (hg : g.Sound) : g.stops.get? g.demander.nextJob = none := by
  cases hp : g.stops.get? g.demander.nextJob with
  | none => rfl
  | some phase => exact absurd (hg.called _ phase hp).young (Nat.lt_irrefl _)

section Stops

variable {was phase : StopPhase} {f : Demander → Demander} {kept : List Topic}

/-- The others do not have the gate when a call to stop takes it, or has it. -/
theorem alone_next (hg : g.Sound) (hp : g.stops.get? id = some was) (hn : g.Next was phase f kept)
    {left left' : List Topic} {k : JobId} (hphase : phase = .closing left)
    (hk : g.stops.get? k = some (.closing left')) : k = id := by
  cases hn with
  | close _ hu =>
    have hholds : g.isHeld = true :=
      List.any_eq_true.mpr ⟨_, SortedMap.mem_values_iff.mpr ⟨k, hk⟩, rfl⟩
    rw [hu] at hholds
    cases hholds
  | forget t left => exact hg.alone k id _ _ hk hp
  | _ => cases hphase

/-- A call to stop has got done what it has come to. -/
theorem upholds_next (hg : g.Sound) (hp : g.stops.get? id = some was)
    (hn : g.Next was phase f kept) :
    Upholds { g.advance id phase f with handlers := kept } phase := by
  have hupheld := hg.upheld id was hp
  cases hn with
  | raise => exact rfl
  | abandon =>
    exact (Demander.beside_abandonRound g.demander).stopping.trans hupheld
  | ask => exact hupheld
  | close => exact ⟨hupheld, rfl⟩
  | forget => exact hupheld
  | release =>
    refine ⟨hupheld.1, hupheld.2, List.eq_nil_iff_forall_not_mem.mpr fun t ht => ?_⟩
    rcases hg.handled t ht with ht | ⟨k, left, hk, ht⟩
    · exact List.not_mem_nil (hupheld.2 ▸ ht)
    · obtain rfl := hg.alone k id _ _ hk hp
      cases Option.some.inj (hp.symm.trans hk)
      exact List.not_mem_nil ht
  | disarm => exact ⟨hupheld.stopping, hupheld.topics, hupheld.handlers⟩

/-- A topic is not forgotten before it is given up. -/
theorem handled_next (hg : g.Sound) (hp : g.stops.get? id = some was)
    (hn : g.Next was phase f kept) :
    ∀ t ∈ kept, t ∈ (f g.demander).topics ∨
      ∃ k left, (g.stops.insert id phase).get? k = some (.closing left) ∧ t ∈ left := by
  intro t ht
  rcases hg.handled t (hn.subset t ht) with htopic | ⟨k, left, hk, hleft⟩
  · cases hn with
    | abandon => exact .inl ((Demander.beside_abandonRound g.demander).topics ▸ htopic)
    | close => exact .inr ⟨id, _, SortedMap.get?_insert_self, htopic⟩
    | _ => exact .inl htopic
  · by_cases hkid : k = id
    · subst hkid
      obtain rfl := Option.some.inj (hp.symm.trans hk)
      cases hn with
      | forget t' left =>
        rcases List.mem_cons.mp hleft with rfl | hleft
        · exact absurd rfl (of_decide_eq_true (List.mem_filter.mp ht).2)
        · exact .inr ⟨k, left, SortedMap.get?_insert_self, hleft⟩
      | release => cases hleft
    · exact .inr ⟨k, left, (SortedMap.get?_insert_of_ne hkid).trans hk, hleft⟩

end Stops

/-- A stop is called. -/
theorem after_call (hg : g.Sound) : (g.step .callStop).Sound := by
  have ho : g.Outcome .callStop (g.step .callStop) := .call
  have hold : ∀ {id phase}, g.stops.get? id = some phase →
      (g.step .callStop).stops.get? id = some phase := fun hp =>
    (SortedMap.get?_insert_of_ne (Nat.ne_of_lt (hg.called _ _ hp).young)).trans hp
  have hnew : ∀ {id phase}, (g.step .callStop).stops.get? id = some phase →
      id = g.demander.nextJob ∧ .called = phase ∨ id ≠ g.demander.nextJob ∧
        g.stops.get? id = some phase := fun hp => SortedMap.of_get?_insert hp
  have hclosing : ∀ {id left}, (g.step .callStop).stops.get? id = some (.closing left) →
      g.stops.get? id = some (.closing left) := by
    intro id left hp
    rcases hnew hp with ⟨-, he⟩ | ⟨-, hp⟩
    · cases he
    · exact hp
  exact {
    steady := hg.steady_after ho
    unstopped := hg.unstopped_after ho
    arrived := fun id a ha => hg.arrival_after ho ha fun he => by cases he
    called := fun id phase hp => by
      rcases hnew hp with ⟨rfl, -⟩ | ⟨-, hp⟩
      · exact Demander.outside_spawn hg.steady
      · exact hg.stop_after ho hp fun he => by cases he
    apart := fun id a ha =>
      (SortedMap.get?_insert_of_ne (Nat.ne_of_lt (hg.arrived id a ha).young)).trans (hg.apart id a ha)
    alone := fun id id' left left' hp hp' => hg.alone id id' left left' (hclosing hp) (hclosing hp')
    upheld := fun id phase hp => by
      rcases hnew hp with ⟨-, rfl⟩ | ⟨-, hp⟩
      · trivial
      · exact (hg.upheld id phase hp).wane (ho.wanes hg.steady)
    handled := fun t ht => by
      rcases hg.handled t ht with htopic | ⟨id, left, hp, hleft⟩
      · exact .inl htopic
      · exact .inr ⟨id, left, hold hp, hleft⟩ }

/-- A call to stop does what is next. -/
theorem after_next {was phase : StopPhase} {f : Demander → Demander} {kept : List Topic}
    (hg : g.Sound) (hp : g.stops.get? id = some was) (hn : g.Next was phase f kept) :
    Sound { g.advance id phase f with handlers := kept } := by
  have ho : g.Outcome (.proceed id) { g.advance id phase f with handlers := kept } := .next hp hn
  have hother : ∀ {k : JobId}, k ≠ id → Move.proceed id ≠ .proceed k :=
    fun hk he => hk (Move.proceed.inj he).symm
  exact {
    steady := hg.steady_after ho
    unstopped := hg.unstopped_after ho
    arrived := fun k a ha => hg.arrival_after ho ha fun he => by cases he
    called := fun k phase' hk => by
      rcases SortedMap.of_get?_insert hk with ⟨rfl, -⟩ | ⟨hid, hk⟩
      · exact (hg.called k was hp).along (hn.along g.demander)
      · exact hg.stop_after ho hk (hother hid)
    apart := fun k a ha => by
      have hid : k ≠ id := by
        rintro rfl
        cases (hg.apart k a ha).symm.trans hp
      exact (SortedMap.get?_insert_of_ne hid).trans (hg.apart k a ha)
    alone := fun k k' left left' hk hk' => by
      rcases SortedMap.of_get?_insert hk with ⟨hid, he⟩ | ⟨hid, hold⟩
      · rcases SortedMap.of_get?_insert hk' with ⟨hid', -⟩ | ⟨-, hold'⟩
        · rw [hid, hid']
        · rw [hid, hg.alone_next hp hn he hold']
      · rcases SortedMap.of_get?_insert hk' with ⟨hid', he⟩ | ⟨-, hold'⟩
        · rw [hid', hg.alone_next hp hn he hold]
        · exact hg.alone k k' left left' hold hold'
    upheld := fun k phase' hk => by
      rcases SortedMap.of_get?_insert hk with ⟨-, rfl⟩ | ⟨hid, hk⟩
      · exact hg.upholds_next hp hn
      · exact (hg.upheld k phase' hk).wane (ho.wanes hg.steady)
    handled := hg.handled_next hp hn }

theorem topics_returnFault (d : Demander) (id : JobId) : (d.returnFault id).topics = d.topics := by
  rw [Demander.returnFault_eq]
  rfl

/-- A call to stop returns. -/
theorem after_return (hg : g.Sound) (hp : g.stops.get? id = some .unarmed) :
    Sound { g with demander := g.demander.returnFault id, stops := g.stops.erase id } := by
  have ho : g.Outcome (.proceed id)
      { g with demander := g.demander.returnFault id, stops := g.stops.erase id } := .returns hp
  have hold : ∀ {k phase}, (g.stops.erase id).get? k = some phase →
      k ≠ id ∧ g.stops.get? k = some phase := SortedMap.of_get?_erase
  exact {
    steady := hg.steady_after ho
    unstopped := hg.unstopped_after ho
    arrived := fun k a ha => hg.arrival_after ho ha fun he => by cases he
    called := fun k phase hk =>
      hg.stop_after ho (hold hk).2 fun he => (hold hk).1 (Move.proceed.inj he).symm
    apart := fun k a ha => by
      refine SortedMap.get?_erase.trans ?_
      rw [hg.apart k a ha, ite_self]
    alone := fun k k' left left' hk hk' => hg.alone k k' left left' (hold hk).2 (hold hk').2
    upheld := fun k phase hk => (hg.upheld k phase (hold hk).2).wane (ho.wanes hg.steady)
    handled := fun t ht => by
      rcases hg.handled t ht with htopic | ⟨k, left, hk, hleft⟩
      · exact .inl ((topics_returnFault g.demander id).symm ▸ htopic)
      · refine .inr ⟨k, left, ?_, hleft⟩
        refine (SortedMap.get?_erase_of_ne ?_).trans hk
        rintro rfl
        cases hk.symm.trans hp }

/-- Whatever happens, the calls at the gate stay in order. -/
theorem after (hg : g.Sound) (ho : g.Outcome m h) : h.Sound := by
  have hbeside := hg.of_stops ho
  have harrival : ∀ id a, g.arrivals.get? id = some a → m ≠ .enter id → h.demander.Outside id :=
    fun _ _ ha => hg.arrival_after ho ha
  -- The pages on their way are those that were, but for one that has come to the gate.
  have herase : ∀ {k : JobId} {id a}, m = .enter k → (g.arrivals.erase k).get? id = some a →
      h.demander.Outside id ∧ g.stops.get? id = none := by
    intro k id a hm ha
    obtain ⟨hid, ha⟩ := SortedMap.of_get?_erase ha
    refine ⟨harrival id a ha ?_, hg.apart id a ha⟩
    rw [hm]
    exact fun he => hid (Move.enter.inj he).symm
  cases ho with
  | drop =>
    exact hbeside (fun _ he => by cases he) rfl rfl rfl fun id a ha =>
      ⟨harrival id a ha (fun he => by cases he), hg.apart id a ha⟩
  | look =>
    refine hbeside (fun _ he => by cases he) rfl rfl rfl fun id a ha => ?_
    rcases SortedMap.of_get?_insert ha with ⟨rfl, -⟩ | ⟨-, ha⟩
    · exact ⟨Demander.outside_spawn hg.steady, hg.stops_nextJob⟩
    · exact ⟨harrival id a ha (fun he => by cases he), hg.apart id a ha⟩
  | astray => exact hg
  | refuse => exact hbeside (fun _ he => by cases he) rfl rfl rfl fun id a => herase rfl
  | letIn =>
    exact hbeside (fun _ he => by cases he) rfl rfl
      (congrArg Prod.snd (Demander.stopState_letIn g.demander _ _ _ _)) fun id a => herase rfl
  | call => exact hg.after_call
  | wait => exact hg
  | next hp hn => exact hg.after_next hp hn
  | returns hp => exact hg.after_return hp
  | aside hi =>
    exact hbeside (fun _ he => by cases he) rfl rfl (hg.topics_aside hi) fun id a ha =>
      ⟨harrival id a ha (fun he => by cases he), hg.apart id a ha⟩

theorem step (hg : g.Sound) (m : Move) : (g.step m).Sound := hg.after (outcome_step g m)

theorem run (hg : g.Sound) (moves : List Move) : (g.run moves).Sound := by
  induction moves generalizing g with
  | nil => exact hg
  | cons m moves ih => exact ih (hg.step m)

end Sound

-- ============================================================================
-- One thread
-- ============================================================================

/-- A page that comes to the gate right away is taken in as on one thread: the gate keeps out none
    that has just found that the demander is not stopping. -/
theorem arrive_enter (hg : g.Sound) (worker : WorkerId) (sender : NodeId) (page : Supply) :
    (g.step (.arrive worker sender page)).step (.enter g.demander.nextJob) =
      { g with demander := g.demander.step (.page worker sender page) } := by
  have hnone : g.arrivals.get? g.demander.nextJob = none := by
    cases ha : g.arrivals.get? g.demander.nextJob with
    | none => rfl
    | some a => exact absurd (hg.arrived _ a ha).young (Nat.lt_irrefl _)
  have herase : ∀ a, (g.arrivals.insert g.demander.nextJob a).erase g.demander.nextJob =
      g.arrivals := fun a => SortedMap.erase_insert.trans (SortedMap.erase_of_none hnone)
  have hpage : g.demander.step (.page worker sender page) =
      g.demander.spawn.1.startPage g.demander.nextJob worker sender page := rfl
  by_cases hs : g.demander.stopping = true
  · have harrive : g.step (.arrive worker sender page) =
        { g with demander := g.demander.spawn.1.finish g.demander.nextJob (.ok ()) } := if_pos hs
    rw [hpage, Demander.startPage, if_pos (by exact hs), harrive]
    simp only [step, enter, hnone]
  · have harrive : g.step (.arrive worker sender page) =
        { g with
          demander := g.demander.spawn.1
          arrivals := g.arrivals.insert g.demander.nextJob ⟨worker, sender, page⟩ } := if_neg hs
    have hopen : g.isShut = false := by
      refine List.any_eq_false.mpr fun phase hphase hshuts => hs ?_
      obtain ⟨id, hp⟩ := SortedMap.mem_values_iff.mp hphase
      have hupheld := hg.upheld id phase hp
      cases phase with
      | asking => exact hupheld
      | closing left => exact hupheld.1
      | _ => cases hshuts
    rw [hpage, Demander.startPage, if_neg (by exact hs), harrive]
    simp only [step, enter, SortedMap.get?_insert, if_true, herase]
    exact congrArg (fun d => ({ g with demander := d } : Gated))
      (if_neg fun hshut => Bool.false_ne_true (hopen.symm.trans hshut))

/-- The steps that a call to stop has still to make. -/
def stepsLeft (d : Demander) : StopPhase → Nat
  | .called => d.topics.length + 7
  | .raised => d.topics.length + 6
  | .abandoned => d.topics.length + 5
  | .asking => d.topics.length + 4
  | .closing left => left.length + 3
  | .released => 2
  | .unarmed => 1

/-- What a call to stop has still to do to the demander. -/
def leave (id : JobId) : StopPhase → Demander → Demander
  | .called, d => (d.raiseFlag.abandonRound.dropTopics.stopSchedule).returnFault id
  | .raised, d => (d.abandonRound.dropTopics.stopSchedule).returnFault id
  | .abandoned, d => (d.dropTopics.stopSchedule).returnFault id
  | .asking, d => (d.dropTopics.stopSchedule).returnFault id
  | .closing _, d => d.stopSchedule.returnFault id
  | .released, d => d.stopSchedule.returnFault id
  | .unarmed, d => d.returnFault id

theorem leave_next {was phase : StopPhase} {f : Demander → Demander} {kept : List Topic}
    (hn : g.Next was phase f kept) (id : JobId) :
    leave id phase (f g.demander) = leave id was g.demander ∧
      stepsLeft (f g.demander) phase + 1 = stepsLeft g.demander was := by
  cases hn with
  | abandon =>
    refine ⟨rfl, ?_⟩
    simp only [stepsLeft, (Demander.beside_abandonRound g.demander).topics]
  | _ => exact ⟨rfl, rfl⟩

/-- A call to stop that goes on alone, while no page is inside, comes to its end. -/
theorem proceed_in_a_row {phase : StopPhase} (hp : g.stops.get? id = some phase)
    (hidle : g.demander.isBusy = false)
    (hfree : ∀ k left, g.stops.get? k = some (.closing left) → k = id) :
    (g.run (List.replicate (stepsLeft g.demander phase) (.proceed id))).demander =
      leave id phase g.demander := by
  generalize hn : stepsLeft g.demander phase = n
  induction n generalizing g phase with
  | zero => cases phase <;> cases hn
  | succ n ih =>
    change ((g.step (.proceed id)).run (List.replicate n (.proceed id))).demander = _
    have ho := outcome_step g (.proceed id)
    generalize g.step (.proceed id) = h at ho ⊢
    cases ho with
    | wait hw =>
      rcases hw with hnone | ⟨hasking, hbusy | hheld⟩
      · cases hnone.symm.trans hp
      · cases hidle.symm.trans hbusy
      · obtain ⟨phase', hmem, hholds⟩ := List.any_eq_true.mp hheld
        obtain ⟨k, hk⟩ := SortedMap.mem_values_iff.mp hmem
        cases phase' with
        | closing left =>
          obtain rfl := hfree k left hk
          cases hk.symm.trans hasking
        | _ => cases hholds
    | @next _ was phase' f kept hp' hnext =>
      obtain rfl := Option.some.inj (hp'.symm.trans hp)
      obtain ⟨hleave, hsteps⟩ := leave_next hnext id
      rw [← hleave]
      refine ih (g := { g.advance id phase' f with handlers := kept })
        SortedMap.get?_insert_self ?_ ?_ (Nat.succ.inj (hsteps.trans hn))
      · exact (Demander.isBusy_congr (hnext.along g.demander).jobs).trans hidle
      · intro k left hk
        rcases SortedMap.of_get?_insert hk with ⟨hid, -⟩ | ⟨-, hk⟩
        · exact hid
        · exact hfree k left hk
    | returns hp' =>
      obtain rfl := Option.some.inj (hp'.symm.trans hp)
      obtain rfl := Nat.succ.inj hn
      rfl

theorem hasReturned_leave (id : JobId) (phase : StopPhase) (d : Demander) :
    (leave id phase d).HasReturned id := by
  have hreturn : ∀ d : Demander, (d.returnFault id).HasReturned id := by
    intro d
    rw [Demander.returnFault_eq]
    exact Demander.hasReturned_finish _ id _
  cases phase <;> exact hreturn _

/-- A call to stop that makes its steps one after the other does what it does on one thread, if no
    page is inside and no other call has the gate. -/
theorem stop_in_a_row (hg : g.Sound) (hidle : g.demander.isBusy = false) (hu : g.isHeld = false) :
    (g.run (.callStop :: List.replicate (g.demander.topics.length + 7)
      (.proceed g.demander.nextJob))).demander = g.demander.step .stop := by
  have hp : (g.step .callStop).stops.get? g.demander.nextJob = some .called :=
    SortedMap.get?_insert_self
  have hfree : ∀ k left, (g.step .callStop).stops.get? k = some (.closing left) →
      k = g.demander.nextJob := by
    intro k left hk
    rcases SortedMap.of_get?_insert hk with ⟨hid, -⟩ | ⟨-, hk⟩
    · exact hid
    · have hheld : g.isHeld = true :=
        List.any_eq_true.mpr ⟨_, SortedMap.mem_values_iff.mpr ⟨k, hk⟩, rfl⟩
      cases hu.symm.trans hheld
  have hsteps : stepsLeft (g.step .callStop).demander .called = g.demander.topics.length + 7 := rfl
  have hrow := proceed_in_a_row hp hidle hfree
  rw [hsteps] at hrow
  rw [run, List.foldl_cons]
  refine hrow.trans ?_
  rw [Demander.step_stop, Demander.endStop,
    if_neg (by rw [Demander.isBusy_leaving hg.steady, hidle]; exact Bool.false_ne_true)]
  exact (Demander.returnFault_park (g.demander.leaving.dropTopics.stopSchedule) g.demander.nextJob
    .stopping).symm

end Gated
end Rebalance
