/-
  Rebalance.Proofs.Walk

  Taking in a page, chore by chore.  `walk_cons` says how the work on the
  partitions of a page goes on after the first one, and `Walks` what the work as
  a whole is made of, for the inductions over it; `startPage_eq` and
  `resumeLocking_eq` say when that work begins and goes on at all, and
  `afterWalk` what follows when it has gone as far as it goes.
-/
import Rebalance.Proofs.Tick

namespace Rebalance
namespace Demander

-- ============================================================================
-- Small chores
-- ============================================================================

section Notes

variable {who : Actor} (d : Demander)

theorem chore_measure (f : Board → Board) (hf : ∀ b, Board.OnlyMessages b (f b)) :
    Chore who d (d.measure f) := by
  refine .note (beside_measure d f) (fun _ => rfl) (Site.quiet_measure _ fun b => ?_)
    (hf d.site.board) (.of_trace rfl)
  obtain ⟨sent, unsent, received, h⟩ := hf b
  rw [h]

theorem chore_emit {e : Effect} (hd : e.dummy? = none) (hl : e.loaded? = none)
    (hn : e.isNotified = false) : Chore who d (d.emit e) :=
  .note (beside_emit d e) (fun _ => rfl) (Site.quiet_emit _ hd hl) (Board.onlyMessages_refl _)
    (Site.hushed_emit _ hn)

theorem chore_schedule (schedule : Schedule) : Chore who d { d with schedule } :=
  .keep schedule d.topics d.fault d.stopping (.inl rfl) id

theorem chore_fault (fault : Option Fault) : Chore who d { d with fault } :=
  .keep d.schedule d.topics fault d.stopping (.inl rfl) id

theorem chore_wait {id : JobId} (j : Job) (hp : j.page? = none) (hr : j.round? = none) :
    Chore (.call id) d (d.park id j) :=
  .parkCall j hp (fun round h => by rw [hr] at h; cases h) fun round s h => by
    rw [hr] at h
    cases h

theorem chores_emits (es : List Exchange) :
    Chores who d (es.foldl (fun d e => d.emit (.preload e)) d) := by
  induction es generalizing d with
  | nil => exact .refl d
  | cons e es ih => exact .head (chore_emit d rfl rfl rfl) (ih _)

theorem chores_takeFault : Chores who d d.takeFault.1 := by
  unfold takeFault
  cases d.fault with
  | none => exact .refl d
  | some cause => exact .single (chore_fault d none)

theorem chores_onSchedule (f : Schedule → Schedule × List Exchange) :
    Chores who d (d.onSchedule f) :=
  .head (chore_schedule d (f d.schedule).1) (chores_emits _ (f d.schedule).2)

/-- Giving a node up changes nothing about what the current round and its plan were made for. -/
theorem Outdated.cancelNode {d : Demander} (h : d.Outdated) {id : RoundId}
    (hl : id < d.rounds.length) (node : NodeId) (reason : CancelReason) :
    (d.cancelNode id node reason).Outdated := by
  have hb := beside_cancelNode d id node reason
  obtain ⟨t, ht, hc⟩ := h
  have hround : (d.cancelNode id node reason).currentRound.topology = d.currentRound.topology := by
    unfold currentRound Round.topology
    rw [hb.current, round_cancelNode d node hl]
    split
    · next hid => rw [hid, exchange_after _ (c := .cancel node) nofun]
    · rfl
  refine ⟨t, ?_, by rw [hb.affinity]; exact hc⟩
  unfold PlannedFor
  rw [hround, hb.plan]
  exact ht

theorem chores_cancelAll (id : RoundId) (hl : id < d.rounds.length) (h : d.Outdated)
    (nodes : List NodeId) :
    Chores who d (nodes.foldl (fun d node => d.cancelNode id node .topologyChanged) d) := by
  induction nodes generalizing d with
  | nil => exact .refl d
  | cons n nodes ih =>
    refine .head (.cancel id n .topologyChanged hl fun _ => h) (ih _ ?_ (h.cancelNode hl n _))
    rw [(beside_cancelNode d id n .topologyChanged).rounds]
    exact hl

theorem chores_cancelIfStale (hl : d.current < d.rounds.length) :
    Chores who d (d.cancelIfStale d.current) := by
  unfold cancelIfStale
  simp only
  split
  · exact .refl d
  · next t ht =>
    split
    · exact .refl d
    · next h =>
      simp only [Bool.or_eq_true, not_or, Bool.not_eq_true, Bool.not_eq_false'] at h
      exact chores_cancelAll d d.current hl ⟨t, .inl ht, h.2⟩ _

theorem chores_nodeLeft (hl : d.current < d.rounds.length) (node : NodeId) :
    Chores who d (d.nodeLeft node) := by
  unfold nodeLeft
  split
  · exact .single (.cancel d.current node .nodeLeft hl nofun)
  · exact .refl d

theorem chores_unreadable (hl : d.current < d.rounds.length) (node : NodeId) :
    Chores who d (d.unreadable node) := by
  unfold unreadable
  split
  · exact .refl d
  · split
    · exact .single (.cancel d.current node .processingFault hl nofun)
    · exact .refl d

end Notes

-- ============================================================================
-- Pages
-- ============================================================================

section Pages

variable {id : JobId} {job : PageJob}

/-- The page job of a page that is of use: the plan demands something from the sender at the current
    topology, and the page can be read. -/
def wanted (d : Demander) (worker : WorkerId) (sender : NodeId) (page : Supply) : Option PageJob :=
  d.plan.bind fun plan =>
    (plan.get? sender).bind fun demand =>
      if d.site.affinity.changedFrom demand.topology || page.classFault.isSome then none
      else
        some { worker, sender, round := d.current, discovery := plan.exchange.discovery, demand, page }

/-- The page job of a page that is worked through at all: the demander is not stopping, and the page
    is of use. -/
def accepted (d : Demander) (worker : WorkerId) (sender : NodeId) (page : Supply) :
    Option PageJob := if d.stopping then none else d.wanted worker sender page

/-- Work through a partition whose lock is free, and then through the others. -/
def goOn (d : Demander) (job : PageJob) (p : PartitionId) (entries : List Entry)
    (rest : List (PartitionId × List Entry)) : Demander × Walked :=
  match ((d.withLock p).load job p entries).2 with
  | .error cause => (((d.withLock p).load job p entries).1, .failed cause)
  | .ok () => ((d.withLock p).load job p entries).1.walk job rest

/-- How the work on partitions goes on after the first one. -/
theorem walk_cons (d : Demander) (job : PageJob) (p : PartitionId) (entries : List Entry)
    (rest : List (PartitionId × List Entry)) :
    d.walk job ((p, entries) :: rest) =
      if d.owns p job.demand.topology = false ∨ d.site.store.base.state p ≠ .moving then
        (d.changeRound job.round (.drain job.sender p)).walk job rest
      else if (d.site.store.reserve p).2 = false then
        (d, .failed (.invariant (.unreservable p)))
      else if ((d.pinned p).site.store.base.tryLock p).2 = false then
        (d.pinned p, .blocked p entries rest)
      else (d.pinned p).goOn job p entries rest := by
  conv => lhs; unfold walk
  by_cases hskip : d.owns p job.demand.topology = false ∨ d.site.store.base.state p ≠ .moving
  · rw [if_pos hskip, if_pos (by simpa using hskip)]
  · rw [if_neg hskip, if_neg (by simpa using hskip)]
    have hp : d.pinned p = { d with site := { d.site with store := (d.site.store.reserve p).1 } } :=
      rfl
    generalize hr : d.site.store.reserve p = x at hp ⊢
    obtain ⟨reserved, b⟩ := x
    cases b with
    | false => rfl
    | true =>
      have hw : (d.pinned p).withLock p = { d with site :=
          { d.site with store := { reserved with base := (reserved.base.tryLock p).1 } } } := by
        rw [hp]
        rfl
      rw [if_neg (by simp), goOn, hw, hp]
      simp only
      generalize reserved.base.tryLock p = y
      obtain ⟨locked, b⟩ := y
      cases b with
      | false => rfl
      | true =>
        simp only [Bool.true_eq_false, if_false]
        generalize load { d with site := { d.site with store := { reserved with base := locked } } }
          job p entries = z
        obtain ⟨e, r⟩ := z
        cases r <;> rfl

/-- The work on some partitions, one after the other: each is passed over, cannot be reserved, has
    its lock taken, fails to load or is loaded. -/
inductive Walks (job : PageJob) :
    Demander → List (PartitionId × List Entry) → Demander → Walked → Prop where
  | finished {d : Demander} : Walks job d [] d .finished
  | passed {d e : Demander} {p : PartitionId} {es : List Entry}
      {rest : List (PartitionId × List Entry)} {w : Walked}
      (hskip : d.owns p job.demand.topology = false ∨ d.site.store.base.state p ≠ .moving)
      (hrest : Walks job (d.changeRound job.round (.drain job.sender p)) rest e w) :
      Walks job d ((p, es) :: rest) e w
  | unreservable {d : Demander} {p : PartitionId} {es : List Entry}
      {rest : List (PartitionId × List Entry)} (ho : d.owns p job.demand.topology = true)
      (hm : d.site.store.base.state? p = some .moving) (hr : (d.site.store.reserve p).2 = false) :
      Walks job d ((p, es) :: rest) d (.failed (.invariant (.unreservable p)))
  | blocked {d : Demander} {p : PartitionId} {es : List Entry}
      {rest : List (PartitionId × List Entry)} (ho : d.owns p job.demand.topology = true)
      (hm : d.site.store.base.state? p = some .moving) (hr : (d.site.store.reserve p).2 = true)
      (hl : ((d.pinned p).site.store.base.tryLock p).2 = false) :
      Walks job d ((p, es) :: rest) (d.pinned p) (.blocked p es rest)
  | failed {d : Demander} {p : PartitionId} {es : List Entry}
      {rest : List (PartitionId × List Entry)} {cause : Fault}
      (ho : d.owns p job.demand.topology = true) (hm : d.site.store.base.state? p = some .moving)
      (hr : (d.site.store.reserve p).2 = true)
      (hl : ((d.pinned p).site.store.base.tryLock p).2 = true)
      (herr : ((d.held p).load job p es).2 = .error cause) :
      Walks job d ((p, es) :: rest) ((d.held p).load job p es).1 (.failed cause)
  | loaded {d e : Demander} {p : PartitionId} {es : List Entry}
      {rest : List (PartitionId × List Entry)} {w : Walked}
      (ho : d.owns p job.demand.topology = true) (hm : d.site.store.base.state? p = some .moving)
      (hr : (d.site.store.reserve p).2 = true)
      (hl : ((d.pinned p).site.store.base.tryLock p).2 = true)
      (hok : ((d.held p).load job p es).2 = .ok ())
      (hrest : Walks job ((d.held p).load job p es).1 rest e w) :
      Walks job d ((p, es) :: rest) e w

theorem walks (d : Demander) (job : PageJob) (todo : List (PartitionId × List Entry)) :
    Walks job d todo (d.walk job todo).1 (d.walk job todo).2 := by
  induction todo generalizing d with
  | nil => exact .finished
  | cons x rest ih =>
    obtain ⟨p, es⟩ := x
    rw [walk_cons]
    by_cases hskip : d.owns p job.demand.topology = false ∨ d.site.store.base.state p ≠ .moving
    · rw [if_pos hskip]
      exact .passed hskip (ih _)
    · rw [if_neg hskip]
      simp only [not_or, Bool.not_eq_false, ne_eq, not_not, Store.state_eq_moving_iff] at hskip
      obtain ⟨ho, hm⟩ := hskip
      cases hr : (d.site.store.reserve p).2 with
      | false => exact .unreservable ho hm hr
      | true =>
        cases hl : ((d.pinned p).site.store.base.tryLock p).2 with
        | false => exact .blocked ho hm hr hl
        | true =>
          cases hload : ((d.held p).load job p es).2 with
          | error cause =>
            rw [goOn, show (d.pinned p).withLock p = d.held p from rfl, hload]
            exact .failed ho hm hr hl hload
          | ok _ =>
            rw [goOn, show (d.pinned p).withLock p = d.held p from rfl, hload]
            exact .loaded ho hm hr hl hload (ih _)

/-- A partition that is to be filled is not passed over. -/
theorem not_passed {d : Demander} {p : PartitionId} {t : Topology} (ho : d.owns p t = true)
    (hm : d.site.store.base.state? p = some .moving) :
    ¬ (d.owns p t = false ∨ d.site.store.base.state p ≠ .moving) := by
  rw [ho, (Store.state_eq_moving_iff _ p).mpr hm]
  simp

namespace Walks

variable {d e : Demander} {todo : List (PartitionId × List Entry)} {w : Walked}

/-- Nothing else than the work is done in these steps. -/
theorem eq (h : Walks job d todo e w) : d.walk job todo = (e, w) := by
  have hgo : ∀ (d : Demander) (p : PartitionId) (es : List Entry)
      (rest : List (PartitionId × List Entry)), d.owns p job.demand.topology = true →
      d.site.store.base.state? p = some .moving → (d.site.store.reserve p).2 = true →
      ((d.pinned p).site.store.base.tryLock p).2 = true →
      d.walk job ((p, es) :: rest) = (d.pinned p).goOn job p es rest := by
    intro d p es rest ho hm hr hl
    rw [walk_cons, if_neg (not_passed ho hm), if_neg (by simp [hr]), if_neg (by simp [hl])]
  have hheld : ∀ (d : Demander) (p : PartitionId), (d.pinned p).withLock p = d.held p :=
    fun _ _ => rfl
  induction h with
  | finished => rfl
  | passed hskip _ ih => rw [walk_cons, if_pos hskip, ih]
  | unreservable ho hm hr => rw [walk_cons, if_neg (not_passed ho hm), if_pos hr]
  | blocked ho hm hr hl =>
    rw [walk_cons, if_neg (not_passed ho hm), if_neg (by simp [hr]), if_pos hl]
  | failed ho hm hr hl herr => rw [hgo _ _ _ _ ho hm hr hl, goOn, hheld, herr]
  | loaded ho hm hr hl hok _ ih =>
    rw [hgo _ _ _ _ ho hm hr hl, goOn, hheld, hok]
    exact ih

theorem chores (h : Walks job d todo e w) : Chores (.page id job) d e := by
  have hload : ∀ (d : Demander) (p : PartitionId) (es : List Entry),
      Chores (.page id job) d ((d.held p).load job p es).1 := fun _ p es =>
    .head (.pin p) (.head (.lock p) (.single (.load p es)))
  induction h with
  | finished => exact .refl _
  | passed hskip _ ih => exact .head (.drain _ hskip) ih
  | unreservable => exact .refl _
  | blocked => exact .single (.pin _)
  | failed => exact hload _ _ _
  | loaded _ _ _ _ _ _ ih => exact (hload _ _ _).trans ih

/-- A page that has to wait for a lock keeps the partitions that it has not got past, and the one
    it waits for belongs here. -/
theorem blocked_at (h : Walks job d todo e w) {p : PartitionId} {entries : List Entry}
    {rest : List (PartitionId × List Entry)} (hw : w = .blocked p entries rest) :
    ((p, entries) :: rest) <:+ todo ∧ e.owns p job.demand.topology = true := by
  induction h with
  | finished => cases hw
  | passed _ _ ih => exact ⟨(ih hw).1.trans (List.suffix_cons _ _), (ih hw).2⟩
  | unreservable => cases hw
  | @blocked d p _ _ ho =>
    cases hw
    refine ⟨List.suffix_refl _, ?_⟩
    rw [(near_pinned d p).owns]
    exact ho
  | failed => cases hw
  | loaded _ _ _ _ _ _ ih => exact ⟨(ih hw).1.trans (List.suffix_cons _ _), (ih hw).2⟩

end Walks

theorem chores_walk (d : Demander) (todo : List (PartitionId × List Entry)) :
    Chores (.page id job) d (d.walk job todo).1 := (walks d job todo).chores

theorem chores_goOn (d : Demander) (p : PartitionId) (entries : List Entry)
    (rest : List (PartitionId × List Entry)) :
    Chores (.page id job) d (d.goOn job p entries rest).1 := by
  have hload : Chores (.page id job) d ((d.withLock p).load job p entries).1 :=
    .head (.lock p) (.single (.load p entries))
  unfold goOn
  split
  · exact hload
  · exact hload.trans (chores_walk _ rest)

theorem chores_failPage (d : Demander) (hl : job.round < d.rounds.length) (cause : Fault) :
    Chores (.page id job) d (d.failPage job cause) := by
  unfold failPage
  split
  · exact .single (.cancel _ _ _ hl nofun)
  · have h : Chores (.page id job) d (d.cancelNode job.round job.sender .processingFault) :=
      .single (.cancel _ _ _ hl nofun)
    simp only
    split
    · exact h.tail (chore_fault _ _)
    · exact h

theorem endPage_eq (d : Demander) (id : JobId) (job : PageJob) :
    d.endPage id job =
      if ((d.settleMissed job).roundOf job.round).round.isDone then
        (d.settleMissed job).finish id (.ok ())
      else (d.settleMissed job).park id (.replying job ((d.settleMissed job).nextRequest job)) :=
  rfl

/-- The work on a page touches nothing that a site brings along, and takes nothing back. -/
theorem site_walk (d : Demander) (job : PageJob) (todo : List (PartitionId × List Entry)) :
    d.site.Alike (d.walk job todo).1.site ∧
      d.site.store.base.Grows (d.walk job todo).1.site.store.base := by
  have h : Chores (.page 0 job) d (d.walk job todo).1 := chores_walk d todo
  exact h.ticks.site

theorem walk_blocked {d e : Demander} {todo rest : List (PartitionId × List Entry)}
    {p : PartitionId} {entries : List Entry} (h : d.walk job todo = (e, .blocked p entries rest)) :
    ((p, entries) :: rest) <:+ todo ∧ e.owns p job.demand.topology = true := by
  have hw := (walks d job todo).blocked_at (congrArg Prod.snd h)
  rwa [congrArg Prod.fst h] at hw

theorem goOn_blocked {d e : Demander} {rest rest' : List (PartitionId × List Entry)}
    {p q : PartitionId} {entries es : List Entry}
    (h : d.goOn job p entries rest = (e, .blocked q es rest')) :
    ((q, es) :: rest') <:+ rest ∧ e.owns q job.demand.topology = true := by
  unfold goOn at h
  split at h
  · cases h
  · exact walk_blocked h

theorem chores_endPage (d : Demander) : Chores (.page id job) d (d.endPage id job) := by
  rw [endPage_eq]
  split
  · exact .head .settleMissed (.single (.finish _ rfl))
  · exact .head .settleMissed (.single (.parkPage _ rfl (List.nil_suffix) fun p hp => by cases hp))

/-- What follows when a page has been worked through as far as it goes. -/
def afterWalk (id : JobId) (job : PageJob) : Demander × Walked → Demander
  | (d, .finished) => d.endPage id job
  | (d, .blocked p entries rest) => d.park id (.locking job p entries rest)
  | (d, .failed cause) => (d.failPage job cause).finish id (.ok ())

theorem workPage_eq (d : Demander) (id : JobId) (job : PageJob)
    (todo : List (PartitionId × List Entry)) :
    d.workPage id job todo = afterWalk id job (d.walk job todo) := by
  unfold workPage afterWalk
  split <;> simp_all

theorem resumeLocking_eq (d : Demander) (id : JobId) (job : PageJob) (p : PartitionId)
    (entries : List Entry) (rest : List (PartitionId × List Entry)) :
    d.resumeLocking id job p entries rest =
      if (d.site.store.base.tryLock p).2 = false then d
      else afterWalk id job (d.goOn job p entries rest) := by
  have hw : d.withLock p = d.onStore fun _ => (d.site.store.base.tryLock p).1 := rfl
  unfold resumeLocking goOn
  rw [hw]
  generalize d.site.store.base.tryLock p = x
  obtain ⟨locked, b⟩ := x
  cases b with
  | false => rfl
  | true =>
    simp only [Bool.true_eq_false, if_false]
    generalize (d.onStore fun _ => locked).load job p entries = z
    obtain ⟨e, r⟩ := z
    cases r with
    | error cause => rfl
    | ok _ => exact workPage_eq e id job rest

/-- However far a page was worked through, what follows is made of chores. -/
theorem chores_afterWalk {d e : Demander} {w : Walked} (hw : Chores (.page id job) d e)
    (hl : job.round < d.rounds.length)
    (hb : ∀ p entries rest, w = .blocked p entries rest →
      ((p, entries) :: rest) <:+ job.page.entries.toList ∧
        e.owns p job.demand.topology = true) :
    Chores (.page id job) d (afterWalk id job (e, w)) := by
  have hlen := Nat.lt_of_lt_of_le hl hw.ticks.length_le
  cases w with
  | finished => exact hw.trans (chores_endPage e)
  | blocked p entries rest =>
    obtain ⟨hsuf, howns⟩ := hb p entries rest rfl
    refine hw.tail (.parkPage _ rfl hsuf fun q hq => ?_)
    cases hq
    exact howns
  | failed cause => exact (hw.trans (chores_failPage e hlen cause)).tail (.finish _ rfl)

theorem site_failPage (d : Demander) (job : PageJob) (cause : Fault) :
    (d.failPage job cause).site.store = d.site.store ∧
      d.site.Alike (d.failPage job cause).site := by
  have hb := fun reason => beside_cancelNode d job.round job.sender reason
  unfold failPage
  split
  · exact ⟨(hb _).store, (hb _).near.site⟩
  · simp only
    split
    · exact ⟨(hb _).store, (hb .processingFault).near.site⟩
    · exact ⟨(hb _).store, (hb _).near.site⟩

/-- What follows when a page was worked through leaves the store alone. -/
theorem site_afterWalk (id : JobId) (job : PageJob) (x : Demander × Walked) :
    (afterWalk id job x).site.store = x.1.site.store ∧
      x.1.site.Alike (afterWalk id job x).site := by
  obtain ⟨e, w⟩ := x
  cases w with
  | finished =>
    have hb := beside_settleMissed e job
    change (e.endPage id job).site.store = _ ∧ e.site.Alike (e.endPage id job).site
    rw [endPage_eq]
    split
    · exact ⟨hb.store, hb.near.site⟩
    · exact ⟨hb.store, hb.near.site⟩
  | blocked q es rest => exact ⟨rfl, .refl _⟩
  | failed cause => exact site_failPage e job cause

theorem site_replied (d : Demander) (id : JobId) (job : PageJob) (r : Except Fault Unit) :
    (d.replied id job r).site.store = d.site.store := by
  unfold replied
  split
  · rfl
  · exact (site_failPage d job _).1

theorem chores_workPage (d : Demander) (hl : job.round < d.rounds.length)
    {todo : List (PartitionId × List Entry)} (ht : todo <:+ job.page.entries.toList) :
    Chores (.page id job) d (d.workPage id job todo) := by
  rw [workPage_eq]
  refine chores_afterWalk (chores_walk d todo) hl fun p entries rest he => ?_
  obtain ⟨hsuf, howns⟩ := walk_blocked (e := (d.walk job todo).1) (Prod.ext rfl he)
  exact ⟨hsuf.trans ht, howns⟩

theorem chores_resumeLocking (d : Demander) (hl : job.round < d.rounds.length) (p : PartitionId)
    (entries : List Entry) {rest : List (PartitionId × List Entry)}
    (ht : rest <:+ job.page.entries.toList) :
    Chores (.page id job) d (d.resumeLocking id job p entries rest) := by
  rw [resumeLocking_eq]
  split
  · exact .refl d
  · refine chores_afterWalk (chores_goOn d p entries rest) hl fun q es rest' he => ?_
    obtain ⟨hsuf, howns⟩ := goOn_blocked (e := (d.goOn job p entries rest).1) (Prod.ext rfl he)
    exact ⟨hsuf.trans ht, howns⟩

theorem chores_replied (d : Demander) (hl : job.round < d.rounds.length) (r : Except Fault Unit) :
    Chores (.page id job) d (d.replied id job r) := by
  unfold replied
  split
  · exact .head (chore_measure d Board.demandSent fun _ => ⟨_, _, _, rfl⟩) (.single (.finish _ rfl))
  · exact (chores_failPage d hl _).tail (.finish _ rfl)

/-- A page that is of no use ends at once, after its sender was given up or not. -/
theorem letIn_eq (d : Demander) (id : JobId) (worker : WorkerId) (sender : NodeId) (page : Supply) :
    d.letIn id worker sender page =
      match d.wanted worker sender page with
      | some job => (d.measure Board.pageReceived).workPage id job page.entries.toList
      | none =>
        Demander.finish
          (match d.plan.bind (·.get? sender) with
          | none => d.measure Board.pageReceived
          | some demand =>
            (d.measure Board.pageReceived).cancelNode d.current sender
              (if d.site.affinity.changedFrom demand.topology then .topologyChanged
              else .classFault)) id (.ok ()) := by
  unfold letIn wanted
  have hplan : (d.measure Board.pageReceived).plan = d.plan := rfl
  simp only [hplan]
  cases d.plan with
  | none => rfl
  | some plan =>
    simp only [Option.bind_some]
    cases plan.get? sender with
    | none => rfl
    | some demand =>
      simp only [Option.bind_some]
      by_cases hc : d.site.affinity.changedFrom demand.topology = true
      · rw [if_pos (by exact hc), if_pos (by simp [hc]), if_pos hc]
        rfl
      · by_cases hf : page.classFault.isSome = true
        · rw [if_neg (by exact hc), if_pos hf, if_pos (by simp [hf]), if_neg hc]
          rfl
        · rw [if_neg (by exact hc), if_neg hf, if_neg (by simp [hc, hf])]
          rfl

/-- A page that is not accepted ends at once, after its sender was given up or not. -/
theorem startPage_eq (d : Demander) (id : JobId) (worker : WorkerId) (sender : NodeId)
    (page : Supply) :
    d.startPage id worker sender page =
      match d.accepted worker sender page with
      | some job => (d.measure Board.pageReceived).workPage id job page.entries.toList
      | none =>
        Demander.finish
          (if d.stopping then d
          else
            match d.plan.bind (·.get? sender) with
            | none => d.measure Board.pageReceived
            | some demand =>
              (d.measure Board.pageReceived).cancelNode d.current sender
                (if d.site.affinity.changedFrom demand.topology then .topologyChanged
                else .classFault)) id (.ok ()) := by
  unfold startPage accepted
  by_cases hstop : d.stopping = true
  · rw [if_pos hstop, if_pos hstop, if_pos hstop]
  · rw [if_neg hstop, if_neg hstop, if_neg hstop]
    exact letIn_eq d id worker sender page

theorem wanted_eq_some {d : Demander} {worker : WorkerId} {sender : NodeId} {page : Supply}
    (h : d.wanted worker sender page = some job) :
    ∃ plan demand, d.plan = some plan ∧ plan.get? sender = some demand ∧
      d.site.affinity.changedFrom demand.topology = false ∧ page.classFault = none ∧
      job = ⟨worker, sender, d.current, plan.exchange.discovery, demand, page⟩ := by
  obtain ⟨plan, hplan, h⟩ := Option.bind_eq_some_iff.mp h
  obtain ⟨demand, hdemand, h⟩ := Option.bind_eq_some_iff.mp h
  split at h
  · cases h
  · next hc =>
    simp only [Bool.or_eq_true, not_or, Bool.not_eq_true] at hc
    exact ⟨plan, demand, hplan, hdemand, hc.1, by simpa using hc.2, (Option.some.inj h).symm⟩

theorem accepted_round {d : Demander} {worker : WorkerId} {sender : NodeId} {page : Supply}
    (h : d.accepted worker sender page = some job) :
    d.stopping = false ∧ ∃ plan demand, d.plan = some plan ∧ plan.get? sender = some demand ∧
      d.site.affinity.changedFrom demand.topology = false ∧ page.classFault = none ∧
      job = ⟨worker, sender, d.current, plan.exchange.discovery, demand, page⟩ := by
  unfold accepted at h
  by_cases hstop : d.stopping = true
  · rw [if_pos hstop] at h
    cases h
  · rw [if_neg hstop] at h
    exact ⟨by simpa using hstop, wanted_eq_some h⟩

end Pages

end Demander
end Rebalance
