/-
  Rebalance.Proofs.Arrival

  A page of a stream reaches the demander. It is taken in at once, since
  nothing stands in its way: its stream moves on, the others stay, and either
  the round is over or the demander is about to ask for the next page. The
  listener that the page came to waits for that and is idle again.
-/
import Rebalance.Proofs.Asking

namespace Rebalance
namespace PlanFetch

variable {E : PlanFetch} {c c' : Cluster} {d e : Demander} {node n : NodeId} {worker v : WorkerId}
  {spot : Spot} {i : RouteId} {page : Supply}

-- ============================================================================
-- Taking a page in
-- ============================================================================

/-- The work on a page of a stream. -/
def work (E : PlanFetch) (node : NodeId) (worker : WorkerId) (page : Supply) : PageJob where
  worker := worker
  sender := node
  round := E.round
  discovery := E.plan.exchange.discovery
  demand := E.demand node
  page := page

/-- A page of a stream is worked through. -/
theorem Tended.accepts (hS : E.Sane) (h : E.Tended d) (ha : E.Asks node worker)
    (hc : page.classFault = none) :
    d.accepted worker node page = some (E.work node worker page) := by
  have hcurrent : d.site.affinity.changedFrom (E.demand node).topology = false := by
    rw [h.affinity, Affinity.changedFrom, hS.uniform node _ ha.get?, hS.current]
    exact decide_eq_false fun hne => hne rfl
  rw [Demander.accepted, Demander.wanted, h.stopping, h.plan, h.current]
  show ((E.plan.get? node).bind fun demand => _) = _
  rw [ha.get?]
  show (if (d.site.affinity.changedFrom (E.demand node).topology || page.classFault.isSome) = true
    then none else _) = _
  rw [hcurrent, hc]
  rfl

/-- The demander after a page of a stream: it has ended the page, or it is about to ask for the
    next one. -/
structure Taken (E : PlanFetch) (node : NodeId) (worker : WorkerId) (page : Supply)
    (d e : Demander) : Prop where
  tended : E.Tended e
  data : PageTaken E.owned node page d.site.store.base e.site.store.base
    (d.roundOf E.round).round (e.roundOf E.round).round
  nextJob : e.nextJob = d.nextJob + 1
  others : ∀ k, k ≠ d.nextJob → e.job? k = d.job? k
  result : (e.job? d.nextJob = none ∧ e.returns = d.returns ++ [(d.nextJob, .ok ())] ∧
      (e.roundOf E.round).round.isDone = true) ∨
    (e.returns = d.returns ∧ e.job? d.nextJob =
      some (.replying (E.work node worker page) (E.request false node worker)))

/-- A demander after a page was worked through, and before its job ends or waits. -/
theorem Tended.worked (hS : E.Sane) (h : E.Tended d) (ha : E.Asks node worker)
    (hm : ∀ p ∈ page.missed, E.Demanded p)
    (hw : Demander.Worked (E.work node worker page) page.entries.toList
      (d.spawn.1.measure Board.pageReceived) e) {f : Demander}
    (hf : (e.settleMissed (E.work node worker page)).Aside f) (hs : f.Steady) :
    E.Tended f ∧ PageTaken E.owned node page d.site.store.base f.site.store.base
      (d.roundOf E.round).round (f.roundOf E.round).round := by
  have hnear := hw.near.trans (Demander.beside_settleMissed e (E.work node worker page)).near
  have hstore := (Demander.beside_settleMissed e (E.work node worker page)).store
  have hfilter := (Demander.beside_settleMissed e (E.work node worker page)).filter
  have hround := roundOf_aside hf E.round
  have htaken : PageTaken E.owned node page d.site.store.base f.site.store.base
      (d.roundOf E.round).round (f.roundOf E.round).round := by
    have hspawn : d.spawn.1.Steady := Demander.steady_base h.steady (.page worker node page)
    have hbase : (d.spawn.1.measure Board.pageReceived).Steady :=
      hspawn.along (Demander.beside_measure _ _).near.along
        (.of_same hspawn (fun _ => rfl) (Nat.le_refl _))
    have hbound : (d.spawn.1.measure Board.pageReceived).Bound E.round := h.bound
    have hpage := Demander.pageTaken hbase hbound hw
    have howned : (fun p => (d.spawn.1.measure Board.pageReceived).owns p
        (E.work node worker page).demand.topology) = E.owned := by
      funext p
      show d.owns p (E.demand node).topology = _
      rw [hS.uniform node _ ha.get?]
      exact h.owns p
    rw [howned] at hpage
    rw [hf.store, hround]
    exact hpage
  have hcalm : f.Calm E.Demanded :=
    ((hw.calm (h.calm.of_store rfl rfl)).of_store hfilter hstore).of_store hf.filter hf.store
  refine ⟨⟨hs, ?_, ?_, ?_, ?_, ?_, ?_, ?_, ?_, hcalm, ?_, ?_, ?_⟩, htaken⟩
  · exact (hf.settings.trans hnear.settings).trans h.settings
  · exact (hf.node.trans hnear.site.node).trans h.node
  · exact (hf.affinity.trans hnear.site.affinity).trans h.affinity
  · exact (hf.clock.trans hnear.site.clock).trans h.clock
  · exact (hf.topics.trans hnear.topics).trans h.topics
  · exact (hf.plan.trans hnear.plan).trans h.plan
  · exact (hf.current.trans hnear.current).trans h.current
  · exact (hf.stopping.trans hnear.stopping).trans h.stopping
  · intro m p hp
    exact h.awaits m p ((htaken.outstanding m p).mp hp).1
  · intro p hp
    rcases htaken.missed p hp with hp | ⟨hp, -⟩
    · exact h.misses p hp
    · exact hm p hp
  · rw [htaken.givenUp]
    exact h.keeps

/-- A page that brings nothing but what its supplier has for the stream is taken in. -/
theorem Tended.takes (hS : E.Sane) (h : E.Tended d) (ha : E.Asks node worker)
    (hc : page.classFault = none) (hm : ∀ p ∈ page.missed, p ∈ E.part node worker)
    (hx : ∀ p es, page.entries.get? p = some es →
      p ∈ E.part node worker ∧ es ⊆ (E.source node).store.entries p) :
    E.Taken node worker page d (d.step (.page worker node page)) := by
  have hdemanded : ∀ p ∈ E.part node worker, E.Demanded p := fun p hp =>
    ⟨node, (E.mem_part.mp hp).1⟩
  obtain ⟨e, hw, htake⟩ := Demander.takePage_calm h.steady h.calm (h.accepts hS ha hc)
    (fun p es hes => hdemanded p (hx p es hes).1) (by
      intro p es hes x hmem
      obtain ⟨hp, hsub⟩ := hx p es hes
      rw [h.clock]
      exact hS.lasting node p (E.mem_part.mp hp).1 x (hsub hmem))
  have hnear := hw.near.trans (Demander.beside_settleMissed e (E.work node worker page)).near
  have hs : (d.takePage worker node page).Steady :=
    Demander.steady_step h.steady (.page worker node page)
  have hjobs : ∀ k, (e.settleMissed (E.work node worker page)).job? k = d.job? k := by
    intro k
    rw [Demander.job?, hnear.jobs]
    rfl
  show E.Taken node worker page d (d.takePage worker node page)
  by_cases hdone : (((e.settleMissed (E.work node worker page)).roundOf
      (E.work node worker page).round).round).isDone = true
  · rw [htake, if_pos hdone] at hs ⊢
    obtain ⟨htended, hpage⟩ := h.worked hS ha (fun p hp => hdemanded p (hm p hp)) hw
      (Demander.aside_finish _ _ _) hs
    refine ⟨htended, hpage, hnear.nextJob, ?_, .inl ⟨?_, ?_, hdone⟩⟩
    · intro k hk
      rw [Demander.job?_finish_of_ne hk, hjobs]
    · rw [Demander.job?_finish_self]
    · show (e.settleMissed (E.work node worker page)).returns ++ _ = _
      rw [hnear.returns]
      rfl
  · rw [htake, if_neg hdone] at hs ⊢
    obtain ⟨htended, hpage⟩ := h.worked hS ha (fun p hp => hdemanded p (hm p hp)) hw
      (Demander.aside_park _ _ _) hs
    have hnext : (e.settleMissed (E.work node worker page)).nextRequest (E.work node worker page) =
        E.request false node worker := by
      have hpool : (e.settleMissed (E.work node worker page)).pool = E.pool :=
        hnear.pool.trans h.pool
      rw [Demander.nextRequest, hpool]
      rfl
    refine ⟨htended, hpage, hnear.nextJob, ?_, .inr ⟨hnear.returns, ?_⟩⟩
    · intro k hk
      rw [Demander.job?_park_of_ne hk, hjobs]
    · rw [Demander.job?_park_self, hnext]

-- ============================================================================
-- The listeners of the demander
-- ============================================================================

/-- Nothing on a page of one stream belongs to another one. -/
theorem apart_streams (hS : E.Sane) {p : PartitionId} (hp : p ∈ E.part node worker)
    (hq : p ∈ E.part n v) : n = node ∧ v = worker := by
  obtain ⟨hwanted, hworker⟩ := E.mem_part.mp hp
  obtain ⟨hwanted', hworker'⟩ := E.mem_part.mp hq
  exact ⟨hS.apart n node p hwanted' hwanted, hworker'.symm.trans hworker⟩

/-- A demander with a page taken in, its listener busy with that. -/
structure Landed (E : PlanFetch) (node : NodeId) (worker : WorkerId) (i : RouteId) (c c' : Cluster)
    (d e : Demander) : Prop where
  demanders : c'.demanders = [e]
  suppliers : c'.suppliers = c.suppliers
  transfers : c'.transfers = c.transfers
  listeners : ∀ k, c'.listeners[k]? =
    if k = i then some (.demander 0 worker (some d.nextJob)) else c.listeners[k]?
  network : Network.Rerouted i c.network c'.network
  sends : c'.network.sends = c.network.sends
  held : c.network.held i = (c.network.held i).head?.toList ++ c'.network.held i
  sender : ∀ x ∈ (c.network.held i).head?, x.sender = node

section Land

variable (hS : E.Sane) (h : E.Underway c d) (ha : E.Asks node worker)
  (hi : E.network.find? E.node (E.pool.demandTopic worker) = some i)
  (hidle : c.listeners[i]? = some (.demander 0 worker none)) {s : SupplyStream}
  (hspot : E.At c d node worker (.paged s page))
  (ht : E.Taken node worker page d e) {c' : Cluster} (hl : E.Landed node worker i c c' d e)

include h in
theorem carries_nextJob : c.carries d.nextJob = false := by
  rw [Cluster.carries, List.any_eq_false]
  intro t ht heq
  obtain ⟨j, hj⟩ := Option.isSome_iff_exists.mp (h.jobs.transfers t ht).2.2.2
  have hlt := h.tended.steady.young _ _ hj
  rw [beq_iff_eq.mp heq] at hlt
  exact Nat.lt_irrefl _ hlt

include h ht hl in
/-- The stream of the page is about to be asked for more unless the round is over. -/
theorem Taken.turns : c'.Turns e n v ↔
    c.Turns d n v ∨ (n = node ∧ v = worker ∧ (e.job? d.nextJob).isSome = true) := by
  have hcarries : ∀ k, c'.carries k = c.carries k := by
    intro k
    rw [Cluster.carries, Cluster.carries, hl.transfers]
  constructor
  · rintro ⟨k, job, q, hk, hn, hv, hfree⟩
    rw [hcarries] at hfree
    by_cases hnext : k = d.nextJob
    · subst hnext
      rcases ht.result with ⟨hnone, -⟩ | ⟨-, hsome⟩
      · rw [hnone] at hk
        cases hk
      · rw [hsome, Option.some.injEq] at hk
        obtain ⟨rfl, rfl⟩ := Job.replying.inj hk
        exact .inr ⟨hn.symm, hv.symm, by rw [hsome]; rfl⟩
    · rw [ht.others k hnext] at hk
      exact .inl ⟨k, job, q, hk, hn, hv, hfree⟩
  · rintro (⟨k, job, q, hk, hn, hv, hfree⟩ | ⟨rfl, rfl, hsome⟩)
    · have hlt := h.tended.steady.young _ _ hk
      rw [← ht.others k (Nat.ne_of_lt hlt)] at hk
      exact ⟨k, job, q, hk, hn, hv, by rw [hcarries]; exact hfree⟩
    · rcases ht.result with ⟨hnone, -⟩ | ⟨-, hjob⟩
      · rw [hnone] at hsome
        cases hsome
      · exact ⟨_, _, _, hjob, rfl, rfl, by rw [hcarries]; exact carries_nextJob h⟩

include h ht hl in
theorem Taken.unsent : E.unsent c' e = E.unsent c d := by
  have hcarries : c'.carries E.call = c.carries E.call := by
    rw [Cluster.carries, Cluster.carries, hl.transfers]
  rw [PlanFetch.unsent, PlanFetch.unsent, hcarries, ht.others _ (Nat.ne_of_lt h.jobs.began)]

include h ha hi hidle ht hl in
theorem Taken.jobs : E.Jobs c' e := by
  have hunsent := ht.unsent h hl
  refine ⟨?_, ?_, ?_, by rw [hunsent]; exact h.jobs.requests,
    by rw [hunsent]; exact h.jobs.distinct, ?_, by rw [hl.transfers]; exact h.jobs.once,
    by rw [hl.transfers]; exact h.jobs.ids⟩
  · rw [ht.nextJob]
    exact Nat.lt_succ_of_lt h.jobs.began
  · intro x hx
    have hold : ∀ y ∈ d.returns, e.job? y.1 = none := by
      intro y hy
      rw [ht.others _ (Nat.ne_of_lt (h.tended.steady.ended y hy))]
      exact h.jobs.ended y hy
    rcases ht.result with ⟨hnone, hreturns, -⟩ | ⟨hreturns, -⟩
    · rw [hreturns, List.mem_append] at hx
      rcases hx with hx | hx
      · exact hold x hx
      · rw [List.mem_singleton.mp hx]
        exact hnone
    · rw [hreturns] at hx
      exact hold x hx
  · intro k j hk
    by_cases hnext : k = d.nextJob
    · subst hnext
      rcases ht.result with ⟨hnone, -⟩ | ⟨-, hsome⟩
      · rw [hnone] at hk
        cases hk
      · rw [hsome, Option.some.injEq] at hk
        refine .inr ⟨Nat.ne_of_gt h.jobs.began, E.work node worker page, hk.symm, rfl, ha, ?_⟩
        intro k' hk'
        have hsame : k' = i := Option.some.inj (hk'.symm.trans hi)
        rw [hl.listeners, if_pos hsame]
        rfl
    · rw [ht.others k hnext] at hk
      refine (h.jobs.kinds k j hk).imp_right ?_
      rintro ⟨hne, job, hjob, hround, hasks, hbusy⟩
      refine ⟨hne, job, hjob, hround, hasks, fun k' hk' => ?_⟩
      have hother : k' ≠ i := by
        rintro rfl
        have hsame := hbusy k' hk'
        rw [hidle] at hsame
        cases Option.some.inj hsame
      rw [hl.listeners, if_neg hother]
      exact hbusy k' hk'
  · intro x hx
    rw [hl.transfers] at hx
    obtain ⟨h0, hbase, hlt, hjob⟩ := h.jobs.transfers x hx
    obtain ⟨j, hj⟩ := Option.isSome_iff_exists.mp hjob
    have hyoung := h.tended.steady.young _ _ hj
    rw [hl.sends, ht.others _ (Nat.ne_of_lt hyoung)]
    exact ⟨h0, hbase, hlt, hjob⟩

include hi hspot in
/-- Nothing has happened on the route of the stream's demands. -/
theorem Landed.route (hl : E.Landed node worker i c c' d e) {k : RouteId}
    (hk : E.network.find? node (E.pool.supplyTopic worker) = some k) :
    c'.network.held k = [] ∧ (c'.listeners[k]?).bind ClusterListener.inHand = none := by
  have hki : k ≠ i := route_ne_door hk hi
  rw [hl.network.others k hki, hl.listeners, if_neg hki]
  exact hspot.route k hk

include hi hspot in
/-- The page was all that its node had sent to the listener. -/
theorem Landed.door (hl : E.Landed node worker i c c' d e) {k : RouteId}
    (hk : E.network.find? E.node (E.pool.demandTopic worker) = some k) :
    ((c'.network.held k).filter fun x => x.sender == node) = [] := by
  have hbefore := hspot.door k hk
  obtain rfl : k = i := Option.some.inj (hk.symm.trans hi)
  rw [hl.held, List.filter_append] at hbefore
  have hhead : ((c.network.held k).head?.toList.filter fun x => x.sender == node) =
      (c.network.held k).head?.toList := by
    rw [List.filter_eq_self]
    intro x hx
    rw [hl.sender x (Option.mem_toList.mp hx)]
    exact beq_self_eq_true node
  rw [hhead] at hbefore
  cases hx : (c.network.held k).head? with
  | none =>
    have hnil : c.network.held k = [] := List.head?_eq_none_iff.mp hx
    have hheld := hl.held
    rw [hnil] at hheld
    rw [(List.append_eq_nil_iff.mp hheld.symm).2]
    rfl
  | some x =>
    rw [hx] at hbefore
    exact (List.cons.inj hbefore).2

include h hi hspot ht hl in
/-- The stream of a page that was taken in is over, or about to be asked for more. -/
theorem Taken.own : ∃ spot, E.At c' e node worker spot := by
  have hdone := ht.result
  have hturns := ht.turns h hl (n := node) (v := worker)
  have hstored : E.stored c' node worker = E.stored c node worker := by
    rw [stored, hl.suppliers]
    rfl
  obtain ⟨hpaged, hsound⟩ := hspot.page s page rfl
  have hprogress := StreamProgress.page hspot.progress hpaged ht.data
  have hroute := fun k hk => hl.route hi hspot (k := k) hk
  have hdoor := fun k hk => hl.door hi hspot (k := k) hk
  have hnone : ¬ c.Turns d node worker := fun hturn => by cases hspot.turns.mp hturn
  have hwaits : E.request true node worker ∉ E.unsent c' e := by
    rw [ht.unsent h hl]
    exact fun hmem => by cases hspot.waits.mp hmem
  rcases hdone with ⟨hjob, -, hdone⟩ | ⟨-, hjob⟩
  · have hclosed := (ht.tended.steady.standing E.round).closed_iff
    have hempty := (ht.tended.steady.standing E.round).settled (hclosed.trans hdone)
    refine ⟨.done, hroute, hdoor, ?_, iff_of_false hwaits (by rintro ⟨⟩),
      by rintro s page ⟨⟩, ⟨List.nodup_nil, by rintro p es ⟨⟩⟩, hprogress.exhausted fun p hp => ?_⟩
    · rw [hturns, hjob]
      exact iff_of_false (fun hturn => Bool.false_ne_true (hturn.resolve_left hnone).2.2)
        (by rintro ⟨⟩)
    · obtain ⟨ps, hps, -⟩ := Round.mem_outstandingFrom_iff.mp hp
      rw [hempty] at hps
      cases hps
  · refine ⟨.turning, hroute, hdoor, ?_, iff_of_false hwaits (by rintro ⟨⟩),
      by rintro s page ⟨⟩, ?_, ?_⟩
    · rw [hturns, hjob]
      exact ⟨fun _ => rfl, fun _ => .inr ⟨rfl, rfl, rfl⟩⟩
    · show (E.stored c' node worker).Sound
      rw [hstored]
      exact hsound
    · show StreamProgress _ _ _ _ _ (E.stored c' node worker) _ _
      rw [hstored]
      exact hprogress

include hS h ha hi hidle hspot ht hl in
/-- A page of a stream that reaches the demander moves this stream on and no other. -/
theorem Underway.lands : E.Underway c' e := by
  have hpass : E.Passes node worker i := .inr ⟨ha.mem_workers, hi⟩
  have hlisteners : ∀ k, k ≠ i → c'.listeners[k]? = c.listeners[k]? := by
    intro k hk
    rw [hl.listeners, if_neg hk]
  refine ⟨hl.demanders, ht.tended, ?_, ?_, ht.jobs h ha hi hidle hl, ?_⟩
  · refine h.mail.elsewhere hl.network (Nat.le_of_eq hl.sends.symm) hpass ?_ hlisteners hpass
      (fun hroute => absurd rfl (route_ne_door hroute hi))
      fun _ => ⟨_, by rw [hl.listeners, if_pos rfl]⟩
    intro _ x hx
    refine (h.mail.doors worker ha.mem_workers i hi).2 x ?_
    rw [hl.held]
    exact List.mem_append_right _ hx
  · rw [hl.suppliers]
    exact h.stock
  · intro n v hb
    by_cases hne : n = node ∧ v = worker
    · obtain ⟨rfl, rfl⟩ := hne
      exact ht.own h hi hspot hl
    · obtain ⟨spot, hother⟩ := h.streams n v hb
      refine ⟨spot, hother.elsewhere hne hl.network hpass ?_ hlisteners hpass ?_
        (by rw [ht.unsent h hl]) ?_ fun left hprogress => hprogress.other ht.data fun p hp => ?_⟩
      · intro _ hn
        rw [hl.held, List.filter_append]
        have hhead : ((c.network.held i).head?.toList.filter fun x => x.sender == n) = [] := by
          rw [List.filter_eq_nil_iff]
          intro x hx
          rw [hl.sender x (Option.mem_toList.mp hx)]
          simpa using Ne.symm hn
        rw [hhead, List.nil_append]
      · rw [ht.turns h hl]
        exact ⟨fun hturn => hturn.resolve_right fun hsame => hne ⟨hsame.1, hsame.2.1⟩, .inl⟩
      · rw [stored, hl.suppliers]
        rfl
      · obtain ⟨hpaged, -⟩ := hspot.page s page rfl
        have hout : ¬ (page.entries.get? p ≠ none ∨ p ∈ page.missed) := fun hon =>
          hne (apart_streams hS (hspot.progress.mentions hpaged hon) hp)
        rw [not_or, Classical.not_not] at hout
        exact hout

end Land

/-- An idle listener of the demander gets the next message, which is a page of a stream. -/
theorem Underway.hearsPage (hS : E.Sane) (h : E.Underway c d) (hw : worker ∈ E.pool.workers)
    (hi : E.network.find? E.node (E.pool.demandTopic worker) = some i)
    (hidle : c.listeners[i]? = some (.demander 0 worker none)) {x : Envelope} {m : Network}
    (ht : c.network.take i = some (x, m)) :
    ∃ e, E.Underway (({ c with network := m } : Cluster).hear i (.demander 0 worker none) x) e := by
  obtain ⟨hn, hheld, hsends⟩ := Network.take_held ht
  have ha : E.Asks x.sender worker :=
    (h.mail.doors worker hw i hi).2 x (by rw [hheld]; exact List.mem_cons_self)
  obtain ⟨spot, hspot⟩ := h.streams x.sender worker ha
  have hdoor := hspot.door i hi
  rw [hheld, List.filter_cons_of_pos (by exact beq_self_eq_true x.sender)] at hdoor
  -- Nothing but a page of its stream is found here.
  obtain ⟨s, page, rfl⟩ : ∃ s page, spot = .paged s page := by
    cases spot with
    | paged s page => exact ⟨s, page, rfl⟩
    | _ => cases hdoor
  have henvelope : x = ⟨x.sender, Wire.encode (.supply page)⟩ := (List.cons.inj hdoor).1
  obtain ⟨hpaged, -⟩ := hspot.page s page rfl
  have hdecode := Wire.decode_encode_supply (hpaged.fits hspot.sound) hpaged.classFault
  have htaken := h.tended.takes hS ha hpaged.classFault
    (fun p hp => hspot.progress.mentions hpaged (.inr hp))
    fun p es hes => hspot.progress.supplied hpaged hes
  have hone : ({ c with network := m } : Cluster).demanders = [d] := h.demanders
  have hstep := Cluster.step_one hone
    (htaken.tended.topics.trans h.tended.topics.symm)
  have hbytes : Wire.decode x.bytes = .ok (.supply page) := by
    rw [henvelope]
    exact hdecode
  have hhear : ({ c with network := m } : Cluster).hear i (.demander 0 worker none) x =
      ({ c with network := m, demanders := [d.step (.page worker x.sender page)] } :
        Cluster).setListener i (.demander 0 worker (some d.nextJob)) := by
    have hfirst : ({ c with network := m } : Cluster).demanders[0]? = some d := by
      rw [hone]
      rfl
    simp only [Cluster.hear, hbytes, hfirst, hstep]
  rw [hhear]
  refine ⟨_, h.lands hS ha hi hidle hspot htaken ?_⟩
  refine ⟨rfl, rfl, rfl, fun k => Cluster.listeners_setListener hidle _ k, hn, hsends, ?_, ?_⟩
  · show c.network.held i = (c.network.held i).head?.toList ++ m.held i
    rw [hheld]
    rfl
  · intro y hy
    rw [hheld, List.head?_cons, Option.mem_some_iff] at hy
    rw [← hy]

/-- The mail is in order whether or not a listener of the demander still waits for its page. -/
theorem Mail.rests (h : E.Mail c) (hw : worker ∈ E.pool.workers)
    (hi : E.network.find? E.node (E.pool.demandTopic worker) = some i) {busy : Option JobId}
    (hbusy : c.listeners[i]? = some (.demander 0 worker busy)) :
    E.Mail (c.setListener i (.demander 0 worker none)) := by
  have hlisteners := fun k => Cluster.listeners_setListener hbusy (.demander 0 worker none) k
  refine ⟨h.alike, h.results, h.sends, ?_, ?_, ?_⟩
  · intro node v k ha hk
    have hki : k ≠ i := route_ne_door hk hi
    rw [hlisteners, if_neg hki]
    exact h.suppliers node v k ha hk
  · intro v hv k hk
    obtain ⟨hbusy', hheld⟩ := h.doors v hv k hk
    refine ⟨?_, hheld⟩
    rw [hlisteners]
    by_cases hki : k = i
    · subst hki
      rw [if_pos rfl, door_inj hk hi]
      exact ⟨none, rfl⟩
    · rw [if_neg hki]
      exact hbusy'
  · intro k hroute hdoor
    have hki : k ≠ i := by
      rintro rfl
      exact hdoor worker hw hi
    rw [hlisteners, if_neg hki]
    exact h.rest k hroute hdoor

/-- A listener of the demander is idle again once its page has been dealt with. -/
theorem Underway.rests (h : E.Underway c d) (hw : worker ∈ E.pool.workers)
    (hi : E.network.find? E.node (E.pool.demandTopic worker) = some i) {id : JobId}
    (hbusy : c.listeners[i]? = some (.demander 0 worker (some id)))
    (hdone : (d.returns.any fun x => x.1 == id) = true) :
    E.Underway (c.setListener i (.demander 0 worker none)) d := by
  have hlisteners := fun k => Cluster.listeners_setListener hbusy (.demander 0 worker none) k
  have hended : d.job? id = none := by
    obtain ⟨x, hx, hid⟩ := List.any_eq_true.mp hdone
    rw [← beq_iff_eq.mp hid]
    exact h.jobs.ended x hx
  refine ⟨h.demanders, h.tended, h.mail.rests hw hi hbusy, h.stock,
    h.jobs.keep rfl (Nat.le_refl _) ?_, ?_⟩
  · rintro k j hj ⟨hne, job, hjob, hround, hasks, hl⟩
    refine ⟨hne, job, hjob, hround, hasks, fun k' hk' => ?_⟩
    have hother : k' ≠ i := by
      rintro rfl
      have hsame := hl k' hk'
      rw [hbusy, Option.some.injEq] at hsame
      obtain rfl : id = k := Option.some.inj (ClusterListener.demander.inj hsame).2.2
      rw [hended] at hj
      cases hj
    rw [hlisteners, if_neg hother]
    exact hl k' hk'
  · intro n v hb
    obtain ⟨spot, hspot⟩ := h.streams n v hb
    refine ⟨spot, hspot.stay ?_ (fun _ _ => rfl) (turns_congr rfl) Iff.rfl rfl fun _ hd => hd⟩
    intro k hk
    have hki : k ≠ i := route_ne_door hk hi
    rw [hlisteners, if_neg hki]
    exact ⟨rfl, rfl⟩

-- ============================================================================
-- Every move
-- ============================================================================

/-- A listener of a supplier does one thing. -/
theorem Underway.supplierListens (hS : E.Sane) (h : E.Underway c d) (ha : E.Asks node worker)
    (hi : E.network.find? node (E.pool.supplyTopic worker) = some i) {c' : Cluster}
    (hm : c.listen i = some c') : E.Underway c' d := by
  obtain ⟨busy, hbusy, -⟩ := h.mail.suppliers node worker i ha hi
  cases busy with
  | none =>
    rw [Cluster.listen_idle hbusy rfl] at hm
    obtain ⟨x, hx, rfl⟩ := Option.map_eq_some_iff.mp hm
    exact h.hearsDemand hS ha hi hbusy hx
  | some work =>
    unfold Cluster.listen at hm
    rw [hbusy] at hm
    cases work with
    | held sender dm =>
      obtain ⟨s, hs, hlike⟩ := h.stock node worker ha
      obtain ⟨-, -, hpaused⟩ := hS.sound node worker ha
      have hresumed : s.paused = false := hlike.paused.trans hpaused
      simp only [hs, hresumed, Bool.false_eq_true, if_false, Option.some.injEq] at hm
      subst hm
      exact h.supplies hS ha hi hbusy hs
    | sending id =>
      obtain ⟨r, -, rfl⟩ := Option.map_eq_some_iff.mp hm
      exact h.pageSent hS ha hi hbusy

/-- A listener of the demander does one thing. -/
theorem Underway.demanderListens (hS : E.Sane) (h : E.Underway c d) (hw : worker ∈ E.pool.workers)
    (hi : E.network.find? E.node (E.pool.demandTopic worker) = some i) {c' : Cluster}
    (hm : c.listen i = some c') : ∃ e, E.Underway c' e := by
  obtain ⟨⟨busy, hbusy⟩, -⟩ := h.mail.doors worker hw i hi
  have hone : c.demanders[0]? = some d := by
    rw [h.demanders]
    rfl
  cases busy with
  | none =>
    rw [Cluster.listen_idle hbusy rfl] at hm
    obtain ⟨x, hx, rfl⟩ := Option.map_eq_some_iff.mp hm
    exact h.hearsPage hS hw hi hbusy hx
  | some id =>
    unfold Cluster.listen at hm
    rw [hbusy] at hm
    simp only [hone] at hm
    by_cases hdone : (d.returns.any fun x => x.1 == id) = true
    · rw [if_pos hdone, Option.some.injEq] at hm
      subst hm
      exact ⟨d, h.rests hw hi hbusy hdone⟩
    · rw [if_neg hdone] at hm
      cases hm

/-- No other listener does anything. -/
theorem Underway.othersRest (h : E.Underway c d)
    (hroute : ∀ node worker, E.Asks node worker →
      E.network.find? node (E.pool.supplyTopic worker) ≠ some i)
    (hdoor : ∀ worker ∈ E.pool.workers,
      E.network.find? E.node (E.pool.demandTopic worker) ≠ some i) : c.listen i = none := by
  obtain ⟨hheld, hidle⟩ := h.mail.rest i hroute hdoor
  cases hl : c.listeners[i]? with
  | none =>
    unfold Cluster.listen
    rw [hl]
  | some l =>
    rw [Cluster.listen_idle hl (hidle l hl), Network.take_of_held_nil hheld]
    rfl

/-- Whatever a cluster does while a plan is being fetched, the plan is still being fetched and
    nothing has gone wrong. -/
theorem Underway.moves (hS : E.Sane) (h : E.Underway c d) {m : Cluster.Move} {c' : Cluster}
    (hm : c.move m = some c') : ∃ e, E.Underway c' e := by
  cases m with
  | submit k id => exact ⟨d, h.submits hS hm⟩
  | report send => exact h.reports hm
  | resume k id =>
    change c.resume k id = some c' at hm
    rw [h.resumes] at hm
    cases hm
  | listen i =>
    change c.listen i = some c' at hm
    by_cases hroute : ∃ node worker, E.Asks node worker ∧
        E.network.find? node (E.pool.supplyTopic worker) = some i
    · obtain ⟨node, worker, ha, hi⟩ := hroute
      exact ⟨d, h.supplierListens hS ha hi hm⟩
    · by_cases hdoor : ∃ worker ∈ E.pool.workers,
          E.network.find? E.node (E.pool.demandTopic worker) = some i
      · obtain ⟨worker, hw, hi⟩ := hdoor
        exact h.demanderListens hS hw hi hm
      · have hnone := h.othersRest
          (fun node worker ha hi => hroute ⟨node, worker, ha, hi⟩)
          fun worker hw hi => hdoor ⟨worker, hw, hi⟩
        rw [hnone] at hm
        cases hm

end PlanFetch
end Rebalance
