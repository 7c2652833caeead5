/-
  Rebalance.Proofs.Asking

  How the demands of a plan, first ones and those for the next page, are given
  to the network and answered for. Every send ends well, so the call that adds
  the plan sends one demand after another, and a page is done when its demand
  was sent.
-/
import Mathlib.Data.List.Nodup
import Rebalance.Proofs.Moves

namespace Rebalance

namespace Cluster

variable {c c' : Cluster} {t : Nat × JobId × SendId}

theorem carries_append (ht : c'.transfers = c.transfers ++ [t]) (id : JobId) :
    c'.carries id = (c.carries id || t.2.1 == id) := by
  rw [carries, ht, List.any_append, carries]
  simp

/-- A cluster does not carry a demand for a job any more once it was answered for. -/
theorem carries_filter (ht : t ∈ c.transfers) (honce : (c.transfers.map (·.2.1)).Nodup)
    (hids : (c.transfers.map (·.2.2)).Nodup)
    (hfilter : c'.transfers = c.transfers.filter fun x => x.2.2 != t.2.2) (id : JobId) :
    c'.carries id = (c.carries id && id != t.2.1) := by
  have hsame : ∀ x ∈ c.transfers, x.2.1 = t.2.1 ↔ x.2.2 = t.2.2 := by
    intro x hx
    constructor
    · intro heq
      rw [List.inj_on_of_nodup_map honce hx ht heq]
    · intro heq
      rw [List.inj_on_of_nodup_map hids hx ht heq]
  rw [Bool.eq_iff_iff, Bool.and_eq_true, carries, carries, hfilter, List.any_eq_true,
    List.any_eq_true]
  simp only [List.mem_filter, bne_iff_ne, beq_iff_eq]
  constructor
  · rintro ⟨x, ⟨hx, hne⟩, hid⟩
    exact ⟨⟨x, hx, hid⟩, fun heq => hne ((hsame x hx).mp (hid.trans heq))⟩
  · rintro ⟨⟨x, hx, hid⟩, hne⟩
    exact ⟨x, ⟨hx, fun heq => hne (hid.symm.trans ((hsame x hx).mpr heq))⟩, hid⟩

end Cluster

namespace PlanFetch

variable {E : PlanFetch} {c c' : Cluster} {d d' : Demander} {node n : NodeId} {worker v : WorkerId}
  {spot : Spot} {i : RouteId} {id : JobId} {j : Job} {first : Bool}

-- ============================================================================
-- Giving a demand to the network
-- ============================================================================

theorem request_inj {f g : Bool} (h : E.request f n v = E.request g node worker) :
    n = node ∧ v = worker :=
  ⟨congrArg Request.target h, congrArg (fun q => q.topic.worker) h⟩

/-- A worker is asked to reply to one page at a time. -/
theorem replies_unique (hS : E.Sane) {id' : JobId} {job job' : PageJob} {q q' : Request}
    (h : E.Replies c id (.replying job q)) (h' : E.Replies c id' (.replying job' q'))
    (hw : job'.worker = job.worker) : id' = id := by
  obtain ⟨-, a, ha, -, hasks, hl⟩ := h
  obtain ⟨-, b, hb, -, -, hl'⟩ := h'
  obtain ⟨rfl, -⟩ := Job.replying.inj ha
  obtain ⟨rfl, -⟩ := Job.replying.inj hb
  obtain ⟨i, -, hi, -, -⟩ := hS.doors job.worker hasks.mem_workers
  have hbusy := hl i hi
  rw [hl' i (by rw [hw]; exact hi), Option.some.injEq] at hbusy
  exact Option.some.inj (ClusterListener.demander.inj hbusy).2.2

/-- What the job of a stream that is about to ask waits for. -/
structure Asking (E : PlanFetch) (c : Cluster) (d : Demander) (node : NodeId) (worker : WorkerId)
    (first : Bool) (id : JobId) (j : Job) : Prop where
  asks : E.Asks node worker
  job : d.job? id = some j
  free : c.carries id = false
  request : j.request? = some (E.request first node worker)
  reply : first = false → E.Replies c id j
  spot : E.At c d node worker (if first then .waiting else .turning)
  unsent : ∀ (c' : Cluster) (send : SendId), c'.transfers = c.transfers ++ [(0, id, send)] →
    E.unsent c d = (if first then [E.request true node worker] else []) ++ E.unsent c' d

/-- A job that waits for a demand to be given to the network is that of a stream. -/
theorem Underway.asking (h : E.Underway c d) (hj : d.job? id = some j)
    (hfree : c.carries id = false) {q : Request} (hq : j.request? = some q) :
    ∃ node worker first, E.Asking c d node worker first id j ∧
      q = E.request first node worker := by
  rcases h.jobs.kinds id j hj with ⟨rfl, q', s, rest, rfl, -⟩ | hreply
  · cases hq
    have hlist : E.unsent c d = (Job.sending E.round q s rest).unanswered := by
      rw [PlanFetch.unsent, hj]
      simp only [hfree, Bool.false_eq_true, if_false]
      rfl
    have hmem : q ∈ E.unsent c d := by
      rw [hlist]
      exact List.mem_cons_self
    obtain ⟨node, worker, ha, rfl⟩ := h.jobs.requests q hmem
    obtain ⟨spot, hspot⟩ := h.streams node worker ha
    obtain rfl := hspot.waits.mp hmem
    refine ⟨node, worker, true, ⟨ha, hj, hfree, rfl, by rintro ⟨⟩, hspot, ?_⟩, rfl⟩
    intro c' send ht
    rw [hlist, PlanFetch.unsent, Cluster.carries_append ht, hj]
    simp only [beq_self_eq_true, Bool.or_true, if_true]
    rfl
  · have hbusy := hreply
    obtain ⟨hid, job, rfl, hround, ha, hl⟩ := hbusy
    cases hq
    obtain ⟨spot, hspot⟩ := h.streams job.sender job.worker ha
    obtain rfl := hspot.turns.mp ⟨id, job, _, hj, rfl, rfl, hfree⟩
    refine ⟨job.sender, job.worker, false, ⟨ha, hj, hfree, rfl, fun _ => hreply, hspot, ?_⟩, rfl⟩
    intro c' send ht
    have hcall : (id == E.call) = false := beq_eq_false_iff_ne.mpr hid
    simp only [PlanFetch.unsent, Cluster.carries_append ht, hcall, Bool.or_false]
    rfl

section Submit

/-- The demand that a job waits for was given to the network, which it has left for the
    supplier. -/
structure Given (E : PlanFetch) (node : NodeId) (worker : WorkerId) (first : Bool) (id : JobId)
    (i : RouteId) (c c' : Cluster) : Prop where
  demanders : c'.demanders = c.demanders
  listeners : c'.listeners = c.listeners
  suppliers : c'.suppliers = c.suppliers
  transfers : c'.transfers = c.transfers ++ [(0, id, c.network.sends)]
  route : E.network.find? node (E.pool.supplyTopic worker) = some i
  network : Network.Rerouted i c.network c'.network
  sends : c'.network.sends = c.network.sends + 1
  held : c'.network.held i = c.network.held i ++
    [⟨E.node, Wire.encode (.demand (E.ask first node worker))⟩]

theorem Given.stored (hg : E.Given node worker first id i c c') (n : NodeId) (v : WorkerId) :
    E.stored c' n v = E.stored c n v := by
  rw [PlanFetch.stored, hg.suppliers]
  rfl

/-- Nothing else of the demander's streams changes as a demand is given to the network. -/
theorem Asking.turns (hS : E.Sane) (h : E.Underway c d) (ha : E.Asking c d node worker first id j)
    (hg : E.Given node worker first id i c c') :
    c'.Turns d n v ↔ c.Turns d n v ∧ ¬ (n = node ∧ v = worker) := by
  constructor
  · rintro ⟨id', job', q', hj', rfl, rfl, hfree'⟩
    rw [Cluster.carries_append hg.transfers, Bool.or_eq_false_iff, beq_eq_false_iff_ne] at hfree'
    have hturns : c.Turns d job'.sender job'.worker := ⟨id', job', q', hj', rfl, rfl, hfree'.1⟩
    refine ⟨hturns, fun ⟨hn, hv⟩ => ?_⟩
    have hspot := ha.spot
    cases first with
    | true =>
      rw [hn, hv] at hturns
      cases hspot.turns.mp hturns
    | false =>
      have hreply := ha.reply rfl
      have hjob := hreply
      obtain ⟨-, job, rfl, -⟩ := hjob
      have hw : job.worker = worker := by
        have hq := Option.some.inj ha.request
        exact (request_inj hq).2
      have hreply' : E.Replies c id' (.replying job' q') := by
        rcases h.jobs.kinds id' _ hj' with ⟨-, _, _, _, heq, -⟩ | hreply'
        · cases heq
        · exact hreply'
      exact hfree'.2 (replies_unique hS hreply hreply' (hv.trans hw.symm)).symm
  · rintro ⟨⟨id', job', q', hj', rfl, rfl, hfree'⟩, hne⟩
    refine ⟨id', job', q', hj', rfl, rfl, ?_⟩
    rw [Cluster.carries_append hg.transfers, Bool.or_eq_false_iff, beq_eq_false_iff_ne]
    refine ⟨hfree', fun heq => hne ?_⟩
    change id = id' at heq
    subst heq
    have hjob := ha.job
    rw [hj', Option.some.injEq] at hjob
    subst hjob
    rcases h.jobs.kinds _ _ hj' with ⟨-, _, _, _, heq, -⟩ | ⟨-, job, heq, -⟩
    · cases heq
    · obtain ⟨rfl, rfl⟩ := Job.replying.inj heq
      exact request_inj (Option.some.inj ha.request)

/-- The other first demands still wait. -/
theorem Asking.waits (ha : E.Asking c d node worker first id j)
    (hg : E.Given node worker first id i c c') (hne : ¬ (n = node ∧ v = worker)) :
    E.request true n v ∈ E.unsent c' d ↔ E.request true n v ∈ E.unsent c d := by
  rw [ha.unsent c' _ hg.transfers, List.mem_append]
  refine ⟨.inr, fun hmem => hmem.resolve_left fun hfirst => hne ?_⟩
  cases first with
  | true => exact request_inj (List.mem_singleton.mp hfirst)
  | false => cases hfirst

/-- The first demand of the stream waits no more. -/
theorem Asking.sent_first (h : E.Underway c d) (ha : E.Asking c d node worker first id j)
    (hg : E.Given node worker first id i c c') : E.request true node worker ∉ E.unsent c' d := by
  have hunsent := ha.unsent c' _ hg.transfers
  have hdistinct := h.jobs.distinct
  have hspot := ha.spot
  cases first with
  | true =>
    rw [hunsent] at hdistinct
    exact (List.nodup_cons.mp hdistinct).1
  | false =>
    have hw := hspot.waits
    rw [hunsent] at hw
    exact fun hmem => by cases hw.mp hmem

/-- Jobs stay, and one of them has given a demand to the network. -/
theorem Asking.jobs (h : E.Underway c d) (ha : E.Asking c d node worker first id j)
    (hg : E.Given node worker first id i c c') : E.Jobs c' d := by
  have hsub : (E.unsent c' d).Sublist (E.unsent c d) := by
    rw [ha.unsent c' _ hg.transfers]
    exact List.sublist_append_right _ _
  refine ⟨h.jobs.began, h.jobs.ended, ?_, fun q hq => h.jobs.requests q (hsub.subset hq),
    h.jobs.distinct.sublist hsub, ?_, ?_, ?_⟩
  · intro id' j' hj'
    refine (h.jobs.kinds id' j' hj').imp_right ?_
    rintro ⟨hne, job, hjob, hround, hasks, hl⟩
    exact ⟨hne, job, hjob, hround, hasks, by rw [hg.listeners]; exact hl⟩
  · intro t ht
    rw [hg.transfers, List.mem_append] at ht
    rw [hg.sends]
    rcases ht with ht | ht
    · obtain ⟨h0, hbase, hlt, hjob⟩ := h.jobs.transfers t ht
      exact ⟨h0, hbase, Nat.lt_succ_of_lt hlt, hjob⟩
    · obtain rfl := List.mem_singleton.mp ht
      exact ⟨rfl, h.mail.sends, Nat.lt_succ_self _, by rw [ha.job]; rfl⟩
  · rw [hg.transfers, List.map_append, List.nodup_append]
    refine ⟨h.jobs.once, List.nodup_singleton _, ?_⟩
    intro x hx y hy heq
    rw [List.mem_singleton.mp hy] at heq
    obtain ⟨t, ht, hid⟩ := List.mem_map.mp hx
    have hcarries : c.carries id = true :=
      List.any_eq_true.mpr ⟨t, ht, beq_iff_eq.mpr (hid.trans heq)⟩
    rw [ha.free] at hcarries
    cases hcarries
  · rw [hg.transfers, List.map_append, List.nodup_append]
    refine ⟨h.jobs.ids, List.nodup_singleton _, ?_⟩
    intro x hx y hy heq
    rw [List.mem_singleton.mp hy] at heq
    obtain ⟨t, ht, hid⟩ := List.mem_map.mp hx
    have hlt := (h.jobs.transfers t ht).2.2.1
    rw [hid, heq] at hlt
    exact Nat.lt_irrefl _ hlt

/-- The stream whose demand it is has been asked. -/
theorem Asking.asked (hS : E.Sane) (h : E.Underway c d) (ha : E.Asking c d node worker first id j)
    (hg : E.Given node worker first id i c c') : E.At c' d node worker (.asked first) := by
  have hspot := ha.spot
  refine hspot.shift ?_ ?_ ?_ ?_ (fun _ _ hs => by cases hs) ?_ rfl rfl
  · intro k hk
    obtain ⟨hnone, hhand⟩ := hspot.route k hk
    have hki : k = i := Option.some.inj (hk.symm.trans hg.route)
    subst hki
    rw [hg.listeners, hg.held, hnone, hhand]
    cases first <;> exact ⟨rfl, rfl⟩
  · intro k hk
    have hki : k ≠ i := fun heq => route_ne_door hg.route hk heq.symm
    rw [hg.network.others k hki, hspot.door k hk]
    cases first <;> rfl
  · rw [ha.turns hS h hg]
    exact ⟨fun hturn => absurd ⟨rfl, rfl⟩ hturn.2, nofun⟩
  · exact ⟨fun hmem => absurd hmem (ha.sent_first h hg), nofun⟩
  · rw [hg.stored]
    cases first <;> rfl

/-- A demand is sent: its stream is asked for, and every other stream stays in its spot. -/
theorem Asking.sent (hS : E.Sane) (h : E.Underway c d) (ha : E.Asking c d node worker first id j)
    (hg : E.Given node worker first id i c c') : E.Underway c' d := by
  have hpass : E.Passes node worker i := .inl ⟨ha.asks, hg.route⟩
  refine ⟨hg.demanders.trans h.demanders, h.tended, ?_, ?_, ha.jobs h hg, ?_⟩
  · refine h.mail.elsewhere hg.network (Nat.le_of_lt (Nat.lt_of_succ_le (Nat.le_of_eq hg.sends.symm)))
      hpass (fun hdoor => absurd rfl (route_ne_door hg.route hdoor))
      (fun k _ => by rw [hg.listeners]) hpass (fun _ => ?_)
      fun hdoor => absurd rfl (route_ne_door hg.route hdoor)
    rw [hg.listeners]
    exact h.mail.suppliers node worker i ha.asks hg.route
  · rw [hg.suppliers]
    exact h.stock
  · intro n v hb
    by_cases hne : n = node ∧ v = worker
    · obtain ⟨rfl, rfl⟩ := hne
      exact ⟨.asked first, ha.asked hS h hg⟩
    · obtain ⟨spot, hspot⟩ := h.streams n v hb
      refine ⟨spot, hspot.elsewhere hne hg.network hpass
        (fun hdoor => absurd rfl (route_ne_door hg.route hdoor)) (fun k _ => by rw [hg.listeners])
        hpass ?_ (ha.waits hg hne) (hg.stored n v) fun _ hprogress => hprogress⟩
      rw [ha.turns hS h hg]
      exact ⟨And.left, fun hturn => ⟨hturn, hne⟩⟩

end Submit

/-- A demand that a job waits for is given to the network. -/
theorem Underway.submits (hS : E.Sane) (h : E.Underway c d) {k : Nat}
    (hm : c.submit k id = some c') : E.Underway c' d := by
  unfold Cluster.submit at hm
  cases k with
  | succ k =>
    rw [show c.demanders[k + 1]? = none by rw [h.demanders]; rfl] at hm
    cases hm
  | zero =>
    rw [show c.demanders[0]? = some d by rw [h.demanders]; rfl] at hm
    change (if (c.transfers.any fun t => t.1 == 0 && t.2.1 == id) = true then none else _) = _ at hm
    by_cases hsent : (c.transfers.any fun t => t.1 == 0 && t.2.1 == id) = true
    · rw [if_pos hsent] at hm
      cases hm
    · rw [if_neg hsent] at hm
      have hfree : c.carries id = false := by
        rw [Bool.eq_false_iff]
        intro hcarries
        rw [Cluster.carries, List.any_eq_true] at hcarries
        obtain ⟨t, ht, hid⟩ := hcarries
        refine hsent (List.any_eq_true.mpr ⟨t, ht, ?_⟩)
        rw [(h.jobs.transfers t ht).1, hid]
        rfl
      obtain ⟨q, hq, hc'⟩ := Option.map_eq_some_iff.mp hm
      obtain ⟨j, hj, hq⟩ := Option.bind_eq_some_iff.mp hq
      obtain ⟨node, worker, first, ha, rfl⟩ := h.asking hj hfree hq
      obtain ⟨i, r, hi, hr, halive⟩ := hS.routes node worker ha.asks
      obtain ⟨r', hr', halive'⟩ := h.mail.alive hr halive
      obtain ⟨hn, hheld, hsends, hid⟩ := Network.send_held
        ((h.mail.alike.hasLeft node).trans (hS.there node worker ha.asks))
        ((h.mail.alike.find? _ _).trans hi) hr' halive' d.site.node
        (.demand (E.ask first node worker)) (E.ask first node worker).timeout
      rw [h.tended.node] at hn hheld hsends hid hc'
      subst hc'
      exact ha.sent hS h ⟨rfl, rfl, rfl, by rw [← hid]; rfl, hi, hn, hsends, hheld⟩

-- ============================================================================
-- Telling the demander
-- ============================================================================

/-- A demander whose job `id` went on, and has ended or waits for the first of the demands `todo`
    to be sent. -/
structure GoneOn (E : PlanFetch) (id : JobId) (todo : List Request) (d e : Demander) : Prop where
  aside : d.Aside e
  nextJob : e.nextJob = d.nextJob
  others : ∀ k, k ≠ id → e.job? k = d.job? k
  result : (e.job? id = none ∧ e.returns = d.returns ++ [(id, .ok ())]) ∨
    (e.returns = d.returns ∧ ∃ j, e.job? id = some j ∧ E.Sends id j)
  todo : ((e.job? id).map Job.unanswered).getD [] = todo

theorem GoneOn.of_aside {e : Demander} {todo : List Request} (ha : d.Aside d')
    (hn : d'.nextJob = d.nextJob) (hj : d'.jobs = d.jobs) (hr : d'.returns = d.returns)
    (h : E.GoneOn id todo d' e) : E.GoneOn id todo d e where
  aside := ha.trans h.aside
  nextJob := h.nextJob.trans hn
  others k hk := by
    rw [h.others k hk, Demander.job?, hj]
    rfl
  result := by
    rw [← hr]
    exact h.result
  todo := h.todo

theorem goneOn_finish (d : Demander) (id : JobId) : E.GoneOn id [] d (d.finish id (.ok ())) := by
  have hout : (d.finish id (.ok ())).job? id = none := by
    rw [Demander.job?_finish_self]
  refine ⟨Demander.aside_finish d id _, rfl, ?_, .inl ⟨hout, rfl⟩, by rw [hout]; rfl⟩
  intro k hk
  rw [Demander.job?_finish_of_ne hk]

/-- The call that adds a plan sends one demand after another. -/
theorem goneOn_dispatch (d : Demander) {ships : List Shipment}
    (hs : ∀ s ∈ ships, s.failure = none) :
    E.GoneOn E.call (ships.flatMap (·.parts)) d (d.dispatch E.call E.round ships) := by
  rcases d.dispatch_sound E.call E.round hs with ⟨hnone, heq⟩ | ⟨q, s, rest, hmore, hs, hrest, heq⟩
  · rw [heq, hnone]
    exact goneOn_finish d E.call
  · have hin : (d.park E.call (.sending E.round q s rest)).job? E.call =
        some (.sending E.round q s rest) := by
      rw [Demander.job?_park_self]
    rw [heq, hmore]
    refine ⟨Demander.aside_park d E.call _, rfl, ?_,
      .inr ⟨rfl, _, hin, rfl, q, s, rest, rfl, hs, hrest⟩, by rw [hin]; rfl⟩
    intro k hk
    rw [Demander.job?_park_of_ne hk]

/-- What happens to a job whose demand was sent. -/
theorem goneOn_answer (hk : E.Sends id j ∨ E.Replies c id j) (hj : d.job? id = some j) :
    E.GoneOn id j.unanswered.tail d (d.answer id (.ok ())) := by
  have haside : ∀ q, d.Aside ((d.noteAnswer q (.ok ())).measure Board.demandSent) :=
    fun _ => ⟨rfl, rfl, rfl, rfl, rfl, rfl, rfl, rfl, rfl, rfl, rfl⟩
  rcases hk with ⟨rfl, q, s, rest, rfl, hs, hrest⟩ | ⟨-, job, rfl, -⟩
  · have hanswer : d.answer E.call (.ok ()) = ((d.noteAnswer q (.ok ())).measure
        Board.demandSent).dispatch E.call E.round (s :: rest) := by
      rw [Demander.answer, hj]
      rfl
    have hsound : ∀ x ∈ s :: rest, x.failure = none := by
      intro x hx
      rcases List.mem_cons.mp hx with rfl | hx
      · exact hs
      · exact hrest x hx
    have hgone := goneOn_dispatch (E := E)
      ((d.noteAnswer q (.ok ())).measure Board.demandSent) hsound
    rw [hanswer]
    exact .of_aside (haside q) rfl rfl rfl hgone
  · have hanswer : d.answer id (.ok ()) = ((d.noteAnswer
        (E.request false job.sender job.worker) (.ok ())).measure Board.demandSent).finish id
          (.ok ()) := by
      rw [Demander.answer, hj]
      rfl
    rw [hanswer]
    exact .of_aside (haside _) rfl rfl rfl (goneOn_finish _ id)

section Report

variable {t : Nat × JobId × SendId} {e : Demander}

/-- A demand was answered for, and the demander has gone on. -/
structure Told (E : PlanFetch) (t : Nat × JobId × SendId) (j : Job) (c c' : Cluster)
    (d e : Demander) : Prop where
  demanders : c'.demanders = [e]
  listeners : c'.listeners = c.listeners
  suppliers : c'.suppliers = c.suppliers
  network : c'.network = c.network
  transfers : c'.transfers = c.transfers.filter fun x => x.2.2 != t.2.2
  mem : t ∈ c.transfers
  job : d.job? t.2.1 = some j
  gone : E.GoneOn t.2.1 j.unanswered.tail d e

theorem Told.carries (h : E.Underway c d) (ht : E.Told t j c c' d e) (k : JobId) :
    c'.carries k = (c.carries k && k != t.2.1) :=
  Cluster.carries_filter ht.mem h.jobs.once h.jobs.ids ht.transfers k

theorem Told.carried (ht : E.Told t j c c' d e) : c.carries t.2.1 = true :=
  List.any_eq_true.mpr ⟨t, ht.mem, beq_self_eq_true _⟩

/-- A job that has gone on does not ask for the next page. -/
theorem Told.replies (ht : E.Told t j c c' d e) {k : JobId} {job : PageJob} {q : Request}
    (hk : e.job? k = some (.replying job q)) : k ≠ t.2.1 := by
  rintro rfl
  rcases ht.gone.result with ⟨hnone, -⟩ | ⟨-, j, hj, -, _, _, _, rfl, -⟩
  · rw [hnone] at hk
    cases hk
  · rw [hj] at hk
    cases hk

theorem Told.turns (h : E.Underway c d) (ht : E.Told t j c c' d e) :
    c'.Turns e n v ↔ c.Turns d n v := by
  constructor
  · rintro ⟨k, job, q, hk, hn, hv, hfree⟩
    have hne := ht.replies hk
    rw [ht.gone.others k hne] at hk
    rw [ht.carries h, bne_iff_ne.mpr hne, Bool.and_true] at hfree
    exact ⟨k, job, q, hk, hn, hv, hfree⟩
  · rintro ⟨k, job, q, hk, hn, hv, hfree⟩
    have hne : k ≠ t.2.1 := by
      rintro rfl
      rw [ht.carried] at hfree
      cases hfree
    rw [← ht.gone.others k hne] at hk
    exact ⟨k, job, q, hk, hn, hv, by rw [ht.carries h, hfree, Bool.false_and]⟩

/-- The first demands that have not been given to the network are the same as before. -/
theorem Told.unsent (h : E.Underway c d) (ht : E.Told t j c c' d e) :
    E.unsent c' e = E.unsent c d := by
  by_cases hcall : E.call = t.2.1
  · rw [PlanFetch.unsent, PlanFetch.unsent, ht.carries h, hcall, ht.carried, ht.gone.todo, ht.job]
    simp only [bne_self_eq_false, Bool.and_false, Bool.false_eq_true, if_false, if_true]
    rfl
  · rw [PlanFetch.unsent, PlanFetch.unsent, ht.carries h, ht.gone.others _ hcall,
      bne_iff_ne.mpr hcall, Bool.and_true]

theorem Told.ended (h : E.Underway c d) (ht : E.Told t j c c' d e) :
    ∀ x ∈ e.returns, e.job? x.1 = none := by
  intro x hx
  rcases ht.gone.result with ⟨hnone, hreturns⟩ | ⟨hreturns, -⟩
  · by_cases hid : x.1 = t.2.1
    · rw [hid]
      exact hnone
    · rw [hreturns, List.mem_append] at hx
      rw [ht.gone.others _ hid]
      refine h.jobs.ended x (hx.resolve_right fun hlast => hid ?_)
      rw [List.mem_singleton.mp hlast]
  · rw [hreturns] at hx
    have hgone := h.jobs.ended x hx
    have hid : x.1 ≠ t.2.1 := by
      intro heq
      rw [heq, ht.job] at hgone
      cases hgone
    rw [ht.gone.others _ hid]
    exact hgone

/-- The job that has gone on is still of its kind, if it has not ended. -/
theorem Told.kinds (h : E.Underway c d) (ht : E.Told t j c c' d e) (k : JobId) (j' : Job)
    (hk : e.job? k = some j') : E.Sends k j' ∨ E.Replies c' k j' := by
  by_cases hid : k = t.2.1
  · subst hid
    rcases ht.gone.result with ⟨hnone, -⟩ | ⟨-, j'', hj, hsends⟩
    · rw [hnone] at hk
      cases hk
    · rw [hj, Option.some.injEq] at hk
      subst hk
      exact .inl hsends
  · rw [ht.gone.others k hid] at hk
    refine (h.jobs.kinds k j' hk).imp_right ?_
    rintro ⟨hne, job, hjob, hround, hasks, hl⟩
    exact ⟨hne, job, hjob, hround, hasks, by rw [ht.listeners]; exact hl⟩

theorem Told.jobs (h : E.Underway c d) (ht : E.Told t j c c' d e) : E.Jobs c' e where
  began := by
    rw [ht.gone.nextJob]
    exact h.jobs.began
  ended := ht.ended h
  kinds := ht.kinds h
  requests := by
    rw [ht.unsent h]
    exact h.jobs.requests
  distinct := by
    rw [ht.unsent h]
    exact h.jobs.distinct
  transfers x hx := by
    rw [ht.transfers, List.mem_filter, bne_iff_ne] at hx
    obtain ⟨h0, hbase, hlt, hjob⟩ := h.jobs.transfers x hx.1
    have hid : x.2.1 ≠ t.2.1 := by
      intro heq
      exact hx.2 (by rw [List.inj_on_of_nodup_map h.jobs.once hx.1 ht.mem heq])
    rw [ht.network, ht.gone.others _ hid]
    exact ⟨h0, hbase, hlt, hjob⟩
  once := by
    rw [ht.transfers]
    exact h.jobs.once.sublist (List.filter_sublist.map _)
  ids := by
    rw [ht.transfers]
    exact h.jobs.ids.sublist (List.filter_sublist.map _)

/-- As a demand is answered for, no stream comes into another spot. -/
theorem Underway.answers (h : E.Underway c d) (ht : E.Told t j c c' d e) (hs : e.Steady) :
    E.Underway c' e := by
  refine ⟨ht.demanders, h.tended.aside ht.gone.aside hs, ?_, ?_, ht.jobs h, ?_⟩
  · refine ⟨?_, ?_, ?_, ?_, ?_, ?_⟩ <;> simp only [ht.network, ht.listeners]
    exacts [h.mail.alike, h.mail.results, h.mail.sends, h.mail.suppliers, h.mail.doors,
      h.mail.rest]
  · rw [ht.suppliers]
    exact h.stock
  · intro n v hb
    obtain ⟨spot, hspot⟩ := h.streams n v hb
    refine ⟨spot, hspot.stay ?_ ?_ (ht.turns h) (by rw [ht.unsent h]) ?_ ?_⟩
    · intro k _
      rw [ht.network, ht.listeners]
      exact ⟨rfl, rfl⟩
    · intro k _
      rw [ht.network]
    · rw [stored, ht.suppliers]
      rfl
    · intro left hprogress
      rw [roundOf_aside ht.gone.aside, ht.gone.aside.store]
      exact hprogress

/-- The demander is told how a demand ended, which is always well. -/
theorem Underway.reports (h : E.Underway c d) {send : SendId} (hm : c.report send = some c') :
    ∃ d', E.Underway c' d' := by
  unfold Cluster.report at hm
  cases ht : c.transfers.find? fun t => t.2.2 == send with
  | none =>
    rw [ht] at hm
    cases hm
  | some t =>
    rw [ht] at hm
    obtain ⟨r, hr, rfl⟩ := Option.map_eq_some_iff.mp hm
    have hid : t.2.2 = send := by simpa using List.find?_some ht
    have hmem : t ∈ c.transfers := List.mem_of_find?_eq_some ht
    obtain ⟨h0, hbase, -, hjob⟩ := h.jobs.transfers t hmem
    -- What was sent in the course of the fetch has not failed.
    have hok : r = .ok () := by
      rcases h.mail.results _ (Network.mem_of_result? hr) with hok | hlt
      · exact hok
      · exact absurd hlt (Nat.not_lt.mpr (hid ▸ hbase))
    subst hok
    obtain ⟨j, hj⟩ := Option.isSome_iff_exists.mp hjob
    have he : E.GoneOn t.2.1 j.unanswered.tail d (d.step (.answer t.2.1 (.ok ()))) :=
      goneOn_answer (h.jobs.kinds _ j hj) hj
    refine ⟨d.step (.answer t.2.1 (.ok ())), ?_⟩
    have hstep : ({ c with transfers := c.transfers.filter fun x => x.2.2 != send } :
        Cluster).step t.1 (.answer t.2.1 ((Except.ok ()).mapError Fault.network)) =
        { c with
          demanders := [d.step (.answer t.2.1 (.ok ()))]
          transfers := c.transfers.filter fun x => x.2.2 != t.2.2 } := by
      rw [h0, hid]
      have hone : ({ c with transfers := c.transfers.filter fun x => x.2.2 != send } :
          Cluster).demanders = [d] := h.demanders
      exact Cluster.step_one hone he.aside.topics
    rw [hstep]
    exact h.answers ⟨rfl, rfl, rfl, rfl, rfl, hmem, hj, he⟩
      (Demander.steady_step h.tended.steady _)

/-- No job goes on without the transport. -/
theorem Underway.resumes (h : E.Underway c d) (k : Nat) (id : JobId) : c.resume k id = none := by
  unfold Cluster.resume
  rw [h.demanders]
  cases k with
  | succ k => rfl
  | zero =>
    show (if d.isReady id = true then some _ else none) = none
    have hready : d.isReady id = false := by
      unfold Demander.isReady
      cases hj : d.job? id with
      | none => rfl
      | some j =>
        rcases h.jobs.kinds id j hj with ⟨-, _, _, _, rfl, -⟩ | ⟨-, _, rfl, -⟩
        · rfl
        · rfl
    rw [hready]
    rfl

end Report

end PlanFetch
end Rebalance
