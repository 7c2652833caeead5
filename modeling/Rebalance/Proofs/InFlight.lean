/-
  Rebalance.Proofs.InFlight

  What keeps the messages of a cluster in order.  `Ordered` says what holds of a
  cluster with one demander at any moment: what is sent on a topic fits it, a
  demand is with the network at most once, and whoever sent what waits for room
  still holds that message.  Each thing that is done to network, listeners and
  transfers keeps this, and none of them brings a message that was not there.
-/
import Rebalance.Proofs.Traffic

namespace Rebalance
namespace Network

variable {n m : Network} {i : RouteId} {r r' : Route} {e : Envelope} {k : StreamId}

-- ============================================================================
-- Messages in queues
-- ============================================================================

theorem queuedOn_of_route (h : n.routes[i]? = some r) : n.queuedOn i = r.queue.map r.stream := by
  rw [queuedOn, h]
  rfl

theorem stream_congr (h : r'.address = r.address) : r'.stream = r.stream := by
  funext e
  rw [Route.stream, Route.stream, Route.node_congr h, Route.topic_congr h]

theorem Thinned.queued (h : Thinned n m) (k : StreamId) : m.queued.count k ≤ n.queued.count k := by
  rw [Network.queued, Network.queued, h.size]
  refine count_flatMap_range_le fun j hj => ?_
  cases hm : m.routes[j]? with
  | none =>
    rw [queuedOn, hm]
    exact Nat.zero_le _
  | some r' =>
    obtain ⟨r, hr, ha, hq, -⟩ := h.routes j r' hm
    rw [queuedOn_of_route hm, queuedOn_of_route hr, stream_congr ha]
    exact (hq.map _).count_le k

/-- Where one route changes, the queues change by what changes there. -/
theorem queued_set (hr : n.routes[i]? = some r) (hm : m.routes = n.routes.set i r')
    (k : StreamId) :
    m.queued.count k + (r.queue.map r.stream).count k ≤
      n.queued.count k + (r'.queue.map r'.stream).count k := by
  have hi := (List.getElem?_eq_some_iff.mp hr).1
  have hroute : m.routes[i]? = some r' := by rw [hm, getElem?_set_route hr, if_pos rfl]
  have hsize : m.routes.length = n.routes.length := by rw [hm, List.length_set]
  rw [← queuedOn_of_route hr, ← queuedOn_of_route hroute, queued, queued, hsize]
  refine count_flatMap_range_one hi fun j _ hne => ?_
  exact Nat.le_of_eq (by rw [queuedOn, queuedOn, hm, getElem?_set_route hr, if_neg hne])

theorem accepted_of_settled {id : SendId} {x : Except NetworkFault Unit}
    (h : m.results = (id, x) :: n.results) (k : SendId) :
    m.accepted k = if k = id then x.isOk else n.accepted k := by
  have hs := result?_settle n id k x
  rw [accepted, result?, h]
  change Option.any _ ((n.settle id x).result? k) = _
  rw [hs]
  split
  · rfl
  · rfl

/-- A send puts its message into a queue and is accepted, or neither. -/
theorem Given.inQueues {target : NodeId} {topic : Topic} (h : Given n m target topic e)
    (ho : n.Orderly) :
    (m.accepted n.sends = false ∧ ∀ k, m.queued.count k ≤ n.queued.count k) ∨
      m.accepted n.sends = true ∧ ∃ r ∈ n.routes, r.address = (target, topic) ∧
        ∀ k, m.queued.count k ≤ n.queued.count k + [r.stream e].count k := by
  cases h with
  | refused hr cause h =>
    refine .inl ⟨(accepted_of_settled h _).trans (if_pos rfl), fun k => ?_⟩
    have hsame : m.queued = n.queued := by
      unfold Network.queued queuedOn
      rw [hr]
    exact Nat.le_of_eq (congrArg (List.count k) hsame)
  | queued i r hr ha hm h =>
    refine .inr ⟨(accepted_of_settled h _).trans (if_pos rfl), r, List.mem_of_getElem? hr, ha,
      fun k => ?_⟩
    have hset := queued_set hr hm k
    rw [List.map_append, List.count_append] at hset
    change _ ≤ _ + ((r.queue.map r.stream).count k + [r.stream e].count k) at hset
    omega
  | waits i r hr ha deadline hm h =>
    refine .inl ⟨?_, fun k => ?_⟩
    · rw [accepted, Network.result?, h, ← Network.result?, ho.fresh _ (Nat.le_refl _)]
      rfl
    · have hset := queued_set hr hm k
      change _ ≤ _ + (r.queue.map r.stream).count k at hset
      omega

/-- A take has the queues without the message that is taken, but perhaps with one that has waited
    for room, which is accepted then. -/
theorem Taken.inQueues (h : Taken n m i e r r') :
    (∀ k, m.queued.count k + [r.stream e].count k ≤ n.queued.count k) ∧
        (∀ id, m.accepted id = n.accepted id) ∨
      ∃ w ∈ r.waiting, (∀ id, m.accepted id = if id = w.id then true else n.accepted id) ∧
        ∀ k, m.queued.count k + [r.stream e].count k ≤
          n.queued.count k + [r.stream w.envelope].count k := by
  have hset := queued_set h.route h.routes
  rw [stream_congr h.address] at hset
  rcases h.gone with ⟨-, -, hq, hresults⟩ | ⟨w, queue, hw, hq, hq', hresults⟩
  · refine .inl ⟨fun k => ?_, fun id => ?_⟩
    · have hk := hset k
      rw [hq, List.map_cons, ← List.singleton_append (x := r.stream e), List.count_append] at hk
      omega
    · rw [accepted, Network.result?, hresults, accepted, Network.result?]
  · refine .inr ⟨w, hw ▸ List.mem_cons_self, accepted_of_settled hresults, fun k => ?_⟩
    have hk := hset k
    rw [hq, hq', List.map_cons, ← List.singleton_append (x := r.stream e), List.count_append,
      List.map_append, List.count_append, List.map_singleton] at hk
    omega

/-- From one network to another routes keep their places, and nothing has come to them. -/
structure Keeps (n m : Network) : Prop where
  address : ∀ i : RouteId, (m.routes[i]?).map Route.address = (n.routes[i]?).map Route.address
  routes : ∀ (i : RouteId) (r' : Route), m.routes[i]? = some r' →
    ∃ r, n.routes[i]? = some r ∧ r'.address = r.address ∧ (∀ e ∈ r'.held, e ∈ r.held) ∧
      ∀ w ∈ r'.waiting, w ∈ r.waiting

theorem Thinned.keeps (h : Thinned n m) : Keeps n m where
  address := h.address
  routes i r' hi := by
    obtain ⟨r, hr, ha, hq, hw⟩ := h.routes i r' hi
    exact ⟨r, hr, ha, fun e he => (hq.append (hw.map _)).subset he, fun w hw' => hw.subset hw'⟩

theorem Taken.mem (h : Taken n m i e r r') : e ∈ r.held := by
  rcases h.gone with ⟨-, -, hq, -⟩ | ⟨w, queue, -, hq, -⟩ <;>
    exact List.mem_append_left _ (hq ▸ List.mem_cons_self)

theorem Taken.keeps (h : Taken n m i e r r') : Keeps n m := by
  have hroutes : ∀ (j : RouteId) (s' : Route), m.routes[j]? = some s' →
      ∃ s, n.routes[j]? = some s ∧ s'.address = s.address ∧ (∀ e ∈ s'.held, e ∈ s.held) ∧
        ∀ w ∈ s'.waiting, w ∈ s.waiting := by
    intro j s' hj
    rw [h.getElem? j] at hj
    by_cases hji : j = i
    · subst hji
      rw [if_pos rfl, Option.some.injEq] at hj
      subst hj
      refine ⟨r, h.route, h.address, fun e' he' => ?_, fun w hw => h.waiting.subset hw⟩
      rcases h.gone with ⟨hw, hw', hq, -⟩ | ⟨w, queue, hw, hq, hq', -⟩
      · rw [Route.held, hw'] at he'
        rw [Route.held, hq, hw]
        exact List.mem_cons_of_mem e he'
      · rw [Route.held, hq'] at he'
        rw [Route.held, hq, hw]
        simp only [List.mem_append, List.mem_cons, List.map_cons, List.not_mem_nil] at he' ⊢
        rcases he' with (he' | he' | he') | he'
        · exact .inl (.inr he')
        · exact .inr (.inl he')
        · exact absurd he' id
        · exact .inr (.inr he')
    · rw [if_neg hji] at hj
      exact ⟨s', hj, rfl, fun _ he => he, fun _ hw => hw⟩
  refine ⟨fun j => ?_, hroutes⟩
  rw [h.getElem? j]
  by_cases hji : j = i
  · rw [if_pos hji, hji, h.route, Option.map_some, Option.map_some, h.address]
  · rw [if_neg hji]

theorem Given.address {target : NodeId} {topic : Topic} (h : Given n m target topic e) (i : RouteId) :
    (m.routes[i]?).map Route.address = (n.routes[i]?).map Route.address := by
  have hset : ∀ (j : RouteId) (r r' : Route), n.routes[j]? = some r →
      m.routes = n.routes.set j r' → r'.address = r.address →
        (m.routes[i]?).map Route.address = (n.routes[i]?).map Route.address := by
    intro j r r' hr hm ha
    rw [hm, getElem?_set_route hr]
    by_cases hj : i = j
    · rw [if_pos hj, hj, hr, Option.map_some, Option.map_some, ha]
    · rw [if_neg hj]
  cases h with
  | refused hr _ _ => rw [hr]
  | queued j r hr _ hm _ => exact hset j r _ hr hm rfl
  | waits j r hr _ _ hm _ => exact hset j r _ hr hm rfl

/-- What is on a route after a send was there before, or was sent there. -/
theorem Given.held {target : NodeId} {topic : Topic} (h : Given n m target topic e) {j : RouteId}
    {s : Route} (hs : m.routes[j]? = some s) :
    ∃ t, n.routes[j]? = some t ∧ s.address = t.address ∧
      ∀ x ∈ s.held, x ∈ t.held ∨ x = e ∧ t.address = (target, topic) := by
  cases h with
  | refused hr _ _ =>
    rw [hr] at hs
    exact ⟨s, hs, rfl, fun _ hx => .inl hx⟩
  | queued i r hr ha hm _ =>
    rw [hm, getElem?_set_route hr] at hs
    by_cases hj : j = i
    · rw [if_pos hj, Option.some.injEq] at hs
      subst hs
      refine ⟨r, hj ▸ hr, rfl, fun x hx => ?_⟩
      simp only [Route.held, List.mem_append, List.mem_singleton] at hx ⊢
      rcases hx with (hx | hx) | hx
      · exact .inl (.inl hx)
      · exact .inr ⟨hx, ha⟩
      · exact .inl (.inr hx)
    · rw [if_neg hj] at hs
      exact ⟨s, hs, rfl, fun _ hx => .inl hx⟩
  | waits i r hr ha deadline hm _ =>
    rw [hm, getElem?_set_route hr] at hs
    by_cases hj : j = i
    · rw [if_pos hj, Option.some.injEq] at hs
      subst hs
      refine ⟨r, hj ▸ hr, rfl, fun x hx => ?_⟩
      simp only [Route.held, List.map_append, List.mem_append, List.map_singleton,
        List.mem_singleton] at hx ⊢
      rcases hx with hx | hx | hx
      · exact .inl (.inl hx)
      · exact .inl (.inr hx)
      · exact .inr ⟨hx, ha⟩
    · rw [if_neg hj] at hs
      exact ⟨s, hs, rfl, fun _ hx => .inl hx⟩

end Network

-- ============================================================================
-- Order
-- ============================================================================

/-- A demand wants its answer on the topic on which the demander listens for a worker. -/
def Demand.Wants (q : Demand) (worker : WorkerId) : Prop :=
  ∃ t, q.reply = some t ∧ t.role = .demand ∧ t.worker = worker

namespace Cluster

/-- Somebody holds a message of a stream until the network has dealt with a send. -/
inductive Awaits (c : Cluster) (d : Demander) (id : SendId) (s : StreamId) : Prop where
  /-- The job of a demander, with a demand. -/
  | demand {job : JobId} {j : Job} {q : Request} (ht : (0, job, id) ∈ c.transfers)
      (hj : d.job? job = some j) (hq : j.request? = some q) (hs : q.stream = s)
  /-- A supplier, with a page. -/
  | page {i : RouteId} {x : Nat} {r : Route}
      (hl : c.listeners[i]? = some (.supplier x (some (.sending id))))
      (hr : c.network.routes[i]? = some r) (hs : r.supplied = s)

/-- A cluster with one demander in order. All listeners are at their places. What is sent to a
    supplier is a demand that wants its answer where the demander listens for the same worker. Every
    demand that was given to the network is what a job waits for, which gave it once. Whatever waits
    for room on a route is a message of who waits to hear of it. -/
structure Ordered (c : Cluster) (d : Demander) : Prop where
  demanders : c.demanders = [d]
  steady : d.Steady
  proper : ∀ id j, d.job? id = some j → j.Proper
  network : c.network.Orderly
  attended : ∀ (i : RouteId) (l : ClusterListener), c.listeners[i]? = some l →
    ∃ r, c.network.routes[i]? = some r ∧ c.Attends l r
  asked : ∀ (i : RouteId) (r : Route) (e : Envelope), c.network.routes[i]? = some r →
    r.topic.role = .supply → e ∈ r.held →
      ∃ q : Demand, e.bytes = Wire.encode (.demand q) ∧ q.Wants r.topic.worker
  busy : ∀ (i : RouteId) (x : Nat) (sender : NodeId) (q : Demand) (r : Route),
    c.listeners[i]? = some (.supplier x (some (.held sender q))) → c.network.routes[i]? = some r →
      q.Wants r.topic.worker
  carried : ∀ t ∈ c.transfers, t.1 = 0 ∧ ∃ j, d.job? t.2.1 = some j ∧ j.request?.isSome = true
  once : (c.transfers.map fun t => t.2.1).Nodup
  apart : (c.transfers.map fun t => t.2.2).Nodup
  awaited : ∀ (i : RouteId) (r : Route) (w : Waiter), c.network.routes[i]? = some r →
    w ∈ r.waiting → c.Awaits d w.id (r.stream w.envelope)

/-- Every demand that was given to the network has a number. -/
def Numbered (c : Cluster) : Prop := ∀ t ∈ c.transfers, t.2.2 < c.network.sends

variable {c : Cluster} {d : Demander} {i : RouteId} {m : Network} {l l' : ClusterListener}
  {r r' : Route} {e : Envelope} {k : StreamId}

theorem count_inFlight (c : Cluster) (d : Demander) (k : StreamId) :
    (c.inFlight d).count k =
      c.network.queued.count k + (c.owed.count k + (d.holds c.sent).count k) := by
  rw [inFlight, withMembers, List.count_append, List.count_append]

theorem owedOn_eq (hl : c.listeners[i]? = some l) (hr : c.network.routes[i]? = some r) :
    c.owedOn i = if l.owes c.network then [r.supplied] else [] := by
  simp only [owedOn, hl, hr]

theorem sent_iff {id : JobId} :
    c.sent id = true ↔ ∃ t ∈ c.transfers, t.2.1 = id ∧ c.network.accepted t.2.2 = true := by
  simp [sent]

/-- A job whose demand the network has accepted waits to hear of it. -/
theorem Ordered.sent (ho : c.Ordered d) (id : JobId) (h : c.sent id = true) :
    ∃ j, d.job? id = some j ∧ j.request?.isSome = true := by
  obtain ⟨t, ht, rfl, -⟩ := sent_iff.mp h
  exact (ho.carried t ht).2

-- ============================================================================
-- The network
-- ============================================================================

theorem supplied_congr (h : r'.address = r.address) : r'.supplied = r.supplied := by
  rw [Route.supplied, Route.supplied, Route.node_congr h, Route.topic_congr h]

theorem attends_congr {c' : Cluster} (hs : c'.suppliers = c.suppliers)
    (h : r'.address = r.address) (ha : c.Attends l r) : c'.Attends l r' := by
  cases l with
  | nobody => trivial
  | demander x worker busy => rwa [Attends, Route.topic_congr h]
  | supplier x busy => rwa [Attends, Route.topic_congr h, hs, Route.node_congr h]

theorem route_of_address (h : ∀ i : RouteId,
    (m.routes[i]?).map Route.address = (c.network.routes[i]?).map Route.address)
    (hr : c.network.routes[i]? = some r) : ∃ r', m.routes[i]? = some r' ∧ r'.address = r.address := by
  have hi := h i
  rw [hr, Option.map_some] at hi
  exact Option.map_eq_some_iff.mp hi

theorem Awaits.onNetwork {id : SendId} {s : StreamId} (h : c.Awaits d id s)
    (ha : ∀ i : RouteId, (m.routes[i]?).map Route.address = (c.network.routes[i]?).map Route.address) :
    ({ c with network := m } : Cluster).Awaits d id s := by
  cases h with
  | demand ht hj hq hs => exact .demand ht hj hq hs
  | page hl hr hs =>
    obtain ⟨r', hr', haddress⟩ := route_of_address ha hr
    exact .page hl hr' ((supplied_congr haddress).trans hs)

/-- A network on which nothing has come is still in order. -/
theorem Ordered.onNetwork (ho : c.Ordered d) (hm : m.Orderly) (hk : c.network.Keeps m) :
    ({ c with network := m } : Cluster).Ordered d where
  demanders := ho.demanders
  steady := ho.steady
  proper := ho.proper
  network := hm
  attended i l hl := by
    obtain ⟨r, hr, ha⟩ := ho.attended i l hl
    obtain ⟨r', hr', haddress⟩ := route_of_address hk.address hr
    exact ⟨r', hr', attends_congr rfl haddress ha⟩
  asked i r' e hr' hrole he := by
    obtain ⟨r, hr, haddress, hheld, -⟩ := hk.routes i r' hr'
    rw [Route.topic_congr haddress] at hrole ⊢
    exact ho.asked i r e hr hrole (hheld e he)
  busy i x sender q r' hl hr' := by
    obtain ⟨r, hr, haddress, -⟩ := hk.routes i r' hr'
    rw [Route.topic_congr haddress]
    exact ho.busy i x sender q r hl hr
  carried := ho.carried
  once := ho.once
  apart := ho.apart
  awaited i r' w hr' hw := by
    obtain ⟨r, hr, haddress, -, hwaiting⟩ := hk.routes i r' hr'
    rw [Network.stream_congr haddress]
    exact (ho.awaited i r w hr (hwaiting w hw)).onNetwork hk.address

theorem owes_le (hacc : ∀ id, c.network.accepted id = true → m.accepted id = true)
    (h : l.owes m = true) : l.owes c.network = true := by
  unfold ClusterListener.owes at h ⊢
  split at h
  · rfl
  · next id =>
    rw [Bool.not_eq_true'] at h ⊢
    cases hn : c.network.accepted id with
    | false => rfl
    | true => rw [hacc id hn] at h; cases h
  · cases h

/-- The more pages the network has accepted, the fewer demands are without an answer. -/
theorem owedOn_le
    (ha : ∀ i : RouteId, (m.routes[i]?).map Route.address = (c.network.routes[i]?).map Route.address)
    (hacc : ∀ id, c.network.accepted id = true → m.accepted id = true) (i : RouteId) (k : StreamId) :
    (({ c with network := m } : Cluster).owedOn i).count k ≤ (c.owedOn i).count k := by
  cases hl : c.listeners[i]? with
  | none =>
    simp only [owedOn, hl]
    exact Nat.le_refl _
  | some l =>
    cases hr : c.network.routes[i]? with
    | none =>
      have hi := ha i
      rw [hr, Option.map_none, Option.map_eq_none_iff] at hi
      simp only [owedOn, hl, hi]
      exact Nat.zero_le _
    | some r =>
      obtain ⟨r', hr', haddress⟩ := route_of_address ha hr
      rw [owedOn_eq (c := { c with network := m }) hl hr', owedOn_eq hl hr, supplied_congr haddress]
      by_cases ho : l.owes m = true
      · exact Nat.le_of_eq (by rw [if_pos ho, if_pos (owes_le hacc ho)])
      · rw [if_neg ho]
        exact Nat.zero_le _

theorem sent_le (hacc : ∀ id, c.network.accepted id = true → m.accepted id = true) (id : JobId)
    (h : c.sent id = true) : ({ c with network := m } : Cluster).sent id = true := by
  obtain ⟨t, ht, hid, h⟩ := sent_iff.mp h
  exact sent_iff.mpr ⟨t, ht, hid, hacc _ h⟩

/-- What the network accepts from somebody is with the members no more. -/
theorem withMembers_le
    (ha : ∀ i : RouteId, (m.routes[i]?).map Route.address = (c.network.routes[i]?).map Route.address)
    (hacc : ∀ id, c.network.accepted id = true → m.accepted id = true) (k : StreamId) :
    (({ c with network := m } : Cluster).withMembers d).count k ≤ (c.withMembers d).count k := by
  rw [withMembers, withMembers, List.count_append, List.count_append]
  exact Nat.add_le_add (count_flatMap_range_le fun i _ => owedOn_le ha hacc i k)
    (d.holds_le (sent_le hacc) k)

theorem withMembers_accept (ho : c.Ordered d)
    (ha : ∀ i : RouteId, (m.routes[i]?).map Route.address = (c.network.routes[i]?).map Route.address)
    (hacc : ∀ id, c.network.accepted id = true → m.accepted id = true) {id : SendId} {s : StreamId}
    (hw : c.Awaits d id s) (hbefore : c.network.accepted id = false) (hafter : m.accepted id = true)
    (k : StreamId) :
    (({ c with network := m } : Cluster).withMembers d).count k + [s].count k ≤
      (c.withMembers d).count k := by
  rw [withMembers, withMembers, List.count_append, List.count_append]
  have howed : (({ c with network := m } : Cluster).owed).count k ≤ c.owed.count k :=
    count_flatMap_range_le fun i _ => owedOn_le ha hacc i k
  cases hw with
  | @demand job j q ht hj hq hs =>
    -- The job has no other demand with the network, so none of it was accepted before.
    have hnot : c.sent job = false := by
      refine Bool.eq_false_iff.mpr fun h => ?_
      obtain ⟨t, ht', hid, h⟩ := sent_iff.mp h
      obtain rfl := List.inj_on_of_nodup_map ho.once ht' ht hid
      rw [hbefore] at h
      cases h
    have hholds := Demander.holds_sent ho.steady (sent_le hacc) hj (ho.proper job j hj) hq hnot
      (sent_iff.mpr ⟨_, ht, rfl, hafter⟩) k
    rw [hs] at hholds
    omega
  | @page i x r hl hr hs =>
    have hholds := d.holds_le (sent_le hacc) k
    have hone := count_flatMap_range_one (f := fun i => c.owedOn i)
      (g := fun i => ({ c with network := m } : Cluster).owedOn i) (k := k)
      (List.getElem?_eq_some_iff.mp hl).1 fun j _ _ => owedOn_le ha hacc j k
    obtain ⟨r', hr', -⟩ := route_of_address ha hr
    have hbefore' : c.owedOn i = [s] := by
      rw [owedOn_eq hl hr, hs, ClusterListener.owes, hbefore]
      rfl
    have hafter' : ({ c with network := m } : Cluster).owedOn i = [] := by
      rw [owedOn_eq (c := { c with network := m }) hl hr', ClusterListener.owes, hafter]
      rfl
    rw [hbefore', hafter', List.count_nil, Nat.add_zero] at hone
    change ({ c with network := m } : Cluster).owed.count k + _ ≤ c.owed.count k at hone
    omega

/-- Where messages can only get lost none comes. -/
theorem Ordered.thinned (ho : c.Ordered d) (h : Network.Thinned c.network m) :
    ({ c with network := m } : Cluster).Ordered d ∧
      ∀ k, (({ c with network := m } : Cluster).inFlight d).count k ≤ (c.inFlight d).count k := by
  refine ⟨ho.onNetwork (h.orderly ho.network) h.keeps, fun k => ?_⟩
  rw [inFlight, inFlight, List.count_append, List.count_append]
  exact Nat.add_le_add (h.queued k) (withMembers_le h.address (fun id hid => by rwa [h.accepted id]) k)

/-- A message that is taken off a route is in flight no more. -/
theorem Ordered.taken (ho : c.Ordered d) (h : Network.Taken c.network m i e r r') :
    ({ c with network := m } : Cluster).Ordered d ∧
      ∀ k, (({ c with network := m } : Cluster).inFlight d).count k + [r.stream e].count k ≤
        (c.inFlight d).count k := by
  refine ⟨ho.onNetwork (h.orderly ho.network) h.keeps, fun k => ?_⟩
  rw [inFlight, inFlight, List.count_append, List.count_append]
  change m.queued.count k + _ + _ ≤ _
  -- What comes into the queue instead was held by whoever waited with it.
  rcases h.inQueues with ⟨hq, hacc⟩ | ⟨w, hw, hacc, hq⟩
  · have hmembers := withMembers_le (d := d) h.keeps.address (fun id hid => by rwa [hacc id]) k
    have hqueued := hq k
    omega
  · have hmembers := withMembers_accept ho h.keeps.address
      (fun id hid => by rw [hacc id, hid, ite_self]) (ho.awaited i r w h.route hw)
      (ho.network.accepted_waiting h.route hw) ((hacc w.id).trans (if_pos rfl)) k
    have hqueued := hq k
    omega

/-- What somebody holds comes into a queue, waits for room, or is lost. -/
theorem Ordered.given (ho : c.Ordered d) {target : NodeId} {topic : Topic}
    (h : Network.Given c.network m target topic e) (hsends : m.sends = c.network.sends + 1)
    (hasked : topic.role = .supply →
      ∃ q : Demand, e.bytes = Wire.encode (.demand q) ∧ q.Wants topic.worker)
    (hw : ∀ r : Route, r.address = (target, topic) → c.Awaits d c.network.sends (r.stream e)) :
    ({ c with network := m } : Cluster).Ordered d ∧
      ∀ k, (({ c with network := m } : Cluster).inFlight d).count k ≤ (c.inFlight d).count k := by
  have hacc : ∀ id, c.network.accepted id = true → m.accepted id = true := by
    intro id hid
    by_cases hnew : id = c.network.sends
    · rw [hnew, ho.network.accepted_next] at hid
      cases hid
    · rwa [Network.accepted_congr (h.result? hnew)]
  refine ⟨⟨ho.demanders, ho.steady, ho.proper, h.orderly hsends ho.network, fun i l hl => ?_,
    fun i s x hs hrole hx => ?_, fun i x sender q s hl hs => ?_, ho.carried, ho.once, ho.apart,
    fun i s w hs hmem => ?_⟩, fun k => ?_⟩
  · obtain ⟨r, hr, ha⟩ := ho.attended i l hl
    obtain ⟨r', hr', haddress⟩ := route_of_address h.address hr
    exact ⟨r', hr', attends_congr rfl haddress ha⟩
  · obtain ⟨t, ht, haddress, hheld⟩ := h.held hs
    rw [Route.topic_congr haddress] at hrole ⊢
    rcases hheld x hx with hx | ⟨rfl, hat⟩
    · exact ho.asked i t x ht hrole hx
    · have htopic : t.topic = topic := congrArg Prod.snd hat
      rw [htopic] at hrole ⊢
      exact hasked hrole
  · obtain ⟨t, ht, haddress, -⟩ := h.held hs
    rw [Route.topic_congr haddress]
    exact ho.busy i x sender q t hl ht
  · obtain ⟨t, ht, haddress, hsame | ⟨deadline, hmore, hat, -⟩⟩ := h.waiting hs
    · rw [Network.stream_congr haddress]
      exact (ho.awaited i t w ht (hsame ▸ hmem)).onNetwork h.address
    · rw [Network.stream_congr haddress]
      rw [hmore] at hmem
      rcases List.mem_append.mp hmem with hmem | hmem
      · exact (ho.awaited i t w ht hmem).onNetwork h.address
      · obtain rfl := List.mem_singleton.mp hmem
        exact (hw t hat).onNetwork h.address
  · rw [inFlight, inFlight, List.count_append, List.count_append]
    change m.queued.count k + _ ≤ _
    rcases h.inQueues ho.network with ⟨-, hq⟩ | ⟨hafter, t, -, hat, hq⟩
    · exact Nat.add_le_add (hq k) (withMembers_le h.address hacc k)
    · have hmembers := withMembers_accept ho h.address hacc (hw t hat) ho.network.accepted_next
        hafter k
      have hqueued := hq k
      omega

end Cluster
end Rebalance
