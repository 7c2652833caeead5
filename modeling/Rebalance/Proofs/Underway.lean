/-
  Rebalance.Proofs.Underway

  A cluster while one plan is being fetched and nothing goes wrong. The
  demander holds nothing but the call that sends the first demands and the
  pages that ask for the next one; routes carry nothing but what belongs to a
  stream; and every stream is in its spot. Whatever the cluster does next, this
  stays so.
-/
import Rebalance.Proofs.PlanFetch

namespace Rebalance

-- ============================================================================
-- Changes beside the data
-- ============================================================================

namespace Supplier

/-- A supplier that has done some work for its streams. -/
structure Alike (s t : Supplier) : Prop where
  node : t.node = s.node
  store : t.store = s.store
  pageSize : t.pageSize = s.pageSize
  classFault : t.classFault = s.classFault
  leaveOnPage : t.leaveOnPage = s.leaveOnPage
  paused : t.paused = s.paused

theorem Alike.refl (s : Supplier) : Alike s s := ⟨rfl, rfl, rfl, rfl, rfl, rfl⟩

theorem Alike.trans {s t u : Supplier} (h₁ : Alike s t) (h₂ : Alike t u) : Alike s u :=
  ⟨h₂.node.trans h₁.node, h₂.store.trans h₁.store, h₂.pageSize.trans h₁.pageSize,
    h₂.classFault.trans h₁.classFault, h₂.leaveOnPage.trans h₁.leaveOnPage,
    h₂.paused.trans h₁.paused⟩

end Supplier

namespace Demander

/-- Two demanders that differ at most in their jobs, their meters and what was noticed. -/
structure Aside (d e : Demander) : Prop where
  settings : e.settings = d.settings
  node : e.site.node = d.site.node
  store : e.site.store = d.site.store
  affinity : e.site.affinity = d.site.affinity
  clock : e.site.clock = d.site.clock
  filter : e.site.filter = d.site.filter
  topics : e.topics = d.topics
  plan : e.plan = d.plan
  current : e.current = d.current
  stopping : e.stopping = d.stopping
  rounds : e.rounds = d.rounds

theorem Aside.trans {d e f : Demander} (h₁ : Aside d e) (h₂ : Aside e f) : Aside d f where
  settings := h₂.settings.trans h₁.settings
  node := h₂.node.trans h₁.node
  store := h₂.store.trans h₁.store
  affinity := h₂.affinity.trans h₁.affinity
  clock := h₂.clock.trans h₁.clock
  filter := h₂.filter.trans h₁.filter
  topics := h₂.topics.trans h₁.topics
  plan := h₂.plan.trans h₁.plan
  current := h₂.current.trans h₁.current
  stopping := h₂.stopping.trans h₁.stopping
  rounds := h₂.rounds.trans h₁.rounds

theorem aside_finish (d : Demander) (id : JobId) (r : Except Fault Unit) :
    Aside d (d.finish id r) := ⟨rfl, rfl, rfl, rfl, rfl, rfl, rfl, rfl, rfl, rfl, rfl⟩

theorem aside_park (d : Demander) (id : JobId) (j : Job) : Aside d (d.park id j) :=
  ⟨rfl, rfl, rfl, rfl, rfl, rfl, rfl, rfl, rfl, rfl, rfl⟩

end Demander

namespace PlanFetch

-- ============================================================================
-- The fetch itself
-- ============================================================================

/-- A plan that can be fetched: it is made for the current topology and asks one node for each
    partition, and every node that it asks listens, as the demander does, and supplies without
    faults what has not expired. -/
structure Sane (E : PlanFetch) : Prop where
  uniform : ∀ node D, E.plan.get? node = some D → D.topology = E.plan.topology
  current : E.affinity.current = E.plan.topology
  apart : ∀ m n p, p ∈ E.wanted m → p ∈ E.wanted n → m = n
  routes : ∀ node worker, E.Asks node worker →
    ∃ i r, E.network.find? node (E.pool.supplyTopic worker) = some i ∧
      E.network.routes[i]? = some r ∧ r.alive = true
  doors : ∀ worker ∈ E.pool.workers,
    ∃ i r, E.network.find? E.node (E.pool.demandTopic worker) = some i ∧
      E.network.routes[i]? = some r ∧ r.alive = true
  here : E.network.hasLeft E.node = false
  there : ∀ node worker, E.Asks node worker → E.network.hasLeft node = false
  node : ∀ node worker, E.Asks node worker → (E.source node).node = node
  sound : ∀ node worker, E.Asks node worker → (E.source node).classFault = none ∧
    (E.source node).leaveOnPage = none ∧ (E.source node).paused = false
  writable : ∀ node, ∀ p ∈ E.wanted node, (E.source node).store.state? p = some .owning →
    Supplier.Writable (E.source node).store p
  lasting : ∀ node, ∀ p ∈ E.wanted node, ∀ e ∈ (E.source node).store.entries p,
    e.isExpired E.clock = false

variable {E : PlanFetch}

/-- A route to a supplier serves one stream. -/
theorem route_inj {m n : NodeId} {v w : WorkerId} {i : RouteId}
    (hm : E.network.find? m (E.pool.supplyTopic v) = some i)
    (hn : E.network.find? n (E.pool.supplyTopic w) = some i) : m = n ∧ v = w := by
  obtain ⟨r, hr, hnode, htopic⟩ := Network.face_of_find? hm
  obtain ⟨r', hr', hnode', htopic'⟩ := Network.face_of_find? hn
  rw [hr, Option.some.injEq] at hr'
  subst hr'
  have hworker := congrArg Topic.worker (htopic.symm.trans htopic')
  exact ⟨hnode.symm.trans hnode', hworker⟩

/-- A route to the demander serves one worker. -/
theorem door_inj {v w : WorkerId} {i : RouteId}
    (hv : E.network.find? E.node (E.pool.demandTopic v) = some i)
    (hw : E.network.find? E.node (E.pool.demandTopic w) = some i) : v = w := by
  obtain ⟨r, hr, -, htopic⟩ := Network.face_of_find? hv
  obtain ⟨r', hr', -, htopic'⟩ := Network.face_of_find? hw
  rw [hr, Option.some.injEq] at hr'
  subst hr'
  exact congrArg Topic.worker (htopic.symm.trans htopic')

/-- No route is both to a supplier and to the demander. -/
theorem route_ne_door {m : NodeId} {v w : WorkerId} {i j : RouteId}
    (hi : E.network.find? m (E.pool.supplyTopic v) = some i)
    (hj : E.network.find? E.node (E.pool.demandTopic w) = some j) : i ≠ j := by
  rintro rfl
  obtain ⟨r, hr, -, htopic⟩ := Network.face_of_find? hi
  obtain ⟨r', hr', -, htopic'⟩ := Network.face_of_find? hj
  rw [hr, Option.some.injEq] at hr'
  subst hr'
  have hrole := congrArg Topic.role (htopic.symm.trans htopic')
  cases hrole

-- ============================================================================
-- The demander
-- ============================================================================

/-- The demander of a fetch: it works at the plan and the round of it, nothing stands in its
    way, and the round is about nothing but the plan. -/
structure Tended (E : PlanFetch) (d : Demander) : Prop where
  steady : d.Steady
  settings : d.settings = E.settings
  node : d.site.node = E.node
  affinity : d.site.affinity = E.affinity
  clock : d.site.clock = E.clock
  topics : d.topics = E.topics
  plan : d.plan = some E.plan
  current : d.current = E.round
  stopping : d.stopping = false
  calm : d.Calm E.Demanded
  awaits : ∀ m p, p ∈ (d.roundOf E.round).round.outstandingFrom m → p ∈ E.wanted m
  misses : ∀ p, p ∈ (d.roundOf E.round).round.missed → E.Demanded p
  keeps : (d.roundOf E.round).round.givenUp = ∅

theorem Tended.pool {d : Demander} (h : E.Tended d) : d.pool = E.pool := by
  rw [Demander.pool, h.settings]
  rfl

theorem Tended.bound {d : Demander} (h : E.Tended d) : d.Bound E.round := by
  rw [← h.current]
  exact ⟨h.steady.current, h.steady.planned (by rw [h.plan]; rfl)⟩

theorem Tended.owns {d : Demander} (h : E.Tended d) (p : PartitionId) :
    d.owns p E.plan.topology = E.owned p := by
  rw [Demander.owns, h.affinity]
  rfl

theorem roundOf_aside {d e : Demander} (h : d.Aside e) (id : RoundId) :
    e.roundOf id = d.roundOf id := by
  rw [Demander.roundOf, h.rounds]
  rfl

theorem Tended.aside {d e : Demander} (h : E.Tended d) (ha : d.Aside e) (hs : e.Steady) :
    E.Tended e where
  steady := hs
  settings := ha.settings.trans h.settings
  node := ha.node.trans h.node
  affinity := ha.affinity.trans h.affinity
  clock := ha.clock.trans h.clock
  topics := ha.topics.trans h.topics
  plan := ha.plan.trans h.plan
  current := ha.current.trans h.current
  stopping := ha.stopping.trans h.stopping
  calm := h.calm.of_store ha.filter ha.store
  awaits := by
    rw [roundOf_aside ha]
    exact h.awaits
  misses := by
    rw [roundOf_aside ha]
    exact h.misses
  keeps := by
    rw [roundOf_aside ha]
    exact h.keeps

-- ============================================================================
-- The cluster
-- ============================================================================

/-- Routes and listeners of a fetch: every supplier and the demander listen, the demander's
    routes carry what streams send, and nothing happens elsewhere. -/
structure Mail (E : PlanFetch) (c : Cluster) : Prop where
  alike : E.network.Alike c.network
  results : ∀ x ∈ c.network.results, x.2 = .ok () ∨ x.1 < E.network.sends
  sends : E.network.sends ≤ c.network.sends
  suppliers : ∀ node worker i, E.Asks node worker →
    E.network.find? node (E.pool.supplyTopic worker) = some i →
      ∃ busy, c.listeners[i]? = some (.supplier (E.index node) busy) ∧
        ∀ id, busy = some (.sending id) → E.network.sends ≤ id
  doors : ∀ worker ∈ E.pool.workers, ∀ i,
    E.network.find? E.node (E.pool.demandTopic worker) = some i →
      (∃ busy, c.listeners[i]? = some (.demander 0 worker busy)) ∧
        ∀ e ∈ c.network.held i, E.Asks e.sender worker
  rest : ∀ i,
    (∀ node worker, E.Asks node worker →
      E.network.find? node (E.pool.supplyTopic worker) ≠ some i) →
    (∀ worker ∈ E.pool.workers,
      E.network.find? E.node (E.pool.demandTopic worker) ≠ some i) →
      c.network.held i = [] ∧ ∀ l, c.listeners[i]? = some l → l.isIdle = true

/-- The job of the call that sends the first demands. -/
def Sends (E : PlanFetch) (id : JobId) (j : Job) : Prop :=
  id = E.call ∧ ∃ q s rest, j = .sending E.round q s rest ∧ s.failure = none ∧
    ∀ x ∈ rest, x.failure = none

/-- The job of a page that asks for the next one, its listener busy with it. -/
def Replies (E : PlanFetch) (c : Cluster) (id : JobId) (j : Job) : Prop :=
  id ≠ E.call ∧ ∃ job, j = .replying job (E.request false job.sender job.worker) ∧
    job.round = E.round ∧ E.Asks job.sender job.worker ∧
    ∀ i, E.network.find? E.node (E.pool.demandTopic job.worker) = some i →
      c.listeners[i]? = some (.demander 0 job.worker (some id))

/-- The jobs of the demander, and the demands given to the network for them. -/
structure Jobs (E : PlanFetch) (c : Cluster) (d : Demander) : Prop where
  began : E.call < d.nextJob
  ended : ∀ e ∈ d.returns, d.job? e.1 = none
  kinds : ∀ id j, d.job? id = some j → E.Sends id j ∨ E.Replies c id j
  requests : ∀ q ∈ E.unsent c d, ∃ node worker, E.Asks node worker ∧
    q = E.request true node worker
  distinct : (E.unsent c d).Nodup
  transfers : ∀ t ∈ c.transfers, t.1 = 0 ∧ E.network.sends ≤ t.2.2 ∧
    t.2.2 < c.network.sends ∧ (d.job? t.2.1).isSome = true
  once : (c.transfers.map (·.2.1)).Nodup
  ids : (c.transfers.map (·.2.2)).Nodup

/-- A plan is being fetched, and nothing has gone wrong. -/
structure Underway (E : PlanFetch) (c : Cluster) (d : Demander) : Prop where
  demanders : c.demanders = [d]
  tended : E.Tended d
  mail : E.Mail c
  stock : ∀ node worker, E.Asks node worker →
    ∃ s, c.suppliers[E.index node]? = some s ∧ (E.source node).Alike s
  jobs : E.Jobs c d
  streams : ∀ node worker, E.Asks node worker → ∃ spot, E.At c d node worker spot

end PlanFetch
end Rebalance
