/-
  Rebalance.Proofs.Moves

  What each move of a cluster does while a plan is being fetched: it takes one
  stream from its spot to the next and leaves every other stream where it is.
-/
import Rebalance.Proofs.Underway

namespace Rebalance

namespace Cluster

/-- Something happens to the only demander. -/
theorem step_one {c : Cluster} {d : Demander} (h : c.demanders = [d]) {i : Demander.Input}
    (ht : (d.step i).topics = d.topics) : c.step 0 i = { c with demanders := [d.step i] } := by
  have hone : c.demanders[0]? = some d := by rw [h]; rfl
  have hgone : (d.topics.filter fun t => !decide (t ∈ (d.step i).topics)) = [] := by
    rw [ht, List.filter_eq_nil_iff]
    intro t hmem
    simpa using hmem
  rw [step, hone]
  show c.setDemander 0 (d.step i) = _
  rw [setDemander, hone]
  show ({ c with
    demanders := c.demanders.set 0 (d.step i)
    network := (d.topics.filter fun t => !decide (t ∈ (d.step i).topics)).foldl
      (fun n t => (n.unregister (d.step i).site.node t).1) c.network } : Cluster) = _
  rw [hgone, h]
  rfl

theorem listeners_setListener {c : Cluster} {i : RouteId} {l : ClusterListener}
    (h : c.listeners[i]? = some l) (l' : ClusterListener) (j : RouteId) :
    (c.setListener i l').listeners[j]? = if j = i then some l' else c.listeners[j]? := by
  show (c.listeners.set i l')[j]? = _
  by_cases hj : j = i
  · rw [if_pos hj, hj, List.getElem?_set_self (List.getElem?_eq_some_iff.mp h).1]
  · rw [if_neg hj, List.getElem?_set_ne (Ne.symm hj)]

theorem suppliers_onSupplier (c : Cluster) (k k' : Nat) (f : Supplier → Supplier) :
    (c.onSupplier k f).suppliers[k']? =
      if k' = k then (c.suppliers[k]?).map f else c.suppliers[k']? := by
  show (c.suppliers.modify k f)[k']? = _
  rw [List.getElem?_modify]
  by_cases hk : k' = k
  · subst hk
    simp
  · simp [hk, Ne.symm hk]

/-- An idle listener gets the next message of its route. -/
theorem listen_idle {c : Cluster} {i : RouteId} {l : ClusterListener}
    (hl : c.listeners[i]? = some l) (hidle : l.isIdle = true) :
    c.listen i =
      (c.network.take i).map fun x => ({ c with network := x.2 } : Cluster).hear i l x.1 := by
  unfold listen
  rw [hl]
  cases l with
  | nobody => rfl
  | demander index worker busy =>
    cases busy with
    | none => rfl
    | some id => cases hidle
  | supplier index busy =>
    cases busy with
    | none => rfl
    | some work => cases hidle

/-- The cluster with another network, after a supplier has turned to something on a route. -/
def turn (c : Cluster) (m : Network) (i : RouteId) (k : Nat) (f : Supplier → Supplier)
    (busy : Option SupplierWork) : Cluster :=
  (({ c with network := m } : Cluster).onSupplier k f).setListener i (.supplier k busy)

section Turn

variable {c : Cluster} {m : Network} {i : RouteId} {k : Nat} {f : Supplier → Supplier}
  {busy : Option SupplierWork}

theorem listeners_turn {l : ClusterListener} (hl : c.listeners[i]? = some l) (x : RouteId) :
    (c.turn m i k f busy).listeners[x]? =
      if x = i then some (.supplier k busy) else c.listeners[x]? :=
  listeners_setListener (c := ({ c with network := m } : Cluster).onSupplier k f) hl _ x

theorem suppliers_turn (x : Nat) :
    (c.turn m i k f busy).suppliers[x]? =
      if x = k then (c.suppliers[k]?).map f else c.suppliers[x]? :=
  suppliers_onSupplier ({ c with network := m } : Cluster) k x f

end Turn

theorem supply_nothing {c : Cluster} {i : RouteId} {k : Nat} {s s' : Supplier} {sender : NodeId}
    {dm : Demand} (h : s.answer sender dm = (s', none)) :
    c.supply i k s sender dm = c.turn c.network i k (fun _ => s') none := by
  rw [supply, h]
  rfl

theorem supply_page {c : Cluster} {i : RouteId} {k : Nat} {s s' : Supplier} {sender : NodeId}
    {dm : Demand} {topic : Topic} {page : Supply} {timeout : Span}
    (h : s.answer sender dm = (s', some ⟨topic, page, timeout, false⟩)) :
    c.supply i k s sender dm =
      c.turn (c.network.send s'.node sender topic (.supply page) timeout).1 i k (fun _ => s')
        (some (.sending (c.network.send s'.node sender topic (.supply page) timeout).2)) := by
  rw [supply, h]
  rfl

end Cluster

namespace PlanFetch

variable {E : PlanFetch} {c c' : Cluster} {d d' : Demander} {node n : NodeId} {worker v : WorkerId}
  {spot : Spot} {i j : RouteId}

-- ============================================================================
-- What a move leaves alone
-- ============================================================================

/-- A route that a stream of a node for a worker passes through. -/
def Passes (E : PlanFetch) (node : NodeId) (worker : WorkerId) (i : RouteId) : Prop :=
  (E.Asks node worker ∧ E.network.find? node (E.pool.supplyTopic worker) = some i) ∨
    (worker ∈ E.pool.workers ∧ E.network.find? E.node (E.pool.demandTopic worker) = some i)

/-- Another stream stays in its spot if at most one route and one listener on the way of a stream
    have changed, and nothing of the other one on that route. -/
theorem At.elsewhere (h : E.At c d n v spot) (hne : ¬ (n = node ∧ v = worker))
    (hn : Network.Rerouted j c.network c'.network) (hj : E.Passes node worker j)
    (hdoor : E.network.find? E.node (E.pool.demandTopic worker) = some j → n ≠ node →
      ((c'.network.held j).filter fun e => e.sender == n) =
        (c.network.held j).filter fun e => e.sender == n)
    (hl : ∀ k, k ≠ i → c'.listeners[k]? = c.listeners[k]?) (hi : E.Passes node worker i)
    (hturns : c'.Turns d' n v ↔ c.Turns d n v)
    (hwaits : E.request true n v ∈ E.unsent c' d' ↔ E.request true n v ∈ E.unsent c d)
    (hstored : E.stored c' n v = E.stored c n v)
    (hprogress : ∀ left, StreamProgress E.owned n (E.part n v) (E.source n).store E.held left
        d.site.store.base (d.roundOf E.round).round →
      StreamProgress E.owned n (E.part n v) (E.source n).store E.held left
        d'.site.store.base (d'.roundOf E.round).round) : E.At c' d' n v spot := by
  have hroute : ∀ k, E.Passes node worker k →
      E.network.find? n (E.pool.supplyTopic v) ≠ some k := by
    rintro k (⟨-, hk⟩ | ⟨-, hk⟩) heq
    · exact hne (route_inj heq hk)
    · exact route_ne_door heq hk rfl
  refine h.stay ?_ ?_ hturns hwaits hstored hprogress
  · intro k hk
    have hkj : k ≠ j := fun heq => hroute j hj (heq ▸ hk)
    have hki : k ≠ i := fun heq => hroute i hi (heq ▸ hk)
    exact ⟨hn.others k hkj, by rw [hl k hki]⟩
  · intro k hk
    by_cases hkj : k = j
    · subst hkj
      rcases hj with ⟨-, hj⟩ | ⟨-, hj⟩
      · exact absurd rfl (route_ne_door hj hk)
      · have hv : v = worker := door_inj hk hj
        exact hdoor hj fun hnode => hne ⟨hnode, hv⟩
    · rw [hn.others k hkj]

/-- Routes and listeners stay as they have to be if at most one of each has changed, both on the
    way of a stream. -/
theorem Mail.elsewhere (h : E.Mail c) (hn : Network.Rerouted j c.network c'.network)
    (hsends : c.network.sends ≤ c'.network.sends) (hj : E.Passes node worker j)
    (hheld : E.network.find? E.node (E.pool.demandTopic worker) = some j →
      ∀ e ∈ c'.network.held j, E.Asks e.sender worker)
    (hl : ∀ k, k ≠ i → c'.listeners[k]? = c.listeners[k]?) (hi : E.Passes node worker i)
    (hsupplier : E.network.find? node (E.pool.supplyTopic worker) = some i →
      ∃ busy, c'.listeners[i]? = some (.supplier (E.index node) busy) ∧
        ∀ id, busy = some (.sending id) → E.network.sends ≤ id)
    (hdemander : E.network.find? E.node (E.pool.demandTopic worker) = some i →
      ∃ busy, c'.listeners[i]? = some (.demander 0 worker busy)) : E.Mail c' where
  alike := h.alike.trans hn.alike
  results x hx := by
    rcases hn.results x hx with hx | hx
    · exact h.results x hx
    · exact .inl hx
  sends := Nat.le_trans h.sends hsends
  suppliers m u k ha hk := by
    by_cases hki : k = i
    · subst hki
      rcases hi with ⟨-, hi⟩ | ⟨-, hi⟩
      · obtain ⟨rfl, rfl⟩ := route_inj hk hi
        exact hsupplier hi
      · exact absurd rfl (route_ne_door hk hi)
    · rw [hl k hki]
      exact h.suppliers m u k ha hk
  doors u hu k hk := by
    constructor
    · by_cases hki : k = i
      · subst hki
        rcases hi with ⟨-, hi⟩ | ⟨-, hi⟩
        · exact absurd rfl (route_ne_door hi hk)
        · obtain rfl := door_inj hk hi
          exact hdemander hi
      · rw [hl k hki]
        exact (h.doors u hu k hk).1
    · by_cases hkj : k = j
      · subst hkj
        rcases hj with ⟨-, hj⟩ | ⟨-, hj⟩
        · exact absurd rfl (route_ne_door hj hk)
        · obtain rfl := door_inj hk hj
          exact hheld hj
      · rw [hn.others k hkj]
        exact (h.doors u hu k hk).2
  rest k hroute hdoor := by
    have hplace : ∀ k', E.Passes node worker k' → k ≠ k' := by
      rintro k' (⟨ha, hk'⟩ | ⟨hw, hk'⟩) rfl
      · exact hroute node worker ha hk'
      · exact hdoor worker hw hk'
    rw [hn.others k (hplace j hj), hl k (hplace i hi)]
    exact h.rest k hroute hdoor

/-- A listener that was alive before the fetch still is. -/
theorem Mail.alive (h : E.Mail c) {r : Route} (hr : E.network.routes[i]? = some r)
    (ha : r.alive = true) : ∃ r', c.network.routes[i]? = some r' ∧ r'.alive = true := by
  have hface := h.alike.face i
  rw [hr, Option.map_some] at hface
  obtain ⟨r', hr', hface'⟩ := Option.map_eq_some_iff.mp hface
  have halive : r'.alive = r.alive := congrArg (fun f => f.2.2.2) hface'
  exact ⟨r', hr', halive.trans ha⟩

theorem unsent_congr (ht : c'.transfers = c.transfers) : E.unsent c' d = E.unsent c d := by
  rw [unsent, unsent, Cluster.carries, Cluster.carries, ht]

theorem turns_congr (ht : c'.transfers = c.transfers) : c'.Turns d n v ↔ c.Turns d n v := by
  unfold Cluster.Turns Cluster.carries
  rw [ht]

/-- Jobs stay as they have to be while the demander and what was given to the network for it
    stay, and no listener turns to something else. -/
theorem Jobs.keep (h : E.Jobs c d) (ht : c'.transfers = c.transfers)
    (hs : c.network.sends ≤ c'.network.sends)
    (hl : ∀ id j, d.job? id = some j → E.Replies c id j → E.Replies c' id j) : E.Jobs c' d where
  began := h.began
  ended := h.ended
  kinds id j hj := (h.kinds id j hj).imp_right (hl id j hj)
  requests := by
    rw [unsent_congr ht]
    exact h.requests
  distinct := by
    rw [unsent_congr ht]
    exact h.distinct
  transfers t htr := by
    rw [ht] at htr
    obtain ⟨h1, h2, h3, h4⟩ := h.transfers t htr
    exact ⟨h1, h2, Nat.lt_of_lt_of_le h3 hs, h4⟩
  once := by
    rw [ht]
    exact h.once
  ids := by
    rw [ht]
    exact h.ids

-- ============================================================================
-- A supplier moves
-- ============================================================================

/-- Two nodes that are asked are two suppliers. -/
theorem index_inj (hS : E.Sane) (h : E.Underway c d) (ha : E.Asks node worker) (hb : E.Asks n v)
    (hi : E.index n = E.index node) : n = node := by
  obtain ⟨s, hs, hlike⟩ := h.stock node worker ha
  obtain ⟨s', hs', hlike'⟩ := h.stock n v hb
  rw [hi, hs, Option.some.injEq] at hs'
  subst hs'
  have hnode : s.node = node := hlike.node.trans (hS.node node worker ha)
  exact ((hlike'.node.trans (hS.node n v hb)).symm.trans hnode)

/-- The listener of a route to a supplier has moved, and has sent at most something to the
    demander. -/
structure SupplierMove (E : PlanFetch) (node : NodeId) (worker : WorkerId) (i j : RouteId)
    (c c' : Cluster) : Prop where
  demanders : c'.demanders = c.demanders
  transfers : c'.transfers = c.transfers
  network : Network.Rerouted j c.network c'.network
  sends : c.network.sends ≤ c'.network.sends
  passes : E.Passes node worker j
  appends : E.network.find? E.node (E.pool.demandTopic worker) = some j →
    ∃ es, c'.network.held j = c.network.held j ++ es ∧ ∀ e ∈ es, e.sender = node
  listeners : ∀ k, k ≠ i → c'.listeners[k]? = c.listeners[k]?
  listener : ∃ busy, c'.listeners[i]? = some (.supplier (E.index node) busy) ∧
    ∀ id, busy = some (.sending id) → E.network.sends ≤ id
  others : ∀ k, k ≠ E.index node → c'.suppliers[k]? = c.suppliers[k]?
  supplier : ∀ s, c.suppliers[E.index node]? = some s →
    ∃ s', c'.suppliers[E.index node]? = some s' ∧ s.Alike s' ∧
      ∀ key, key ≠ (E.node, worker) → s'.streams.get? key = s.streams.get? key

/-- As a supplier moves, only the stream that it moves for comes into another spot. -/
theorem Underway.supplierMoves (hS : E.Sane) (h : E.Underway c d) (ha : E.Asks node worker)
    (hi : E.network.find? node (E.pool.supplyTopic worker) = some i)
    (hm : E.SupplierMove node worker i j c c') (hat : ∃ spot, E.At c' d node worker spot) :
    E.Underway c' d := by
  have hpass : E.Passes node worker i := .inl ⟨ha, hi⟩
  obtain ⟨s, hs, -⟩ := h.stock node worker ha
  obtain ⟨s', hs', hlike, hstreams⟩ := hm.supplier s hs
  refine ⟨hm.demanders.trans h.demanders, h.tended, ?_, ?_, ?_, ?_⟩
  · apply h.mail.elsewhere hm.network hm.sends hm.passes ?_ hm.listeners hpass
      (fun _ => hm.listener) fun hdoor => absurd rfl (route_ne_door hi hdoor)
    intro hdoor e he
    obtain ⟨es, hes, hsender⟩ := hm.appends hdoor
    rw [hes, List.mem_append] at he
    rcases he with he | he
    · exact (h.mail.doors worker ha.mem_workers j hdoor).2 e he
    · rw [hsender e he]
      exact ha
  · intro n v hb
    obtain ⟨t, ht', hlike'⟩ := h.stock n v hb
    by_cases hn : E.index n = E.index node
    · rw [hn, hs, Option.some.injEq] at ht'
      subst ht'
      exact ⟨s', by rw [hn]; exact hs', hlike'.trans hlike⟩
    · exact ⟨t, by rw [hm.others _ hn]; exact ht', hlike'⟩
  · apply h.jobs.keep hm.transfers hm.sends
    rintro id j - ⟨hid, job, hjob, hround, hasks, hlistener⟩
    refine ⟨hid, job, hjob, hround, hasks, fun k hk => ?_⟩
    have hki : k ≠ i := fun heq => route_ne_door hi hk heq.symm
    rw [hm.listeners k hki]
    exact hlistener k hk
  · intro n v hb
    by_cases hne : n = node ∧ v = worker
    · obtain ⟨rfl, rfl⟩ := hne
      exact hat
    · obtain ⟨spot, hspot⟩ := h.streams n v hb
      refine ⟨spot, hspot.elsewhere hne hm.network hm.passes ?_ hm.listeners hpass
        (turns_congr hm.transfers) (by rw [unsent_congr hm.transfers]) ?_ fun _ hprogress => hprogress⟩
      · intro hdoor hnode
        obtain ⟨es, hes, hsender⟩ := hm.appends hdoor
        have hnone : (es.filter fun e => e.sender == n) = [] := by
          rw [List.filter_eq_nil_iff]
          intro e he
          rw [hsender e he]
          simpa using Ne.symm hnode
        rw [hes, List.filter_append, hnone, List.append_nil]
      · unfold stored
        by_cases hidx : E.index n = E.index node
        · have hnode : n = node := index_inj hS h ha hb hidx
          have hkey : (E.node, v) ≠ (E.node, worker) := fun heq => hne ⟨hnode, (Prod.mk.inj heq).2⟩
          rw [hidx, hs, hs']
          simp only [Option.bind_some, hstreams _ hkey]
        · rw [hm.others _ hidx]

section Turn

variable {m : Network} {f : Supplier → Supplier} {busy : Option SupplierWork} {s : Supplier}
  {l : ClusterListener}

/-- A supplier that turns to something moves if it does some work for its stream alone. -/
theorem supplierMove_turn (hl : c.listeners[i]? = some l)
    (hs : c.suppliers[E.index node]? = some s) (hn : Network.Rerouted j c.network m)
    (hsends : c.network.sends ≤ m.sends) (hpass : E.Passes node worker j)
    (happends : E.network.find? E.node (E.pool.demandTopic worker) = some j →
      ∃ es, m.held j = c.network.held j ++ es ∧ ∀ e ∈ es, e.sender = node)
    (hbusy : ∀ id, busy = some (.sending id) → E.network.sends ≤ id) (hf : s.Alike (f s))
    (hstreams : ∀ key, key ≠ (E.node, worker) →
      (f s).streams.get? key = s.streams.get? key) :
    E.SupplierMove node worker i j c (c.turn m i (E.index node) f busy) where
  demanders := rfl
  transfers := rfl
  network := hn
  sends := hsends
  passes := hpass
  appends := happends
  listeners k hk := by rw [Cluster.listeners_turn hl, if_neg hk]
  listener := ⟨busy, by rw [Cluster.listeners_turn hl, if_pos rfl], hbusy⟩
  others k hk := by rw [Cluster.suppliers_turn, if_neg hk]
  supplier t ht := by
    rw [hs, Option.some.injEq] at ht
    subst ht
    exact ⟨f s, by rw [Cluster.suppliers_turn, if_pos rfl, hs]; rfl, hf, hstreams⟩

theorem stored_turn (hs : c.suppliers[E.index node]? = some s) :
    E.stored (c.turn m i (E.index node) f busy) node worker =
      ((f s).streams.get? (E.node, worker)).getD {} := by
  rw [stored, Cluster.suppliers_turn, if_pos rfl, hs]
  rfl

/-- As the supplier turns to something for a stream that neither waits nor turns, the stream comes
    into another such spot. -/
theorem At.turn {spot' : Spot} (h : E.At c d node worker spot) (hl : c.listeners[i]? = some l)
    (hi : E.network.find? node (E.pool.supplyTopic worker) = some i)
    (hspot : spot ≠ .waiting ∧ spot ≠ .turning) (hspot' : spot' ≠ .waiting ∧ spot' ≠ .turning)
    (hroute : m.held i = spot'.onRoute E node worker)
    (hhand : (ClusterListener.supplier (E.index node) busy).inHand = spot'.inHand E node worker)
    (hdoor : ∀ k, E.network.find? E.node (E.pool.demandTopic worker) = some k →
      ((m.held k).filter fun e => e.sender == node) = spot'.onDoor node)
    (hpage : ∀ s page, spot' = .paged s page →
      s.Paged (E.stored (c.turn m i (E.index node) f busy) node worker) worker page ∧
        (E.stored (c.turn m i (E.index node) f busy) node worker).Sound)
    (hleft : spot'.left (E.opened node worker)
        (E.stored (c.turn m i (E.index node) f busy) node worker) =
      spot.left (E.opened node worker) (E.stored c node worker)) :
    E.At (c.turn m i (E.index node) f busy) d node worker spot' := by
  refine h.shift ?_ hdoor ?_ ?_ hpage hleft rfl rfl
  · intro k hk
    rw [hi, Option.some.injEq] at hk
    subst hk
    rw [Cluster.listeners_turn hl, if_pos rfl]
    exact ⟨hroute, hhand⟩
  · refine (turns_congr rfl).trans (h.turns.trans ?_)
    exact ⟨fun hs => absurd hs hspot.2, fun hs => absurd hs hspot'.2⟩
  · have hunsent : E.unsent (c.turn m i (E.index node) f busy) d = E.unsent c d := unsent_congr rfl
    rw [hunsent, h.waits]
    exact ⟨fun hs => absurd hs hspot.1, fun hs => absurd hs hspot'.1⟩

end Turn

/-- A supplier turns to a demand that has arrived. -/
theorem Underway.hearsDemand (hS : E.Sane) (h : E.Underway c d) (ha : E.Asks node worker)
    (hi : E.network.find? node (E.pool.supplyTopic worker) = some i)
    (hidle : c.listeners[i]? = some (.supplier (E.index node) none)) {e : Envelope} {m : Network}
    (ht : c.network.take i = some (e, m)) :
    E.Underway (({ c with network := m } : Cluster).hear i (.supplier (E.index node) none) e) d := by
  obtain ⟨spot, hspot⟩ := h.streams node worker ha
  obtain ⟨hn, hheld, hsends⟩ := Network.take_held ht
  obtain ⟨s, hs, -⟩ := h.stock node worker ha
  have hroute := (hspot.route i hi).1
  rw [hheld] at hroute
  -- Only a demand is ever found on this route.
  obtain ⟨first, rfl⟩ : ∃ first, spot = .asked first := by
    cases spot with
    | asked first => exact ⟨first, rfl⟩
    | _ => cases hroute
  obtain ⟨rfl, hrest⟩ := List.cons.inj hroute
  have hhear : ({ c with network := m } : Cluster).hear i (.supplier (E.index node) none)
      ⟨E.node, Wire.encode (.demand (E.ask first node worker))⟩ =
      c.turn m i (E.index node) Supplier.receive
        (some (.held E.node (E.ask first node worker))) := by
    simp only [Cluster.hear, Wire.decode_encode_demand]
    rfl
  rw [hhear]
  have hmove : E.SupplierMove node worker i i c (c.turn m i (E.index node) Supplier.receive
      (some (.held E.node (E.ask first node worker)))) :=
    supplierMove_turn hidle hs hn (Nat.le_of_eq hsends.symm) (.inl ⟨ha, hi⟩)
      (fun hdoor => absurd rfl (route_ne_door hi hdoor)) nofun ⟨rfl, rfl, rfl, rfl, rfl, rfl⟩
      fun _ _ => rfl
  refine h.supplierMoves hS ha hi hmove
    ⟨.withSupplier first, hspot.turn hidle hi ⟨nofun, nofun⟩ ⟨nofun, nofun⟩ hrest rfl ?_ nofun ?_⟩
  · intro k hk
    have hki : k ≠ i := fun heq => route_ne_door hi hk heq.symm
    rw [hn.others k hki]
    exact hspot.door k hk
  · rw [stored_turn hs, stored, hs]
    rfl

/-- A supplier is told how its page was sent. -/
theorem Underway.pageSent (hS : E.Sane) (h : E.Underway c d) (ha : E.Asks node worker)
    (hi : E.network.find? node (E.pool.supplyTopic worker) = some i) {id : SendId}
    (hbusy : c.listeners[i]? = some (.supplier (E.index node) (some (.sending id)))) :
    E.Underway (c.setListener i (.supplier (E.index node) none)) d := by
  obtain ⟨spot, hspot⟩ := h.streams node worker ha
  have hlisteners := fun k => Cluster.listeners_setListener hbusy
    (.supplier (E.index node) none) k
  have hmove : E.SupplierMove node worker i i c
      (c.setListener i (.supplier (E.index node) none)) := {
    demanders := rfl
    transfers := rfl
    network := .refl i c.network
    sends := Nat.le_refl _
    passes := .inl ⟨ha, hi⟩
    appends := fun hdoor => absurd rfl (route_ne_door hi hdoor)
    listeners := fun k hk => by rw [hlisteners k, if_neg hk]
    listener := ⟨none, by rw [hlisteners i, if_pos rfl], fun id hid => by cases hid⟩
    others := fun _ _ => rfl
    supplier := fun s hs => ⟨s, hs, .refl s, fun _ _ => rfl⟩ }
  refine h.supplierMoves hS ha hi hmove
    ⟨spot, hspot.shift ?_ hspot.door hspot.turns hspot.waits hspot.page rfl rfl rfl⟩
  intro k hk
  obtain ⟨hheld, hhand⟩ := hspot.route k hk
  rw [hi, Option.some.injEq] at hk
  subst hk
  rw [hbusy] at hhand
  rw [hlisteners i, if_pos rfl]
  exact ⟨hheld, hhand⟩

theorem openStream_alike {s t : Supplier} (h : s.Alike t) (ps : SortedSet PartitionId) :
    t.openStream ps = s.openStream ps := by
  unfold Supplier.openStream
  rw [h.store]

/-- The stream from which a supplier answers is the one that is still to come. -/
theorem streamFor_ask (ha : E.Asks node worker) {s : Supplier} (hs : (E.source node).Alike s)
    (hstock : c.suppliers[E.index node]? = some s) (first : Bool) :
    (s.streamFor E.node worker (E.ask first node worker)).getD {} =
      (Spot.withSupplier first).left (E.opened node worker) (E.stored c node worker) := by
  rw [Supplier.streamFor, isContinuation_ask E first ha]
  cases first with
  | true =>
    show s.openStream (E.part node worker) = E.opened node worker
    rw [openStream_alike hs]
    rfl
  | false =>
    show (s.streams.get? (E.node, worker)).getD {} = E.stored c node worker
    rw [stored, hstock]
    rfl

/-- A supplier that keeps nothing of a stream does not answer. -/
theorem Underway.suppliesNothing (hS : E.Sane) (h : E.Underway c d) (ha : E.Asks node worker)
    (hi : E.network.find? node (E.pool.supplyTopic worker) = some i) {l : ClusterListener}
    (hl : c.listeners[i]? = some l) {s : Supplier}
    (hs : c.suppliers[E.index node]? = some s) {first : Bool}
    (hspot : E.At c d node worker (.withSupplier first))
    (hleft : {} = (Spot.withSupplier first).left (E.opened node worker) (E.stored c node worker)) :
    E.Underway (c.turn c.network i (E.index node) (fun _ => s) none) d := by
  have hmove : E.SupplierMove node worker i i c
      (c.turn c.network i (E.index node) (fun _ => s) none) :=
    supplierMove_turn hl hs (.refl i c.network) (Nat.le_refl _) (.inl ⟨ha, hi⟩)
      (fun hdoor => absurd rfl (route_ne_door hi hdoor)) nofun (.refl s) fun _ _ => rfl
  exact h.supplierMoves hS ha hi hmove
    ⟨.done, hspot.turn hl hi ⟨nofun, nofun⟩ ⟨nofun, nofun⟩ (hspot.route i hi).1 rfl hspot.door nofun
      hleft⟩

theorem alike_afterPage (s : Supplier) (sender : NodeId) (worker : WorkerId)
    (rest : SupplyStream) : s.Alike (s.afterPage sender worker rest) :=
  ⟨rfl, rfl, rfl, rfl, rfl, rfl⟩

/-- The page of a stream changes no other stream. -/
theorem streams_afterPage_ne (s : Supplier) {sender : NodeId} {worker : WorkerId}
    (rest : SupplyStream) {key : NodeId × WorkerId} (hkey : key ≠ (sender, worker)) :
    (s.afterPage sender worker rest).streams.get? key = s.streams.get? key := by
  show (if rest.isFinished then s.streams.erase (sender, worker)
    else s.streams.insert (sender, worker) rest).get? key = _
  split
  · exact SortedMap.get?_erase_of_ne hkey
  · exact SortedMap.get?_insert_of_ne hkey

/-- A supplier answers with the next page of a stream. -/
theorem Underway.suppliesPage (hS : E.Sane) (h : E.Underway c d) (ha : E.Asks node worker)
    (hi : E.network.find? node (E.pool.supplyTopic worker) = some i) {l : ClusterListener}
    (hl : c.listeners[i]? = some l) {s : Supplier}
    (hs : c.suppliers[E.index node]? = some s) (hlike : (E.source node).Alike s) {first : Bool}
    (hspot : E.At c d node worker (.withSupplier first)) {stream rest : SupplyStream}
    {page : Supply} (hpaged : stream.Paged rest worker page ∧ rest.Sound)
    (hleft : stream =
      (Spot.withSupplier first).left (E.opened node worker) (E.stored c node worker))
    (timeout : Span) :
    E.Underway (c.turn
      (c.network.send s.node E.node (E.pool.demandTopic worker) (.supply page) timeout).1 i
      (E.index node) (fun _ => s.afterPage E.node worker rest) (some (.sending
        (c.network.send s.node E.node (E.pool.demandTopic worker) (.supply page) timeout).2))) d := by
  obtain ⟨j, r, hj, hr, halive⟩ := hS.doors worker ha.mem_workers
  obtain ⟨r', hr', halive'⟩ := h.mail.alive hr halive
  have hhere : c.network.hasLeft E.node = false := (h.mail.alike.hasLeft E.node).trans hS.here
  have hfind : c.network.find? E.node (E.pool.demandTopic worker) = some j :=
    (h.mail.alike.find? _ _).trans hj
  obtain ⟨hn, hheld, hsends, hid⟩ := Network.send_held hhere hfind hr' halive' s.node
    (.supply page) timeout
  have hnode : s.node = node := hlike.node.trans (hS.node node worker ha)
  rw [hnode] at hheld hn hsends hid ⊢
  generalize c.network.send node E.node (E.pool.demandTopic worker) (.supply page) timeout = sent
    at *
  have hstored : E.stored (c.turn sent.1 i (E.index node)
      (fun _ => s.afterPage E.node worker rest) (some (.sending sent.2))) node worker = rest := by
    rw [stored_turn hs]
    exact (s.streams_afterPage E.node worker rest _).trans (if_pos rfl)
  have hmove : E.SupplierMove node worker i j c (c.turn sent.1 i (E.index node)
      (fun _ => s.afterPage E.node worker rest) (some (.sending sent.2))) := by
    refine supplierMove_turn hl hs hn (Nat.le_of_lt (Nat.lt_of_succ_le (Nat.le_of_eq hsends.symm)))
      (.inr ⟨ha.mem_workers, hj⟩) (fun _ => ⟨_, hheld, ?_⟩) ?_ (alike_afterPage s E.node worker rest)
      fun _ hkey => streams_afterPage_ne s rest hkey
    · intro e he
      rw [List.mem_singleton.mp he]
    · intro id' hid'
      cases hid'
      rw [hid]
      exact h.mail.sends
  refine h.supplierMoves hS ha hi hmove
    ⟨.paged stream page, hspot.turn hl hi ⟨nofun, nofun⟩ ⟨nofun, nofun⟩ ?_ rfl ?_ ?_ hleft⟩
  · rw [hn.others i (route_ne_door hi hj)]
    exact (hspot.route i hi).1
  · intro k hk
    have hbefore := hspot.door k hk
    rw [hj, Option.some.injEq] at hk
    subst hk
    rw [hheld, List.filter_append, hbefore]
    simp [Spot.onDoor]
  · intro t page' ht
    cases ht
    rw [hstored]
    exact hpaged

/-- A supplier answers the demand that it is busy with. -/
theorem Underway.supplies (hS : E.Sane) (h : E.Underway c d) (ha : E.Asks node worker)
    (hi : E.network.find? node (E.pool.supplyTopic worker) = some i) {sender : NodeId}
    {dm : Demand}
    (hbusy : c.listeners[i]? = some (.supplier (E.index node) (some (.held sender dm))))
    {s : Supplier} (hs : c.suppliers[E.index node]? = some s) :
    E.Underway (c.supply i (E.index node) s sender dm) d := by
  obtain ⟨spot, hspot⟩ := h.streams node worker ha
  have hhand := (hspot.route i hi).2
  rw [hbusy] at hhand
  -- Only a stream that is with the supplier keeps the listener busy in this way.
  obtain ⟨first, rfl⟩ : ∃ first, spot = .withSupplier first := by
    cases spot with
    | withSupplier first => exact ⟨first, rfl⟩
    | _ => cases hhand
  cases hhand
  have hlike : (E.source node).Alike s := by
    obtain ⟨t, ht, hlike⟩ := h.stock node worker ha
    rw [hs, Option.some.injEq] at ht
    exact ht ▸ hlike
  obtain ⟨hclass, hleave, -⟩ := hS.sound node worker ha
  have hanswer := s.answer_eq (hlike.classFault.trans hclass) (hlike.leaveOnPage.trans hleave)
    E.node (show (E.ask first node worker).reply = some (E.pool.demandTopic worker) from rfl)
  have hleft := streamFor_ask ha hlike hs first
  have hworker : (E.pool.demandTopic worker).worker = worker := rfl
  rw [hworker] at hanswer
  cases hstream : s.streamFor E.node worker (E.ask first node worker) with
  | none =>
    rw [hstream] at hanswer hleft
    rw [Cluster.supply_nothing hanswer]
    exact h.suppliesNothing hS ha hi hbusy hs hspot hleft
  | some stream =>
    rw [hstream] at hanswer hleft
    have hsound : stream.Sound := by
      have hs := hspot.sound
      rw [← hleft] at hs
      exact hs
    have hpaged := stream.paged_nextPage hsound worker s.pageSize
      (Supplier.limitOf (E.ask first node worker))
    rw [Cluster.supply_page hanswer]
    exact h.suppliesPage hS ha hi hbusy hs hlike hspot hpaged hleft _

end PlanFetch
end Rebalance
