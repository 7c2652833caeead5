/-
  Rebalance.Proofs.Assembly

  Putting a cluster together. Suppliers on nodes of their own and a demander
  with as many workers find every topic free and listen on it, so a cluster
  that they join one after another is ready for every plan that asks each of
  them for something else, whatever the suppliers own.
-/
import Rebalance.Proofs.Launching

namespace Rebalance

-- ============================================================================
-- Places
-- ============================================================================

/-- Where a listener listens. -/
structure Place where
  node : NodeId
  topic : Topic
  listener : ClusterListener

/-- What messages are sent to. -/
def Place.address (x : Place) : NodeId × Topic := (x.node, x.topic)

namespace Cluster

/-- Two clusters with the same members at the same topology. -/
structure SameMembers (c c' : Cluster) : Prop where
  topology : c'.topology = c.topology
  demanders : c'.demanders = c.demanders
  suppliers : c'.suppliers = c.suppliers

/-- Every place has a route of its own, on which nothing has happened yet. -/
structure Laid (c : Cluster) (places : List Place) : Prop where
  network : c.network = { routes := places.map fun x => { node := x.node, topic := x.topic } }
  listeners : c.listeners = places.map (·.listener)
  transfers : c.transfers = []
  apart : (places.map Place.address).Nodup

variable {c : Cluster} {places : List Place} {node : NodeId} {topic : Topic} {x : Place}

theorem find?_laid (h : c.Laid places) (node : NodeId) (topic : Topic) :
    c.network.find? node topic = places.findIdx? fun x => x.node == node && x.topic == topic := by
  rw [h.network, Network.find?, List.findIdx?_map]
  rfl

/-- Every listener hears what is sent to its place. -/
theorem Laid.hears (h : c.Laid places) (hx : x ∈ places) : c.Hears x.node x.topic x.listener := by
  obtain ⟨i, hi⟩ := List.getElem?_of_mem hx
  obtain ⟨hlt, hget⟩ := List.getElem?_eq_some_iff.mp hi
  refine ⟨i, { node := x.node, topic := x.topic }, ?_, ?_, rfl, ?_⟩
  · rw [find?_laid h, List.findIdx?_eq_some_iff_getElem]
    refine ⟨hlt, by rw [hget]; simp, fun j hj hsame => ?_⟩
    rw [Bool.and_eq_true, beq_iff_eq, beq_iff_eq] at hsame
    have hjlt : j < places.length := Nat.lt_trans hj hlt
    have haddress : (places.map Place.address)[j]? = (places.map Place.address)[i]? := by
      rw [List.getElem?_map, List.getElem?_map, hi, List.getElem?_eq_getElem hjlt, Option.map_some,
        Option.map_some, Place.address, hsame.1, hsame.2]
      rfl
    have hji : j = i :=
      (List.getElem?_inj (by rw [List.length_map]; exact hjlt) h.apart).mp haddress
    exact Nat.ne_of_lt hj hji
  · rw [h.network, List.getElem?_map, hi]
    rfl
  · rw [h.listeners, List.getElem?_map, hi]
    rfl

/-- A topic that is free can be listened on. -/
theorem Laid.listenOn (h : c.Laid places) (hfree : (node, topic) ∉ places.map Place.address)
    (l : ClusterListener) :
    ∃ c', c.listenOn node topic l = .ok c' ∧ c'.Laid (places ++ [⟨node, topic, l⟩]) ∧
      c.SameMembers c' := by
  have hnone : c.network.isRegistered node topic = false := by
    rw [Network.isRegistered, find?_laid h, Option.isSome_eq_false_iff, Option.isNone_iff_eq_none,
      List.findIdx?_eq_none_iff]
    intro x hx
    rw [Bool.eq_false_iff]
    intro hsame
    rw [Bool.and_eq_true, beq_iff_eq, beq_iff_eq] at hsame
    refine hfree (List.mem_map.mpr ⟨x, hx, ?_⟩)
    rw [Place.address, hsame.1, hsame.2]
  refine ⟨{ c with
    network := { c.network with routes := c.network.routes ++ [{ node, topic }] }
    listeners := c.listeners ++ [l] }, ?_, ⟨?_, ?_, h.transfers, ?_⟩, rfl, rfl, rfl⟩
  · rw [Cluster.listenOn, Network.register, hnone]
    rfl
  · show ({ c.network with routes := c.network.routes ++ [{ node, topic }] } : Network) = _
    rw [h.network, List.map_append]
    rfl
  · show c.listeners ++ [l] = _
    rw [h.listeners, List.map_append]
    rfl
  · rw [List.map_append, List.nodup_append]
    refine ⟨h.apart, List.nodup_singleton _, fun a ha b hb heq => hfree ?_⟩
    have haddress : a = (node, topic) := heq.trans (List.mem_singleton.mp hb)
    rw [← haddress]
    exact ha

/-- Topics that are all free can be listened on one after another. -/
theorem Laid.registerAll (f : Topic → ClusterListener) {ts : List Topic} (hn : ts.Nodup)
    (h : c.Laid places) (hfree : ∀ t ∈ ts, (node, t) ∉ places.map Place.address) :
    ∃ c', Demander.registerAll (fun t c => c.listenOn node t (f t)) ts c = (c', .ok ()) ∧
      c'.Laid (places ++ ts.map fun t => ⟨node, t, f t⟩) ∧ c.SameMembers c' := by
  induction ts generalizing c places with
  | nil => exact ⟨c, rfl, by rw [List.map_nil, List.append_nil]; exact h, rfl, rfl, rfl⟩
  | cons t ts ih =>
    rw [List.nodup_cons] at hn
    obtain ⟨c₁, hok, h₁, hsame₁⟩ := h.listenOn (hfree t List.mem_cons_self) (f t)
    obtain ⟨c', hall, h', hsame⟩ := ih hn.2 h₁ (by
      intro u hu hmem
      rw [List.map_append, List.mem_append] at hmem
      rcases hmem with hmem | hmem
      · exact hfree u (List.mem_cons_of_mem t hu) hmem
      · have hut : u = t := congrArg Prod.snd (List.mem_singleton.mp hmem)
        exact hn.1 (hut ▸ hu))
    refine ⟨c', ?_, ?_, hsame.topology.trans hsame₁.topology,
      hsame.demanders.trans hsame₁.demanders, hsame.suppliers.trans hsame₁.suppliers⟩
    · rw [Demander.registerAll, hok]
      exact hall
    · rw [List.map_cons, List.append_cons]
      exact h'

-- ============================================================================
-- Suppliers
-- ============================================================================

/-- The places of a supplier. -/
def supplierPlaces (k : Nat) (s : Supplier) : List Place :=
  (s.pool.topics .supply).map fun t => ⟨s.node, t, .supplier k none⟩

/-- A cluster of suppliers that has been put together, and no demander yet. -/
structure Stocked (c : Cluster) (places : List Place) : Prop extends Laid c places where
  demanders : c.demanders = []
  serves : ∀ k s, c.suppliers[k]? = some s → ∀ x ∈ supplierPlaces k s, x ∈ places
  idle : ∀ x ∈ places, x.listener.isIdle = true
  members : ∀ x ∈ places, x.topic.role = .supply ∧ x.node ∈ c.suppliers.map (·.node)
  attended : ∀ x ∈ places, ∃ k s, x.listener = .supplier k none ∧ c.suppliers[k]? = some s ∧
    s.node = x.node

theorem nodup_topics (w : WorkerPool) (role : Role) : (w.topics role).Nodup := by
  refine List.Nodup.map_on ?_ w.nodup_workers
  intro u _ v _ h
  exact congrArg Topic.worker h

/-- A supplier on a node of its own joins. -/
theorem Stocked.addSupplier (h : c.Stocked places) {s : Supplier}
    (hnew : s.node ∉ c.suppliers.map (·.node)) :
    ∃ places', (c.addSupplier s).1.Stocked places' ∧
      (c.addSupplier s).1.suppliers = c.suppliers ++ [s] ∧
      (c.addSupplier s).1.topology = c.topology := by
  have hlaid : ({ c with suppliers := c.suppliers ++ [s] } : Cluster).Laid places :=
    ⟨h.network, h.listeners, h.transfers, h.apart⟩
  have hfree : ∀ t ∈ s.pool.topics .supply, (s.node, t) ∉ places.map Place.address := by
    intro t _ hmem
    obtain ⟨x, hx, haddress⟩ := List.mem_map.mp hmem
    have hnode : x.node = s.node := congrArg Prod.fst haddress
    exact hnew (hnode ▸ (h.members x hx).2)
  obtain ⟨c', hall, h', hsame⟩ := hlaid.registerAll
    (fun _ => .supplier c.suppliers.length none) (nodup_topics s.pool .supply) hfree
  have hadd : (c.addSupplier s).1 = c' := congrArg Prod.fst hall
  rw [hadd]
  refine ⟨places ++ supplierPlaces c.suppliers.length s,
    ⟨h', hsame.demanders.trans h.demanders, ?_, ?_, ?_, ?_⟩, hsame.suppliers, hsame.topology⟩
  · intro k t ht x hx
    rw [hsame.suppliers, List.getElem?_append] at ht
    rw [List.mem_append]
    split at ht
    · exact .inl (h.serves k t ht x hx)
    · next hk =>
      have hlast : k - c.suppliers.length = 0 := by
        by_contra hne
        rw [List.getElem?_eq_none (by simp; omega)] at ht
        cases ht
      have hk' : k = c.suppliers.length := by omega
      rw [hlast] at ht
      obtain rfl := Option.some.inj ht
      rw [← hk']
      exact .inr hx
  · intro x hx
    rcases List.mem_append.mp hx with hx | hx
    · exact h.idle x hx
    · obtain ⟨t, -, rfl⟩ := List.mem_map.mp hx
      rfl
  · intro x hx
    rw [hsame.suppliers, List.map_append, List.mem_append]
    rcases List.mem_append.mp hx with hx | hx
    · exact ⟨(h.members x hx).1, .inl (h.members x hx).2⟩
    · obtain ⟨t, ht, rfl⟩ := List.mem_map.mp hx
      obtain ⟨w, -, rfl⟩ := List.mem_map.mp ht
      exact ⟨rfl, .inr (List.mem_singleton.mpr rfl)⟩
  · intro x hx
    rw [hsame.suppliers]
    rcases List.mem_append.mp hx with hx | hx
    · obtain ⟨k, t, hl, ht, hnode⟩ := h.attended x hx
      exact ⟨k, t, hl, (List.getElem?_append_left (List.getElem?_eq_some_iff.mp ht).1).trans ht, hnode⟩
    · obtain ⟨t, -, rfl⟩ := List.mem_map.mp hx
      exact ⟨c.suppliers.length, s, rfl, List.getElem?_concat_length, rfl⟩

/-- A cluster of suppliers at a topology. -/
def ofSuppliers (topology : Topology) (ss : List Supplier) : Cluster :=
  ss.foldl (fun c s => (c.addSupplier s).1) { topology }

/-- Suppliers on nodes of their own join one after another. -/
theorem stocked_ofSuppliers (topology : Topology) {ss : List Supplier}
    (hn : (ss.map (·.node)).Nodup) :
    ∃ places, (ofSuppliers topology ss).Stocked places ∧
      (ofSuppliers topology ss).suppliers = ss ∧
      (ofSuppliers topology ss).topology = topology := by
  have hjoin : ∀ (c : Cluster) places, c.Stocked places →
      ((c.suppliers ++ ss).map (·.node)).Nodup →
      ∃ places', (ss.foldl (fun c s => (c.addSupplier s).1) c).Stocked places' ∧
        (ss.foldl (fun c s => (c.addSupplier s).1) c).suppliers = c.suppliers ++ ss ∧
        (ss.foldl (fun c s => (c.addSupplier s).1) c).topology = c.topology := by
    clear hn
    induction ss with
    | nil => exact fun c places h _ => ⟨places, h, (List.append_nil _).symm, rfl⟩
    | cons s ss ih =>
      intro c places h hn
      have hnew : s.node ∉ c.suppliers.map (·.node) := by
        rw [List.map_append, List.nodup_append] at hn
        exact fun hmem => hn.2.2 _ hmem _ List.mem_cons_self rfl
      obtain ⟨places₁, h₁, hs₁, ht₁⟩ := h.addSupplier hnew
      rw [List.append_cons, ← hs₁] at hn ⊢
      obtain ⟨places', h', hs', ht'⟩ := ih _ places₁ h₁ hn
      exact ⟨places', h', hs', ht'.trans ht₁⟩
  exact hjoin { topology } [] ⟨⟨rfl, rfl, rfl, List.nodup_nil⟩, rfl, nofun, nofun, nofun, nofun⟩ hn

end Cluster

-- ============================================================================
-- The demander
-- ============================================================================

/-- A store to which some partitions were added that are still to be filled holds nothing in
    them. -/
theorem Store.get?_createMoving (ps : List PartitionId) (p : PartitionId) :
    (ps.foldl (fun (s : Store) p => s.create p .moving) {}).get? p =
      if p ∈ ps then some { state := .moving } else none := by
  have hall : ∀ s : Store, (∀ q part, s.get? q = some part → part = { state := .moving }) →
      (ps.foldl (fun (s : Store) p => s.create p .moving) s).get? p =
        if p ∈ ps then some { state := .moving } else s.get? p := by
    induction ps with
    | nil => exact fun _ _ => rfl
    | cons a ps ih =>
      intro s hs
      have hcreate : ∀ q, (s.create a .moving).get? q =
          if q = a then some { state := .moving } else s.get? q := by
        intro q
        rw [create]
        cases ha : s.get? a with
        | none => exact SortedMap.get?_insert
        | some part =>
          rw [hs a part ha]
          exact SortedMap.get?_insert
      rw [List.foldl_cons, ih (s.create a .moving) ?_, hcreate]
      · by_cases hp : p ∈ ps
        · rw [if_pos hp, if_pos (List.mem_cons_of_mem a hp)]
        · by_cases hpa : p = a
          · rw [if_neg hp, if_pos hpa, if_pos (List.mem_cons.mpr (.inl hpa))]
          · rw [if_neg hp, if_neg hpa,
              if_neg (fun hmem => (List.mem_cons.mp hmem).elim hpa hp)]
      · intro q part hq
        rw [hcreate] at hq
        split at hq
        · exact (Option.some.inj hq).symm
        · exact hs q part hq
  exact hall {} nofun

theorem Store.same_createMoving (ps : List PartitionId) (s : Store) :
    (ps.foldl (fun (s : Store) p => s.create p .moving) s).evictions = s.evictions ∧
      (ps.foldl (fun (s : Store) p => s.create p .moving) s).capacity = s.capacity := by
  induction ps generalizing s with
  | nil => exact ⟨rfl, rfl⟩
  | cons a ps ih =>
    have hone : (s.create a .moving).evictions = s.evictions ∧
        (s.create a .moving).capacity = s.capacity := by
      unfold create
      split <;> exact ⟨rfl, rfl⟩
    exact ⟨(ih _).1.trans hone.1, (ih _).2.trans hone.2⟩

/-- The assignment that a node starts with holds at its topology. -/
theorem Affinity.ownedAt_start (t : Topology) (ps : SortedSet PartitionId) :
    (Affinity.start t ps).ownedAt t = ps := by
  show (greatestUpTo t [(t, ps)]).getD ∅ = ps
  rw [greatestUpTo, Key.below_irrefl, if_neg Bool.false_ne_true]
  rfl

namespace Cluster

variable {c : Cluster} {places : List Place} {node : NodeId} {settings : Settings}
  {topology : Topology} {owned : List PartitionId} {clock : Instant}

/-- A demander for partitions that are still to be filled, as it joins a cluster. -/
def joining (topology : Topology) (node : NodeId) (settings : Settings)
    (owned : List PartitionId) (clock : Instant) : Demander :=
  let d := Demander.newborn settings node topology ⟨{}, ∅, ∅, ∅⟩ owned
  { d with site := { d.site with clock } }

/-- A demander joins a cluster of suppliers. -/
theorem Stocked.addDemander (h : c.Stocked places) (hf : settings.fault? = none)
    (ha : settings.isActive = true) (node : NodeId) (owned : List PartitionId)
    (clock : Instant) :
    (joining c.topology node settings owned clock).Reachable ∧
      (c.addDemander node settings owned clock).1.Laid
        (places ++ ((joining c.topology node settings owned clock).pool.topics .demand).map fun t =>
          ⟨node, t, .demander 0 t.worker none⟩) ∧
      (c.addDemander node settings owned clock).1.demanders =
        [joining c.topology node settings owned clock] ∧
      (c.addDemander node settings owned clock).1.suppliers = c.suppliers := by
  have hfree : ∀ t ∈ (joining c.topology node settings owned clock).pool.topics .demand,
      (node, t) ∉ places.map Place.address := by
    intro t ht hmem
    obtain ⟨x, hx, haddress⟩ := List.mem_map.mp hmem
    have htopic : x.topic = t := congrArg Prod.snd haddress
    obtain ⟨w, -, rfl⟩ := List.mem_map.mp ht
    have hrole := (h.members x hx).1
    rw [htopic] at hrole
    cases hrole
  obtain ⟨c', hall, h', hsame⟩ := h.toLaid.registerAll
    (fun t => .demander 0 t.worker none)
    (nodup_topics (joining c.topology node settings owned clock).pool .demand) hfree
  have hcreate : Demander.create settings (joining c.topology node settings owned clock).site
      (fun t (c : Cluster) => c.listenOn node t (.demander 0 t.worker none)) c =
        (c', .ok (joining c.topology node settings owned clock)) := by
    have hregister : Demander.registerAll
        (fun t (c : Cluster) => c.listenOn node t (.demander 0 t.worker none))
        (Demander.pool {
          settings := settings
          site := (joining c.topology node settings owned clock).site
          schedule := { delay := settings.delay } } |>.topics .demand) c = (c', .ok ()) := hall
    unfold Demander.create
    simp only [hf, ha, if_true, hregister]
    rfl
  have hadd : (c.addDemander node settings owned clock).1 =
      { c' with demanders := c'.demanders ++ [joining c.topology node settings owned clock] } := by
    have hlength : c.demanders.length = 0 := by rw [h.demanders]; rfl
    unfold Cluster.addDemander
    simp only [hlength]
    have hsite : Demander.create settings {
        node
        store := { base := owned.foldl (fun (s : Store) p => s.create p .moving) {} }
        affinity := Affinity.start c.topology (SortedSet.ofList owned)
        recorder := Recorder.all
        clock } (fun t (c : Cluster) => c.listenOn node t (.demander 0 t.worker none)) c =
          (c', .ok (joining c.topology node settings owned clock)) := hcreate
    rw [hsite]
  rw [hadd]
  refine ⟨⟨Cluster, settings, _, _, c, c', _, [], hcreate, rfl⟩,
    ⟨h'.network, h'.listeners, h'.transfers, h'.apart⟩, ?_, hsame.suppliers⟩
  show c'.demanders ++ [_] = _
  rw [hsame.demanders, h.demanders]
  rfl

/-- What has just been put together is quiet. -/
theorem Laid.quiet (h : c.Laid places) (hidle : ∀ x ∈ places, x.listener.isIdle = true) :
    c.Quiet where
  held i := by
    rw [Network.held, h.network, List.getElem?_map]
    cases places[i]? <;> rfl
  idle i l hl := by
    rw [h.listeners] at hl
    obtain ⟨x, hx, rfl⟩ := List.mem_map.mp (List.mem_of_getElem? hl)
    exact hidle x hx

/-- The cluster of some suppliers and a demander that has joined them. -/
def together (topology : Topology) (ss : List Supplier) (node : NodeId) (settings : Settings)
    (owned : List PartitionId) (clock : Instant) : Cluster :=
  ((ofSuppliers topology ss).addDemander node settings owned clock).1

variable {ss : List Supplier} {plan : Plan} {force : Bool}

/-- Nothing stands in the way of a demander that has just joined. -/
theorem calm_joining (Q : PartitionId → Prop) :
    (joining topology node settings owned clock).Calm Q := by
  have hget : ∀ p, (joining topology node settings owned clock).site.store.base.get? p =
      if p ∈ owned then some { state := .moving } else none :=
    Store.get?_createMoving owned
  obtain ⟨hevictions, hcapacity⟩ := Store.same_createMoving owned {}
  refine ⟨rfl, rfl, rfl, rfl, hcapacity, ?_, ?_, ?_⟩
  · intro p _ k
    have hnone : (joining topology node settings owned clock).site.store.base.evictions = ∅ :=
      hevictions
    rw [hnone]
    rfl
  · intro p _ k
    rw [Store.slotFor, Store.slot?, hget]
    split <;> rfl
  · intro p _
    rw [Store.lock?, hget]
    split <;> rintro ⟨⟩

/-- What a demander that has just joined owns is still to be filled. -/
theorem state?_joining {p : PartitionId}
    (ho : (joining topology node settings owned clock).owns p topology = true) :
    (joining topology node settings owned clock).site.store.base.state? p = some .moving := by
  have howns : p ∈ (Affinity.start topology (SortedSet.ofList owned)).ownedAt topology :=
    Affinity.isOwned_iff.mp ho
  rw [Affinity.ownedAt_start] at howns
  have hget := Store.get?_createMoving owned p
  rw [if_pos (SortedSet.mem_ofList.mp howns)] at hget
  exact congrArg (Option.map Partition.state) hget

/-- A demander and some suppliers with as many workers, on nodes of their own, are ready for every
    plan at the current topology that asks each of them for something else, if the suppliers
    that are asked are reliable. -/
theorem ready_together (hf : settings.fault? = none) (ha : settings.isActive = true)
    (hforce : Schedule.startMode { delay := settings.delay } force = .immediate)
    (hn : (ss.map (·.node)).Nodup)
    (hpool : ∀ s ∈ ss, s.pool = WorkerPool.ofSize settings.dataset settings.poolSize)
    (htopology : plan.topology = topology) (huniform : plan.Uniform)
    (hapart : ∀ m n p, plan.Asks m p → plan.Asks n p → m = n)
    (hasks : ∀ n p, plan.Asks n p → ∃ s ∈ ss, s.node = n ∧ s.Reliable (plan.Asks n) clock) :
    (together topology ss node settings owned clock).Ready
      (joining topology node settings owned clock) plan force := by
  obtain ⟨places, hstocked, hsuppliers, ht⟩ := stocked_ofSuppliers topology hn
  obtain ⟨hreachable, hlaid, hdemanders, hsame⟩ :=
    hstocked.addDemander hf ha node owned clock
  rw [ht] at hreachable hlaid hdemanders
  rw [hsuppliers] at hsame
  change (together topology ss node settings owned clock).Laid _ at hlaid
  change (together topology ss node settings owned clock).demanders = _ at hdemanders
  change (together topology ss node settings owned clock).suppliers = _ at hsame
  have hleft : ∀ n, (together topology ss node settings owned clock).network.hasLeft n = false := by
    intro n
    rw [hlaid.network]
    rfl
  have hidle : ∀ x ∈ places ++ ((joining topology node settings owned clock).pool.topics
      .demand).map fun t => ⟨node, t, .demander 0 t.worker none⟩, x.listener.isIdle = true := by
    intro x hx
    rcases List.mem_append.mp hx with hx | hx
    · exact hstocked.idle x hx
    · obtain ⟨t, -, rfl⟩ := List.mem_map.mp hx
      rfl
  refine {
    demanders := hdemanders
    isOpen := ⟨hreachable, ha, rfl, rfl, rfl, nofun⟩
    immediate := hforce
    calm := calm_joining _
    uniform := huniform
    current := htopology.symm
    apart := hapart
    moving := ?_
    quiet := hlaid.quiet hidle
    transfers := hlaid.transfers
    results := ?_
    here := hleft node
    doors := ?_
    nodes := by rw [hsame]; exact hn
    supplied := ?_ }
  · intro n p _ ho
    exact state?_joining (htopology ▸ ho)
  · intro x hx
    rw [hlaid.network] at hx
    cases hx
  · intro worker hw
    exact hlaid.hears (List.mem_append_right _ (List.mem_map.mpr
      ⟨_, List.mem_map_of_mem hw, rfl⟩))
  · intro n p hp
    obtain ⟨s, hs, hnode, hreliable⟩ := hasks n p hp
    obtain ⟨k, hk⟩ := List.getElem?_of_mem hs
    refine ⟨hleft n, k, s, by rw [hsame]; exact hk, hnode, hreliable, fun worker hw => ?_⟩
    rw [← hnode]
    have hserves := hstocked.serves k s (by rw [hsuppliers]; exact hk)
      ⟨s.node, (WorkerPool.ofSize settings.dataset settings.poolSize).supplyTopic worker,
        .supplier k none⟩
    rw [supplierPlaces, hpool s hs] at hserves
    exact hlaid.hears (List.mem_append_left _ (hserves (List.mem_map.mpr
      ⟨_, List.mem_map_of_mem hw, rfl⟩)))

end Cluster

end Rebalance
