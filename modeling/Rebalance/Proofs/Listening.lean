/-
  Rebalance.Proofs.Listening

  Who listens where.  `Network.registrations` lists the registered routes by node
  and topic; giving one up takes it out (`registrations_unregister`), and nothing
  that a network does by itself brings one.  So a demander that is
  alone on its demand topics is known there by what it lists itself
  (`Network.Sole`), in every run of its cluster (`sole_run`).
-/
import Rebalance.Proofs.OneMessage

namespace Rebalance

/-- Who listens on a route, and where, while it is registered. -/
def Route.listener? (r : Route) : Option (NodeId × Topic) :=
  if r.registered then some r.address else none

namespace Network

variable {n m : Network} {node : NodeId} {topic : Topic}

/-- The nodes that listen, with their topics. -/
def registrations (n : Network) : List (NodeId × Topic) := n.routes.filterMap Route.listener?

theorem isRegistered_iff : n.isRegistered node topic = true ↔ (node, topic) ∈ n.registrations := by
  unfold isRegistered find? registrations
  rw [List.findIdx?_isSome, List.any_eq_true, List.mem_filterMap]
  refine exists_congr fun r => and_congr_right fun _ => ?_
  rw [Bool.and_eq_true, Bool.and_eq_true, beq_iff_eq, beq_iff_eq, Route.listener?]
  cases r.registered with
  | true => simp [Route.address]
  | false => simp

theorem registrations_congr (h : m.routes.map Route.listener? = n.routes.map Route.listener?) :
    m.registrations = n.registrations := by
  have hmap : ∀ rs : List Route, rs.filterMap Route.listener? =
      (rs.map Route.listener?).filterMap id := fun rs => by rw [List.filterMap_map]; rfl
  rw [registrations, hmap, h, ← hmap, registrations]

-- ============================================================================
-- Listening no more
-- ============================================================================

theorem listeners_cons (r : Route) (rs : List Route) :
    (r :: rs).filterMap Route.listener? = r.listener?.toList ++ rs.filterMap Route.listener? := by
  rw [List.filterMap_cons]
  cases r.listener? <;> rfl

/-- What is left when the first route of a node for a topic is given up. -/
theorem erase_listener (node : NodeId) (topic : Topic) (rs : List Route) :
    (rs.filterMap Route.listener?).erase (node, topic) =
      match rs.findIdx? fun r => r.registered && r.node == node && r.topic == topic with
      | none => rs.filterMap Route.listener?
      | some i => (rs.modify i ({ · with registered := false })).filterMap Route.listener? := by
  induction rs with
  | nil => rfl
  | cons r rs ih =>
    rw [List.findIdx?_cons, listeners_cons]
    cases hr : r.registered && r.node == node && r.topic == topic with
    | true =>
      rw [Bool.and_eq_true, Bool.and_eq_true, beq_iff_eq, beq_iff_eq] at hr
      obtain ⟨⟨hreg, hnode⟩, htopic⟩ := hr
      rw [Route.listener?, if_pos hreg, Route.address, hnode, htopic]
      exact List.erase_cons_head (node, topic) _
    | false =>
      have hother : (node, topic) ∉ r.listener?.toList := by
        rw [Option.mem_toList, Route.listener?]
        intro hl
        split at hl
        · next hreg =>
          cases hl
          simp [hreg] at hr
        · cases hl
      rw [List.erase_append_right _ hother, ih]
      cases rs.findIdx? fun r => r.registered && r.node == node && r.topic == topic with
      | none => rfl
      | some i => exact (listeners_cons r _).symm

/-- A topic that is given up is not listened on. -/
theorem registrations_unregister (n : Network) (node : NodeId) (topic : Topic) :
    (n.unregister node topic).1.registrations = n.registrations.erase (node, topic) := by
  refine Eq.trans ?_ (erase_listener node topic n.routes).symm
  unfold unregister find?
  cases n.routes.findIdx? fun r => r.registered && r.node == node && r.topic == topic <;> rfl

/-- Many topics are given up one after another. -/
theorem registrations_unregisterAll (node : NodeId) (topics : List Topic) (n : Network) :
    (topics.foldl (fun n t => (n.unregister node t).1) n).registrations =
      n.registrations.diff (topics.map fun t => (node, t)) := by
  induction topics generalizing n with
  | nil => rfl
  | cons t topics ih =>
    rw [List.foldl_cons, ih, registrations_unregister, List.map_cons, List.diff_cons]

theorem registrations_depart (n : Network) (node : NodeId) :
    (n.depart node).registrations.Sublist n.registrations := by
  unfold registrations depart
  simp only
  induction n.routes with
  | nil => exact .slnil
  | cons r rs ih =>
    rw [List.map_cons, listeners_cons, listeners_cons]
    refine List.Sublist.append ?_ ih
    split
    · exact List.nil_sublist _
    · exact List.Sublist.refl _

-- ============================================================================
-- Messages
-- ============================================================================

theorem registrations_set {i : RouteId} {r r' : Route} (hr : n.routes[i]? = some r)
    (hm : m.routes = n.routes.set i r') (h : r'.listener? = r.listener?) :
    m.registrations = n.registrations := by
  rw [registrations_congr]
  rw [hm]
  exact map_set hr h

theorem registrations_send (n : Network) (sender target : NodeId) (topic : Topic)
    (message : Message) (timeout : Span) :
    (n.send sender target topic message timeout).1.registrations = n.registrations := by
  obtain ⟨-, -, h⟩ := given_of_send n sender target topic message timeout
  cases h with
  | refused hr _ _ => rw [registrations, hr, registrations]
  | queued i r hr _ hm _ => exact registrations_set hr hm rfl
  | waits i r hr _ _ hm _ => exact registrations_set hr hm rfl

theorem registrations_take {i : RouteId} {e : Envelope} (h : n.take i = some (e, m)) :
    m.registrations = n.registrations := by
  have hkeeps : ∀ k : Network, k.routes.map Route.listener? =
      (k.routes.map Route.face).map fun f => if f.2.2.1 then some (f.1, f.2.1) else none := by
    intro k
    rw [List.map_map]
    rfl
  rw [registrations_congr]
  rw [hkeeps m, hkeeps n, (take_held h).1.alike.faces]

theorem registrations_kill (n : Network) (i : RouteId) :
    (n.kill i).registrations = n.registrations := by
  unfold kill
  split
  · rfl
  · next r hr =>
    have hroutes := (result?_fail (fun w : Waiter => w.id) (fun _ => n.deadFault r) r.waiting
      { n with routes := n.routes.set i { r with alive := false, queue := [], waiting := [] } }).1
    exact registrations_set hr hroutes rfl

theorem registrations_elapse (n : Network) (ms : Nat) :
    (n.elapse ms).registrations = n.registrations := by
  rw [registrations_congr]
  unfold elapse
  rw [(result?_fail (fun w : SendId × NodeId => w.1) (fun w => .timeout w.2) _ _).1]
  exact List.map_map

-- ============================================================================
-- A demander that is alone on its topics
-- ============================================================================

/-- No topic is registered twice for a node, and on its demand topics the node of a demander is
    registered only where the demander listens itself. -/
structure Sole (n : Network) (d : Demander) : Prop where
  once : n.registrations.Nodup
  own : ∀ t ∈ d.pool.topics .demand, (d.site.node, t) ∈ n.registrations → t ∈ d.topics

variable {d : Demander}

theorem Sole.lose (h : n.Sole d) (hm : m.registrations.Sublist n.registrations) : m.Sole d :=
  ⟨h.once.sublist hm, fun t ht hmem => h.own t ht (hm.subset hmem)⟩

/-- A demander whose topics are gone is registered nowhere for demands. -/
theorem Sole.unregistered (h : n.Sole d) (ht : d.topics = []) :
    ∀ t ∈ d.pool.topics .demand, n.isRegistered d.site.node t = false := by
  intro t hmem
  rw [← Bool.not_eq_true, isRegistered_iff]
  intro hreg
  have hlisted := h.own t hmem hreg
  rw [ht] at hlisted
  exact List.not_mem_nil hlisted

/-- A demander that lists fewer topics gives the others up. -/
theorem Sole.giveUp (h : n.Sole d) {e : Demander} (hnode : e.site.node = d.site.node)
    (hsettings : e.settings = d.settings) :
    ((d.topics.filter fun t => !decide (t ∈ e.topics)).foldl
      (fun n t => (n.unregister e.site.node t).1) n).Sole e := by
  have hregs := registrations_unregisterAll e.site.node
    (d.topics.filter fun t => !decide (t ∈ e.topics)) n
  refine ⟨?_, fun t ht hmem => ?_⟩
  · rw [hregs]
    exact h.once.sublist (List.diff_sublist _ _)
  · rw [hregs, List.Nodup.mem_sdiff_iff h.once] at hmem
    rw [Demander.pool, hsettings] at ht
    have hlisted : t ∈ d.topics := h.own t ht (hnode ▸ hmem.1)
    by_contra hgone
    refine hmem.2 (List.mem_map_of_mem (List.mem_filter.mpr ⟨hlisted, ?_⟩))
    rw [decide_eq_false hgone, Bool.not_false]

end Network

-- ============================================================================
-- Every run
-- ============================================================================

/-- A demander stays on its node. -/
theorem Demander.node_step {d : Demander} (hs : d.Steady) (i : Demander.Input) :
    (d.step i).site.node = d.site.node := by
  by_cases hi : ∃ c, i = .site c
  · obtain ⟨c, rfl⟩ := hi
    cases c <;> rfl
  · have hsite := (Demander.step_ticks hs fun c hc => hi ⟨c, hc⟩).site.1.node
    rwa [Demander.site_base] at hsite

theorem Demander.node_run {d : Demander} (hs : d.Steady) (inputs : List Demander.Input) :
    (d.run inputs).site.node = d.site.node := by
  induction inputs generalizing d with
  | nil => rfl
  | cons i inputs ih =>
    exact (ih (Demander.steady_step hs i)).trans (Demander.node_step hs i)

namespace Cluster

variable {c c' : Cluster} {d : Demander} {deeds : List Deed}

/-- The only demander of a cluster is alone on its topics. -/
def Alone (c : Cluster) : Prop := ∃ d, c.demanders = [d] ∧ d.Steady ∧ c.network.Sole d

theorem Alone.lose (h : c.Alone) (hd : c'.demanders = c.demanders)
    (hn : c'.network.registrations.Sublist c.network.registrations) : c'.Alone := by
  obtain ⟨d, hone, hs, hsole⟩ := h
  exact ⟨d, hd.trans hone, hs, hsole.lose hn⟩

/-- Nobody begins or ends to listen. -/
theorem Alone.same (h : c.Alone) (hd : c'.demanders = c.demanders)
    (hn : c'.network.registrations = c.network.registrations) : c'.Alone :=
  h.lose hd (by rw [hn])

theorem Alone.step (h : c.Alone) (k : Nat) (i : Demander.Input) : (c.step k i).Alone := by
  obtain ⟨d, hone, hs, hsole⟩ := h
  unfold Cluster.step
  split
  · exact ⟨d, hone, hs, hsole⟩
  · next d' hd =>
    obtain ⟨rfl, rfl⟩ := demander_of_index hone hd
    refine ⟨d'.step i, ?_, Demander.steady_step hs i, ?_⟩
    · rw [setDemander, hd, hone]
      rfl
    · rw [setDemander, hd]
      exact hsole.giveUp (Demander.node_step hs i) (Demander.settings_step hs i)

theorem Alone.hear (h : c.Alone) (i : RouteId) (l : ClusterListener) (e : Envelope) :
    (c.hear i l e).Alone := by
  unfold Cluster.hear
  split
  · split
    · exact h
    · exact (h.step _ _).same rfl rfl
  · exact h.step _ _
  · exact h.same rfl rfl
  · exact h

theorem Alone.supply (h : c.Alone) (i : RouteId) (k : Nat) (s : Supplier) (sender : NodeId)
    (q : Demand) : (c.supply i k s sender q).Alone := by
  unfold Cluster.supply
  simp only
  split
  · exact h.same rfl rfl
  · next a _ =>
    refine h.lose rfl ?_
    change (Network.send _ _ _ _ _ _).1.registrations.Sublist _
    rw [Network.registrations_send]
    split
    · exact Network.registrations_depart _ _
    · exact List.Sublist.refl _

theorem Alone.listen (h : c.Alone) {i : RouteId} (hc : c.listen i = some c') : c'.Alone := by
  unfold Cluster.listen at hc
  simp only at hc
  split at hc
  · cases hc
  · split at hc
    · cases hc
    · split at hc
      · cases hc
        exact h.same rfl rfl
      · cases hc
  · split at hc
    · cases hc
    · split at hc
      · cases hc
      · cases hc
        exact h.supply ..
  · obtain ⟨r, -, rfl⟩ := Option.map_eq_some_iff.mp hc
    exact h.same rfl rfl
  · obtain ⟨⟨e, m⟩, ht, rfl⟩ := Option.map_eq_some_iff.mp hc
    exact Alone.hear (c := { c with network := m }) (h.same rfl (Network.registrations_take ht)) _ _ _

theorem Alone.moves (h : c.Alone) {x : Move} (hc : c.move x = some c') : c'.Alone := by
  cases x with
  | submit k id =>
    change c.submit k id = some c' at hc
    unfold submit at hc
    split at hc
    · cases hc
    · split at hc
      · cases hc
      · obtain ⟨q, -, rfl⟩ := Option.map_eq_some_iff.mp hc
        exact h.same rfl (Network.registrations_send ..)
  | report x =>
    change c.report x = some c' at hc
    unfold report at hc
    split at hc
    · cases hc
    · obtain ⟨r, -, rfl⟩ := Option.map_eq_some_iff.mp hc
      refine Alone.step ?_ _ _
      exact h.same rfl rfl
  | resume k id =>
    change c.resume k id = some c' at hc
    unfold resume at hc
    split at hc
    · cases hc
    · split at hc
      · cases hc
        exact h.step _ _
      · cases hc
  | listen i => exact h.listen hc

theorem Alone.stirs (h : c.Alone) (hs : Stirs c deeds c') : c'.Alone := by
  cases hs with
  | moves x hx => exact h.moves hx
  | happens i _ => exact h.step 0 i
  | answers page timeout _ _ _ => exact h.same rfl (Network.registrations_send ..)
  | ignores _ => exact h.same rfl rfl
  | changes _ _ _ => exact h.same rfl rfl
  | elapses ms => exact h.same rfl (Network.registrations_elapse ..)
  | departs node => exact h.lose rfl (Network.registrations_depart ..)
  | leaves node topic =>
    refine h.lose rfl ?_
    rw [Network.registrations_unregister]
    exact List.erase_sublist
  | dies i => exact h.same rfl (Network.registrations_kill ..)

theorem Alone.runs (h : c.Alone) (hr : Runs c deeds c') : c'.Alone := by
  induction hr with
  | refl => exact h
  | tail _ hs ih => exact ih.stirs hs

/-- Whatever happens in a cluster, its demander stays alone on its topics. -/
theorem sole_run (hf : c.Fresh d) (hsole : c.network.Sole d) (h : Runs c deeds c') :
    c'.network.Sole (d.run (Deed.inputs deeds)) := by
  have hone := (ordered_run hf.ordered hf.numbered h).1.demanders
  obtain ⟨d', hd', -, hsole'⟩ := Alone.runs ⟨d, hf.demanders, hf.ordered.steady, hsole⟩ h
  rw [hone] at hd'
  cases hd'
  exact hsole'

end Cluster
end Rebalance
