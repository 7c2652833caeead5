/-
  Rebalance.Proofs.Routing

  Messages on their way. A route holds what is in its queue and behind it what
  waits for room, in this order. A send that finds a living listener puts its
  message behind all others on that route, a take removes the first one, and
  neither touches another route; every send that ends so ends well.
-/
import Rebalance.Network

namespace Rebalance

/-- All messages on their way to a listener, the next one first. -/
def Route.held (r : Route) : List Envelope := r.queue ++ r.waiting.map (·.envelope)

/-- What does not change about a route as messages come and go. -/
def Route.face (r : Route) : NodeId × Topic × Bool × Bool :=
  (r.node, r.topic, r.registered, r.alive)

namespace Network

/-- All messages on their way on a route. -/
def held (n : Network) (i : RouteId) : List Envelope := ((n.routes[i]?).map Route.held).getD []

/-- Two networks with the same routes and the same nodes that left. -/
structure Alike (n m : Network) : Prop where
  faces : m.routes.map Route.face = n.routes.map Route.face
  departed : m.departed = n.departed

namespace Alike

theorem refl (n : Network) : Alike n n := ⟨rfl, rfl⟩

theorem trans {n m k : Network} (h₁ : Alike n m) (h₂ : Alike m k) : Alike n k :=
  ⟨h₂.faces.trans h₁.faces, h₂.departed.trans h₁.departed⟩

variable {n m : Network}

theorem face (h : Alike n m) (i : RouteId) :
    (m.routes[i]?).map Route.face = (n.routes[i]?).map Route.face := by
  rw [← List.getElem?_map, ← List.getElem?_map, h.faces]

/-- Who listens where does not change. -/
theorem find? (h : Alike n m) (node : NodeId) (topic : Topic) :
    m.find? node topic = n.find? node topic := by
  have hface : ∀ k : Network, k.find? node topic =
      (k.routes.map Route.face).findIdx? fun f => f.2.2.1 && f.1 == node && f.2.1 == topic := by
    intro k
    rw [List.findIdx?_map]
    rfl
  rw [hface m, hface n, h.faces]

theorem hasLeft (h : Alike n m) (node : NodeId) : m.hasLeft node = n.hasLeft node := by
  rw [Network.hasLeft, h.departed]
  rfl

end Alike

-- ============================================================================
-- One route at a time
-- ============================================================================

/-- From one network to another at most one route has changed what it holds, and no send has
    failed. -/
structure Rerouted (i : RouteId) (n m : Network) : Prop where
  alike : Alike n m
  others : ∀ j, j ≠ i → m.held j = n.held j
  results : ∀ x ∈ m.results, x ∈ n.results ∨ x.2 = .ok ()

theorem Rerouted.refl (i : RouteId) (n : Network) : Rerouted i n n :=
  ⟨.refl n, fun _ _ => rfl, fun _ h => .inl h⟩

variable {n m : Network} {i : RouteId} {r : Route}

/-- Whatever a route keeps as it is replaced, the routes keep. -/
theorem map_set {α : Type} {f : Route → α} (h : n.routes[i]? = some r) {r' : Route}
    (hf : f r' = f r) : (n.routes.set i r').map f = n.routes.map f := by
  rw [List.map_set, hf]
  apply List.ext_getElem?
  intro j
  rw [List.getElem?_set]
  by_cases hij : i = j
  · subst hij
    have hi : i < (n.routes.map f).length := by
      rw [List.length_map]
      exact (List.getElem?_eq_some_iff.mp h).1
    rw [if_pos rfl, if_pos hi, List.getElem?_map, h]
    rfl
  · rw [if_neg hij]

theorem faces_set (h : n.routes[i]? = some r) {r' : Route} (hf : r'.face = r.face) :
    (n.routes.set i r').map Route.face = n.routes.map Route.face := map_set h hf

theorem held_set_ne (n : Network) (r' : Route) {j : RouteId} (hj : j ≠ i) :
    (((n.routes.set i r')[j]?).map Route.held).getD [] = n.held j := by
  rw [List.getElem?_set_ne (Ne.symm hj)]
  rfl

theorem held_set (h : n.routes[i]? = some r) (r' : Route) :
    (((n.routes.set i r')[i]?).map Route.held).getD [] = r'.held := by
  rw [List.getElem?_set_self (List.getElem?_eq_some_iff.mp h).1]
  rfl

theorem held_eq (h : n.routes[i]? = some r) : n.held i = r.held := by
  rw [held, h]
  rfl

/-- Who is found listens there. -/
theorem face_of_find? {node : NodeId} {topic : Topic} (h : n.find? node topic = some i) :
    ∃ r, n.routes[i]? = some r ∧ r.node = node ∧ r.topic = topic := by
  obtain ⟨hi, hr, -⟩ := List.findIdx?_eq_some_iff_getElem.mp h
  rw [Bool.and_eq_true, Bool.and_eq_true, beq_iff_eq, beq_iff_eq] at hr
  exact ⟨n.routes[i], List.getElem?_eq_getElem hi, hr.1.2, hr.2⟩

-- ============================================================================
-- Sending
-- ============================================================================

/-- A send to a living listener puts its message behind all others. -/
theorem send_held {target : NodeId} {topic : Topic} (hleft : n.hasLeft target = false)
    (hf : n.find? target topic = some i) (hr : n.routes[i]? = some r) (ha : r.alive = true)
    (sender : NodeId) (message : Message) (timeout : Span) :
    Rerouted i n (n.send sender target topic message timeout).1 ∧
      (n.send sender target topic message timeout).1.held i =
        n.held i ++ [⟨sender, Wire.encode message⟩] ∧
      (n.send sender target topic message timeout).1.sends = n.sends + 1 ∧
      (n.send sender target topic message timeout).2 = n.sends := by
  have hleft' : ({ n with sends := n.sends + 1 } : Network).hasLeft target = false := hleft
  have hf' : ({ n with sends := n.sends + 1 } : Network).find? target topic = some i := hf
  have hsend : (n.send sender target topic message timeout).1 =
      ({ n with sends := n.sends + 1 } : Network).offer i r n.sends
        ⟨sender, Wire.encode message⟩ timeout := by
    simp only [send, hleft', hf', hr, Bool.false_eq_true, if_false]
  rw [hsend, offer]
  simp only [ha, Bool.not_true, Bool.false_eq_true, if_false]
  by_cases hroom : (r.queue.length < routeCapacity && r.waiting.isEmpty) = true
  · rw [if_pos hroom]
    rw [Bool.and_eq_true] at hroom
    have hwaiting : r.waiting = [] := List.isEmpty_iff.mp hroom.2
    refine ⟨⟨⟨faces_set hr (by simp only [Route.face, ha]), rfl⟩,
      fun j hj => held_set_ne n _ hj, ?_⟩, ?_, rfl, rfl⟩
    · intro x hx
      rcases List.mem_cons.mp hx with rfl | hx
      · exact .inr rfl
      · exact .inl hx
    · rw [held_eq hr]
      refine (held_set hr _).trans ?_
      simp only [Route.held, hwaiting, List.map_nil, List.append_nil]
  · rw [if_neg hroom]
    refine ⟨⟨⟨faces_set hr (by simp only [Route.face, ha]), rfl⟩,
      fun j hj => held_set_ne n _ hj, fun x hx => .inl hx⟩, ?_, rfl, rfl⟩
    rw [held_eq hr]
    refine (held_set hr _).trans ?_
    simp only [Route.held, List.map_append, List.append_assoc, List.map_cons, List.map_nil]

-- ============================================================================
-- Receiving
-- ============================================================================

/-- A take removes the first message of a route. -/
theorem take_held {e : Envelope} (h : n.take i = some (e, m)) :
    Rerouted i n m ∧ n.held i = e :: m.held i ∧ m.sends = n.sends := by
  unfold take at h
  split at h
  · cases h
  · next r hr =>
    split at h
    · cases h
    · next e' queue hq =>
      split at h
      · next hw =>
        cases h
        refine ⟨⟨⟨faces_set hr rfl, rfl⟩, fun j hj => held_set_ne n _ hj, fun x hx => .inl hx⟩,
          ?_, rfl⟩
        rw [held_eq hr, Route.held, hq, hw]
        refine congrArg (e :: ·) ?_
        refine Eq.trans ?_ (held_set hr _).symm
        rfl
      · next w waiting hw =>
        cases h
        refine ⟨⟨⟨faces_set hr rfl, rfl⟩, fun j hj => held_set_ne n _ hj, ?_⟩, ?_, rfl⟩
        · intro x hx
          rcases List.mem_cons.mp hx with rfl | hx
          · exact .inr rfl
          · exact .inl hx
        · rw [held_eq hr, Route.held, hq, hw]
          refine congrArg (e :: ·) ?_
          refine Eq.trans ?_ (held_set hr _).symm
          simp only [Route.held, List.map_cons, List.append_assoc, List.singleton_append]
          rfl

/-- There is nothing to take off a route that holds nothing. -/
theorem take_of_held_nil (h : n.held i = []) : n.take i = none := by
  cases ht : n.take i with
  | none => rfl
  | some x =>
    obtain ⟨e, m⟩ := x
    rw [(take_held ht).2.1] at h
    cases h

/-- How a send ended is among the results. -/
theorem mem_of_result? {id : SendId} {x : Except NetworkFault Unit} (h : n.result? id = some x) :
    (id, x) ∈ n.results := by
  unfold result? at h
  obtain ⟨y, hy, rfl⟩ := Option.map_eq_some_iff.mp h
  have hid : y.1 = id := by simpa using List.find?_some hy
  rw [← hid]
  exact List.mem_of_find?_eq_some hy

end Network
end Rebalance
