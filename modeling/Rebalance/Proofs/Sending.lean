/-
  Rebalance.Proofs.Sending

  What becomes of a send.  It is refused, accepted, which puts its message into
  a queue, or it waits for room, and then a take accepts it or it ends in an
  error.  `Orderly` says that a send that waits does so in one place and has not
  ended; `Thinned` covers everything by which messages can only get lost, and
  `Taken` and `Given` are a take and a send.
-/
import Mathlib.Data.List.Nodup
import Rebalance.Proofs.Routing

namespace Rebalance

/-- Where a route leads. -/
def Route.address (r : Route) : NodeId × Topic := (r.node, r.topic)

theorem Route.node_congr {r r' : Route} (h : r'.address = r.address) : r'.node = r.node :=
  congrArg Prod.fst h

theorem Route.topic_congr {r r' : Route} (h : r'.address = r.address) : r'.topic = r.topic :=
  congrArg Prod.snd h

namespace Network

variable {n m : Network} {i : RouteId} {id : SendId} {e : Envelope}

/-- The message of a send has come into a queue. -/
def accepted (n : Network) (id : SendId) : Bool := (n.result? id).any Except.isOk

theorem result?_settle (n : Network) (id k : SendId) (r : Except NetworkFault Unit) :
    (n.settle id r).result? k = if k = id then some r else n.result? k := by
  unfold settle result?
  rw [List.find?_cons]
  by_cases hk : k = id
  · rw [if_pos hk, hk]
    simp
  · rw [if_neg hk, beq_eq_false_iff_ne.mpr (Ne.symm hk)]

theorem accepted_congr (h : m.result? id = n.result? id) : m.accepted id = n.accepted id := by
  rw [accepted, h, accepted]

/-- Sends are numbered in order, a send that waits has not ended, and it waits in one place. -/
structure Orderly (n : Network) : Prop where
  fresh : ∀ id, n.sends ≤ id → n.result? id = none
  waits : ∀ (i : RouteId) (r : Route) (w : Waiter), n.routes[i]? = some r → w ∈ r.waiting →
    w.id < n.sends ∧ n.result? w.id = none
  once : ∀ (i : RouteId) (r : Route), n.routes[i]? = some r → (r.waiting.map (·.id)).Nodup
  apart : ∀ (i j : RouteId) (r s : Route) (v w : Waiter), n.routes[i]? = some r →
    n.routes[j]? = some s → v ∈ r.waiting → w ∈ s.waiting → v.id = w.id → i = j

/-- The next send has not been accepted yet. -/
theorem Orderly.accepted_next (ho : n.Orderly) : n.accepted n.sends = false := by
  rw [accepted, ho.fresh _ (Nat.le_refl _)]
  rfl

/-- What waits for room has not been accepted yet. -/
theorem Orderly.accepted_waiting (ho : n.Orderly) {r : Route} {w : Waiter}
    (hr : n.routes[i]? = some r) (hw : w ∈ r.waiting) : n.accepted w.id = false := by
  rw [accepted, (ho.waits i r w hr hw).2]
  rfl

/-- A network on which nothing was sent yet. -/
theorem orderly_of_still (hr : n.results = []) (hw : ∀ r ∈ n.routes, r.waiting = []) :
    n.Orderly where
  fresh id _ := by rw [result?, hr]; rfl
  waits i r w hi h := by
    rw [hw r (List.mem_of_getElem? hi)] at h
    exact absurd h List.not_mem_nil
  once i r hi := by
    rw [hw r (List.mem_of_getElem? hi)]
    exact List.nodup_nil
  apart i j r s v w hi _ h := by
    rw [hw r (List.mem_of_getElem? hi)] at h
    exact absurd h List.not_mem_nil

-- ============================================================================
-- Losses
-- ============================================================================

/-- From one network to another no message has come, and sends may have failed, which do not wait
    any more then. -/
structure Thinned (n m : Network) : Prop where
  size : m.routes.length = n.routes.length
  sends : m.sends = n.sends
  routes : ∀ (i : RouteId) (r' : Route), m.routes[i]? = some r' →
    ∃ r, n.routes[i]? = some r ∧ r'.address = r.address ∧ r'.queue.Sublist r.queue ∧
      r'.waiting.Sublist r.waiting
  results : ∀ id, m.result? id = n.result? id ∨
    (n.result? id = none ∧ id < n.sends ∧ (∃ cause, m.result? id = some (.error cause)) ∧
      ∀ (i : RouteId) (r : Route) (w : Waiter), m.routes[i]? = some r → w ∈ r.waiting → w.id ≠ id)

namespace Thinned

theorem address (h : Thinned n m) (i : RouteId) :
    (m.routes[i]?).map Route.address = (n.routes[i]?).map Route.address := by
  cases hm : m.routes[i]? with
  | none =>
    rw [List.getElem?_eq_none_iff, h.size, ← List.getElem?_eq_none_iff] at hm
    rw [hm]
  | some r' =>
    obtain ⟨r, hr, ha, -⟩ := h.routes i r' hm
    rw [hr, Option.map_some, Option.map_some, ha]

/-- A send that failed was not accepted before, and is not after. -/
theorem accepted (h : Thinned n m) (id : SendId) : m.accepted id = n.accepted id := by
  rcases h.results id with hsame | ⟨hnone, -, ⟨cause, herror⟩, -⟩
  · exact accepted_congr hsame
  · rw [Network.accepted, herror, Network.accepted, hnone]
    rfl

theorem orderly (h : Thinned n m) (ho : n.Orderly) : m.Orderly where
  fresh id hid := by
    rw [h.sends] at hid
    rcases h.results id with hsame | ⟨-, hlt, -⟩
    · exact hsame.trans (ho.fresh id hid)
    · exact absurd hlt (Nat.not_lt.mpr hid)
  waits i r' w hi hw := by
    obtain ⟨r, hr, -, -, hsub⟩ := h.routes i r' hi
    obtain ⟨hlt, hnone⟩ := ho.waits i r w hr (hsub.subset hw)
    refine ⟨h.sends ▸ hlt, ?_⟩
    rcases h.results w.id with hsame | ⟨-, -, -, hgone⟩
    · exact hsame.trans hnone
    · exact absurd rfl (hgone i r' w hi hw)
  once i r' hi := by
    obtain ⟨r, hr, -, -, hsub⟩ := h.routes i r' hi
    exact (ho.once i r hr).sublist (hsub.map _)
  apart i j r' s' v w hi hj hv hw := by
    obtain ⟨r, hr, -, -, hsub⟩ := h.routes i r' hi
    obtain ⟨s, hs, -, -, hsub'⟩ := h.routes j s' hj
    exact ho.apart i j r s v w hr hs (hsub.subset hv) (hsub'.subset hw)

theorem refl (n : Network) : Thinned n n :=
  ⟨rfl, rfl, fun _ r h => ⟨r, h, rfl, List.Sublist.refl _, List.Sublist.refl _⟩, fun _ => .inl rfl⟩

/-- Nothing has ended when a route or a node is only listed differently. -/
theorem of_routes {f : Route → Route} (hf : ∀ r, (f r).address = r.address ∧
    (f r).queue = r.queue ∧ (f r).waiting = r.waiting) (hsends : m.sends = n.sends)
    (hresults : m.results = n.results)
    (hroutes : ∀ i : RouteId, m.routes[i]? = (n.routes[i]?).map f ∨ m.routes[i]? = n.routes[i]?)
    (hsize : m.routes.length = n.routes.length) : Thinned n m where
  size := hsize
  sends := hsends
  routes i r' hi := by
    rcases hroutes i with h | h
    · obtain ⟨r, hr, rfl⟩ := Option.map_eq_some_iff.mp (h.symm.trans hi)
      obtain ⟨ha, hq, hw⟩ := hf r
      exact ⟨r, hr, ha, hq ▸ List.Sublist.refl _, hw ▸ List.Sublist.refl _⟩
    · exact ⟨r', h.symm.trans hi, rfl, List.Sublist.refl _, List.Sublist.refl _⟩
  results id := .inl (by rw [result?, hresults, result?])

end Thinned

theorem thinned_depart (n : Network) (node : NodeId) : Thinned n (n.depart node) := by
  refine .of_routes (f := fun r => if r.node = node then { r with registered := false } else r)
    (fun r => ?_) rfl rfl (fun i => .inl (List.getElem?_map ..)) (List.length_map ..)
  by_cases h : r.node = node
  · rw [if_pos h]
    exact ⟨rfl, rfl, rfl⟩
  · rw [if_neg h]
    exact ⟨rfl, rfl, rfl⟩

theorem thinned_unregister (n : Network) (node : NodeId) (topic : Topic) :
    Thinned n (n.unregister node topic).1 := by
  unfold unregister
  split
  · exact .refl n
  · next k hk =>
    refine .of_routes (f := fun r => { r with registered := false }) (fun r => ⟨rfl, rfl, rfl⟩)
      rfl rfl (fun i => ?_) (List.length_modify ..)
    rw [List.getElem?_modify]
    by_cases hi : k = i
    · exact .inl (by simp only [if_pos hi]; rfl)
    · exact .inr (by simp only [if_neg hi]; exact Option.map_id_apply)

/-- Listening on many topics is given up at once. -/
theorem thinned_unregisterAll (node : NodeId) (topics : List Topic) (n : Network) :
    (topics.foldl (fun n t => (n.unregister node t).1) n).results = n.results ∧
      Thinned n (topics.foldl (fun n t => (n.unregister node t).1) n) := by
  induction topics generalizing n with
  | nil => exact ⟨rfl, .refl n⟩
  | cons t topics ih =>
    obtain ⟨hresults, hrest⟩ := ih (n.unregister node t).1
    have hfirst := thinned_unregister n node t
    have hsame : (n.unregister node t).1.results = n.results := by
      unfold unregister
      split <;> rfl
    refine ⟨hresults.trans hsame, hrest.size.trans hfirst.size, hrest.sends.trans hfirst.sends,
      fun i r' hi => ?_, fun id => .inl ?_⟩
    · obtain ⟨r, hr, ha, hq, hw⟩ := hrest.routes i r' hi
      obtain ⟨r₀, hr₀, ha₀, hq₀, hw₀⟩ := hfirst.routes i r hr
      exact ⟨r₀, hr₀, ha.trans ha₀, hq.trans hq₀, hw.trans hw₀⟩
    · rw [List.foldl_cons, result?, hresults, hsame, result?]

/-- Sends that end in errors. -/
theorem result?_fail {α : Type} (f : α → SendId) (cause : α → NetworkFault) (l : List α)
    (n : Network) :
    let m := l.foldl (fun n x => n.settle (f x) (.error (cause x))) n
    m.routes = n.routes ∧ m.sends = n.sends ∧
      ∀ id, m.result? id = n.result? id ∧ (∀ x ∈ l, f x ≠ id) ∨
        (∃ x ∈ l, f x = id) ∧ ∃ c, m.result? id = some (.error c) := by
  induction l generalizing n with
  | nil => exact ⟨rfl, rfl, fun id => .inl ⟨rfl, fun x hx => absurd hx List.not_mem_nil⟩⟩
  | cons x l ih =>
    obtain ⟨hroutes, hsends, hresults⟩ := ih (n.settle (f x) (.error (cause x)))
    refine ⟨hroutes, hsends, fun id => ?_⟩
    rcases hresults id with ⟨hsame, hnot⟩ | ⟨⟨y, hy, hid⟩, herror⟩
    · rw [List.foldl_cons, hsame, result?_settle]
      by_cases hx : id = f x
      · rw [if_pos hx]
        exact .inr ⟨⟨x, List.mem_cons_self, hx.symm⟩, _, rfl⟩
      · rw [if_neg hx]
        refine .inl ⟨rfl, fun y hy => ?_⟩
        rcases List.mem_cons.mp hy with rfl | hy
        · exact Ne.symm hx
        · exact hnot y hy
    · exact .inr ⟨⟨y, List.mem_cons_of_mem x hy, hid⟩, herror⟩

theorem thinned_kill (ho : n.Orderly) (i : RouteId) : Thinned n (n.kill i) := by
  unfold kill
  split
  · exact .refl n
  · next r hr =>
    obtain ⟨hroutes, hsends, hresults⟩ := result?_fail (fun w : Waiter => w.id)
      (fun _ => n.deadFault r) r.waiting
      { n with routes := n.routes.set i { r with alive := false, queue := [], waiting := [] } }
    refine ⟨by rw [hroutes, List.length_set], hsends, fun j r' hj => ?_, fun id => ?_⟩
    · rw [hroutes, List.getElem?_set] at hj
      by_cases hij : i = j
      · subst hij
        rw [if_pos rfl, if_pos (List.getElem?_eq_some_iff.mp hr).1] at hj
        obtain rfl := Option.some.inj hj
        exact ⟨r, hr, rfl, List.nil_sublist _, List.nil_sublist _⟩
      · rw [if_neg hij] at hj
        exact ⟨r', hj, rfl, List.Sublist.refl _, List.Sublist.refl _⟩
    · rcases hresults id with ⟨hsame, -⟩ | ⟨⟨w, hw, rfl⟩, herror⟩
      · exact .inl hsame
      · obtain ⟨hlt, hnone⟩ := ho.waits i r w hr hw
        refine .inr ⟨hnone, hlt, herror, fun j r' v hj hv heq => ?_⟩
        rw [hroutes, List.getElem?_set] at hj
        by_cases hij : i = j
        · rw [if_pos hij, if_pos (List.getElem?_eq_some_iff.mp hr).1] at hj
          obtain rfl := Option.some.inj hj
          exact List.not_mem_nil hv
        · rw [if_neg hij] at hj
          exact hij (ho.apart j i r' r v w hj hr hv hw heq).symm

theorem thinned_elapse (ho : n.Orderly) (ms : Nat) : Thinned n (n.elapse ms) := by
  unfold elapse
  obtain ⟨hroutes, hsends, hresults⟩ := result?_fail (fun w : SendId × NodeId => w.1)
    (fun w => .timeout w.2)
    (n.routes.flatMap fun r =>
      (r.waiting.filter (Waiter.isOver (n.now + ms))).map fun w => (w.id, r.node))
    { n with
      now := n.now + ms
      routes := n.routes.map fun r =>
        { r with waiting := r.waiting.filter fun w => !Waiter.isOver (n.now + ms) w } }
  refine ⟨by rw [hroutes, List.length_map], hsends, fun j r' hj => ?_, fun id => ?_⟩
  · rw [hroutes, List.getElem?_map] at hj
    obtain ⟨r, hr, rfl⟩ := Option.map_eq_some_iff.mp hj
    exact ⟨r, hr, rfl, List.Sublist.refl _, List.filter_sublist⟩
  · rcases hresults id with ⟨hsame, -⟩ | ⟨⟨x, hx, rfl⟩, herror⟩
    · exact .inl hsame
    · obtain ⟨r, hr, hx⟩ := List.mem_flatMap.mp hx
      obtain ⟨w, hw, rfl⟩ := List.mem_map.mp hx
      obtain ⟨hw, hover⟩ := List.mem_filter.mp hw
      obtain ⟨i, hi⟩ := List.mem_iff_getElem?.mp hr
      obtain ⟨hlt, hnone⟩ := ho.waits i r w hi hw
      refine .inr ⟨hnone, hlt, herror, fun j r' v hj hv heq => ?_⟩
      rw [hroutes, List.getElem?_map] at hj
      obtain ⟨s, hs, rfl⟩ := Option.map_eq_some_iff.mp hj
      obtain ⟨hv, hstill⟩ := List.mem_filter.mp hv
      obtain rfl := ho.apart j i s r v w hs hi hv hw heq
      obtain rfl := Option.some.inj (hs.symm.trans hi)
      -- Both wait on one route, so they are the same send.
      obtain rfl : v = w := List.inj_on_of_nodup_map (ho.once j s hs) hv hw heq
      rw [hover] at hstill
      cases hstill

-- ============================================================================
-- Changes to one route
-- ============================================================================

theorem getElem?_set_route {r : Route} (hr : n.routes[i]? = some r) (r' : Route) (j : RouteId) :
    (n.routes.set i r')[j]? = if j = i then some r' else n.routes[j]? := by
  rw [List.getElem?_set]
  by_cases hij : i = j
  · rw [if_pos hij, if_pos hij.symm, if_pos (hij ▸ (List.getElem?_eq_some_iff.mp hr).1)]
  · rw [if_neg hij, if_neg (Ne.symm hij)]

/-- A take: the first message of a route comes off its queue, and the first send that waits for room
    there is accepted. -/
structure Taken (n m : Network) (i : RouteId) (e : Envelope) (r r' : Route) : Prop where
  route : n.routes[i]? = some r
  routes : m.routes = n.routes.set i r'
  address : r'.address = r.address
  sends : m.sends = n.sends
  gone : (r.waiting = [] ∧ r'.waiting = [] ∧ r.queue = e :: r'.queue ∧ m.results = n.results) ∨
    ∃ w queue, r.waiting = w :: r'.waiting ∧ r.queue = e :: queue ∧
      r'.queue = queue ++ [w.envelope] ∧ m.results = (w.id, .ok ()) :: n.results

theorem taken_of_take (h : n.take i = some (e, m)) : ∃ r r', Taken n m i e r r' := by
  unfold take at h
  split at h
  · cases h
  · next r hr =>
    split at h
    · cases h
    · next e' queue hq =>
      split at h
      · next hw =>
        cases h
        exact ⟨r, { r with queue }, hr, rfl, rfl, rfl, .inl ⟨hw, hw, hq, rfl⟩⟩
      · next w waiting hw =>
        cases h
        exact ⟨r, { r with queue := queue ++ [w.envelope], waiting }, hr, rfl, rfl, rfl,
          .inr ⟨w, queue, hw, hq, rfl, rfl⟩⟩

namespace Taken

variable {r r' : Route}

theorem getElem? (h : Taken n m i e r r') (j : RouteId) :
    m.routes[j]? = if j = i then some r' else n.routes[j]? := by
  rw [h.routes]
  exact getElem?_set_route h.route r' j

theorem waiting (h : Taken n m i e r r') : r'.waiting.Sublist r.waiting := by
  rcases h.gone with ⟨hw, hw', -⟩ | ⟨w, queue, hw, -⟩
  · rw [hw, hw']
  · rw [hw]
    exact List.sublist_cons_self w r'.waiting

/-- Who waits after a take has waited before it. -/
theorem route_before (h : Taken n m i e r r') {j : RouteId} {s : Route} (hs : m.routes[j]? = some s) :
    ∃ t, n.routes[j]? = some t ∧ s.waiting.Sublist t.waiting := by
  rw [h.getElem? j] at hs
  by_cases hj : j = i
  · rw [if_pos hj, Option.some.injEq] at hs
    exact ⟨r, hj ▸ h.route, hs ▸ h.waiting⟩
  · rw [if_neg hj] at hs
    exact ⟨s, hs, List.Sublist.refl _⟩

/-- Only a send that has waited for room ends with a take. -/
theorem result? (h : Taken n m i e r r') {id : SendId} (hid : ∀ w ∈ r.waiting.head?, id ≠ w.id) :
    m.result? id = n.result? id := by
  rcases h.gone with ⟨-, -, -, hsame⟩ | ⟨v, queue, hv, -, -, hresults⟩
  · rw [Network.result?, hsame, Network.result?]
  · have hsettle := result?_settle n v.id id (.ok ())
    rw [if_neg (hid v (by rw [hv]; rfl))] at hsettle
    rw [Network.result?, hresults]
    exact hsettle

/-- Whoever still waits is not the send that was accepted. -/
theorem result?_waiting (h : Taken n m i e r r') (ho : n.Orderly) {j : RouteId} {s : Route}
    {w : Waiter} (hs : m.routes[j]? = some s) (hw : w ∈ s.waiting) :
    m.result? w.id = n.result? w.id := by
  refine h.result? fun v hv heq => ?_
  obtain ⟨t, ht, hsub⟩ := h.route_before hs
  have hmem : v ∈ r.waiting := List.mem_of_mem_head? hv
  obtain rfl := ho.apart j i t r w v ht h.route (hsub.subset hw) hmem heq
  rw [h.getElem? j, if_pos rfl, Option.some.injEq] at hs
  rcases h.gone with ⟨hnil, -⟩ | ⟨v', queue, hv', -⟩
  · rw [hnil] at hmem
    exact List.not_mem_nil hmem
  · have honce := ho.once j r h.route
    rw [hv'] at hv
    obtain rfl : v' = v := Option.some.inj hv
    rw [hv', List.map_cons, List.nodup_cons] at honce
    exact honce.1 (heq ▸ List.mem_map_of_mem (hs ▸ hw))

/-- A send that waits elsewhere, or behind the first one, still waits. -/
theorem orderly (h : Taken n m i e r r') (ho : n.Orderly) : m.Orderly where
  fresh id hid := by
    rw [h.sends] at hid
    refine (h.result? fun w hw heq => ?_).trans (ho.fresh id hid)
    have hlt := (ho.waits i r w h.route (List.mem_of_mem_head? hw)).1
    exact Nat.ne_of_gt (Nat.lt_of_lt_of_le hlt hid) heq
  waits j s w hs hw := by
    obtain ⟨t, ht, hsub⟩ := h.route_before hs
    rw [h.sends, h.result?_waiting ho hs hw]
    exact ho.waits j t w ht (hsub.subset hw)
  once j s hs := by
    obtain ⟨t, ht, hsub⟩ := h.route_before hs
    exact (ho.once j t ht).sublist (hsub.map _)
  apart j k s t v w hs ht hv hw := by
    obtain ⟨s', hs', hsub⟩ := h.route_before hs
    obtain ⟨t', ht', hsub'⟩ := h.route_before ht
    exact ho.apart j k s' t' v w hs' ht' (hsub.subset hv) (hsub'.subset hw)

end Taken

/-- A send: it is refused, or its message comes behind all others on a route of that address, into
    the queue or to wait for room. -/
inductive Given (n m : Network) (target : NodeId) (topic : Topic) (e : Envelope) : Prop where
  | refused (hr : m.routes = n.routes) (cause : NetworkFault)
      (h : m.results = (n.sends, .error cause) :: n.results)
  | queued (i : RouteId) (r : Route) (hr : n.routes[i]? = some r) (ha : r.address = (target, topic))
      (hm : m.routes = n.routes.set i { r with queue := r.queue ++ [e] })
      (h : m.results = (n.sends, .ok ()) :: n.results)
  | waits (i : RouteId) (r : Route) (hr : n.routes[i]? = some r) (ha : r.address = (target, topic))
      (deadline : Option Nat)
      (hm : m.routes = n.routes.set i { r with waiting := r.waiting ++ [⟨n.sends, e, deadline⟩] })
      (h : m.results = n.results)

theorem given_of_send (n : Network) (sender target : NodeId) (topic : Topic) (message : Message)
    (timeout : Span) :
    (n.send sender target topic message timeout).2 = n.sends ∧
      (n.send sender target topic message timeout).1.sends = n.sends + 1 ∧
      Given n (n.send sender target topic message timeout).1 target topic
        ⟨sender, Wire.encode message⟩ := by
  refine ⟨rfl, ?_, ?_⟩
  · unfold send
    simp only
    split
    · rfl
    · split
      · rfl
      · split
        · rfl
        · unfold offer
          split
          · rfl
          · split <;> rfl
  · unfold send
    simp only
    split
    · exact .refused rfl _ rfl
    · split
      · exact .refused rfl _ rfl
      · next i hi =>
        split
        · exact .refused rfl _ rfl
        · next r hr =>
          have haddress : r.address = (target, topic) := by
            obtain ⟨s, hs, hnode, htopic⟩ := face_of_find? (n := n) hi
            obtain rfl : s = r := Option.some.inj (hs.symm.trans hr)
            rw [Route.address, hnode, htopic]
          unfold offer
          split
          · exact .refused rfl _ rfl
          · split
            · exact .queued i r hr haddress rfl rfl
            · exact .waits i r hr haddress _ rfl rfl

namespace Given

variable {target : NodeId} {topic : Topic}

/-- The sends before it end as they would without it. -/
theorem result? (h : Given n m target topic e) {k : SendId} (hk : k ≠ n.sends) :
    m.result? k = n.result? k := by
  have hsettle : ∀ r, m.results = (n.sends, r) :: n.results → m.result? k = n.result? k := by
    intro r hm
    have hs := result?_settle n n.sends k r
    rw [if_neg hk] at hs
    rw [Network.result?, hm]
    exact hs
  cases h with
  | refused _ cause h => exact hsettle _ h
  | queued _ _ _ _ _ h => exact hsettle _ h
  | waits _ _ _ _ _ _ h => rw [Network.result?, h, Network.result?]

/-- Who waits after a send waited before it, or is that send. -/
theorem waiting (h : Given n m target topic e) {j : RouteId} {s : Route}
    (hs : m.routes[j]? = some s) :
    ∃ t, n.routes[j]? = some t ∧ s.address = t.address ∧
      (s.waiting = t.waiting ∨
        ∃ deadline, s.waiting = t.waiting ++ [⟨n.sends, e, deadline⟩] ∧ t.address = (target, topic) ∧
          m.result? n.sends = n.result? n.sends ∧
          ∀ (k : RouteId) (u : Route), m.routes[k]? = some u → k ≠ j →
            n.routes[k]? = some u) := by
  cases h with
  | refused hr _ _ =>
    rw [hr] at hs
    exact ⟨s, hs, rfl, .inl rfl⟩
  | queued i r hr ha hm _ =>
    rw [hm, getElem?_set_route hr] at hs
    by_cases hj : j = i
    · rw [if_pos hj, Option.some.injEq] at hs
      exact ⟨r, hj ▸ hr, hs ▸ rfl, .inl (hs ▸ rfl)⟩
    · rw [if_neg hj] at hs
      exact ⟨s, hs, rfl, .inl rfl⟩
  | waits i r hr ha deadline hm h =>
    rw [hm, getElem?_set_route hr] at hs
    by_cases hj : j = i
    · rw [if_pos hj, Option.some.injEq] at hs
      refine ⟨r, hj ▸ hr, hs ▸ rfl, .inr ⟨deadline, hs ▸ rfl, ha, ?_, fun k u hk hne => ?_⟩⟩
      · rw [Network.result?, h, Network.result?]
      · rwa [hm, getElem?_set_route hr, if_neg (hj ▸ hne)] at hk
    · rw [if_neg hj] at hs
      exact ⟨s, hs, rfl, .inl rfl⟩

theorem orderly (h : Given n m target topic e) (hsends : m.sends = n.sends + 1) (ho : n.Orderly) :
    m.Orderly where
  fresh id hid := by
    rw [hsends] at hid
    exact (h.result? (Nat.ne_of_gt hid)).trans (ho.fresh id (Nat.le_of_succ_le hid))
  waits j s w hs hw := by
    have hold : ∀ t, n.routes[j]? = some t → w ∈ t.waiting →
        w.id < m.sends ∧ m.result? w.id = none := by
      intro t ht hw
      obtain ⟨hlt, hnone⟩ := ho.waits j t w ht hw
      exact ⟨hsends ▸ Nat.lt_succ_of_lt hlt, (h.result? (Nat.ne_of_lt hlt)).trans hnone⟩
    obtain ⟨t, ht, -, hsame | ⟨deadline, hmore, -, hresult, -⟩⟩ := h.waiting hs
    · exact hold t ht (hsame ▸ hw)
    · rw [hmore] at hw
      rcases List.mem_append.mp hw with hw | hw
      · exact hold t ht hw
      · obtain rfl := List.mem_singleton.mp hw
        exact ⟨hsends ▸ Nat.lt_succ_self _, hresult.trans (ho.fresh _ (Nat.le_refl _))⟩
  once j s hs := by
    obtain ⟨t, ht, -, hsame | ⟨deadline, hmore, -⟩⟩ := h.waiting hs
    · exact hsame ▸ ho.once j t ht
    · rw [hmore, List.map_append, List.nodup_append]
      refine ⟨ho.once j t ht, List.nodup_singleton _, fun a ha b hb => ?_⟩
      obtain ⟨w, hw, rfl⟩ := List.mem_map.mp ha
      rw [List.mem_singleton.mp hb]
      exact Nat.ne_of_lt (ho.waits j t w ht hw).1
  apart j k s t v w hs ht hv hw heq := by
    by_contra hjk
    obtain ⟨s', hs', -, hs | ⟨_, hs, -, -, hothers⟩⟩ := h.waiting hs
    · obtain ⟨t', ht', -, ht | ⟨_, ht, -, -, hothers⟩⟩ := h.waiting ht
      · exact hjk (ho.apart j k s' t' v w hs' ht' (hs ▸ hv) (ht ▸ hw) heq)
      · rw [ht] at hw
        rcases List.mem_append.mp hw with hw | hw
        · exact hjk (ho.apart j k s' t' v w hs' ht' (hs ▸ hv) hw heq)
        · -- The new send has a number that no other one has.
          obtain rfl := List.mem_singleton.mp hw
          exact Nat.ne_of_lt (ho.waits j s' v hs' (hs ▸ hv)).1 heq
    · have ht' := hothers k t ht (Ne.symm hjk)
      rw [hs] at hv
      rcases List.mem_append.mp hv with hv | hv
      · exact hjk (ho.apart j k s' t v w hs' ht' hv hw heq)
      · obtain rfl := List.mem_singleton.mp hv
        exact Nat.ne_of_lt (ho.waits k t w ht' hw).1 heq.symm

end Given

end Network
end Rebalance
