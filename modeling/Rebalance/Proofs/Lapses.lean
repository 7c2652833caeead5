/-
  Rebalance.Proofs.Lapses

  What happens to a network without a letter being accepted. A route is added,
  given up or left behind by its node, a listener dies, and sends fail whose
  time is over. `Lapsed` covers them all, and keeps the ledger.
-/
import Rebalance.Proofs.Posting

namespace Rebalance
namespace Network

variable {n m : Network} {posts : List Post} {p : Post} {i j : RouteId} {id : SendId}

/-- From one network to another nothing was accepted: routes may have come, be listed differently
    or have lost their listener, and sends that waited may have failed. -/
structure Lapsed (n m : Network) (failed : List (SendId × Except NetworkFault Unit)) : Prop where
  orderly : m.Orderly
  sends : m.sends = n.sends
  results : m.results = failed ++ n.results
  distinct : (failed.map (·.1)).Nodup
  excuse : ∀ x ∈ failed, ∃ (i : RouteId) (r : Route) (w : Waiter) (cause : NetworkFault),
    n.routes[i]? = some r ∧ w ∈ r.waiting ∧ w.id = x.1 ∧ x.2 = .error cause ∧
      ∀ p : Post, r.address = (p.target, p.topic) → m.Excused i p cause
  route : ∀ (i : RouteId) (r : Route), n.routes[i]? = some r → ∃ r', m.routes[i]? = some r' ∧
    r'.address = r.address ∧ r'.waiting.Sublist r.waiting ∧
      (r'.alive = r.alive ∧ r'.queue = r.queue ∨ r'.alive = false ∧ r'.queue = [] ∧ r'.waiting = [])
  fresh : ∀ (i : RouteId) (r' : Route), n.routes[i]? = none → m.routes[i]? = some r' →
    r'.queue = [] ∧ r'.waiting = []

namespace Lapsed

variable {failed : List (SendId × Except NetworkFault Unit)}
  {given : RouteId → List (NodeId × Message)}

theorem excused (h : Lapsed n m failed) {cause : NetworkFault} (hx : n.Excused i p cause) :
    m.Excused i p cause := by
  rcases hx with htime | ⟨r, hr, hdead, hcause⟩
  · exact .inl htime
  · obtain ⟨r', hr', -, -, ⟨halive, -⟩ | ⟨halive, -⟩⟩ := h.route i r hr
    · exact .inr ⟨r', hr', halive.trans hdead, hcause⟩
    · exact .inr ⟨r', hr', halive, hcause⟩

/-- A send that failed was not accepted before, and is not after. -/
theorem accepted (h : Lapsed n m failed) (ho : n.Orderly) (id : SendId) :
    m.accepted id = n.accepted id := by
  have hresult : m.result? id =
      ((failed.find? fun x => x.1 == id).or (n.results.find? fun x => x.1 == id)).map (·.2) := by
    rw [Network.result?, h.results, List.find?_append]
  cases hfind : failed.find? fun x => x.1 == id with
  | none =>
    rw [hfind, Option.none_or] at hresult
    exact accepted_congr hresult
  | some x =>
    rw [hfind, Option.some_or] at hresult
    obtain ⟨i, r, w, cause, hr, hw, hid, hcause, -⟩ := h.excuse x (List.mem_of_find?_eq_some hfind)
    have heq : x.1 = id := by simpa using List.find?_some hfind
    rw [Network.accepted, hresult, ← heq, ← hid, ho.accepted_waiting hr hw, Option.map_some, hcause]
    rfl

/-- A route that is there afterwards is new and empty, or was there before. -/
theorem route_back (h : Lapsed n m failed) {r' : Route} (hr' : m.routes[i]? = some r') :
    n.routes[i]? = none ∧ r'.queue = [] ∧ r'.waiting = [] ∨
      ∃ r, n.routes[i]? = some r ∧ r'.address = r.address ∧ r'.waiting.Sublist r.waiting ∧
        (r'.alive = r.alive ∧ r'.queue = r.queue ∨
          r'.alive = false ∧ r'.queue = [] ∧ r'.waiting = []) := by
  cases hr : n.routes[i]? with
  | none => exact .inl ⟨rfl, h.fresh i r' hr hr'⟩
  | some r =>
    obtain ⟨s, hs, hkept⟩ := h.route i r hr
    obtain rfl := Option.some.inj (hs.symm.trans hr')
    exact .inr ⟨r, rfl, hkept⟩

/-- No send gets its result a second time: what failed was waiting. -/
theorem once (h : Lapsed n m failed) (hl : Ledger posts given n) :
    (m.results.map (·.1)).Nodup := by
  rw [h.results, List.map_append, List.nodup_append]
  refine ⟨h.distinct, hl.once, ?_⟩
  rintro id hfailed k hk rfl
  obtain ⟨x, hx, rfl⟩ := List.mem_map.mp hfailed
  obtain ⟨i, r, w, -, hr, hw, hid, -⟩ := h.excuse x hx
  exact result?_eq_none_iff.mp (hl.orderly.waits i r w hr hw).2 (hid ▸ hk)

theorem balanced (h : Lapsed n m failed) (hl : Ledger posts given n) {r' : Route}
    (hr' : m.routes[i]? = some r') :
    Balanced (lettersOn posts m i) (given i) r'.alive r'.queue := by
  have hletters : lettersOn posts m i = lettersOn posts n i := by
    refine letters_errors (fun x hx => ?_) h.results i
    obtain ⟨-, -, -, cause, -, -, -, hcause, -⟩ := h.excuse x hx
    exact ⟨cause, hcause⟩
  rw [hletters]
  rcases h.route_back hr' with ⟨hr, hqueue, -⟩ | ⟨r, hr, -, -, hkept⟩
  · rw [hl.letters_unrouted hr, hl.unrouted i hr, hqueue]
    exact ⟨[], [], rfl, rfl, fun _ => rfl⟩
  · have hb := hl.balanced i r hr
    rcases hkept with ⟨halive, hqueue⟩ | ⟨halive, hqueue, -⟩
    · rw [halive, hqueue]
      exact hb
    · rw [halive, hqueue]
      exact hb.die

/-- A send that fails has an excuse: it was waiting on its own route. -/
theorem excuses (h : Lapsed n m failed) (hl : Ledger posts given n) {cause : NetworkFault}
    (hp : posts[id]? = some p) (hi : p.route = some i) (hx : (id, .error cause) ∈ failed) :
    m.Excused i p cause := by
  obtain ⟨j, r, w, cause', hr, hw, hid, hcause, hexcuse⟩ := h.excuse _ hx
  obtain rfl : cause = cause' := Except.error.inj hcause
  obtain ⟨q, hq, hj, -⟩ := hl.waits j r w hr hw
  rw [hid, hp] at hq
  obtain rfl := Option.some.inj hq
  obtain rfl := Option.some.inj (hi.symm.trans hj)
  obtain ⟨r₀, hr₀, haddress⟩ := hl.found p (List.mem_of_getElem? hp) i hi
  obtain rfl := Option.some.inj (hr₀.symm.trans hr)
  exact hexcuse p haddress

theorem ledger (h : Lapsed n m failed) (hl : Ledger posts given n) : Ledger posts given m where
  orderly := h.orderly
  counted := hl.counted.trans h.sends.symm
  once := h.once hl
  found p hp i hi := by
    obtain ⟨r, hr, haddress⟩ := hl.found p hp i hi
    obtain ⟨r', hr', hsame, -⟩ := h.route i r hr
    exact ⟨r', hr', hsame.trans haddress⟩
  waits i r' w hr' hw := by
    rcases h.route_back hr' with ⟨-, -, hnone⟩ | ⟨r, hr, -, hsub, -⟩
    · rw [hnone] at hw
      exact absurd hw List.not_mem_nil
    · exact hl.waits i r w hr (hsub.subset hw)
  alive i r' hr' hw := by
    rcases h.route_back hr' with ⟨-, -, hnone⟩ | ⟨r, hr, -, hsub, ⟨halive, -⟩ | ⟨-, -, hnone⟩⟩
    · exact absurd hnone hw
    · refine halive.trans (hl.alive i r hr fun hnil => hw ?_)
      rw [hnil] at hsub
      exact List.sublist_nil.mp hsub
    · exact absurd hnone hw
  balanced i r' hr' := h.balanced hl hr'
  unrouted i hi := by
    refine hl.unrouted i ?_
    cases hr : n.routes[i]? with
    | none => rfl
    | some r =>
      obtain ⟨r', hr', -⟩ := h.route i r hr
      rw [hi] at hr'
      cases hr'
  excused id p i cause hp hi herror := by
    rw [h.results] at herror
    rcases List.mem_append.mp herror with hfailed | hold
    · exact h.excuses hl hp hi hfailed
    · exact h.excused (hl.excused id p i cause hp hi hold)

end Lapsed

theorem lapsed_relisted {f : RouteId → Route → Route} (ho : m.Orderly) (hsends : m.sends = n.sends)
    (hresults : m.results = n.results)
    (hroutes : ∀ i : RouteId, m.routes[i]? = (n.routes[i]?).map (f i))
    (hf : ∀ i r, (f i r).address = r.address ∧ (f i r).waiting = r.waiting ∧
      (f i r).alive = r.alive ∧ (f i r).queue = r.queue) : Lapsed n m [] where
  orderly := ho
  sends := hsends
  results := hresults
  distinct := List.nodup_nil
  excuse := fun x hx => absurd hx List.not_mem_nil
  route i r hr := by
    obtain ⟨haddress, hwaiting, halive, hqueue⟩ := hf i r
    exact ⟨f i r, by rw [hroutes, hr]; rfl, haddress, hwaiting ▸ List.Sublist.refl _,
      .inl ⟨halive, hqueue⟩⟩
  fresh i r' hr hr' := by
    rw [hroutes, hr] at hr'
    cases hr'

theorem lapsed_depart (ho : n.Orderly) (node : NodeId) : Lapsed n (n.depart node) [] := by
  refine lapsed_relisted (f := fun _ r => if r.node = node then { r with registered := false } else r)
    ((thinned_depart n node).orderly ho) rfl rfl (fun i => List.getElem?_map ..) fun i r => ?_
  by_cases h : r.node = node
  · rw [if_pos h]
    exact ⟨rfl, rfl, rfl, rfl⟩
  · rw [if_neg h]
    exact ⟨rfl, rfl, rfl, rfl⟩

theorem lapsed_refl (ho : n.Orderly) : Lapsed n n [] :=
  lapsed_relisted (f := fun _ r => r) ho rfl rfl (fun _ => Option.map_id_apply.symm)
    fun _ _ => ⟨rfl, rfl, rfl, rfl⟩

theorem lapsed_unregister (ho : n.Orderly) (node : NodeId) (topic : Topic) :
    Lapsed n (n.unregister node topic).1 [] := by
  have hm := (thinned_unregister n node topic).orderly ho
  revert hm
  unfold unregister
  split
  · exact fun _ => lapsed_refl ho
  · next k hk =>
    intro hm
    refine lapsed_relisted (f := fun i r => if k = i then { r with registered := false } else r)
      hm rfl rfl (fun i => ?_) fun i r => ?_
    · dsimp only
      rw [List.getElem?_modify]
      by_cases hi : k = i
      · simp only [if_pos hi]
        rfl
      · simp only [if_neg hi]
        rfl
    · by_cases hi : k = i
      · rw [if_pos hi]
        exact ⟨rfl, rfl, rfl, rfl⟩
      · rw [if_neg hi]
        exact ⟨rfl, rfl, rfl, rfl⟩

/-- A new route is empty. -/
theorem lapsed_register (ho : n.Orderly) {node : NodeId} {topic : Topic}
    (h : n.register node topic = .ok (m, i)) : Lapsed n m [] := by
  unfold register at h
  split at h
  · cases h
  · cases h
    have hold : ∀ (j : RouteId) (r : Route), n.routes[j]? = some r →
        (n.routes ++ [({ node, topic } : Route)])[j]? = some r := fun j r hr => by
      rw [List.getElem?_append_left (List.getElem?_eq_some_iff.mp hr).1, hr]
    have hnew : ∀ (j : RouteId) (r : Route), (n.routes ++ [({ node, topic } : Route)])[j]? = some r →
        n.routes[j]? = some r ∨ n.routes[j]? = none ∧ r.queue = [] ∧ r.waiting = [] := by
      intro j r hr
      cases hj : n.routes[j]? with
      | some r₀ => exact .inl ((hold j r₀ hj).symm.trans hr)
      | none =>
        rw [List.getElem?_append_right (List.getElem?_eq_none_iff.mp hj)] at hr
        obtain rfl := List.mem_singleton.mp (List.mem_of_getElem? hr)
        exact .inr ⟨rfl, rfl, rfl⟩
    have hwaits : ∀ (j : RouteId) (r : Route) (w : Waiter),
        (n.routes ++ [({ node, topic } : Route)])[j]? = some r → w ∈ r.waiting →
          n.routes[j]? = some r := by
      intro j r w hr hw
      rcases hnew j r hr with hr | ⟨-, -, hnone⟩
      · exact hr
      · rw [hnone] at hw
        exact absurd hw List.not_mem_nil
    refine ⟨⟨ho.fresh, fun j r w hr hw => ho.waits j r w (hwaits j r w hr hw) hw, fun j r hr => ?_,
      fun j k r s v w hr hs hv hw =>
        ho.apart j k r s v w (hwaits j r v hr hv) (hwaits k s w hs hw) hv hw⟩,
      rfl, rfl, List.nodup_nil, fun x hx => absurd hx List.not_mem_nil,
      fun j r hr => ⟨r, hold j r hr, rfl, List.Sublist.refl _, .inl ⟨rfl, rfl⟩⟩, fun j r hj hr => ?_⟩
    · rcases hnew j r hr with hr | ⟨-, -, hnone⟩
      · exact ho.once j r hr
      · rw [hnone]
        exact List.nodup_nil
    · rcases hnew j r hr with hr | ⟨-, hnone⟩
      · rw [hj] at hr
        cases hr
      · exact hnone

theorem results_fail {α : Type} (f : α → SendId) (cause : α → NetworkFault) (l : List α)
    (n : Network) :
    (l.foldl (fun n x => n.settle (f x) (.error (cause x))) n).results =
      (l.map fun x => (f x, Except.error (cause x))).reverse ++ n.results := by
  induction l generalizing n with
  | nil => rfl
  | cons x l ih =>
    rw [List.foldl_cons, ih, List.map_cons, List.reverse_cons, List.append_assoc]
    rfl

theorem ids_failed {α : Type} (f : α → SendId) (cause : α → NetworkFault) (l : List α) :
    ((l.map fun x => (f x, (Except.error (cause x) : Except NetworkFault Unit))).reverse.map
      (·.1)) = (l.map f).reverse := by
  rw [List.map_reverse, List.map_map]
  rfl

/-- The sends that wait for a listener fail when it dies. -/
theorem lapsed_kill (ho : n.Orderly) (i : RouteId) : ∃ failed, Lapsed n (n.kill i) failed := by
  have hm := (thinned_kill ho i).orderly ho
  revert hm
  unfold kill
  split
  · exact fun _ => ⟨[], lapsed_refl ho⟩
  · next r hr =>
    intro hm
    obtain ⟨hroutes, hsends, -⟩ := result?_fail (fun w : Waiter => w.id) (fun _ => n.deadFault r)
      r.waiting
      { n with routes := n.routes.set i { r with alive := false, queue := [], waiting := [] } }
    have hget : ∀ j : RouteId, (n.routes.set i { r with alive := false, queue := [], waiting := [] })[j]? =
        if j = i then some { r with alive := false, queue := [], waiting := [] }
        else n.routes[j]? := fun j => getElem?_set_route hr _ j
    refine ⟨_, hm, hsends, results_fail .., ?_, ?_, fun j s hs => ?_, fun j s hj hs => ?_⟩
    · rw [ids_failed, List.nodup_reverse]
      exact ho.once i r hr
    · intro x hx
      obtain ⟨w, hw, rfl⟩ := List.mem_map.mp (List.mem_reverse.mp hx)
      refine ⟨i, r, w, n.deadFault r, hr, hw, rfl, rfl, fun p haddress =>
        .inr ⟨{ r with alive := false, queue := [], waiting := [] }, ?_, rfl, ?_⟩⟩
      · rw [hroutes, hget, if_pos rfl]
      · obtain ⟨hnode, htopic⟩ := Prod.mk.inj haddress
        rw [deadFault, hnode, htopic]
        split
        · exact .inl rfl
        · exact .inr rfl
    · rw [hroutes, hget]
      by_cases hj : j = i
      · obtain rfl := Option.some.inj ((hj ▸ hs).symm.trans hr)
        rw [if_pos hj]
        exact ⟨_, rfl, rfl, List.nil_sublist _, .inr ⟨rfl, rfl, rfl⟩⟩
      · rw [if_neg hj]
        exact ⟨s, hs, rfl, List.Sublist.refl _, .inl ⟨rfl, rfl⟩⟩
    · rw [hroutes, hget] at hs
      by_cases hji : j = i
      · rw [hji, hr] at hj
        cases hj
      · rw [if_neg hji, hj] at hs
        cases hs

/-- Sends on different routes are different. -/
theorem nodup_waiting (ho : n.Orderly) (late : Waiter → Bool) :
    ((n.routes.flatMap fun r => (r.waiting.filter late).map fun w => (w.id, r.node)).map
      (·.1)).Nodup := by
  rw [List.map_flatMap, List.nodup_flatMap]
  constructor
  · intro r hr
    obtain ⟨i, hi⟩ := List.mem_iff_getElem?.mp hr
    rw [List.map_map]
    exact (ho.once i r hi).sublist (List.filter_sublist.map _)
  · rw [List.pairwise_iff_getElem]
    intro i j hi hj hlt id hid hid'
    dsimp only at hid hid'
    rw [List.map_map] at hid hid'
    obtain ⟨v, hv, rfl⟩ := List.mem_map.mp hid
    obtain ⟨w, hw, heq⟩ := List.mem_map.mp hid'
    exact Nat.ne_of_lt hlt (ho.apart i j _ _ v w (List.getElem?_eq_getElem hi)
      (List.getElem?_eq_getElem hj) (List.mem_of_mem_filter hv) (List.mem_of_mem_filter hw) heq.symm)

/-- Sends whose time is over fail when time passes. -/
theorem lapsed_elapse (ho : n.Orderly) (ms : Nat) : ∃ failed, Lapsed n (n.elapse ms) failed := by
  have hm := (thinned_elapse ho ms).orderly ho
  revert hm
  unfold elapse
  intro hm
  obtain ⟨hroutes, hsends, -⟩ := result?_fail (fun w : SendId × NodeId => w.1)
    (fun w => .timeout w.2)
    (n.routes.flatMap fun r =>
      (r.waiting.filter (Waiter.isOver (n.now + ms))).map fun w => (w.id, r.node))
    { n with
      now := n.now + ms
      routes := n.routes.map fun r =>
        { r with waiting := r.waiting.filter fun w => !Waiter.isOver (n.now + ms) w } }
  refine ⟨_, hm, hsends, results_fail .., ?_, ?_, fun j s hs => ?_, fun j s hj hs => ?_⟩
  · rw [ids_failed, List.nodup_reverse]
    exact nodup_waiting ho _
  · intro x hx
    obtain ⟨y, hy, rfl⟩ := List.mem_map.mp (List.mem_reverse.mp hx)
    obtain ⟨r, hr, hy⟩ := List.mem_flatMap.mp hy
    obtain ⟨w, hw, rfl⟩ := List.mem_map.mp hy
    obtain ⟨i, hi⟩ := List.mem_iff_getElem?.mp hr
    refine ⟨i, r, w, .timeout r.node, hi, List.mem_of_mem_filter hw, rfl, rfl, fun p haddress =>
      .inl ?_⟩
    rw [(Prod.mk.inj haddress).1]
  · rw [hroutes, List.getElem?_map, hs]
    exact ⟨_, rfl, rfl, List.filter_sublist, .inl ⟨rfl, rfl⟩⟩
  · rw [hroutes, List.getElem?_map, hj] at hs
    cases hs

end Network
end Rebalance
