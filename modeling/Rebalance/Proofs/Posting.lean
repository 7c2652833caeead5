/-
  Rebalance.Proofs.Posting

  What a network owes to each of its routes. Every send is noted with the route
  that it found, and `results` tells which of them were accepted, in the order
  of acceptance. `Ledger` is the invariant: for each route the letters accepted
  on it are those that were handed to its listener, then those in its queue,
  and then those that were lost when the listener died.

  A send that waits for room is in nobody's books until it is accepted, so one
  that runs out of time leaves them as they are.
-/
import Mathlib.Data.List.Basic
import Rebalance.Proofs.Sending

namespace Rebalance

/-- A send as it was begun, with the route that it found. -/
structure Post where
  sender : NodeId
  target : NodeId
  topic : Topic
  message : Message
  route : Option RouteId

/-- What a send brings to a listener. -/
def Post.letter (p : Post) : NodeId × Message := (p.sender, p.message)

/-- A letter as it travels. -/
def wrap (x : NodeId × Message) : Envelope := ⟨x.1, Wire.encode x.2⟩

namespace Network

variable {n m : Network} {posts : List Post} {p : Post} {i j : RouteId} {id : SendId}
  {results : List (SendId × Except NetworkFault Unit)}

/-- The route that a send finds. -/
def routeFor (n : Network) (target : NodeId) (topic : Topic) : Option RouteId :=
  if n.hasLeft target then none else n.find? target topic

theorem route_of_routeFor {target : NodeId} {topic : Topic} (h : n.routeFor target topic = some i) :
    ∃ r, n.routes[i]? = some r ∧ r.address = (target, topic) := by
  rw [routeFor] at h
  split at h
  · cases h
  · obtain ⟨r, hr, hnode, htopic⟩ := face_of_find? h
    exact ⟨r, hr, by rw [Route.address, hnode, htopic]⟩

theorem send_unrouted {target : NodeId} {topic : Topic} (h : n.routeFor target topic = none)
    (sender : NodeId) (message : Message) (timeout : Span) :
    ∃ cause, (n.send sender target topic message timeout).1 =
      { n with sends := n.sends + 1 }.settle n.sends (.error cause) := by
  rw [routeFor] at h
  split at h
  · next hleft => exact ⟨.nodeLeft target, by rw [send]; exact if_pos hleft⟩
  · next hleft =>
    refine ⟨.noHandler target topic.text, ?_⟩
    have hfind : { n with sends := n.sends + 1 }.find? target topic = none := h
    rw [send]
    dsimp only
    rw [hfind]
    exact if_neg hleft

theorem send_routed {target : NodeId} {topic : Topic} {r : Route}
    (h : n.routeFor target topic = some i) (hr : n.routes[i]? = some r) (sender : NodeId)
    (message : Message) (timeout : Span) :
    (n.send sender target topic message timeout).1 =
      { n with sends := n.sends + 1 }.offer i r n.sends ⟨sender, Wire.encode message⟩ timeout := by
  rw [routeFor] at h
  split at h
  · cases h
  · next hleft =>
    have hfind : { n with sends := n.sends + 1 }.find? target topic = some i := h
    rw [send]
    dsimp only
    rw [hfind]
    dsimp only
    rw [hr]
    exact if_neg hleft

-- ============================================================================
-- Accepted sends
-- ============================================================================

/-- The sends accepted on a route, in the order of acceptance. -/
def acceptedOn (posts : List Post) (results : List (SendId × Except NetworkFault Unit))
    (i : RouteId) : List SendId :=
  (results.reverse.filter fun x =>
    x.2.isOk && decide ((posts[x.1]?).bind (·.route) = some i)).map (·.1)

/-- The letters of some sends. -/
def lettersOf (posts : List Post) (ids : List SendId) : List (NodeId × Message) :=
  ids.filterMap fun id => (posts[id]?).map Post.letter

/-- The letters accepted on a route, in the order of acceptance. -/
def lettersOn (posts : List Post) (n : Network) (i : RouteId) : List (NodeId × Message) :=
  lettersOf posts (acceptedOn posts n.results i)

theorem acceptedOn_error (posts : List Post) (id : SendId) (cause : NetworkFault) :
    acceptedOn posts ((id, .error cause) :: results) i = acceptedOn posts results i := by
  rw [acceptedOn, List.reverse_cons, List.filter_append, List.map_append, acceptedOn]
  exact List.append_nil _

theorem acceptedOn_errors (posts : List Post)
    {failed : List (SendId × Except NetworkFault Unit)}
    (h : ∀ x ∈ failed, ∃ cause, x.2 = .error cause) :
    acceptedOn posts (failed ++ results) i = acceptedOn posts results i := by
  induction failed with
  | nil => rfl
  | cons x failed ih =>
    obtain ⟨id, r⟩ := x
    obtain ⟨cause, rfl⟩ := h (id, r) List.mem_cons_self
    rw [List.cons_append, acceptedOn_error]
    exact ih fun x hx => h x (List.mem_cons_of_mem _ hx)

theorem acceptedOn_ok (h : posts[id]? = some p) :
    acceptedOn posts ((id, .ok ()) :: results) i =
      acceptedOn posts results i ++ if p.route = some i then [id] else [] := by
  rw [acceptedOn, List.reverse_cons, List.filter_append, List.map_append, acceptedOn]
  congr 1
  by_cases hi : p.route = some i <;> simp [h, hi, Except.isOk, Except.toBool]

theorem lettersOf_append (posts : List Post) (ids ids' : List SendId) :
    lettersOf posts (ids ++ ids') = lettersOf posts ids ++ lettersOf posts ids' :=
  List.filterMap_append

/-- Sends that come later change nothing about those that have ended. -/
theorem acceptedOn_post (p : Post) (h : ∀ x ∈ results, x.1 < posts.length) :
    acceptedOn (posts ++ [p]) results i = acceptedOn posts results i := by
  rw [acceptedOn, acceptedOn]
  refine congrArg (List.map _) (List.filter_congr fun x hx => ?_)
  rw [List.getElem?_append_left (h x (List.mem_reverse.mp hx))]

theorem mem_acceptedOn : id ∈ acceptedOn posts results i ↔
    (id, .ok ()) ∈ results ∧ (posts[id]?).bind (·.route) = some i := by
  rw [acceptedOn, List.mem_map]
  constructor
  · rintro ⟨⟨k, r⟩, hx, rfl⟩
    obtain ⟨hx, hr⟩ := List.mem_filter.mp hx
    rw [Bool.and_eq_true, decide_eq_true_iff] at hr
    cases r with
    | ok u => exact ⟨List.mem_reverse.mp hx, hr.2⟩
    | error cause => exact absurd hr.1 Bool.false_ne_true
  · rintro ⟨hx, hr⟩
    exact ⟨(id, .ok ()), List.mem_filter.mpr ⟨List.mem_reverse.mpr hx, by
      rw [decide_eq_true hr]; rfl⟩, rfl⟩

theorem letters_ok (h : posts[id]? = some p) (hm : m.results = (id, .ok ()) :: n.results)
    (j : RouteId) :
    lettersOn posts m j = lettersOn posts n j ++ if p.route = some j then [p.letter] else [] := by
  rw [lettersOn, hm, acceptedOn_ok h, lettersOf_append, lettersOn]
  congr 1
  by_cases hj : p.route = some j
  · rw [if_pos hj, if_pos hj, lettersOf, List.filterMap_cons, h]
    rfl
  · rw [if_neg hj, if_neg hj]
    rfl

theorem letters_errors {failed : List (SendId × Except NetworkFault Unit)}
    (h : ∀ x ∈ failed, ∃ cause, x.2 = .error cause) (hm : m.results = failed ++ n.results)
    (j : RouteId) : lettersOn posts m j = lettersOn posts n j := by
  rw [lettersOn, hm, acceptedOn_errors posts h, lettersOn]

theorem letters_post (p : Post) (h : ∀ x ∈ n.results, x.1 < posts.length) (j : RouteId) :
    lettersOn (posts ++ [p]) n j = lettersOn posts n j := by
  rw [lettersOn, acceptedOn_post p h, lettersOn]
  refine List.filterMap_congr fun id hid => ?_
  rw [List.getElem?_append_left (h _ (mem_acceptedOn.mp hid).1)]

-- ============================================================================
-- Where a letter is
-- ============================================================================

/-- The letters accepted on a route are those given to its listener, those in its queue, and those
    lost, and there are lost ones only if the listener has died. -/
def Balanced (letters given : List (NodeId × Message)) (alive : Bool) (queue : List Envelope) :
    Prop :=
  ∃ rest lost, letters = given ++ rest ++ lost ∧ rest.map wrap = queue ∧ (alive = true → lost = [])

namespace Balanced

variable {letters given : List (NodeId × Message)} {alive : Bool} {queue : List Envelope}

theorem accept (h : Balanced letters given true queue) (x : NodeId × Message) :
    Balanced (letters ++ [x]) given true (queue ++ [wrap x]) := by
  obtain ⟨rest, lost, rfl, rfl, hlost⟩ := h
  obtain rfl := hlost rfl
  exact ⟨rest ++ [x], [], by simp, by simp, fun _ => rfl⟩

theorem give {e : Envelope} (h : Balanced letters given alive (e :: queue)) :
    ∃ x, e = wrap x ∧ Balanced letters (given ++ [x]) alive queue := by
  obtain ⟨rest, lost, rfl, hqueue, hlost⟩ := h
  obtain ⟨x, rest, rfl, rfl, rfl⟩ := List.map_eq_cons_iff.mp hqueue
  exact ⟨x, rfl, rest, lost, by simp, rfl, hlost⟩

theorem die (h : Balanced letters given alive queue) : Balanced letters given false [] := by
  obtain ⟨rest, lost, rfl, -, -⟩ := h
  exact ⟨[], rest ++ lost, by simp, rfl, by rintro ⟨⟩⟩

theorem prefix_letters (h : Balanced letters given alive queue) : given <+: letters := by
  obtain ⟨rest, lost, rfl, -, -⟩ := h
  exact ⟨rest ++ lost, (List.append_assoc ..).symm⟩

/-- Where nothing is left in the queue of a living listener, it was given everything. -/
theorem complete (h : Balanced letters given true []) : given = letters := by
  obtain ⟨rest, lost, rfl, hqueue, hlost⟩ := h
  rw [hlost rfl, List.map_eq_nil_iff.mp hqueue, List.append_nil, List.append_nil]

end Balanced

-- ============================================================================
-- The ledger
-- ============================================================================

/-- Why a send ends in an error although it found a route: its time was over, or the listener of the
    route has died. -/
def Excused (n : Network) (i : RouteId) (p : Post) (cause : NetworkFault) : Prop :=
  cause = .timeout p.target ∨
    ∃ r, n.routes[i]? = some r ∧ r.alive = false ∧
      (cause = .nodeLeft p.target ∨ cause = .sendFailed
        ("route " ++ p.topic.text ++ " on node " ++ toString p.target.toNat ++ " closed"))

/-- What is noted of the sends of a network, and of what was given to its listeners, agrees with its
    routes and results. -/
structure Ledger (posts : List Post) (given : RouteId → List (NodeId × Message)) (n : Network) :
    Prop where
  orderly : n.Orderly
  counted : posts.length = n.sends
  once : (n.results.map (·.1)).Nodup
  found : ∀ p ∈ posts, ∀ i, p.route = some i →
    ∃ r, n.routes[i]? = some r ∧ r.address = (p.target, p.topic)
  waits : ∀ (i : RouteId) (r : Route) (w : Waiter), n.routes[i]? = some r → w ∈ r.waiting →
    ∃ p, posts[w.id]? = some p ∧ p.route = some i ∧ w.envelope = wrap p.letter
  alive : ∀ (i : RouteId) (r : Route), n.routes[i]? = some r → r.waiting ≠ [] → r.alive = true
  balanced : ∀ (i : RouteId) (r : Route), n.routes[i]? = some r →
    Balanced (lettersOn posts n i) (given i) r.alive r.queue
  unrouted : ∀ i : RouteId, n.routes[i]? = none → given i = []
  excused : ∀ (id : SendId) (p : Post) (i : RouteId) (cause : NetworkFault), posts[id]? = some p →
    p.route = some i → (id, .error cause) ∈ n.results → n.Excused i p cause

theorem result?_eq_none_iff : n.result? id = none ↔ id ∉ n.results.map (·.1) := by
  rw [result?, Option.map_eq_none_iff, List.find?_eq_none, List.mem_map]
  constructor
  · rintro h ⟨x, hx, rfl⟩
    exact h x hx (beq_self_eq_true _)
  · intro h x hx heq
    exact h ⟨x, hx, beq_iff_eq.mp heq⟩

theorem result?_of_mem {r : Except NetworkFault Unit} (ho : (n.results.map (·.1)).Nodup)
    (h : (id, r) ∈ n.results) : n.result? id = some r := by
  cases hr : n.result? id with
  | none => exact absurd (List.mem_map_of_mem h) (result?_eq_none_iff.mp hr)
  | some x =>
    have hx := mem_of_result? hr
    exact congrArg some (Prod.mk.inj (List.inj_on_of_nodup_map ho hx h rfl)).2

namespace Ledger

variable {given : RouteId → List (NodeId × Message)}

theorem begun (h : Ledger posts given n) : ∀ x ∈ n.results, x.1 < posts.length := by
  intro x hx
  rw [h.counted]
  by_contra hle
  exact result?_eq_none_iff.mp (h.orderly.fresh x.1 (Nat.le_of_not_lt hle))
    (List.mem_map_of_mem hx)

/-- Nothing was accepted on a route that is not there. -/
theorem letters_unrouted (h : Ledger posts given n) (hi : n.routes[i]? = none) :
    lettersOn posts n i = [] := by
  have hnone : acceptedOn posts n.results i = [] := by
    refine List.eq_nil_iff_forall_not_mem.mpr fun id hid => ?_
    obtain ⟨p, hp, hr⟩ := Option.bind_eq_some_iff.mp (mem_acceptedOn.mp hid).2
    obtain ⟨r, hroute, -⟩ := h.found p (List.mem_of_getElem? hp) i hr
    rw [hi] at hroute
    cases hroute
  rw [lettersOn, hnone]
  rfl

end Ledger

-- ============================================================================
-- Sends and takes
-- ============================================================================

namespace Ledger

variable {given : RouteId → List (NodeId × Message)} {r r' : Route}

theorem routeless (hr : n.routes[i]? = some r) (hroutes : m.routes = n.routes.set i r')
    (hj : m.routes[j]? = none) : n.routes[j]? = none := by
  rw [hroutes, getElem?_set_route hr] at hj
  by_cases hji : j = i
  · rw [if_pos hji] at hj
    cases hj
  · rwa [if_neg hji] at hj

theorem excused_set (hr : n.routes[i]? = some r) (hroutes : m.routes = n.routes.set i r')
    (halive : r'.alive = r.alive) {cause : NetworkFault} (h : n.Excused j p cause) :
    m.Excused j p cause := by
  rcases h with htime | ⟨s, hs, hdead, hcause⟩
  · exact .inl htime
  · by_cases hji : j = i
    · obtain rfl := Option.some.inj ((hji ▸ hs).symm.trans hr)
      exact .inr ⟨r', by rw [hroutes, getElem?_set_route hr, if_pos hji], halive.trans hdead, hcause⟩
    · exact .inr ⟨s, by rw [hroutes, getElem?_set_route hr, if_neg hji, hs], hdead, hcause⟩

theorem found_set (h : Ledger posts given n) (hr : n.routes[i]? = some r)
    (hroutes : m.routes = n.routes.set i r') (haddress : r'.address = r.address) (hp : p ∈ posts)
    (hj : p.route = some j) :
    ∃ s, m.routes[j]? = some s ∧ s.address = (p.target, p.topic) := by
  obtain ⟨s, hs, hsame⟩ := h.found p hp j hj
  by_cases hji : j = i
  · obtain rfl := Option.some.inj ((hji ▸ hs).symm.trans hr)
    exact ⟨r', by rw [hroutes, getElem?_set_route hr, if_pos hji], haddress.trans hsame⟩
  · exact ⟨s, by rw [hroutes, getElem?_set_route hr, if_neg hji, hs], hsame⟩

/-- A send has been begun, and nothing else has happened. -/
theorem post (h : Ledger posts given n)
    (hfound : ∀ i, p.route = some i →
      ∃ r, n.routes[i]? = some r ∧ r.address = (p.target, p.topic)) :
    Ledger (posts ++ [p]) given { n with sends := n.sends + 1 } where
  orderly := {
    fresh := fun id hid => h.orderly.fresh id (Nat.le_of_succ_le hid)
    waits := fun i r w hr hw =>
      ⟨Nat.lt_succ_of_lt (h.orderly.waits i r w hr hw).1, (h.orderly.waits i r w hr hw).2⟩
    once := h.orderly.once
    apart := h.orderly.apart }
  counted := by rw [List.length_append, h.counted]; rfl
  once := h.once
  found q hq i hi := by
    rcases List.mem_append.mp hq with hq | hq
    · exact h.found q hq i hi
    · obtain rfl := List.mem_singleton.mp hq
      exact hfound i hi
  waits i r w hr hw := by
    obtain ⟨q, hq, hw'⟩ := h.waits i r w hr hw
    exact ⟨q, by rw [List.getElem?_append_left (List.getElem?_eq_some_iff.mp hq).1, hq], hw'⟩
  alive := h.alive
  balanced i r hr := by
    have hsame : lettersOn (posts ++ [p]) { n with sends := n.sends + 1 } i = lettersOn posts n i :=
      letters_post (n := n) p h.begun i
    rw [hsame]
    exact h.balanced i r hr
  unrouted := h.unrouted
  excused id q i cause hq hi herror := by
    rw [List.getElem?_append_left (h.begun _ herror)] at hq
    exact h.excused id q i cause hq hi herror

/-- A send that has not ended is refused. -/
theorem refused (h : Ledger posts given n) (ho : m.Orderly) (hnone : n.result? id = none)
    (hroutes : m.routes = n.routes) (hsends : m.sends = n.sends) {cause : NetworkFault}
    (hm : m.results = (id, .error cause) :: n.results)
    (hexcused : ∀ p i, posts[id]? = some p → p.route = some i → n.Excused i p cause) :
    Ledger posts given m where
  orderly := ho
  counted := h.counted.trans hsends.symm
  once := by
    rw [hm, List.map_cons, List.nodup_cons]
    exact ⟨result?_eq_none_iff.mp hnone, h.once⟩
  found := hroutes ▸ h.found
  waits := hroutes ▸ h.waits
  alive := hroutes ▸ h.alive
  balanced i r hr := by
    have hletters : lettersOn posts m i = lettersOn posts n i := by
      rw [lettersOn, hm, acceptedOn_error, lettersOn]
    rw [hletters]
    exact h.balanced i r (hroutes ▸ hr)
  unrouted := hroutes ▸ h.unrouted
  excused k p i c hp hi herror := by
    have hex : n.Excused i p c := by
      rw [hm] at herror
      rcases List.mem_cons.mp herror with heq | hold
      · obtain ⟨rfl, hc⟩ := Prod.mk.inj heq
        obtain rfl := Except.error.inj hc
        exact hexcused p i hp hi
      · exact h.excused k p i c hp hi hold
    exact hex.imp_right fun ⟨r, hr, hrest⟩ => ⟨r, hroutes ▸ hr, hrest⟩

/-- A send that has not ended is accepted: its letter is the last one in the queue. -/
theorem accepted (h : Ledger posts given n) (r r' : Route) (ho : m.Orderly)
    (hnone : n.result? id = none) (hp : posts[id]? = some p) (hi : p.route = some i)
    (hr : n.routes[i]? = some r)
    (ha : r.alive = true) (hroutes : m.routes = n.routes.set i r')
    (haddress : r'.address = r.address) (halive : r'.alive = r.alive)
    (hqueue : r'.queue = r.queue ++ [wrap p.letter]) (hwaiting : r'.waiting.Sublist r.waiting)
    (hsends : m.sends = n.sends) (hm : m.results = (id, .ok ()) :: n.results) :
    Ledger posts given m where
  orderly := ho
  counted := h.counted.trans hsends.symm
  once := by
    rw [hm, List.map_cons, List.nodup_cons]
    exact ⟨result?_eq_none_iff.mp hnone, h.once⟩
  found q hq j hj := h.found_set hr hroutes haddress hq hj
  waits j s w hs hw := by
    rw [hroutes, getElem?_set_route hr] at hs
    by_cases hji : j = i
    · rw [if_pos hji, Option.some.injEq] at hs
      exact h.waits j r w (hji ▸ hr) (hwaiting.subset (hs ▸ hw))
    · rw [if_neg hji] at hs
      exact h.waits j s w hs hw
  alive j s hs hw := by
    rw [hroutes, getElem?_set_route hr] at hs
    by_cases hji : j = i
    · rw [if_pos hji, Option.some.injEq] at hs
      rw [← hs, halive, ha]
    · rw [if_neg hji] at hs
      exact h.alive j s hs hw
  balanced j s hs := by
    rw [letters_ok hp hm]
    rw [hroutes, getElem?_set_route hr] at hs
    by_cases hji : j = i
    · rw [if_pos hji, Option.some.injEq] at hs
      have hb := h.balanced i r hr
      rw [ha] at hb
      rw [if_pos (hji ▸ hi), ← hs, halive, ha, hqueue, hji]
      exact hb.accept p.letter
    · rw [if_neg hji] at hs
      rw [if_neg fun hj => hji (Option.some.inj (hj.symm.trans hi)), List.append_nil]
      exact h.balanced j s hs
  unrouted j hj := h.unrouted j (routeless hr hroutes hj)
  excused k q j c hq hj herror := by
    rw [hm] at herror
    rcases List.mem_cons.mp herror with heq | hold
    · cases (Prod.mk.inj heq).2
    · exact excused_set hr hroutes halive (h.excused k q j c hq hj hold)

/-- A send waits for room. -/
theorem awaits (h : Ledger posts given n) (ho : m.Orderly) (hp : posts[id]? = some p)
    (hi : p.route = some i) (hr : n.routes[i]? = some r) (ha : r.alive = true)
    {deadline : Option Nat}
    (hroutes : m.routes = n.routes.set i
      { r with waiting := r.waiting ++ [⟨id, wrap p.letter, deadline⟩] })
    (hsends : m.sends = n.sends) (hm : m.results = n.results) : Ledger posts given m where
  orderly := ho
  counted := h.counted.trans hsends.symm
  once := hm ▸ h.once
  found q hq j hj := h.found_set hr hroutes rfl hq hj
  waits j s w hs hw := by
    rw [hroutes, getElem?_set_route hr] at hs
    by_cases hji : j = i
    · rw [if_pos hji, Option.some.injEq] at hs
      subst hs
      rcases List.mem_append.mp hw with hw | hw
      · exact h.waits j r w (hji ▸ hr) hw
      · obtain rfl := List.mem_singleton.mp hw
        exact ⟨p, hp, hji ▸ hi, rfl⟩
    · rw [if_neg hji] at hs
      exact h.waits j s w hs hw
  alive j s hs hw := by
    rw [hroutes, getElem?_set_route hr] at hs
    by_cases hji : j = i
    · rw [if_pos hji, Option.some.injEq] at hs
      rw [← hs, ha]
    · rw [if_neg hji] at hs
      exact h.alive j s hs hw
  balanced j s hs := by
    rw [lettersOn, hm]
    rw [hroutes, getElem?_set_route hr] at hs
    by_cases hji : j = i
    · rw [if_pos hji, Option.some.injEq] at hs
      subst hs
      exact h.balanced j r (hji ▸ hr)
    · rw [if_neg hji] at hs
      exact h.balanced j s hs
  unrouted j hj := h.unrouted j (routeless hr hroutes hj)
  excused k q j c hq hj herror :=
    excused_set hr hroutes rfl (h.excused k q j c hq hj (hm ▸ herror))

/-- The first letter of a queue is given to the listener. -/
theorem gives (h : Ledger posts given n) (hr : n.routes[i]? = some r) {e : Envelope}
    {queue : List Envelope} (hq : r.queue = e :: queue) :
    ∃ x, e = wrap x ∧ Ledger posts (fun j => given j ++ if j = i then [x] else [])
      { n with routes := n.routes.set i { r with queue } } := by
  have hb := h.balanced i r hr
  rw [hq] at hb
  obtain ⟨x, rfl, hgiven⟩ := hb.give
  have hthin : Thinned n { n with routes := n.routes.set i { r with queue } } := by
    refine ⟨List.length_set, rfl, fun j s hs => ?_, fun _ => .inl rfl⟩
    dsimp only at hs
    rw [getElem?_set_route hr] at hs
    by_cases hji : j = i
    · rw [if_pos hji, Option.some.injEq] at hs
      subst hs
      exact ⟨r, hji ▸ hr, rfl, hq ▸ List.sublist_cons_self .., List.Sublist.refl _⟩
    · rw [if_neg hji] at hs
      exact ⟨s, hs, rfl, List.Sublist.refl _, List.Sublist.refl _⟩
  have hset : { n with routes := n.routes.set i { r with queue } }.routes =
      n.routes.set i { r with queue } := rfl
  refine ⟨x, rfl, hthin.orderly h.orderly, h.counted, h.once,
    fun q hp j hj => h.found_set hr hset rfl hp hj, fun j s w hs hw => ?_, fun j s hs hw => ?_,
    fun j s hs => ?_, fun j hj => ?_, fun k q j c hq hj herror =>
      excused_set hr hset rfl (h.excused k q j c hq hj herror)⟩
  · obtain ⟨s', hs', -, -, hsub⟩ := hthin.routes j s hs
    exact h.waits j s' w hs' (hsub.subset hw)
  · dsimp only at hs
    rw [getElem?_set_route hr] at hs
    by_cases hji : j = i
    · rw [if_pos hji, Option.some.injEq] at hs
      subst hs
      exact h.alive j r (hji ▸ hr) hw
    · rw [if_neg hji] at hs
      exact h.alive j s hs hw
  · dsimp only at hs
    rw [getElem?_set_route hr] at hs
    by_cases hji : j = i
    · rw [if_pos hji, Option.some.injEq] at hs
      subst hs
      rw [if_pos hji, hji]
      exact hgiven
    · rw [if_neg hji] at hs
      rw [if_neg hji, List.append_nil]
      exact h.balanced j s hs
  · have hnone : n.routes[j]? = none := routeless hr hset hj
    rw [h.unrouted j hnone, if_neg fun hji => ?_]
    · rfl
    · rw [hji, hr] at hnone
      cases hnone

/-- Whoever listens takes the next letter, and the first send that waits for room is accepted. -/
theorem take (h : Ledger posts given n) {e : Envelope} (ht : n.take i = some (e, m)) :
    ∃ x, e = wrap x ∧ Ledger posts (fun j => given j ++ if j = i then [x] else []) m := by
  obtain ⟨r₀, r₁, taken⟩ := taken_of_take ht
  have ho := taken.orderly h.orderly
  clear taken
  unfold Network.take at ht
  split at ht
  · cases ht
  · next r hr =>
    split at ht
    · cases ht
    · next e' queue hq =>
      obtain ⟨x, hx, hgiven⟩ := h.gives hr hq
      split at ht
      · cases ht
        exact ⟨x, hx, hgiven⟩
      · next w waiting hw =>
        cases ht
        have hmem : w ∈ r.waiting := by
          rw [hw]
          exact List.mem_cons_self
        obtain ⟨p, hp, hi, hletter⟩ := h.waits i r w hr hmem
        refine ⟨x, hx, hgiven.accepted { r with queue }
          { r with queue := queue ++ [w.envelope], waiting } ho (h.orderly.waits i r w hr hmem).2
          hp hi ?_ (h.alive i r hr (List.ne_nil_of_mem hmem)) ?_ rfl rfl (by rw [hletter]) ?_ rfl rfl⟩
        · rw [getElem?_set_route hr, if_pos rfl]
        · exact (List.set_set ..).symm
        · rw [hw]
          exact List.sublist_cons_self ..

theorem excused_dead {r : Route} (hr : n.routes[i]? = some r) (hdead : r.alive = false)
    (haddress : r.address = (p.target, p.topic)) : n.Excused i p (n.deadFault r) := by
  obtain ⟨hnode, htopic⟩ := Prod.mk.inj haddress
  refine .inr ⟨r, hr, hdead, ?_⟩
  rw [deadFault, hnode, htopic]
  split
  · exact .inl rfl
  · exact .inr rfl

/-- A send finds its route, and is refused, accepted, or waits. -/
theorem send (h : Ledger posts given n) (sender target : NodeId) (topic : Topic)
    (message : Message) (timeout : Span) :
    Ledger (posts ++ [⟨sender, target, topic, message, n.routeFor target topic⟩]) given
      (n.send sender target topic message timeout).1 := by
  obtain ⟨-, hsends, hgiven⟩ := given_of_send n sender target topic message timeout
  have ho := hgiven.orderly hsends h.orderly
  have hnone : n.result? n.sends = none := h.orderly.fresh _ (Nat.le_refl _)
  cases hroute : n.routeFor target topic with
  | none =>
    have hpost := h.post (p := ⟨sender, target, topic, message, none⟩) (by rintro i ⟨⟩)
    obtain ⟨cause, heq⟩ := send_unrouted hroute sender message timeout
    rw [heq] at ho ⊢
    refine hpost.refused ho hnone rfl rfl rfl fun q i hq hi => ?_
    rw [← h.counted, List.getElem?_concat_length, Option.some.injEq] at hq
    rw [← hq] at hi
    cases hi
  | some i =>
    obtain ⟨r, hr, haddress⟩ := route_of_routeFor hroute
    have hpost := h.post (p := ⟨sender, target, topic, message, some i⟩) (by
      rintro j ⟨⟩
      exact ⟨r, hr, haddress⟩)
    have hlast : (posts ++ [(⟨sender, target, topic, message, some i⟩ : Post)])[n.sends]? =
        some ⟨sender, target, topic, message, some i⟩ := by
      rw [← h.counted, List.getElem?_concat_length]
    rw [send_routed hroute hr] at ho ⊢
    revert ho
    unfold offer
    split
    · next hdead =>
      refine fun ho => hpost.refused ho hnone rfl rfl rfl fun q j hq hj => ?_
      rw [hlast, Option.some.injEq] at hq
      subst hq
      obtain rfl := Option.some.inj hj
      exact excused_dead (p := ⟨sender, target, topic, message, some i⟩) hr
        (by simpa using hdead) haddress
    · next halive =>
      have halive : r.alive = true := by simpa using halive
      split
      · exact fun ho => hpost.accepted r { r with queue := r.queue ++ [_] } ho hnone hlast rfl
          hr halive rfl rfl rfl rfl (List.Sublist.refl _) rfl rfl
      · exact fun ho => hpost.awaits ho hlast rfl hr halive rfl rfl rfl

end Ledger

end Network
end Rebalance
