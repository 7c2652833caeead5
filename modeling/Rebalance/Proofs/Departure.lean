/-
  Rebalance.Proofs.Departure

  A node that has left. Sends to it fail, whoever listens there by then, but
  its routes keep what they have: a listener is given what was queued when its
  node left and, behind it, the sends that waited for room, as far as they are
  accepted while the queue empties. `backlog` is this list and `Outlives` the
  invariant; a listener that comes later has no backlog.
-/
import Mathlib.Data.List.Perm.Subperm
import Rebalance.Proofs.Handing

namespace Rebalance
namespace Network

variable {n m : Network} {i : RouteId} {node : NodeId}

-- ============================================================================
-- Who has left stays away
-- ============================================================================

theorem departed_fail {α : Type} (f : α → SendId) (cause : α → NetworkFault) (l : List α)
    (n : Network) :
    (l.foldl (fun n x => n.settle (f x) (.error (cause x))) n).departed = n.departed := by
  induction l generalizing n with
  | nil => rfl
  | cons x l ih => exact ih _

theorem departed_register {topic : Topic} (h : n.register node topic = .ok (m, i)) :
    m.departed = n.departed := by
  unfold register at h
  split at h
  · cases h
  · cases h
    rfl

theorem departed_send (n : Network) (sender target : NodeId) (topic : Topic) (message : Message)
    (timeout : Span) : (n.send sender target topic message timeout).1.departed = n.departed := by
  cases hroute : n.routeFor target topic with
  | none =>
    obtain ⟨cause, heq⟩ := send_unrouted hroute sender message timeout
    rw [heq]
    rfl
  | some i =>
    obtain ⟨r, hr, -⟩ := route_of_routeFor hroute
    rw [send_routed hroute hr, offer]
    split
    · rfl
    · split <;> rfl

theorem departed_kill (n : Network) (i : RouteId) : (n.kill i).departed = n.departed := by
  unfold kill
  split
  · rfl
  · exact departed_fail ..

theorem hasLeft_congr (h : m.departed = n.departed) : m.hasLeft node = n.hasLeft node := by
  rw [hasLeft, h, hasLeft]

theorem hasLeft_depart (n : Network) (node : NodeId) : (n.depart node).hasLeft node = true :=
  decide_eq_true (SortedSet.mem_insert.mpr (.inl rfl))

/-- A send to a node that has left fails at once. -/
theorem send_departed (h : n.hasLeft node = true) (sender : NodeId) (topic : Topic)
    (message : Message) (timeout : Span) :
    n.routeFor node topic = none ∧ (n.send sender node topic message timeout).1 =
      { n with sends := n.sends + 1 }.settle n.sends (.error (.nodeLeft node)) := by
  refine ⟨if_pos h, ?_⟩
  rw [send]
  exact if_pos h

-- ============================================================================
-- What is left behind
-- ============================================================================

/-- The sends that wait for room on a route. -/
def waitingOn (n : Network) (i : RouteId) : List Waiter :=
  ((n.routes[i]?).map (·.waiting)).getD []

/-- What the listener of a route can still be given if no further send finds the route: what is
    queued, and behind it the letters that wait for room, as far as `m` has accepted them. -/
def backlog (n m : Network) (i : RouteId) : List Envelope :=
  ((n.routes[i]?).map (·.queue)).getD [] ++
    ((n.waitingOn i).filter fun w => m.accepted w.id).map (·.envelope)

theorem waitingOn_of_route {r : Route} (hr : n.routes[i]? = some r) : n.waitingOn i = r.waiting := by
  rw [waitingOn, hr]
  rfl

theorem waitingOn_of_none (hr : n.routes[i]? = none) : n.waitingOn i = [] := by
  rw [waitingOn, hr]
  rfl

/-- Every send waits once, and on the route that it found. -/
theorem Ledger.waitingOn {posts : List Post} {given : RouteId → List (NodeId × Message)}
    (h : Ledger posts given n) (i : RouteId) :
    ((n.waitingOn i).map (·.id)).Nodup ∧
      ∀ w ∈ n.waitingOn i, (posts[w.id]?).bind (·.route) = some i := by
  cases hr : n.routes[i]? with
  | none =>
    rw [waitingOn_of_none hr]
    exact ⟨List.nodup_nil, fun w hw => absurd hw List.not_mem_nil⟩
  | some r =>
    rw [waitingOn_of_route hr]
    refine ⟨h.orderly.once i r hr, fun w hw => ?_⟩
    obtain ⟨p, hp, hi, -⟩ := h.waits i r w hr hw
    rw [hp, Option.bind_some, hi]

/-- A send to another node leaves the routes of a node alone. -/
theorem Given.elsewhere {target : NodeId} {topic : Topic} {e : Envelope}
    (h : Given n m target topic e) (hne : target ≠ node) :
    (∀ s, m.routes[i]? = some s → s.node = node → n.routes[i]? = some s) ∧
      (m.routes[i]? = none → n.routes[i]? = none) := by
  have hset : ∀ (j : RouteId) (r r' : Route), n.routes[j]? = some r →
      r.address = (target, topic) → r'.node = r.node → m.routes = n.routes.set j r' →
      (∀ s, m.routes[i]? = some s → s.node = node → n.routes[i]? = some s) ∧
        (m.routes[i]? = none → n.routes[i]? = none) := by
    intro j r r' hr haddress hnode heq
    rw [heq, getElem?_set_route hr]
    by_cases hj : i = j
    · rw [if_pos hj]
      refine ⟨fun s hs hs' => absurd ?_ hne, fun hs => by cases hs⟩
      rw [← hs', ← Option.some.inj hs, hnode]
      exact (congrArg Prod.fst haddress).symm
    · rw [if_neg hj]
      exact ⟨fun s hs _ => hs, fun hs => hs⟩
  cases h with
  | refused hr _ _ =>
    rw [hr]
    exact ⟨fun s hs _ => hs, fun hs => hs⟩
  | queued j r hr ha hm _ => exact hset j r { r with queue := r.queue ++ [e] } hr ha rfl hm
  | waits j r hr ha deadline hm _ =>
    exact hset j r { r with waiting := r.waiting ++ [⟨n.sends, e, deadline⟩] } hr ha rfl hm

/-- The waiting sends that were accepted come before those that still wait, in the order in which
    they waited. So the next one that is accepted comes behind them. -/
theorem filter_next {l rest : List Waiter} {w : Waiter} {f g : Waiter → Bool}
    (hids : (l.map (·.id)).Nodup) (hsub : (l.filter f ++ w :: rest).Sublist l)
    (hg : ∀ v, g v = (decide (v.id = w.id) || f v)) : l.filter g = l.filter f ++ [w] := by
  have hfront : (l.filter f ++ [w]).Sublist (l.filter f ++ w :: rest) :=
    List.Sublist.append_left (List.singleton_sublist.mpr List.mem_cons_self) _
  have hall : ∀ v ∈ l.filter f ++ [w], g v = true := by
    intro v hv
    rw [hg]
    rcases List.mem_append.mp hv with hv | hv
    · rw [(List.mem_filter.mp hv).2, Bool.or_true]
    · rw [List.mem_singleton.mp hv, decide_eq_true rfl, Bool.true_or]
  have hsublist : (l.filter f ++ [w]).Sublist (l.filter g) := by
    have h := (hfront.trans hsub).filter g
    rwa [List.filter_eq_self.mpr hall] at h
  have hsubset : l.filter g ⊆ l.filter f ++ [w] := by
    intro v hv
    obtain ⟨hmem, hgv⟩ := List.mem_filter.mp hv
    rw [hg, Bool.or_eq_true, decide_eq_true_iff] at hgv
    rcases hgv with hid | hfv
    · have hw : w ∈ l := hsub.subset (List.mem_append_right _ List.mem_cons_self)
      rw [List.inj_on_of_nodup_map hids hmem hw hid]
      exact List.mem_append_right _ List.mem_cons_self
    · exact List.mem_append_left _ (List.mem_filter.mpr ⟨hmem, hfv⟩)
  have hnodup : (l.filter g).Nodup := (hids.of_map _).filter _
  exact (hsublist.eq_of_length_le (hnodup.subperm hsubset).length_le).symm

theorem accepted_next {w : Waiter} (h : m.results = (w.id, .ok ()) :: n.results) (v : Waiter) :
    m.accepted v.id = (decide (v.id = w.id) || n.accepted v.id) := by
  have hresult : m.result? v.id = if v.id = w.id then some (.ok ()) else n.result? v.id := by
    rw [Network.result?, h]
    exact result?_settle n w.id v.id (.ok ())
  rw [accepted, hresult]
  by_cases hid : v.id = w.id
  · rw [if_pos hid, decide_eq_true hid]
    rfl
  · rw [if_neg hid, decide_eq_false hid, Bool.false_or, accepted]

/-- What a listener was given (`given`) since a node left, when the network was `n`. Until the node
    has a listener on the route there is nothing; then what was given and what is queued makes up
    the backlog, unless the listener has died. -/
structure Outlives (node : NodeId) (n : Network) (i : RouteId) (given : List (NodeId × Message))
    (m : Network) : Prop where
  left : m.hasLeft node = true
  begun : ∀ w ∈ n.waitingOn i, w.id < m.sends
  absent : m.routes[i]? = none → n.routes[i]? = none ∧ given = []
  found : ∀ s, m.routes[i]? = some s → s.node = node →
    ∃ lost, given.map wrap ++ s.queue ++ lost = n.backlog m i ∧ (s.alive = true → lost = []) ∧
      ((n.waitingOn i).filter (fun w => m.accepted w.id) ++ s.waiting).Sublist (n.waitingOn i)

/-- A node has just left. -/
theorem outlives_depart (ho : n.Orderly) (node : NodeId) (i : RouteId) :
    Outlives node (n.depart node) i [] (n.depart node) := by
  have ho := (thinned_depart n node).orderly ho
  refine ⟨hasLeft_depart n node, fun w hw => ?_, fun h => ⟨h, rfl⟩, fun s hs _ => ⟨[], ?_⟩⟩
  · cases hr : (n.depart node).routes[i]? with
    | none =>
      rw [waitingOn_of_none hr] at hw
      exact absurd hw List.not_mem_nil
    | some r =>
      rw [waitingOn_of_route hr] at hw
      exact (ho.waits i r w hr hw).1
  · have hnone : (s.waiting.filter fun w => (n.depart node).accepted w.id) = [] :=
      List.filter_eq_nil_iff.mpr fun w hw => by
        rw [ho.accepted_waiting hs hw]
        exact Bool.false_ne_true
    rw [backlog, waitingOn_of_route hs, hnone, hs]
    exact ⟨rfl, fun _ => rfl, List.Sublist.refl _⟩

namespace Outlives

variable {k : Network} {given : List (NodeId × Message)}

theorem backlog_congr (h : ∀ w ∈ n.waitingOn i, k.accepted w.id = m.accepted w.id) :
    n.backlog k i = n.backlog m i ∧
      (n.waitingOn i).filter (fun w => k.accepted w.id) =
        (n.waitingOn i).filter (fun w => m.accepted w.id) := by
  have hfilter := List.filter_congr h
  exact ⟨by rw [backlog, hfilter, backlog], hfilter⟩

/-- Nothing is accepted and nothing given. -/
theorem lapse (h : Outlives node n i given m) {failed : List (SendId × Except NetworkFault Unit)}
    (hl : m.Lapsed k failed) (ho : m.Orderly) (hleft : k.hasLeft node = true) :
    Outlives node n i given k := by
  obtain ⟨hback, hfilter⟩ :=
    backlog_congr (n := n) (i := i) (m := m) fun w _ => hl.accepted ho w.id
  refine ⟨hleft, fun w hw => hl.sends ▸ h.begun w hw, fun hnone => ?_, fun s' hs' hnode => ?_⟩
  · refine h.absent ?_
    cases hs : m.routes[i]? with
    | none => rfl
    | some s =>
      obtain ⟨s', hs', -⟩ := hl.route i s hs
      rw [hnone] at hs'
      cases hs'
  · rw [hback, hfilter]
    rcases hl.route_back hs' with ⟨hnone, hqueue, hwaiting⟩ | ⟨s, hs, haddress, hsub, hkept⟩
    · -- A listener that comes after its node left finds nothing.
      obtain ⟨hn, rfl⟩ := h.absent hnone
      rw [backlog, waitingOn_of_none hn, hn, hqueue, hwaiting]
      exact ⟨[], rfl, fun _ => rfl, List.Sublist.refl _⟩
    · obtain ⟨lost, hlost, halive, hwaits⟩ :=
        h.found s hs ((Route.node_congr haddress).symm.trans hnode)
      have hwaits' := (List.Sublist.append_left hsub _).trans hwaits
      rcases hkept with ⟨hlives, hqueue⟩ | ⟨hdead, hqueue, -⟩
      · rw [hlives, hqueue]
        exact ⟨lost, hlost, halive, hwaits'⟩
      · refine ⟨s.queue ++ lost, ?_, fun hlives => ?_, hwaits'⟩
        · rw [hqueue, List.append_nil, ← hlost, List.append_assoc]
        · rw [hdead] at hlives
          cases hlives

/-- A send is begun, on another route if it finds one. -/
theorem send (h : Outlives node n i given m) (sender target : NodeId) (topic : Topic)
    (message : Message) (timeout : Span) :
    Outlives node n i given (m.send sender target topic message timeout).1 := by
  obtain ⟨-, hsends, hgiven⟩ := given_of_send m sender target topic message timeout
  obtain ⟨hback, hfilter⟩ := backlog_congr (n := n) (i := i)
    fun w hw => accepted_congr (hgiven.result? (Nat.ne_of_lt (h.begun w hw)))
  have hroutes : (∀ s, (m.send sender target topic message timeout).1.routes[i]? = some s →
      s.node = node → m.routes[i]? = some s) ∧
      ((m.send sender target topic message timeout).1.routes[i]? = none → m.routes[i]? = none) := by
    by_cases htarget : target = node
    · rw [htarget, (send_departed h.left sender topic message timeout).2]
      exact ⟨fun s hs _ => hs, fun hs => hs⟩
    · exact hgiven.elsewhere htarget
  refine ⟨(hasLeft_congr (departed_send ..)).trans h.left,
    fun w hw => hsends ▸ Nat.lt_succ_of_lt (h.begun w hw),
    fun hs => h.absent (hroutes.2 hs), fun s hs hnode => ?_⟩
  rw [hback, hfilter]
  exact h.found s (hroutes.1 s hs hnode) hnode

/-- The listener takes the next letter of its route, and the first send that waits may move up. -/
theorem taken (h : Outlives node n i given m) (hids : ((n.waitingOn i).map (·.id)).Nodup)
    {posts : List Post} {before : RouteId → List (NodeId × Message)} (hl : Ledger posts before m)
    {x : NodeId × Message} (ht : m.take i = some (wrap x, k)) :
    Outlives node n i (given ++ [x]) k := by
  obtain ⟨r, r', taken⟩ := taken_of_take ht
  have halike := (take_held ht).1.alike
  have hroute : k.routes[i]? = some r' := (taken.getElem? i).trans (if_pos rfl)
  refine ⟨(halike.hasLeft node).trans h.left, fun w hw => taken.sends ▸ h.begun w hw,
    fun hnone => ?_, fun s hs hnode => ?_⟩
  · rw [hroute] at hnone
    cases hnone
  · obtain rfl := Option.some.inj (hroute.symm.trans hs)
    obtain ⟨lost, hlost, hlives, hwaits⟩ :=
      h.found r taken.route ((Route.node_congr taken.address).symm.trans hnode)
    rw [List.map_append, List.map_singleton]
    rcases taken.gone with ⟨hw, hw', hqueue, -⟩ | ⟨w, queue, hw, hqueue, hqueue', hresults⟩
    · obtain ⟨hback, hfilter⟩ := backlog_congr (n := n) (i := i) (k := k) (m := m) fun v _ =>
        accepted_congr (taken.result? fun w hhead => by rw [hw] at hhead; cases hhead)
      have hsame : r'.alive = r.alive := by
        have hface := halike.face i
        rw [hroute, taken.route, Option.map_some, Option.map_some, Option.some.injEq] at hface
        exact congrArg (·.2.2.2) hface
      rw [hback, hfilter, hw', hsame, ← hw, ← hlost, hqueue]
      exact ⟨lost, by simp only [List.append_assoc, List.nil_append, List.cons_append], hlives,
        hwaits⟩
    · rw [hw] at hwaits
      have hfilter := filter_next hids hwaits (accepted_next hresults)
      have hnone : lost = [] :=
        hlives (hl.alive i r taken.route (by rw [hw]; exact List.cons_ne_nil _ _))
      refine ⟨[], ?_, fun _ => rfl, ?_⟩
      · rw [backlog, hfilter, List.map_append, ← List.append_assoc, ← backlog, ← hlost, hnone,
          hqueue, hqueue']
        simp only [List.append_assoc, List.nil_append, List.cons_append, List.append_nil,
          List.map_cons, List.map_nil]
      · rw [hfilter, List.append_assoc]
        exact hwaits

/-- Another listener takes a letter of its route. -/
theorem taken_elsewhere (h : Outlives node n i given m) {posts : List Post}
    {before : RouteId → List (NodeId × Message)} (hl : Ledger posts before m)
    (hown : ∀ w ∈ n.waitingOn i, (posts[w.id]?).bind (·.route) = some i) {j : RouteId} (hj : i ≠ j)
    {e : Envelope} (ht : m.take j = some (e, k)) : Outlives node n i given k := by
  obtain ⟨r, r', taken⟩ := taken_of_take ht
  have hroute : k.routes[i]? = m.routes[i]? := (taken.getElem? i).trans (if_neg hj)
  -- A send that waits on another route has not waited on this one.
  have haccepted : ∀ w ∈ n.waitingOn i, k.accepted w.id = m.accepted w.id := by
    intro w hw
    refine accepted_congr (taken.result? fun v hv heq => ?_)
    obtain ⟨p, hp, hpj, -⟩ := hl.waits j r v taken.route (List.mem_of_mem_head? hv)
    have hpi := hown w hw
    rw [heq, hp, Option.bind_some, hpj] at hpi
    exact hj (Option.some.inj hpi).symm
  obtain ⟨hback, hfilter⟩ := backlog_congr haccepted
  refine ⟨((take_held ht).1.alike.hasLeft node).trans h.left,
    fun w hw => taken.sends ▸ h.begun w hw, fun hnone => h.absent (hroute.symm.trans hnone),
    fun s hs hnode => ?_⟩
  rw [hback, hfilter]
  exact h.found s (hroute.symm.trans hs) hnode

end Outlives

end Network

namespace Exercise

variable {e : Exercise} {a : Act} {acts before after : List Act} {i : RouteId} {node : NodeId}
  {n : Network}

/-- A node that has left does not come back. -/
theorem hasLeft_act (h : e.network.hasLeft node = true) (a : Act) :
    (e.act a).network.hasLeft node = true := by
  have hsame : (e.act a).network.departed = e.network.departed →
      (e.act a).network.hasLeft node = true := fun hd => (Network.hasLeft_congr hd).trans h
  cases a with
  | register m topic name mode =>
    refine hsame ?_
    cases hr : e.network.register m topic with
    | error cause => simp only [act, register, hr]
    | ok new =>
      simp only [act, register, hr]
      exact Network.departed_register hr
  | unregister m topic =>
    refine hsame ?_
    simp only [act, Network.unregister]
    split <;> rfl
  | depart m => exact decide_eq_true (SortedSet.mem_insert.mpr (.inr (of_decide_eq_true h)))
  | transmit number =>
    rcases e.transmit_cases number with ⟨-, he⟩ | ⟨s, s', -, -, -, -, ⟨-, hn⟩ | ⟨-, hn⟩⟩
    · rw [he, h]
    · rw [hn, h]
    · exact hsame (by rw [hn, Network.departed_send])
  | listen i =>
    cases hl : e.listen i with
    | none => rw [act, hl]; exact h
    | some e' =>
      rw [act, hl]
      rcases listens hl with ⟨l, envelope, -, -, ht, -⟩ | ⟨l, -, hnetwork, -⟩
      · exact ((Network.take_held ht).1.alike.hasLeft node).trans h
      · rw [Option.getD_some, hnetwork]
        split
        · exact (Network.hasLeft_congr (Network.departed_kill ..)).trans h
        · exact h
  | elapse ms => exact hsame (Network.departed_fail ..)
  | send number s => exact h
  | turnGate gate => exact h
  | clear => exact h

theorem hasLeft_run (h : e.network.hasLeft node = true) (acts : List Act) :
    (e.run acts).network.hasLeft node = true := by
  induction acts generalizing e with
  | nil => exact h
  | cons a acts ih => exact ih (hasLeft_act h a)

theorem outlives_act {posts : List Post} {given : RouteId → List (NodeId × Message)}
    {got : List (NodeId × Message)} (h : e.Noted posts given)
    (hids : ((n.waitingOn i).map (·.id)).Nodup)
    (hown : ∀ w ∈ n.waitingOn i, (posts[w.id]?).bind (·.route) = some i)
    (ho : n.Outlives node i got e.network) (a : Act) :
    n.Outlives node i (got ++ arising (e.busyOn i) ((e.act a).busyOn i)) (e.act a).network := by
  cases e.done h.ledger.orderly a with
  | lapses failed begun network busy =>
    have hnothing : arising (e.busyOn i) ((e.act a).busyOn i) = [] := by
      rcases busy i with hsame | hnone
      · rw [hsame, arising_self]
      · rw [hnone, arising_none]
    rw [hnothing, List.append_nil]
    exact ho.lapse network h.ledger.orderly (hasLeft_act ho.left a)
  | sends s number sender begun network busy =>
    rw [busy i, arising_self, List.append_nil, network]
    exact ho.send s.node s.target s.topic s.message s.timeout
  | takes j envelope begun network idle there busy =>
    obtain ⟨x, rfl, -, hgiven⟩ := arising_of_take h network idle busy
    rw [hgiven i]
    by_cases hj : i = j
    · subst hj
      rw [if_pos rfl]
      exact ho.taken hids h.ledger network
    · rw [if_neg hj, List.append_nil]
      exact ho.taken_elsewhere h.ledger hown hj network

theorem outlives_run {posts : List Post} {given : RouteId → List (NodeId × Message)}
    {got : List (NodeId × Message)} (h : e.Noted posts given) (ha : AllFit acts)
    (hids : ((n.waitingOn i).map (·.id)).Nodup)
    (hown : ∀ w ∈ n.waitingOn i, (posts[w.id]?).bind (·.route) = some i)
    (ho : n.Outlives node i got e.network) :
    n.Outlives node i (got ++ e.given i acts) (e.run acts).network := by
  induction acts generalizing e posts given got with
  | nil =>
    rw [Exercise.given, List.append_nil]
    exact ho
  | cons a acts ih =>
    have hlater : ∀ w ∈ n.waitingOn i,
        ((posts ++ (e.begins a).toList)[w.id]?).bind (·.route) = some i := by
      intro w hw
      obtain ⟨p, hp, hroute⟩ := Option.bind_eq_some_iff.mp (hown w hw)
      rw [List.getElem?_append_left (List.getElem?_eq_some_iff.mp hp).1, hp]
      exact hroute
    rw [Exercise.given, ← List.append_assoc]
    exact ih (noted_act h ha.head) ha.tail hlater (outlives_act h hids hown ho a)

-- ============================================================================
-- The sends of a run
-- ============================================================================

theorem run_append (e : Exercise) (before after : List Act) :
    e.run (before ++ after) = (e.run before).run after := List.foldl_append

theorem posts_append (e : Exercise) (before after : List Act) :
    e.posts (before ++ after) = e.posts before ++ (e.run before).posts after := by
  induction before generalizing e with
  | nil => rfl
  | cons a before ih =>
    rw [List.cons_append, posts, ih, posts, List.append_assoc]
    rfl

/-- Every send of a run was begun by one of its acts. -/
theorem exists_begins {p : Post} {k : Nat} (h : (e.posts acts)[k]? = some p) :
    ∃ before a after, acts = before ++ a :: after ∧ (e.run before).begins a = some p ∧
      (e.posts before).length = k := by
  induction acts generalizing e k with
  | nil => cases h
  | cons a acts ih =>
    rw [posts] at h
    by_cases hk : k < (e.begins a).toList.length
    · rw [List.getElem?_append_left hk] at h
      cases hb : e.begins a with
      | none =>
        rw [hb] at hk
        exact absurd hk (Nat.not_lt_zero k)
      | some q =>
        rw [hb] at h hk
        obtain rfl : k = 0 := Nat.lt_one_iff.mp hk
        exact ⟨[], a, acts, rfl, hb.trans h, rfl⟩
    · rw [List.getElem?_append_right (Nat.le_of_not_lt hk)] at h
      obtain ⟨before, b, after, rfl, hb, hlength⟩ := ih h
      refine ⟨a :: before, b, after, rfl, hb, ?_⟩
      rw [posts, List.length_append, hlength]
      exact Nat.add_sub_cancel' (Nat.le_of_not_lt hk)

/-- A send that is begun when its target has left finds no route and has failed by the end. -/
theorem result_of_departed (ha : AllFit acts) {p : Post} {id : SendId}
    (hacts : acts = before ++ a :: after) (hb : (run {} before).begins a = some p)
    (hid : (posts {} before).length = id) (hleft : (run {} before).network.hasLeft p.target = true) :
    p.route = none ∧
      (run {} acts).network.result? id = some (.error (.nodeLeft p.target)) := by
  subst hacts
  have hbefore : (run {} before).Noted (posts {} before) (fun i => given {} i before) :=
    noted_of_run fun number s hs => ha number s (List.mem_append_left _ hs)
  have hfit : AllFit (a :: after) := fun number s hs => ha number s (List.mem_append_right _ hs)
  cases done hbefore.ledger.orderly a with
  | lapses failed begun _ _ => rw [begun] at hb; cases hb
  | takes i envelope begun _ _ _ _ => rw [begun] at hb; cases hb
  | sends s number sender begun network busy =>
    obtain rfl := Option.some.inj (begun.symm.trans hb)
    obtain ⟨hroute, hsend⟩ :=
      Network.send_departed hleft s.node s.topic s.message s.timeout
    refine ⟨hroute, ?_⟩
    have hmem : (id, Except.error (.nodeLeft s.target)) ∈
        ((run {} before).act a).network.results := by
      rw [network, hsend, ← hid, hbefore.ledger.counted]
      exact List.mem_cons_self
    rw [run_append]
    refine Network.result?_of_mem ?_ ((results_run (noted_act hbefore hfit.head) hfit.tail).subset hmem)
    have hall := (noted_of_run ha).ledger.once
    rwa [run_append] at hall

/-- Whatever is sent to a node once it has left fails, whoever listens there by then. -/
theorem result_after_departure (hfit : AllFit (before ++ .depart node :: after)) {p : Post}
    {id : SendId} (hid : (posts {} before).length ≤ id)
    (hp : (posts {} (before ++ .depart node :: after))[id]? = some p) (htarget : p.target = node) :
    p.route = none ∧ (run {} (before ++ .depart node :: after)).network.result? id =
      some (.error (.nodeLeft node)) := by
  have hacts : ∀ l, before ++ .depart node :: l = (before ++ [.depart node]) ++ l := fun l => by
    rw [List.append_assoc]
    rfl
  have hcount : (posts {} (before ++ [.depart node])).length = (posts {} before).length := by
    rw [posts_append, List.length_append]
    rfl
  rw [hacts after, posts_append, List.getElem?_append_right (hcount ▸ hid)] at hp
  obtain ⟨earlier, a, later, rfl, hb, hlength⟩ := exists_begins hp
  have hleft : (run {} (before ++ [.depart node])).network.hasLeft node = true := by
    rw [run_append]
    exact Network.hasLeft_depart _ node
  have hsplit : before ++ .depart node :: (earlier ++ a :: later) =
      (before ++ [.depart node] ++ earlier) ++ a :: later := by
    rw [hacts, ← List.append_assoc]
  subst htarget
  refine result_of_departed hfit hsplit (by rw [run_append]; exact hb) ?_ ?_
  · rw [posts_append, List.length_append, hlength]
    exact Nat.add_sub_cancel' (hcount ▸ hid)
  · rw [run_append]
    exact hasLeft_run hleft earlier

-- ============================================================================
-- After a node has left
-- ============================================================================

/-- What comes of the messages to a node once it has left, over any run. Whatever is sent to it from
    then on fails, whoever listens there by then. Each of its listeners is still given what was
    queued for it, in order, and behind that the letters whose sends were waiting for room, as far
    as they are accepted; a living one that is idle and finds nothing on its route has been given
    all of it. So only those are given nothing for which nothing was queued. -/
theorem backlog_is_given (hfit : AllFit (before ++ .depart node :: after)) :
    let e := run {} (before ++ [.depart node])
    let log := posts {} (before ++ .depart node :: after)
    let final := run {} (before ++ .depart node :: after)
    (∀ id p, (posts {} before).length ≤ id → log[id]? = some p → p.target = node →
      p.route = none ∧ final.network.result? id = some (.error (.nodeLeft node))) ∧
    ∀ i r, final.network.routes[i]? = some r → r.node = node →
      (e.given i after).map wrap <+: e.network.backlog final.network i ∧
      (final.isAlive i = true → final.busyOn i = none → final.listen i = none →
        (e.given i after).map wrap = e.network.backlog final.network i) := by
  intro e log final
  have hsplit : before ++ .depart node :: after = (before ++ [.depart node]) ++ after := by
    rw [List.append_assoc]
    rfl
  have hfinal : final = e.run after := by
    rw [← run_append, ← hsplit]
  have hbefore : (run {} before).Noted (posts {} before) (fun i => given {} i before) :=
    noted_of_run fun number s hs => hfit number s (List.mem_append_left _ hs)
  have hnoted : e.Noted (posts {} (before ++ [.depart node]))
      (fun i => given {} i (before ++ [.depart node])) := noted_of_run fun number s hs =>
    hfit number s (hsplit ▸ List.mem_append_left _ hs)
  have he : e = (run {} before).act (.depart node) := run_append {} before [.depart node]
  refine ⟨fun id p hid hp htarget => result_after_departure hfit hid hp htarget,
    fun i r hr hnode => ?_⟩
  have hstart : e.network.Outlives node i [] e.network := by
    rw [he]
    exact Network.outlives_depart hbefore.ledger.orderly node i
  obtain ⟨hids, hown⟩ := hnoted.ledger.waitingOn i
  have hend := outlives_run hnoted (fun number s hs =>
    hfit number s (hsplit ▸ List.mem_append_right _ hs)) hids hown hstart
  rw [List.nil_append, ← hfinal] at hend
  obtain ⟨lost, hlost, hlives, -⟩ := hend.found r hr hnode
  refine ⟨⟨r.queue ++ lost, by rw [← List.append_assoc, hlost]⟩, fun halive hidle hnothing => ?_⟩
  have hqueue : r.queue = [] := queue_of_idle (noted_of_run hfit) hidle hnothing hr
  have halive' : r.alive = true := by
    rw [isAlive, hr] at halive
    exact halive
  rw [← hlost, hqueue, hlives halive', List.append_nil, List.append_nil]

/-- A supplier is busy with the first of two demands when its node leaves, and the second one is
    queued; a third one is sent, and a supplier listens anew, after it has left. -/
def demandsAtDeparture : List Act × List Act :=
  ([.register 2 supplierTopic "supplier" .gated, .send 0 (courier 3), .send 1 (courier 4),
      .transmit 0, .transmit 1, .listen 0],
    [.register 2 supplierTopic "another" .plain, .send 2 (courier 5), .transmit 2, .turnGate true,
      .listen 0, .listen 0, .listen 0, .listen 1])

theorem backlog_is_given_demandsAtDeparture :
    let acts := demandsAtDeparture.1 ++ .depart 2 :: demandsAtDeparture.2
    let e := run {} (demandsAtDeparture.1 ++ [.depart 2])
    AllFit acts ∧ (run {} acts).network.result? 2 = some (.error (.nodeLeft 2)) ∧
      (e.given 0 demandsAtDeparture.2).map wrap = [wrap (1, (courier 4).message)] ∧
      (e.given 1 demandsAtDeparture.2).map wrap = [] := by
  intro acts e
  have hfit : AllFit acts := by
    intro number s hs
    simp only [acts, demandsAtDeparture, List.cons_append, List.nil_append, List.mem_cons,
      List.not_mem_nil, or_false, reduceCtorEq, false_or, Act.send.injEq] at hs
    rcases hs with ⟨-, rfl⟩ | ⟨-, rfl⟩ | ⟨-, rfl⟩ <;> trivial
  obtain ⟨hlater, hgiven⟩ := backlog_is_given
    (show AllFit (demandsAtDeparture.1 ++ .depart 2 :: demandsAtDeparture.2) from hfit)
  have hsent : ((posts {} acts)[2]?).map (·.target) = some 2 := by decide +kernel
  have hold : ((run {} acts).network.routes[0]?).map (·.node) = some 2 := by decide +kernel
  have hnew : ((run {} acts).network.routes[1]?).map (·.node) = some 2 := by decide +kernel
  obtain ⟨p, hp, htarget⟩ := Option.map_eq_some_iff.mp hsent
  obtain ⟨r, hr, hnode⟩ := Option.map_eq_some_iff.mp hold
  obtain ⟨s, hs, hnode'⟩ := Option.map_eq_some_iff.mp hnew
  have halive : (run {} acts).isAlive 0 = true := by decide +kernel
  have hidle : (run {} acts).busyOn 0 = none := by decide +kernel
  have hnothing : (run {} acts).listen 0 = none := Option.isNone_iff_eq_none.mp (by decide +kernel)
  refine ⟨hfit, (hlater 2 p (by decide +kernel) hp htarget).2, ?_, ?_⟩
  · exact ((hgiven 0 r hr hnode).2 halive hidle hnothing).trans (by decide +kernel)
  · exact List.prefix_nil.mp ((hgiven 1 s hs hnode').1.trans (by decide +kernel))

/-- A demand that was queued when its node left is given to the supplier there all the same. -/
theorem queued_demand_outlives_node :
    let e := run {} (demandsAtDeparture.1 ++ [.depart 2])
    e.network.hasLeft 2 = true ∧ e.given 0 demandsAtDeparture.2 = [(1, (courier 4).message)] := by
  refine ⟨by decide +kernel, ?_⟩
  decide +kernel

end Exercise
end Rebalance
