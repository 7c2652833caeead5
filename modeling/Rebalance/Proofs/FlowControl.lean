/-
  Rebalance.Proofs.FlowControl

  One message in flight per stream.  `Advances` is what one thing that happens
  comes to in a cluster that is `Ordered`: no message comes, unless a round is
  started.  Along a run that starts one round only, this happens while nothing is
  in flight, so there is never more than one message of a stream; and the demands
  for a next page that are given to the network are those that pages come to.
-/
import Rebalance.Proofs.Members

namespace Rebalance
namespace Cluster

variable {c c' : Cluster} {d : Demander} {i : RouteId} {m : Network} {l : ClusterListener}
  {e : Envelope} {deeds : List Deed}

-- ============================================================================
-- What happens at once
-- ============================================================================

/-- What is noted of the demander, and what becomes of the demands that were given to the network. -/
inductive Notes (c : Cluster) (d : Demander) (c' : Cluster) : List Deed → Prop where
  /-- The demander has no part in it. -/
  | aside (h : c'.transfers = c.transfers) : Notes c d c' []
  /-- Something happens to the demander that is not about a demand. -/
  | steps {i : Demander.Input} (hi : ∀ id r, i ≠ .answer id r) (h : c'.transfers = c.transfers) :
      Notes c d c' [.input i]
  /-- The demand that a job waits for is given to the network. -/
  | submits {id : JobId} {x : SendId} {j : Job} {q : Request} (hj : d.job? id = some j)
      (hq : j.request? = some q) (hnone : ∀ t ∈ c.transfers, t.2.1 ≠ id)
      (h : c'.transfers = c.transfers ++ [(0, id, x)]) : Notes c d c' [.sends id q]
  /-- The demander is told what became of a demand. -/
  | reports {id : JobId} {x : SendId} {r : Except Fault Unit} (ht : (0, id, x) ∈ c.transfers)
      (h : c'.transfers = c.without x) :
      Notes c d c' [.input (.answer id r)]

/-- A cluster in order comes to another one in order, where no message has come, unless a round was
    started. -/
structure Advances (c : Cluster) (d : Demander) (deeds : List Deed) (c' : Cluster) : Prop where
  notes : Notes c d c' deeds
  ordered : c'.Ordered (d.run (Deed.inputs deeds))
  numbered : c'.Numbered
  flows : (∀ k, (c'.inFlight (d.run (Deed.inputs deeds))).count k ≤ (c.inFlight d).count k) ∨
    d.begun (Deed.inputs deeds) ≠ [] ∧
      (c.inFlight d = [] → ∀ k, (c'.inFlight (d.run (Deed.inputs deeds))).count k ≤ 1)

theorem Numbered.of_transfers (hn : c.Numbered) (ht : c'.transfers = c.transfers)
    (hs : c.network.sends ≤ c'.network.sends) : c'.Numbered :=
  fun t h => Nat.lt_of_lt_of_le (hn t (ht ▸ h)) hs

theorem eq_nil_of_count {α : Type} [BEq α] [LawfulBEq α] {xs : List α} (h : ∀ k, xs.count k ≤ 0) :
    xs = [] :=
  List.eq_nil_iff_forall_not_mem.mpr fun k =>
    List.count_eq_zero.mp (Nat.le_zero.mp (h k))

/-- Something that the demander has no part in. -/
theorem Advances.aside (ho : c'.Ordered d) (hn : c.Numbered) (ht : c'.transfers = c.transfers)
    (hs : c.network.sends ≤ c'.network.sends)
    (hcount : ∀ k, (c'.inFlight d).count k ≤ (c.inFlight d).count k) : Advances c d [] c' where
  notes := .aside ht
  ordered := ho
  numbered := hn.of_transfers ht hs
  flows := .inl hcount

/-- Something happens to the demander that is neither a page nor about a demand. -/
theorem Advances.steps (ho : c.Ordered d) (hn : c.Numbered) {i : Demander.Input}
    (hi : ∀ id r, i ≠ .answer id r) (hp : ∀ worker sender page, i ≠ .page worker sender page) :
    Advances c d [.input i] (c.step 0 i) := by
  obtain ⟨hordered, hflows⟩ := ho.steps hi
  obtain ⟨htransfers, -, hsends⟩ := step_keeps ho.demanders i
  refine ⟨.steps hi htransfers, hordered, hn.of_transfers htransfers (Nat.le_of_eq hsends.symm), ?_⟩
  rcases hflows with ⟨hstarts, -, hcount⟩ | ⟨_, _, _, hpage, -⟩ | ⟨-, hcount⟩
  · refine .inr ⟨?_, hcount⟩
    change (if d.starts i then [(d.step i).current] else []) ++ [] ≠ []
    rw [if_pos hstarts]
    exact List.cons_ne_nil _ _
  · exact absurd hpage (hp _ _ _)
  · exact .inl hcount

/-- Before it something else was done, which brought no message. -/
theorem Advances.after {b : Cluster} (h : Advances b d deeds c') (ht : b.transfers = c.transfers)
    (hcount : ∀ k, (b.inFlight d).count k ≤ (c.inFlight d).count k) : Advances c d deeds c' where
  notes := by
    cases h.notes with
    | aside hsame => exact .aside (hsame.trans ht)
    | steps hi hsame => exact .steps hi (hsame.trans ht)
    | submits hj hq hnone hmore => exact .submits hj hq (ht ▸ hnone) (ht ▸ hmore)
    | reports hmem hless => exact .reports (ht ▸ hmem) (by rw [hless, without, without, ht])
  ordered := h.ordered
  numbered := h.numbered
  flows := by
    rcases h.flows with hflows | ⟨hbegun, hflows⟩
    · exact .inl fun k => Nat.le_trans (hflows k) (hcount k)
    · refine .inr ⟨hbegun, fun hnone => hflows (eq_nil_of_count fun k => ?_)⟩
      have hk := hcount k
      rwa [hnone, List.count_nil] at hk

/-- The demander takes up a page. -/
theorem Ordered.takesUp (ho : c.Ordered d) (hn : c.Numbered) {worker : WorkerId}
    (hl : c.listeners[i]? = some (.demander 0 worker none)) (sender : NodeId) (page : Supply)
    {b : Cluster} (hb : b.transfers = c.transfers)
    (hcount : ∀ k, (c.inFlight d).count k + [(sender, worker)].count k ≤ (b.inFlight d).count k) :
    Advances b d [.input (.page worker sender page)]
      ((c.step 0 (.page worker sender page)).setListener i (.demander 0 worker (some d.nextJob))) := by
  obtain ⟨hordered, hflows⟩ := ho.steps (i := .page worker sender page) (by rintro _ _ ⟨⟩)
  obtain ⟨htransfers, hlisteners, hsends⟩ := step_keeps ho.demanders (.page worker sender page)
  have hl' : (c.step 0 (.page worker sender page)).listeners[i]? = some (.demander 0 worker none) := by
    rw [hlisteners]
    exact hl
  obtain ⟨r, hr, -⟩ := hordered.attended i _ hl'
  refine ⟨.steps (by rintro _ _ ⟨⟩) (htransfers.trans hb.symm),
    hordered.setListener hl' (fun _ h => h) (by rintro _ _ _ _ ⟨⟩) (by rintro _ _ ⟨⟩),
    (hn.of_transfers htransfers (Nat.le_of_eq hsends.symm)), .inl fun k => ?_⟩
  have hset := count_setListener (d := d.step (.page worker sender page)) hl' hr
    (.demander 0 worker (some d.nextJob)) k
  refine Nat.le_trans (Nat.le_trans (Nat.le_add_right _ _) hset) (Nat.le_trans ?_ (hcount k))
  rcases hflows with ⟨-, ⟨_, _, _, hbrings⟩, -⟩ | ⟨_, _, _, heq, hk⟩ | ⟨hnot, -⟩
  · cases hbrings
  · cases heq
    exact hk k
  · exact absurd rfl (hnot _ _ _)

/-- A supplier begins with a demand. -/
theorem Ordered.begins (ho : c.Ordered d) (hn : c.Numbered) {x : Nat}
    (hl : c.listeners[i]? = some (.supplier x none)) {r : Route} (hr : c.network.routes[i]? = some r)
    {sender : NodeId} {q : Demand} (hq : q.Wants r.topic.worker)
    {b : Cluster} (hb : b.transfers = c.transfers)
    (hcount : ∀ k, (c.inFlight d).count k + [r.supplied].count k ≤ (b.inFlight d).count k) :
    Advances b d [] ((c.onSupplier x Supplier.receive).setListener i
      (.supplier x (some (.held sender q)))) := by
  have hordered := ho.onSupplier x (f := Supplier.receive) fun _ _ => rfl
  refine ⟨.aside hb.symm, hordered.setListener hl (fun _ h => h) ?_ (by rintro _ _ ⟨⟩), hn,
    .inl fun k => ?_⟩
  · rintro _ _ _ r' ⟨⟩ hr'
    obtain rfl := Option.some.inj (hr.symm.trans hr')
    exact hq
  · have hset := count_setListener (c := c.onSupplier x Supplier.receive) (d := d) hl hr
      (.supplier x (some (.held sender q))) k
    exact Nat.le_trans (Nat.le_trans (Nat.le_add_right _ _) hset) (hcount k)

/-- An idle listener takes a message. -/
theorem Ordered.hears (ho : c.Ordered d) (hn : c.Numbered) (hl : c.listeners[i]? = some l)
    (hidle : l.isIdle = true) (ht : c.network.take i = some (e, m)) :
    Advances c d (c.told i) (({ c with network := m } : Cluster).hear i l e) := by
  obtain ⟨r, r', htaken⟩ := Network.taken_of_take ht
  obtain ⟨hordered, hcount⟩ := ho.taken htaken
  obtain ⟨r₀, hr₀, hat⟩ := ho.attended i l hl
  obtain rfl := Option.some.inj (htaken.route.symm.trans hr₀)
  have hsends : c.network.sends ≤ m.sends := Nat.le_of_eq htaken.sends.symm
  have hnumbered : ({ c with network := m } : Cluster).Numbered := hn.of_transfers rfl hsends
  have hless : ∀ k, (({ c with network := m } : Cluster).inFlight d).count k ≤
      (c.inFlight d).count k := fun k => Nat.le_trans (Nat.le_add_right _ _) (hcount k)
  -- The listener does nothing about some messages.
  have hdrop : Advances c d [] { c with network := m } := .aside hordered hn rfl hsends hless
  cases l with
  | nobody =>
    have hhear : ({ c with network := m } : Cluster).hear i .nobody e = { c with network := m } := by
      rcases Wire.decode e.bytes with cause | (q | page) <;> simp only [hear]
    rw [hhear]
    simpa only [told, hl, ht] using hdrop
  | demander x worker busy =>
    obtain rfl : busy = none := Option.isNone_iff_eq_none.mp hidle
    obtain ⟨rfl, hrole, hworker⟩ := hat
    have hone : ({ c with network := m } : Cluster).demanders[0]? = some d := by
      rw [hordered.demanders]
      rfl
    rcases hdec : Wire.decode e.bytes with cause | (q | page)
    · simp only [told, hl, ht, hdec, hear]
      exact (Advances.steps hordered hnumbered (by rintro _ _ ⟨⟩) (by rintro _ _ _ ⟨⟩)).after rfl hless
    · simp only [told, hl, ht, hdec, hear]
      exact hdrop
    · simp only [told, hl, ht, hdec, hear, hone]
      refine hordered.takesUp hnumbered hl e.sender page rfl fun k => ?_
      have hk := hcount k
      rw [Route.stream, hrole, hworker] at hk
      exact hk
  | supplier x busy =>
    obtain rfl : busy = none := Option.isNone_iff_eq_none.mp hidle
    obtain ⟨hrole, -⟩ := hat
    obtain ⟨q, hbytes, hwants⟩ := ho.asked i r e htaken.route hrole htaken.mem
    have hdec : Wire.decode e.bytes = .ok (.demand q) := by
      rw [hbytes]
      exact Wire.decode_encode_demand q
    have hr' : m.routes[i]? = some r' := by rw [htaken.getElem? i, if_pos rfl]
    simp only [told, hl, ht, hdec, hear]
    refine hordered.begins hnumbered hl hr' (Route.topic_congr htaken.address ▸ hwants) rfl
      fun k => ?_
    have hk := hcount k
    rw [Route.stream, hrole] at hk
    rw [supplied_congr htaken.address]
    exact hk

theorem demander_of_index (hd : c.demanders = [d]) {x : Nat} {d' : Demander}
    (h : c.demanders[x]? = some d') : x = 0 ∧ d' = d := by
  rw [hd, List.getElem?_singleton] at h
  split at h
  · next hx => exact ⟨hx, (Option.some.inj h).symm⟩
  · cases h

/-- A supplier deals with a demand that it is busy with. -/
theorem Ordered.supplies (ho : c.Ordered d) (hn : c.Numbered) {x : Nat} {sender : NodeId}
    {q : Demand} {s : Supplier} (hl : c.listeners[i]? = some (.supplier x (some (.held sender q))))
    (hs : c.suppliers[x]? = some s) : Advances c d [] (c.supply i x s sender q) := by
  obtain ⟨hnode, hreply⟩ := answer_replies s sender q
  have hchanged := ho.onSupplier x (f := fun _ => (s.answer sender q).1) fun s' hs' => by
    rw [hnode, Option.some.inj (hs.symm.trans hs')]
  have hs' : (c.onSupplier x fun _ => (s.answer sender q).1).suppliers[x]? =
      some (s.answer sender q).1 := by
    rw [Cluster.onSupplier, List.getElem?_modify, hs]
    exact congrArg some (if_pos rfl)
  unfold supply
  simp only
  split
  · obtain ⟨hordered, hcount⟩ := hchanged.rests hl (.supplier x none) (fun _ h => h) rfl
      (by rintro _ _ ⟨⟩)
    exact .aside hordered hn rfl (Nat.le_refl _) hcount
  · next a ha =>
    -- The supplier may leave before its page is sent.
    generalize hb : (if a.leaves then (c.onSupplier x fun _ => (s.answer sender q).1).network.depart
      (s.answer sender q).1.node else (c.onSupplier x fun _ => (s.answer sender q).1).network) = m
    have hm : Network.Thinned c.network m := by
      rw [← hb]
      split
      · exact Network.thinned_depart _ _
      · exact .refl _
    obtain ⟨hordered, hcount⟩ := hchanged.thinned hm
    obtain ⟨hordered', hcount'⟩ := hordered.answers a.page a.timeout hl hs' (hreply a ha)
    obtain ⟨-, hsends, -⟩ := Network.given_of_send m (s.answer sender q).1.node sender a.topic
      (.supply a.page) a.timeout
    refine .aside hordered' hn rfl ?_ fun k => Nat.le_trans (hcount' k) (hcount k)
    change c.network.sends ≤ (m.send _ _ _ _ _).1.sends
    rw [hsends, hm.sends]
    exact Nat.le_succ _

/-- A listener does one thing. -/
theorem Ordered.listens (ho : c.Ordered d) (hn : c.Numbered) (h : c.listen i = some c') :
    Advances c d (c.told i) c' := by
  unfold listen at h
  simp only at h
  split at h
  · cases h
  · next x worker id hl =>
    have htold : c.told i = [] := by simp only [told, hl]
    split at h
    · cases h
    · split at h
      · obtain rfl := Option.some.inj h
        obtain ⟨hordered, hcount⟩ := ho.rests hl (.demander x worker none) (fun _ h => h) rfl
          (by rintro _ _ ⟨⟩)
        rw [htold]
        exact .aside hordered hn rfl (Nat.le_refl _) hcount
      · cases h
  · next x sender q hl =>
    have htold : c.told i = [] := by simp only [told, hl]
    split at h
    · cases h
    · next s hs =>
      split at h
      · cases h
      · obtain rfl := Option.some.inj h
        rw [htold]
        exact ho.supplies hn hl hs
  · next x id hl =>
    have htold : c.told i = [] := by simp only [told, hl]
    obtain ⟨r, hr, rfl⟩ := Option.map_eq_some_iff.mp h
    obtain ⟨hordered, hcount⟩ := ho.rests hl (.supplier x none) (fun _ h => h) rfl (by
      rintro _ _ ⟨⟩
      rw [hr]
      exact Option.some_ne_none r)
    rw [htold]
    exact .aside hordered hn rfl (Nat.le_refl _) hcount
  · next l hdemander hheld hsending hl =>
    obtain ⟨⟨e, m⟩, ht, rfl⟩ := Option.map_eq_some_iff.mp h
    refine ho.hears hn hl ?_ ht
    cases l with
    | nobody => rfl
    | demander x worker busy =>
      cases busy with
      | none => rfl
      | some id => exact absurd rfl (hdemander x worker id)
    | supplier x busy =>
      cases busy with
      | none => rfl
      | some work =>
        cases work with
        | held sender q => exact absurd rfl (hheld x sender q)
        | sending id => exact absurd rfl (hsending x id)

/-- A job gives its demand to the network. -/
theorem Ordered.gives (ho : c.Ordered d) (hn : c.Numbered) {x : Nat} {id : JobId}
    (h : c.submit x id = some c') : Advances c d (c.deeds (.submit x id)) c' := by
  unfold submit at h
  split at h
  · cases h
  · next d' hd' =>
    obtain ⟨rfl, rfl⟩ := demander_of_index ho.demanders hd'
    split at h
    · cases h
    · next hnot =>
      obtain ⟨q, hq, rfl⟩ := Option.map_eq_some_iff.mp h
      obtain ⟨j, hj, hjq⟩ := Option.bind_eq_some_iff.mp hq
      have hnone : ∀ t ∈ c.transfers, t.2.1 ≠ id := by
        rintro t ht rfl
        refine hnot (List.any_eq_true.mpr ⟨t, ht, ?_⟩)
        rw [(ho.carried t ht).1]
        simp
      obtain ⟨hordered, hnumbered, hcount⟩ := ho.submits hn hj hjq hnone
      have hdeeds : c.deeds (.submit 0 id) = [.sends id q] := by
        simp only [deeds, ho.demanders, List.head?_cons, Option.bind_some, hq]
      rw [hdeeds]
      exact ⟨.submits hj hjq hnone rfl, hordered, hnumbered, .inl hcount⟩

/-- A job is told what became of its demand. -/
theorem Ordered.learns (ho : c.Ordered d) (hn : c.Numbered) {x : SendId} (h : c.report x = some c') :
    Advances c d (c.deeds (.report x)) c' := by
  unfold report at h
  split at h
  · cases h
  · next t ht =>
    obtain ⟨r, hr, rfl⟩ := Option.map_eq_some_iff.mp h
    have hmem := List.mem_of_find?_eq_some ht
    obtain rfl : t.2.2 = x := by simpa using List.find?_some ht
    have hone := (ho.carried t hmem).1
    have htransfer : (0, t.2.1, t.2.2) ∈ c.transfers := by
      rw [← hone]
      exact hmem
    obtain ⟨hordered, htransfers, hsends, hcount⟩ := ho.reports htransfer
      (by rw [hr]; exact Option.some_ne_none r) (r.mapError Fault.network)
    have hdeeds : c.deeds (.report t.2.2) = [.input (.answer t.2.1 (r.mapError Fault.network))] := by
      simp only [deeds, ht, hr]
    rw [hdeeds, hone]
    refine ⟨.reports htransfer htransfers, hordered, fun t' ht' => ?_, .inl hcount⟩
    change t' ∈ Cluster.transfers (Cluster.step { c with transfers := c.without t.2.2 } _ _) at ht'
    rw [htransfers] at ht'
    exact Nat.lt_of_lt_of_le (hn t' (mem_without.mp ht').1) hsends

/-- The cluster makes a move. -/
theorem Ordered.moves (ho : c.Ordered d) (hn : c.Numbered) {x : Move} (h : c.move x = some c') :
    Advances c d (c.deeds x) c' := by
  cases x with
  | submit x id => exact ho.gives hn h
  | report x => exact ho.learns hn h
  | resume x id =>
    change c.resume x id = some c' at h
    unfold resume at h
    split at h
    · cases h
    · next d' hd' =>
      obtain ⟨rfl, rfl⟩ := demander_of_index ho.demanders hd'
      split at h
      · obtain rfl := Option.some.inj h
        exact .steps ho hn (by rintro _ _ ⟨⟩) (by rintro _ _ _ ⟨⟩)
      · cases h
  | listen i => exact ho.listens hn h

/-- Whatever happens keeps a cluster in order and brings no message, unless it starts a round. -/
theorem Ordered.stirs (ho : c.Ordered d) (hn : c.Numbered) (h : Stirs c deeds c') :
    Advances c d deeds c' := by
  have hlost : ∀ m, Network.Thinned c.network m → Advances c d [] { c with network := m } := by
    intro m hm
    obtain ⟨hordered, hcount⟩ := ho.thinned hm
    exact .aside hordered hn rfl (Nat.le_of_eq hm.sends.symm) hcount
  cases h with
  | moves x h => exact ho.moves hn h
  | happens i hi =>
    refine .steps ho hn ?_ ?_
    · rintro id r rfl
      cases hi
    · rintro worker sender page rfl
      cases hi
  | answers page timeout hl hs ht =>
    obtain ⟨hordered, hcount⟩ := ho.answers page timeout hl hs ht
    obtain ⟨-, hsends, -⟩ := Network.given_of_send c.network _ _ _ (.supply page) timeout
    exact .aside hordered hn rfl (Nat.le_trans (Nat.le_succ _) (Nat.le_of_eq hsends.symm)) hcount
  | ignores hl =>
    obtain ⟨hordered, hcount⟩ := ho.rests hl (.supplier _ none) (fun _ h => h) rfl
      (by rintro _ _ ⟨⟩)
    exact .aside hordered hn rfl (Nat.le_refl _) hcount
  | changes x f hf =>
    exact .aside (ho.onSupplier x fun s _ => hf s) hn rfl (Nat.le_refl _) fun _ => Nat.le_refl _
  | elapses ms => exact hlost _ (Network.thinned_elapse ho.network ms)
  | departs node => exact hlost _ (Network.thinned_depart _ node)
  | leaves node topic => exact hlost _ (Network.thinned_unregister _ node topic)
  | dies i => exact hlost _ (Network.thinned_kill ho.network i)

end Cluster
end Rebalance
