/-
  Rebalance.Proofs.Members

  What the members of a cluster do to its messages.  A listener that becomes
  idle lets go of what it was busy with, a supplier that answers puts a page in
  the place of a demand, and the demander holds what it takes up, or what it is
  to send for a round that it starts.  Each keeps a cluster `Ordered`.
-/
import Rebalance.Proofs.InFlight
import Rebalance.Proofs.Rounds

namespace Rebalance
namespace Cluster

open Demander (Opens)

variable {c : Cluster} {d : Demander} {i : RouteId} {m : Network} {l l' : ClusterListener}
  {r r' : Route} {e : Envelope} {k : StreamId}

-- ============================================================================
-- Listeners
-- ============================================================================

theorem getElem?_setListener (hl : c.listeners[i]? = some l) (l' : ClusterListener) (j : RouteId) :
    (c.setListener i l').listeners[j]? = if j = i then some l' else c.listeners[j]? := by
  rw [setListener, List.getElem?_set]
  by_cases hij : i = j
  · rw [if_pos hij, if_pos hij.symm, if_pos (hij ▸ (List.getElem?_eq_some_iff.mp hl).1)]
  · rw [if_neg hij, if_neg (Ne.symm hij)]

/-- A listener is replaced by one at the same place that is busy with something in order, and what
    it has sent is not waiting for room. -/
theorem Ordered.setListener (ho : c.Ordered d) (hl : c.listeners[i]? = some l)
    (ha : ∀ r, c.Attends l r → c.Attends l' r)
    (hb : ∀ x sender q r, l' = .supplier x (some (.held sender q)) →
      c.network.routes[i]? = some r → q.Wants r.topic.worker)
    (hw : ∀ x id, l = .supplier x (some (.sending id)) → c.network.result? id ≠ none) :
    (c.setListener i l').Ordered d where
  demanders := ho.demanders
  steady := ho.steady
  proper := ho.proper
  network := ho.network
  attended j l'' hj := by
    rw [getElem?_setListener hl] at hj
    by_cases hji : j = i
    · rw [if_pos hji, Option.some.injEq] at hj
      obtain ⟨r, hr, hat⟩ := ho.attended i l hl
      exact ⟨r, hji ▸ hr, hj ▸ ha r hat⟩
    · rw [if_neg hji] at hj
      exact ho.attended j l'' hj
  asked := ho.asked
  busy j x sender q r hj hr := by
    rw [getElem?_setListener hl] at hj
    by_cases hji : j = i
    · rw [if_pos hji, Option.some.injEq] at hj
      exact hb x sender q r hj (hji ▸ hr)
    · rw [if_neg hji] at hj
      exact ho.busy j x sender q r hj hr
  carried := ho.carried
  once := ho.once
  apart := ho.apart
  awaited j r w hr hmem := by
    cases ho.awaited j r w hr hmem with
    | demand ht hj hq hs => exact .demand ht hj hq hs
    | @page i' x r' hl' hr' hs =>
      refine .page (i := i') (x := x) ?_ hr' hs
      rw [getElem?_setListener hl]
      by_cases hi : i' = i
      · -- What waits for room has no result yet.
        subst hi
        obtain rfl := Option.some.inj (hl.symm.trans hl')
        exact absurd (ho.network.waits j r w hr hmem).2 (hw x w.id rfl)
      · rw [if_neg hi]
        exact hl'

theorem count_setListener (hl : c.listeners[i]? = some l) (hr : c.network.routes[i]? = some r)
    (l' : ClusterListener) (k : StreamId) :
    ((c.setListener i l').inFlight d).count k +
        (if l.owes c.network then [r.supplied] else []).count k ≤
      (c.inFlight d).count k + (if l'.owes c.network then [r.supplied] else []).count k := by
  have hone := count_flatMap_range_one (f := fun j => c.owedOn j)
    (g := fun j => (c.setListener i l').owedOn j) (k := k)
    (List.getElem?_eq_some_iff.mp hl).1 fun j _ hne => by
      simp only [owedOn, getElem?_setListener hl, if_neg hne]
      exact Nat.le_refl _
  have hset : (c.setListener i l').listeners[i]? = some l' := by
    rw [getElem?_setListener hl, if_pos rfl]
  have hsize : (c.setListener i l').listeners.length = c.listeners.length := List.length_set
  rw [owedOn_eq hl hr, owedOn_eq (c := c.setListener i l') hset hr] at hone
  rw [count_inFlight, count_inFlight, owed, owed, hsize]
  change c.network.queued.count k + (_ + (d.holds c.sent).count k) + _ ≤ _
  change _ + _ ≤ _ + (if l'.owes c.network then [r.supplied] else []).count k at hone
  omega

/-- A listener that has nothing left to do. -/
theorem Ordered.rests (ho : c.Ordered d) (hl : c.listeners[i]? = some l) (l' : ClusterListener)
    (ha : ∀ r, c.Attends l r → c.Attends l' r) (hidle : l'.isIdle = true)
    (hw : ∀ x id, l = .supplier x (some (.sending id)) → c.network.result? id ≠ none) :
    (c.setListener i l').Ordered d ∧
      ∀ k, ((c.setListener i l').inFlight d).count k ≤ (c.inFlight d).count k := by
  refine ⟨ho.setListener hl ha ?_ hw, fun k => ?_⟩
  · rintro x sender q r rfl -
    cases hidle
  · obtain ⟨r, hr, -⟩ := ho.attended i l hl
    have hcount := count_setListener (d := d) hl hr l' k
    have hnot : l'.owes c.network = false := by
      cases l' with
      | supplier x busy =>
        cases busy with
        | none => rfl
        | some work => cases hidle
      | _ => rfl
    rw [hnot] at hcount
    exact Nat.le_trans (Nat.le_add_right _ _) hcount

-- ============================================================================
-- Suppliers
-- ============================================================================

/-- A supplier that changes on its node. -/
theorem Ordered.onSupplier (ho : c.Ordered d) (x : Nat) {f : Supplier → Supplier}
    (hf : ∀ s, c.suppliers[x]? = some s → (f s).node = s.node) : (c.onSupplier x f).Ordered d where
  demanders := ho.demanders
  steady := ho.steady
  proper := ho.proper
  network := ho.network
  attended i l hl := by
    obtain ⟨r, hr, ha⟩ := ho.attended i l hl
    refine ⟨r, hr, ?_⟩
    cases l with
    | nobody => trivial
    | demander y worker busy => exact ha
    | supplier y busy =>
      obtain ⟨hrole, s, hs, hnode⟩ := ha
      refine ⟨hrole, ?_⟩
      rw [Cluster.onSupplier, List.getElem?_modify, hs]
      by_cases hy : x = y
      · subst hy
        exact ⟨f s, congrArg some (if_pos rfl), (hf s hs).trans hnode⟩
      · exact ⟨s, congrArg some (if_neg hy), hnode⟩
  asked := ho.asked
  busy := ho.busy
  carried := ho.carried
  once := ho.once
  apart := ho.apart
  awaited i r w hr hw := by
    cases ho.awaited i r w hr hw with
    | demand ht hj hq hs => exact .demand ht hj hq hs
    | page hl hr hs => exact .page hl hr hs

/-- A supplier stays on its node, and answers on the topic that the demand names. -/
theorem answer_replies (s : Supplier) (sender : NodeId) (q : Demand) :
    (s.answer sender q).1.node = s.node ∧
      ∀ a, (s.answer sender q).2 = some a → q.reply = some a.topic := by
  have hpage : ∀ worker, (s.page sender worker q).1.node = s.node := by
    intro worker
    unfold Supplier.page
    split
    · rfl
    · simp only
      split <;> rfl
  unfold Supplier.answer
  split
  · exact ⟨rfl, by rintro a ⟨⟩⟩
  · next topic hreply =>
    have hnode := hpage topic.worker
    split
    · next s' heq =>
      rw [heq] at hnode
      exact ⟨hnode, by rintro a ⟨⟩⟩
    · next s' page heq =>
      rw [heq] at hnode
      refine ⟨hnode, ?_⟩
      rintro a ⟨⟩
      exact hreply

/-- A supplier answers a demand that it is busy with, on the topic that the demand names. -/
theorem Ordered.answers (ho : c.Ordered d) {x : Nat} {sender : NodeId} {q : Demand} {s : Supplier}
    {topic : Topic} (page : Supply) (timeout : Span)
    (hl : c.listeners[i]? = some (.supplier x (some (.held sender q))))
    (hs : c.suppliers[x]? = some s) (ht : q.reply = some topic) :
    let c' := { c with network := (c.network.send s.node sender topic (.supply page) timeout).1
      }.setListener i (.supplier x (some (.sending c.network.sends)))
    c'.Ordered d ∧ ∀ k, (c'.inFlight d).count k ≤ (c.inFlight d).count k := by
  intro c'
  obtain ⟨r, hr, hrole, s', hs', hnode⟩ := ho.attended i _ hl
  obtain rfl := Option.some.inj (hs.symm.trans hs')
  obtain ⟨t, ht', htrole, htworker⟩ := ho.busy i x sender q r hl hr
  obtain rfl := Option.some.inj (ht.symm.trans ht')
  -- First the listener is noted to be sending, and then its page is sent.
  have hsending : (c.setListener i (.supplier x (some (.sending c.network.sends)))).Ordered d :=
    ho.setListener hl (fun _ h => h) (by rintro _ _ _ _ h -; cases h) (by rintro _ _ h; cases h)
  obtain ⟨-, hsends, hgiven⟩ :=
    Network.given_of_send c.network s.node sender topic (.supply page) timeout
  obtain ⟨hordered, hcount⟩ := hsending.given hgiven hsends
    (fun h => by rw [htrole] at h; cases h) fun r' hr' => by
      have htopic : r'.topic = topic := congrArg Prod.snd hr'
      refine .page (i := i) (x := x) (r := r) ?_ hr ?_
      · rw [getElem?_setListener hl, if_pos rfl]
        rfl
      · rw [Route.supplied, Route.stream, htopic, htrole, hnode, htworker]
  refine ⟨hordered, fun k => Nat.le_trans (hcount k) ?_⟩
  have hset := count_setListener (d := d) hl hr
    (.supplier x (some (.sending c.network.sends))) k
  rw [ClusterListener.owes, ClusterListener.owes, ho.network.accepted_next] at hset
  exact Nat.le_of_add_le_add_right hset

-- ============================================================================
-- The demander
-- ============================================================================

/-- A step of the demander leaves the cluster alone but for the topics that are given up. -/
theorem step_first (hd : c.demanders = [d]) (i : Demander.Input) :
    ∃ m, Network.Thinned c.network m ∧ c.step 0 i = { c with demanders := [d.step i], network := m } := by
  refine ⟨_, (Network.thinned_unregisterAll (d.step i).site.node
    (d.topics.filter fun t => !decide (t ∈ (d.step i).topics)) c.network).2, ?_⟩
  rw [step, hd]
  change c.setDemander 0 (d.step i) = _
  rw [setDemander, hd]
  rfl

theorem step_keeps (hd : c.demanders = [d]) (i : Demander.Input) :
    (c.step 0 i).transfers = c.transfers ∧ (c.step 0 i).listeners = c.listeners ∧
      (c.step 0 i).network.sends = c.network.sends := by
  obtain ⟨m, hm, hstep⟩ := step_first hd i
  rw [hstep]
  exact ⟨rfl, rfl, hm.sends⟩

/-- Whatever happens to the demander, unless it is told what became of a demand. -/
theorem Ordered.demander (ho : c.Ordered d) {i : Demander.Input} (hi : ∀ id r, i ≠ .answer id r) :
    ({ c with demanders := [d.step i] } : Cluster).Ordered (d.step i) where
  demanders := rfl
  steady := Demander.steady_step ho.steady i
  proper := Demander.proper_step ho.steady ho.proper i
  network := ho.network
  attended := ho.attended
  asked := ho.asked
  busy := ho.busy
  carried t ht := by
    obtain ⟨hone, j, hj, hq⟩ := ho.carried t ht
    exact ⟨hone, j, (Demander.job_of_request ho.steady hj hq (hi _)).trans hj, hq⟩
  once := ho.once
  apart := ho.apart
  awaited j r w hr hw := by
    cases ho.awaited j r w hr hw with
    | demand ht hj hq hs =>
      have hsame := Demander.job_of_request ho.steady hj (by rw [hq]; rfl) (hi _)
      exact .demand ht (hsame.trans hj) hq hs
    | page hl hr hs => exact .page hl hr hs

/-- A step of the demander brings at most the page that it takes up, unless it starts a round. -/
theorem Ordered.steps (ho : c.Ordered d) {i : Demander.Input} (hi : ∀ id r, i ≠ .answer id r) :
    (c.step 0 i).Ordered (d.step i) ∧
      (d.starts i = true ∧ (∃ id plan previous, d.Brings id plan previous i) ∧
          (c.inFlight d = [] → ∀ k, ((c.step 0 i).inFlight (d.step i)).count k ≤ 1) ∨
        (∃ worker sender page, i = .page worker sender page ∧
          ∀ k, ((c.step 0 i).inFlight (d.step i)).count k ≤
            (c.inFlight d).count k + [(sender, worker)].count k) ∨
        (∀ worker sender page, i ≠ .page worker sender page) ∧
          ∀ k, ((c.step 0 i).inFlight (d.step i)).count k ≤ (c.inFlight d).count k) := by
  obtain ⟨m, hm, hstep⟩ := step_first ho.demanders i
  obtain ⟨hordered, hthin⟩ := (ho.demander hi).thinned hm
  rw [hstep]
  refine ⟨hordered, ?_⟩
  have hsplit : ∀ k, ((({ c with demanders := [d.step i], network := m } : Cluster)).inFlight
      (d.step i)).count k ≤
        c.network.queued.count k + (c.owed.count k + ((d.step i).holds c.sent).count k) := fun k =>
    Nat.le_trans (hthin k) (Nat.le_of_eq (count_inFlight _ _ k))
  by_cases hopens : ∃ R P id plan e, Opens d i R P id plan e
  · obtain ⟨R, P, id, plan, e, h⟩ := hopens
    obtain ⟨previous, hb, -⟩ := h.follows
    refine .inl ⟨h.starts_eq, ⟨id, plan, previous, hb⟩, fun hnone k => ?_⟩
    have hbefore := count_inFlight c d k
    rw [hnone, List.count_nil] at hbefore
    have hafter := hsplit k
    have hholds := h.holds ho.steady ho.sent (k := k) (by omega)
    omega
  · rcases Demander.holds_step ho.steady hi ho.sent hopens with
      ⟨worker, sender, page, rfl, hcount⟩ | ⟨hnot, hcount⟩
    · refine .inr (.inl ⟨worker, sender, page, rfl, fun k => ?_⟩)
      have hafter := hsplit k
      have hholds := hcount k
      rw [count_inFlight c d k]
      omega
    · refine .inr (.inr ⟨hnot, fun k => ?_⟩)
      have hafter := hsplit k
      have hholds := hcount k
      rw [count_inFlight c d k]
      omega

/-- It is noted that the next send carries the demand that a job waits for. -/
theorem Ordered.enlists (ho : c.Ordered d) (hn : c.Numbered) {id : JobId} {j : Job}
    (hj : d.job? id = some j) (hq : j.request?.isSome = true)
    (hnone : ∀ t ∈ c.transfers, t.2.1 ≠ id) :
    ({ c with transfers := c.transfers ++ [(0, id, c.network.sends)] } : Cluster).Ordered d where
  demanders := ho.demanders
  steady := ho.steady
  proper := ho.proper
  network := ho.network
  attended := ho.attended
  asked := ho.asked
  busy := ho.busy
  carried t ht := by
    rcases List.mem_append.mp ht with ht | ht
    · exact ho.carried t ht
    · obtain rfl := List.mem_singleton.mp ht
      exact ⟨rfl, j, hj, hq⟩
  once := by
    rw [List.map_append, List.nodup_append]
    refine ⟨ho.once, List.nodup_singleton _, fun a ha b hb => ?_⟩
    obtain ⟨t, ht, rfl⟩ := List.mem_map.mp ha
    rw [List.mem_singleton.mp hb]
    exact hnone t ht
  apart := by
    rw [List.map_append, List.nodup_append]
    refine ⟨ho.apart, List.nodup_singleton _, fun a ha b hb => ?_⟩
    obtain ⟨t, ht, rfl⟩ := List.mem_map.mp ha
    rw [List.mem_singleton.mp hb]
    exact Nat.ne_of_lt (hn t ht)
  awaited i r w hr hw := by
    cases ho.awaited i r w hr hw with
    | demand ht hj hq hs => exact .demand (List.mem_append_left _ ht) hj hq hs
    | page hl hr hs => exact .page hl hr hs

/-- A demand that a job waits for is given to the network. -/
theorem Ordered.submits (ho : c.Ordered d) (hn : c.Numbered) {id : JobId} {j : Job} {q : Request}
    (hj : d.job? id = some j) (hq : j.request? = some q) (hnone : ∀ t ∈ c.transfers, t.2.1 ≠ id) :
    let c' := { c with
      network := (c.network.send d.site.node q.target q.topic (.demand q.demand) q.demand.timeout).1
      transfers := c.transfers ++ [(0, id, c.network.sends)] }
    c'.Ordered d ∧ c'.Numbered ∧ ∀ k, (c'.inFlight d).count k ≤ (c.inFlight d).count k := by
  intro c'
  have hproper := (ho.proper id j hj q (List.mem_of_mem_head? (by rw [Job.head?_asks]; exact hq))).1
  obtain ⟨-, hsends, hgiven⟩ := Network.given_of_send c.network d.site.node q.target q.topic
    (.demand q.demand) q.demand.timeout
  -- First the transfer is noted, and then the demand is sent.
  obtain ⟨hordered, hcount⟩ := (ho.enlists hn hj (by rw [hq]; rfl) hnone).given hgiven hsends
    (fun _ => ⟨q.demand, rfl, hproper.reply⟩) fun r hr => by
      refine .demand (List.mem_append_right _ (List.mem_singleton_self _)) hj hq ?_
      have hnode : r.node = q.target := congrArg Prod.fst hr
      have htopic : r.topic = q.topic := congrArg Prod.snd hr
      rw [Request.stream, Route.stream, htopic, hproper.role, hnode]
  refine ⟨hordered, fun t ht => ?_, fun k => Nat.le_trans (hcount k) ?_⟩
  · change t.2.2 < (c.network.send _ _ _ _ _).1.sends
    rw [hsends]
    rcases List.mem_append.mp ht with ht | ht
    · exact Nat.lt_succ_of_lt (hn t ht)
    · obtain rfl := List.mem_singleton.mp ht
      exact Nat.lt_succ_self _
  · -- The network has not accepted the demand before it is sent.
    rw [count_inFlight, count_inFlight]
    refine Nat.add_le_add_left (Nat.add_le_add_left (d.holds_le (fun id' h => ?_) k) _) _
    obtain ⟨t, ht, hid, h⟩ := sent_iff.mp h
    exact sent_iff.mpr ⟨t, List.mem_append_left _ ht, hid, h⟩

/-- The transfers but one. -/
def without (c : Cluster) (x : SendId) : List (Nat × JobId × SendId) :=
  c.transfers.filter fun t => t.2.2 != x

theorem mem_without {x : SendId} {t : Nat × JobId × SendId} :
    t ∈ c.without x ↔ t ∈ c.transfers ∧ t.2.2 ≠ x := by
  rw [without, List.mem_filter, bne_iff_ne]

/-- The other transfers are for other jobs. -/
theorem Ordered.job_ne (ho : c.Ordered d) {id : JobId} {x : SendId} (ht : (0, id, x) ∈ c.transfers)
    {t : Nat × JobId × SendId} (hmem : t ∈ c.without x) : t.2.1 ≠ id := by
  intro heq
  obtain ⟨hmem, hne⟩ := mem_without.mp hmem
  obtain rfl := List.inj_on_of_nodup_map ho.once hmem ht heq
  exact hne rfl

/-- Who is told what became of a demand had it as the only one with the network. -/
theorem Ordered.informed (ho : c.Ordered d) {id : JobId} {x : SendId} (ht : (0, id, x) ∈ c.transfers)
    (hx : c.network.result? x ≠ none) (r : Except Fault Unit) :
    ({ c with transfers := c.without x, demanders := [d.step (.answer id r)] } : Cluster).Ordered
      (d.step (.answer id r)) := by
  have hother : ∀ t ∈ c.without x, ∀ r', Demander.Input.answer id r ≠ .answer t.2.1 r' := by
    rintro t hmem r' heq
    cases heq
    exact ho.job_ne ht hmem rfl
  refine ⟨rfl, Demander.steady_step ho.steady _, Demander.proper_step ho.steady ho.proper _,
    ho.network, ho.attended, ho.asked, ho.busy, fun t hmem => ?_,
    ho.once.sublist (List.filter_sublist.map _), ho.apart.sublist (List.filter_sublist.map _),
    fun i s w hs hw => ?_⟩
  · obtain ⟨hone, j', hj', hq'⟩ := ho.carried t (mem_without.mp hmem).1
    exact ⟨hone, j', (Demander.job_of_request ho.steady hj' hq' (hother t hmem)).trans hj', hq'⟩
  · cases ho.awaited i s w hs hw with
    | @demand job j' q ht' hj' hq' hs' =>
      -- What waits for room has no result yet.
      have hne : w.id ≠ x := by
        rintro rfl
        exact hx (ho.network.waits i s w hs hw).2
      have hmem := mem_without.mpr ⟨ht', hne⟩
      have hsame := Demander.job_of_request ho.steady hj' (by rw [hq']; rfl) (hother _ hmem)
      exact .demand hmem (hsame.trans hj') hq' hs'
    | page hl hr hs => exact .page hl hr hs

/-- Of the demands that the network has accepted only that of the job that is told is none any
    more. -/
theorem Ordered.sent_without (ho : c.Ordered d) {id : JobId} {x : SendId}
    (ht : (0, id, x) ∈ c.transfers) :
    let c' : Cluster := { c with transfers := c.without x }
    (∀ k, k ≠ id → c'.sent k = c.sent k) ∧ c'.sent id = false := by
  intro c'
  refine ⟨fun k hne => ?_, Bool.eq_false_iff.mpr fun h => ?_⟩
  · rw [Bool.eq_iff_iff, sent_iff, sent_iff]
    constructor
    · rintro ⟨t, hmem, hid, h⟩
      exact ⟨t, (mem_without.mp hmem).1, hid, h⟩
    · rintro ⟨t, hmem, rfl, h⟩
      refine ⟨t, mem_without.mpr ⟨hmem, fun heq => hne ?_⟩, rfl, h⟩
      obtain rfl := List.inj_on_of_nodup_map ho.apart hmem ht heq
      rfl
  · obtain ⟨t, hmem, hid, -⟩ := sent_iff.mp h
    exact ho.job_ne ht hmem hid

/-- The demander is told what became of a demand. -/
theorem Ordered.reports (ho : c.Ordered d) {id : JobId} {x : SendId} (ht : (0, id, x) ∈ c.transfers)
    (hx : c.network.result? x ≠ none) (r : Except Fault Unit) :
    let c' := { c with transfers := c.without x }.step 0 (.answer id r)
    c'.Ordered (d.step (.answer id r)) ∧ c'.transfers = c.without x ∧
      c.network.sends ≤ c'.network.sends ∧
      ∀ k, (c'.inFlight (d.step (.answer id r))).count k ≤ (c.inFlight d).count k := by
  intro c'
  obtain ⟨-, j, hj, hq⟩ := ho.carried _ ht
  obtain ⟨m, hm, hstep⟩ := step_first (c := { c with transfers := c.without x }) ho.demanders
    (.answer id r)
  obtain ⟨hordered, hthin⟩ := (ho.informed ht hx r).thinned hm
  have hc' : c' = { c with
      transfers := c.without x
      demanders := [d.step (.answer id r)]
      network := m } := hstep
  rw [hc']
  refine ⟨hordered, rfl, Nat.le_of_eq hm.sends.symm, fun k => Nat.le_trans (hthin k) ?_⟩
  rw [count_inFlight, count_inFlight]
  obtain ⟨hsame, hgone⟩ := ho.sent_without ht
  exact Nat.add_le_add_left (Nat.add_le_add_left
    (Demander.holds_answer ho.steady hj hq r ho.sent hsame hgone k) _) _

end Cluster
end Rebalance
