/-
  Rebalance.Proofs.OneMessage

  A whole run of a cluster with one demander that starts one round.  While no
  round has started nothing is in flight, so the round that is started finds every
  stream empty, and from then on no message comes (`flow_run`).  `account` follows
  the job of one page: the demands for a next page that were given to the network
  for it, and the one that it is still to give, are those that it has come to.
-/
import Rebalance.Proofs.Delivery
import Rebalance.Proofs.FlowControl
import Rebalance.Proofs.Replies

namespace Rebalance
namespace Cluster

variable {c c' : Cluster} {d : Demander} {deeds more : List Deed}

-- ============================================================================
-- What is in flight
-- ============================================================================

theorem run_inputs (d : Demander) (deeds more : List Deed) :
    d.run (Deed.inputs (deeds ++ more)) = (d.run (Deed.inputs deeds)).run (Deed.inputs more) := by
  rw [Deed.inputs_append]
  exact List.foldl_append

theorem Fresh.job? (h : c.Fresh d) (id : JobId) : d.job? id = none := by
  rw [Demander.job?, h.jobs]
  rfl

theorem Fresh.held (h : c.Fresh d) {i : RouteId} {r : Route} (hr : c.network.routes[i]? = some r) :
    r.held = [] := by
  obtain ⟨hq, hw⟩ := h.still r (List.mem_of_getElem? hr)
  rw [Route.held, hq, hw]
  rfl

theorem Fresh.ordered (h : c.Fresh d) : c.Ordered d where
  demanders := h.demanders
  steady := h.reachable.steady
  proper id j hj := by cases (h.job? id).symm.trans hj
  network := Network.orderly_of_still h.results fun r hr => (h.still r hr).2
  attended := h.attended
  asked i r e hr _ he := by
    rw [h.held hr] at he
    exact absurd he List.not_mem_nil
  busy i x sender q r hl _ := by
    have hidle := h.idle _ (List.mem_of_getElem? hl)
    cases hidle
  carried t ht := by
    rw [h.transfers] at ht
    exact absurd ht List.not_mem_nil
  once := by
    rw [h.transfers]
    exact List.nodup_nil
  apart := by
    rw [h.transfers]
    exact List.nodup_nil
  awaited i r w hr hw := by
    rw [(h.still r (List.mem_of_getElem? hr)).2] at hw
    exact absurd hw List.not_mem_nil

theorem Fresh.numbered (h : c.Fresh d) : c.Numbered := by
  intro t ht
  rw [h.transfers] at ht
  exact absurd ht List.not_mem_nil

/-- At first nothing is in flight. -/
theorem Fresh.inFlight (h : c.Fresh d) : c.inFlight d = [] := by
  have hqueued : c.network.queued = [] := by
    refine List.flatMap_eq_nil_iff.mpr fun i _ => ?_
    cases hr : c.network.routes[i]? with
    | none => rw [Network.queuedOn, hr]; rfl
    | some r =>
      rw [Network.queuedOn_of_route hr, (h.still r (List.mem_of_getElem? hr)).1]
      rfl
  have howed : c.owed = [] := by
    refine List.flatMap_eq_nil_iff.mpr fun i _ => ?_
    unfold owedOn
    split
    · next l r hl hr =>
      refine if_neg ?_
      have hidle := h.idle l (List.mem_of_getElem? hl)
      cases l with
      | supplier x busy =>
        obtain rfl : busy = none := Option.isNone_iff_eq_none.mp hidle
        exact Bool.false_ne_true
      | _ => exact Bool.false_ne_true
    · rfl
  have hholds : d.holds c.sent = [] :=
    List.flatMap_eq_nil_iff.mpr fun id _ => Demander.heldBy_of_none (h.job? id) _
  rw [Cluster.inFlight, withMembers, hqueued, howed, hholds]
  rfl

/-- Where only plans are added that make all their demands at one topology, there are no others. -/
theorem Fresh.evenly (h : c.Fresh d)
    (hu : ∀ P force, .input (.add P force) ∈ deeds → P.Uniform) :
    (d.run (Deed.inputs deeds)).Evenly := by
  have hstart : d.Evenly := by
    refine ⟨fun P hP => ?_, fun id j P hj _ => ?_⟩
    · cases h.plan.symm.trans hP
    · cases (h.job? id).symm.trans hj
  refine hstart.run h.ordered.steady fun P force hmem => hu P force ?_
  obtain ⟨x, hx, heq⟩ := List.mem_filterMap.mp hmem
  cases x with
  | input i =>
    cases heq
    exact hx
  | sends => cases heq

theorem ordered_run (ho : c.Ordered d) (hn : c.Numbered) (h : Runs c deeds c') :
    c'.Ordered (d.run (Deed.inputs deeds)) ∧ c'.Numbered := by
  induction h with
  | refl => exact ⟨ho, hn⟩
  | tail _ hs ih =>
    have hadvances := ih.1.stirs ih.2 hs
    rw [run_inputs]
    exact ⟨hadvances.ordered, hadvances.numbered⟩

/-- A run that starts no round has nothing in flight, and one that starts one round at most has one
    message of every stream in flight at most. -/
theorem flow_run (ho : c.Ordered d) (hn : c.Numbered) (hnone : c.inFlight d = [])
    (h : Runs c deeds c') :
    (d.begun (Deed.inputs deeds) = [] → c'.inFlight (d.run (Deed.inputs deeds)) = []) ∧
      ((d.begun (Deed.inputs deeds)).length ≤ 1 →
        ∀ k, (c'.inFlight (d.run (Deed.inputs deeds))).count k ≤ 1) := by
  induction h with
  | refl =>
    refine ⟨fun _ => hnone, fun _ k => ?_⟩
    rw [show d.run (Deed.inputs []) = d from rfl, hnone]
    exact Nat.zero_le _
  | @tail deeds more c' c'' hr hs ih =>
    obtain ⟨hbefore, hone⟩ := ih
    obtain ⟨hordered, hnumbered⟩ := ordered_run ho hn hr
    have hadvances := hordered.stirs hnumbered hs
    rw [run_inputs, Deed.inputs_append, Demander.begun_append]
    refine ⟨fun hbegun => ?_, fun hbegun k => ?_⟩
    · obtain ⟨hfirst, hmore⟩ := List.append_eq_nil_iff.mp hbegun
      rcases hadvances.flows with hflows | ⟨hstarts, -⟩
      · refine eq_nil_of_count fun k => ?_
        have hk := hflows k
        rwa [hbefore hfirst, List.count_nil] at hk
      · exact absurd hmore hstarts
    · rw [List.length_append] at hbegun
      rcases hadvances.flows with hflows | ⟨hstarts, hflows⟩
      · exact Nat.le_trans (hflows k) (hone (Nat.le_trans (Nat.le_add_right _ _) hbegun) k)
      · -- The round that is started is the first one.
        have hpos := List.length_pos_iff.mpr hstarts
        exact hflows (hbefore (List.eq_nil_of_length_eq_zero (by omega))) k

/-- A run is cut where something is noted. -/
theorem runs_cut (ho : c.Ordered d) (hn : c.Numbered) {before after : List Deed} {x : Deed}
    (h : Runs c (before ++ x :: after) c') :
    ∃ b b', Runs c before b ∧ Stirs b [x] b' ∧ Runs b' after c' := by
  generalize hall : before ++ x :: after = deeds at h
  induction h generalizing after with
  | refl => cases before <;> cases hall
  | @tail deeds more c' c'' hr hs ih =>
    obtain ⟨hordered, hnumbered⟩ := ordered_run ho hn hr
    have hshort : more = [] ∨ ∃ y, more = [y] := by
      cases (hordered.stirs hnumbered hs).notes with
      | aside => exact .inl rfl
      | _ => exact .inr ⟨_, rfl⟩
    rcases hshort with rfl | ⟨y, rfl⟩
    · rw [List.append_nil] at hall
      obtain ⟨b, b', hbefore, hx, hafter⟩ := ih hall
      refine ⟨b, b', hbefore, hx, ?_⟩
      rw [← List.append_nil after]
      exact .tail hafter hs
    · rcases List.eq_nil_or_concat after with rfl | ⟨after, z, rfl⟩
      · obtain ⟨rfl, hxy⟩ := List.append_inj' hall rfl
        obtain rfl : x = y := List.head_eq_of_cons_eq hxy
        exact ⟨c', c'', hr, hs, .refl⟩
      · rw [List.concat_eq_append, ← List.cons_append, ← List.append_assoc] at hall
        obtain ⟨hdeeds, hzy⟩ := List.append_inj' hall rfl
        obtain rfl : z = y := List.head_eq_of_cons_eq hzy
        obtain ⟨b, b', hbefore, hx, hafter⟩ := ih hdeeds
        refine ⟨b, b', hbefore, hx, ?_⟩
        rw [List.concat_eq_append]
        exact .tail hafter hs

-- ============================================================================
-- The demands of one page
-- ============================================================================

/-- The demand for the next page that the job of a page is still to give to the network. -/
def unsent (c : Cluster) (d : Demander) (id : JobId) : Option Request :=
  if c.carries id then none else d.reply? id

theorem carries_iff {id : JobId} : c.carries id = true ↔ ∃ t ∈ c.transfers, t.2.1 = id := by
  simp [carries]

theorem carries_congr (h : c'.transfers = c.transfers) (id : JobId) :
    c'.carries id = c.carries id := by
  rw [carries, h, carries]

/-- Whether a demand of a job is with the network changes only when it is given to it or answered. -/
theorem Notes.carries (h : Notes c d c' deeds) (ho : c.Ordered d) {id : JobId}
    (hs : ∀ q, .sends id q ∉ deeds) (ha : ∀ r, .input (.answer id r) ∉ deeds) :
    c'.carries id = c.carries id := by
  cases h with
  | aside ht => exact carries_congr ht id
  | steps _ ht => exact carries_congr ht id
  | @submits id' x j q _ _ _ ht =>
    rw [Bool.eq_iff_iff, carries_iff, carries_iff, ht]
    refine ⟨?_, fun ⟨t, hmem, hid⟩ => ⟨t, List.mem_append_left _ hmem, hid⟩⟩
    rintro ⟨t, hmem, rfl⟩
    rcases List.mem_append.mp hmem with hmem | hmem
    · exact ⟨t, hmem, rfl⟩
    · obtain rfl := List.mem_singleton.mp hmem
      exact absurd (List.mem_singleton_self _) (hs q)
  | @reports id' x r htold ht =>
    rw [Bool.eq_iff_iff, carries_iff, carries_iff, ht]
    refine ⟨fun ⟨t, hmem, hid⟩ => ⟨t, (mem_without.mp hmem).1, hid⟩, ?_⟩
    rintro ⟨t, hmem, rfl⟩
    refine ⟨t, mem_without.mpr ⟨hmem, fun heq => ?_⟩, rfl⟩
    obtain rfl := List.inj_on_of_nodup_map ho.apart hmem htold heq
    exact absurd (List.mem_singleton_self _) (ha r)

open Demander (OfPage Input)

/-- The job of a page that has a demand waits for it to be sent. -/
theorem replying_of_page {id : JobId} {job : PageJob} {j : Job} {q : Request}
    (hof : d.OfPage id job) (hj : d.job? id = some j) (hq : j.request? = some q) :
    d.job? id = some (.replying job q) := by
  have hpage := hof.2 j hj
  cases j with
  | replying job' q' =>
    obtain rfl := Option.some.inj hpage
    obtain rfl := Option.some.inj hq
    exact hj
  | sending => cases hpage
  | _ => cases hq

/-- What a step has the job of a page come to, or give up, while no demand of it is answered. -/
theorem account_step (ho : c.Ordered d) {id : JobId} {job : PageJob} (hof : d.OfPage id job)
    {i : Input} (hi : ∀ r, i ≠ .answer id r) :
    (if c.carries id then none else (d.step i).reply? id).toList =
      (c.unsent d id).toList ++ (d.continues id i).toList := by
  rw [unsent, Demander.reply?_step ho.steady hi]
  by_cases hc : c.carries id = true
  · obtain ⟨t, ht, rfl⟩ := carries_iff.mp hc
    obtain ⟨-, j, hj, hq⟩ := ho.carried t ht
    obtain ⟨q, hq⟩ := Option.isSome_iff_exists.mp hq
    rw [if_pos hc, if_pos hc,
      Demander.continues_of_replying ho.steady (replying_of_page hof hj hq)]
    rfl
  · rw [if_neg hc, if_neg hc]
    cases hq : d.reply? id with
    | none =>
      rw [Option.none_or]
      rfl
    | some q =>
      obtain ⟨job', hj⟩ := Demander.eq_replying_of_reply? hq
      rw [Demander.continues_of_replying ho.steady hj]
      rfl

/-- A demand that is given to the network for the job of a page is the one that it was to give. -/
theorem account_submits {id : JobId} {x : SendId} {job : PageJob} {j : Job} {q : Request}
    (hof : d.OfPage id job) (hj : d.job? id = some j) (hq : j.request? = some q)
    (hnone : ∀ t ∈ c.transfers, t.2.1 ≠ id) (ht : c'.transfers = c.transfers ++ [(0, id, x)]) :
    q :: (c'.unsent d id).toList = (c.unsent d id).toList := by
  have hafter : c'.carries id = true :=
    carries_iff.mpr ⟨_, ht ▸ List.mem_append_right _ (List.mem_singleton_self _), rfl⟩
  have hbefore : c.carries id ≠ true := fun h => by
    obtain ⟨t, hmem, hid⟩ := carries_iff.mp h
    exact hnone t hmem hid
  rw [unsent, if_pos hafter, unsent, if_neg hbefore,
    Demander.reply?_of_replying (replying_of_page hof hj hq)]
  rfl

/-- The job of a page that is told what became of its demand has none to give, before and after. -/
theorem account_reports (ho : c.Ordered d) {id : JobId} {x : SendId} {job : PageJob}
    (hof : d.OfPage id job) (ht : (0, id, x) ∈ c.transfers) (r : Except Fault Unit) :
    c'.unsent (d.step (.answer id r)) id = none ∧ c.unsent d id = none := by
  obtain ⟨-, j, hj, hq⟩ := ho.carried _ ht
  obtain ⟨q, hq⟩ := Option.isSome_iff_exists.mp hq
  have hgone := Demander.job?_answered (replying_of_page hof hj hq) r
  refine ⟨?_, if_pos (carries_iff.mpr ⟨_, ht, rfl⟩)⟩
  rw [unsent, Demander.reply?, hgone]
  exact ite_self _

/-- What is given to the network for the job of a page is what the job comes to. -/
theorem Advances.account (h : Advances c d deeds c') (ho : c.Ordered d) {id : JobId} {job : PageJob}
    (hof : d.OfPage id job) :
    Deed.sentFor id deeds ++ (c'.unsent (d.run (Deed.inputs deeds)) id).toList =
      (c.unsent d id).toList ++ d.continuations id (Deed.inputs deeds) := by
  have hcarries : (∀ q, .sends id q ∉ deeds) → (∀ r, .input (.answer id r) ∉ deeds) →
      c'.carries id = c.carries id := h.notes.carries ho
  have hone : ∀ i : Input, d.continuations id (Deed.inputs [.input i]) = (d.continues id i).toList :=
    fun i => List.append_nil _
  cases h.notes with
  | aside ht =>
    rw [unsent, hcarries (by simp) (by simp)]
    exact (List.append_nil _).symm
  | @steps i hi ht =>
    rw [hone, unsent, hcarries (by simp) (by simpa using fun r => (hi id r).symm)]
    exact account_step ho hof (hi id)
  | @submits id' x j q hj hq hnone ht =>
    rw [Deed.sentFor_sends]
    by_cases hid : id' = id
    · subst hid
      rw [if_pos rfl]
      exact (account_submits hof hj hq hnone ht).trans (List.append_nil _).symm
    · rw [if_neg hid, unsent, hcarries (by simpa using Ne.symm hid) (by simp)]
      exact (List.append_nil _).symm
  | @reports id' x r htold ht =>
    rw [hone]
    by_cases hid : id' = id
    · subst hid
      obtain ⟨hafter, hbefore⟩ : c'.unsent (d.step (.answer id' r)) id' = none ∧
          c.unsent d id' = none := account_reports ho hof htold r
      change [] ++ (c'.unsent (d.step (.answer id' r)) id').toList = _
      rw [hafter, hbefore]
      rfl
    · have hi : ∀ r', Input.answer id' r ≠ .answer id r' := by
        rintro r' ⟨⟩
        exact hid rfl
      rw [unsent, hcarries (by simp) (by simpa using fun r' => (hi r').symm)]
      exact account_step ho hof hi

/-- Along a run the demands that the job of a page gives to the network are those that it comes to. -/
theorem account_run (ho : c.Ordered d) (hn : c.Numbered) (h : Runs c deeds c') {id : JobId}
    {job : PageJob} (hof : d.OfPage id job) :
    Deed.sentFor id deeds ++ (c'.unsent (d.run (Deed.inputs deeds)) id).toList =
      (c.unsent d id).toList ++ d.continuations id (Deed.inputs deeds) := by
  induction h with
  | refl => exact (List.append_nil _).symm
  | @tail deeds more c' c'' hr hs ih =>
    obtain ⟨hordered, hnumbered⟩ := ordered_run ho hn hr
    have hmore := (hordered.stirs hnumbered hs).account hordered (hof.run ho.steady _)
    rw [run_inputs, Deed.sentFor_append, List.append_assoc, hmore, ← List.append_assoc, ih,
      List.append_assoc, Deed.inputs_append, Demander.continuations_append]

/-- From the moment that a page arrives, its job gives the demands to the network that it comes to. -/
theorem account_page (ho : c.Ordered d) (hn : c.Numbered) {before after : List Deed}
    {worker : WorkerId} {sender : NodeId} {page : Supply}
    (h : Runs c (before ++ .input (.page worker sender page) :: after) c') :
    let b := d.run (Deed.inputs before)
    Deed.sentFor b.nextJob after ++
        (c'.unsent ((b.step (.page worker sender page)).run (Deed.inputs after)) b.nextJob).toList =
      b.continuations b.nextJob (.page worker sender page :: Deed.inputs after) := by
  intro b
  obtain ⟨c₁, c₂, hbefore, hpage, hafter⟩ := runs_cut ho hn h
  obtain ⟨hordered, hnumbered⟩ := ordered_run ho hn hbefore
  have hadvances := hordered.stirs hnumbered hpage
  have hs : b.Steady := hordered.steady
  have hnone : b.job? b.nextJob = none := Demander.job?_of_le hs (Nat.le_refl _)
  have hof : ∃ job, (b.step (.page worker sender page)).OfPage b.nextJob job := by
    cases ha : b.accepted worker sender page with
    | none =>
      -- The job has ended, so it may be taken for that of any page.
      exact ⟨⟨worker, sender, b.current, ⟨0, .nodeJoined, 0⟩, .ofList [] b.site.affinity.current, page⟩,
        Demander.ofPage_begin hs fun job' h => by cases ha.symm.trans h⟩
    | some job =>
      exact ⟨job, Demander.ofPage_begin hs fun job' h => Option.some.inj (h.symm.trans ha)⟩
  obtain ⟨job, hof⟩ := hof
  have hunsent : c₂.unsent (b.step (.page worker sender page)) b.nextJob =
      b.continues b.nextJob (.page worker sender page) := by
    have hcarries : c₁.carries b.nextJob = false := by
      refine Bool.eq_false_iff.mpr fun hc => ?_
      obtain ⟨t, ht, hid⟩ := carries_iff.mp hc
      obtain ⟨-, j, hj, -⟩ := hordered.carried t ht
      rw [hid] at hj
      cases hnone.symm.trans hj
    rw [unsent, hadvances.notes.carries hordered (by simp) (by simp), hcarries,
      if_neg Bool.false_ne_true, Demander.reply?_step hs (by rintro r ⟨⟩), Demander.reply?, hnone]
    exact Option.none_or
  have hrest := account_run hadvances.ordered hadvances.numbered hafter hof
  rw [show d.run (Deed.inputs before) = b from rfl] at hrest
  change _ = (c₂.unsent (b.step (.page worker sender page)) b.nextJob).toList ++ _ at hrest
  rw [hunsent] at hrest
  exact hrest

-- ============================================================================
-- Fresh clusters
-- ============================================================================

/-- A demander and some suppliers on nodes of their own that have been put together are fresh. -/
theorem fresh_together {topology : Topology} {ss : List Supplier} {node : NodeId}
    {settings : Settings} (hf : settings.fault? = none) (ha : settings.isActive = true)
    (hn : (ss.map (·.node)).Nodup) (owned : List PartitionId) (clock : Instant) :
    (together topology ss node settings owned clock).Fresh
      (joining topology node settings owned clock) := by
  obtain ⟨places, hstocked, hsuppliers, ht⟩ := stocked_ofSuppliers topology hn
  obtain ⟨hreachable, hlaid, hdemanders, hsame⟩ :=
    hstocked.addDemander hf ha node owned clock
  rw [ht] at hreachable hlaid hdemanders
  change (together topology ss node settings owned clock).Laid _ at hlaid
  change (together topology ss node settings owned clock).demanders = _ at hdemanders
  change (together topology ss node settings owned clock).suppliers = _ at hsame
  have hidle : ∀ x ∈ places ++ ((joining topology node settings owned clock).pool.topics
      .demand).map fun t => ⟨node, t, .demander 0 t.worker none⟩, x.listener.isIdle = true := by
    intro x hx
    rcases List.mem_append.mp hx with hx | hx
    · exact hstocked.idle x hx
    · obtain ⟨t, -, rfl⟩ := List.mem_map.mp hx
      rfl
  refine ⟨hdemanders, hreachable, rfl, rfl, hlaid.transfers, ?_, ?_, ?_, ?_⟩
  · rw [hlaid.network]
  · intro r hr
    rw [hlaid.network] at hr
    obtain ⟨x, -, rfl⟩ := List.mem_map.mp hr
    exact ⟨rfl, rfl⟩
  · intro l hl
    rw [hlaid.listeners] at hl
    obtain ⟨x, hx, rfl⟩ := List.mem_map.mp hl
    exact hidle x hx
  · intro i l hl
    rw [hlaid.listeners, List.getElem?_map] at hl
    obtain ⟨x, hx, rfl⟩ := Option.map_eq_some_iff.mp hl
    refine ⟨{ node := x.node, topic := x.topic }, ?_, ?_⟩
    · rw [hlaid.network, List.getElem?_map, hx]
      rfl
    · rcases List.mem_append.mp (List.mem_of_getElem? hx) with hx | hx
      · obtain ⟨k, s, hlistener, hs, hnode⟩ := hstocked.attended x hx
        rw [hlistener]
        exact ⟨(hstocked.members x hx).1, s, by rw [hsame]; exact hs, hnode⟩
      · obtain ⟨t, ht, rfl⟩ := List.mem_map.mp hx
        obtain ⟨w, -, rfl⟩ := List.mem_map.mp ht
        exact ⟨rfl, rfl, rfl⟩

-- ============================================================================
-- One message per stream
-- ============================================================================

/-- In every run from a fresh cluster in which one round is started, there is at any moment at most
    one message of every stream, counting demands and pages that are in queues or that somebody has
    not answered yet.  A page that is worked through without an error, and leaves the round
    unfinished, asks for the next one once, with no partitions and at the topology of its demand, on
    the same worker's topic at the node that sent it; and no other page asks for one.  The topology
    of the demand is that of the plan, if the plans that were added make all their demands at one. -/
theorem one_message_per_stream (hf : c.Fresh d) (h : Runs c deeds c')
    (hone : (d.begun (Deed.inputs deeds)).length ≤ 1) :
    let d' := d.run (Deed.inputs deeds)
    c'.demanders = [d'] ∧ (∀ s, (c'.inFlight d').count s ≤ 1) ∧
      ∀ before worker sender page after, deeds = before ++ .input (.page worker sender page) :: after →
        let b := d.run (Deed.inputs before)
        let asked := Deed.sentFor b.nextJob after ++ (c'.unsent d' b.nextJob).toList
        asked = b.continuations b.nextJob (.page worker sender page :: Deed.inputs after) ∧
          (asked = [] ∨ ∃ P demand, (b.accepted worker sender page).isSome = true ∧
            b.plan = some P ∧ P.get? sender = some demand ∧
            asked = [{
              target := sender
              topic := { role := .supply, dataset := d.settings.dataset, worker }
              demand := { demand with
                partitions := ∅
                reply := some { role := .demand, dataset := d.settings.dataset, worker } } }] ∧
            ((∀ P force, .input (.add P force) ∈ before → P.Uniform) →
              demand.topology = P.topology)) := by
  intro d'
  have ho := hf.ordered
  have hn := hf.numbered
  refine ⟨(ordered_run ho hn h).1.demanders, (flow_run ho hn hf.inFlight h).2 hone, ?_⟩
  rintro before worker sender page after rfl b asked
  have haccount : asked = b.continuations b.nextJob (.page worker sender page :: Deed.inputs after) := by
    have haccount := account_page ho hn h
    change Deed.sentFor b.nextJob after ++ (c'.unsent ((b.step (.page worker sender page)).run
      (Deed.inputs after)) b.nextJob).toList = _ at haccount
    rw [show (b.step (.page worker sender page)).run (Deed.inputs after) = d' from
      (run_inputs d before (.input (.page worker sender page) :: after)).symm] at haccount
    exact haccount
  refine ⟨haccount, ?_⟩
  have hs : b.Steady := Demander.steady_run ho.steady _
  have hpool : b.pool.dataset = d.settings.dataset := by
    rw [Demander.pool, Demander.settings_run ho.steady]
    unfold WorkerPool.ofSize
    split <;> rfl
  rcases Demander.continuations_of_page hs worker sender page (Deed.inputs after) with
    hempty | ⟨job, ha, hask⟩
  · exact .inl (haccount.trans hempty)
  · obtain ⟨-, P, demand, hP, hget, -, -, rfl⟩ := Demander.accepted_round ha
    refine .inr ⟨P, demand, by rw [ha]; rfl, hP, hget, haccount.trans (hask.trans ?_),
      fun hu => (hf.evenly hu).plan P hP sender demand hget⟩
    rw [Demander.nextRequest, WorkerPool.supplyTopic, WorkerPool.demandTopic, hpool]
    rfl

-- ============================================================================
-- Runs that only make moves
-- ============================================================================

/-- What is noted of a cluster that makes moves one after another, those that are possible. -/
def noted (c : Cluster) : List Move → List Deed
  | [] => []
  | x :: xs => (if (c.move x).isSome then c.deeds x else []) ++ ((c.move x).getD c).noted xs

theorem Runs.trans {b : Cluster} (h₁ : Runs c deeds b) (h₂ : Runs b more c') :
    Runs c (deeds ++ more) c' := by
  induction h₂ with
  | refl => rwa [List.append_nil]
  | tail _ hs ih =>
    rw [← List.append_assoc]
    exact .tail ih hs

theorem runs_follow (c : Cluster) (xs : List Move) : Runs c (c.noted xs) (c.follow xs) := by
  induction xs generalizing c with
  | nil => exact .refl
  | cons x xs ih =>
    refine Runs.trans ?_ (ih _)
    cases hx : c.move x with
    | none => exact .refl
    | some c' => exact Runs.tail .refl (.moves x hx)

/-- No move adds a plan. -/
theorem add_not_mem_deeds (c : Cluster) (x : Move) (P : Plan) (force : Bool) :
    .input (.add P force) ∉ c.deeds x := by
  intro h
  cases x with
  | submit =>
    simp only [deeds] at h
    split at h <;> simp at h
  | report =>
    simp only [deeds] at h
    split at h <;> simp at h
  | resume => simp [deeds] at h
  | listen i =>
    simp only [deeds, told] at h
    split at h
    · split at h <;> simp at h
    · simp at h

theorem add_not_mem_noted (c : Cluster) (xs : List Move) (P : Plan) (force : Bool) :
    .input (.add P force) ∉ c.noted xs := by
  induction xs generalizing c with
  | nil => exact List.not_mem_nil
  | cons x xs ih =>
    intro h
    rcases List.mem_append.mp h with h | h
    · split at h
      · exact add_not_mem_deeds c x P force h
      · exact List.not_mem_nil h
    · exact ih _ h

/-- A page of a node is handed to a worker. -/
def isPage (worker : WorkerId) (sender : NodeId) : Deed → Bool
  | .input (.page w s _) => w == worker && s == sender
  | _ => false

/-- After the first page of one supplier has been taken in, there is a message of either stream: the
    demand to the other supplier, and the demand for the next page, which is still to be sent. -/
theorem pair_has_one_message_each :
    let opened := pair.step 0 (.add pairPlan true)
    let b := opened.follow (pairMoves.take 10)
    let before := [Deed.input (.add pairPlan true)] ++ opened.noted (pairMoves.take 10)
    let c' := (b.move (.listen 2)).getD b
    let deeds := before ++ b.deeds (.listen 2)
    let d' := pairDemander.run (Deed.inputs deeds)
    pair.Fresh pairDemander ∧ Runs pair deeds c' ∧
      (pairDemander.begun (Deed.inputs deeds)).length = 1 ∧
      (∀ s, (c'.inFlight d').count s ≤ 1) ∧ c'.inFlight d' = [(6, 0), (5, 0)] ∧
      ∃ page P demand, deeds = before ++ [.input (.page 0 5 page)] ∧
        (pairDemander.run (Deed.inputs before)).plan = some P ∧ P.get? 5 = some demand ∧
        demand.topology = P.topology ∧
        (pairDemander.run (Deed.inputs before)).continuations 1 [.page 0 5 page] = [{
          target := 5
          topic := { role := .supply, dataset := 0, worker := 0 }
          demand := {
            partitions := ∅
            topology := ⟨1, 0⟩
            timeout := pairDemander.settings.timeout
            batchSize := pairDemander.settings.batchSize
            reply := some { role := .demand, dataset := 0, worker := 0 } } }] := by
  intro opened b before c' deeds d'
  have hfresh : pair.Fresh pairDemander := fresh_together rfl rfl (by decide) [3, 4] 0
  have hmove : (b.move (.listen 2)).isSome = true := by decide +kernel
  have hruns : Runs pair deeds c' := by
    refine .tail (Runs.trans (.tail .refl (.happens (.add pairPlan true) rfl)) (runs_follow _ _))
      (.moves (.listen 2) ?_)
    obtain ⟨x, hx⟩ := Option.isSome_iff_exists.mp hmove
    change b.move (.listen 2) = some ((b.move (.listen 2)).getD b)
    rw [hx, Option.getD_some]
  have hone : (pairDemander.begun (Deed.inputs deeds)).length = 1 := by decide +kernel
  have hplans : ∀ P force, .input (.add P force) ∈ before → P.Uniform := by
    intro P force h
    rcases List.mem_append.mp h with h | h
    · cases List.mem_singleton.mp h
      exact Plan.uniform_planFor _ _
    · exact absurd h (add_not_mem_noted _ _ P force)
  obtain ⟨-, hcount, hpages⟩ := one_message_per_stream hfresh hruns (Nat.le_of_eq hone)
  have hhanded : (b.deeds (.listen 2)).map (isPage 0 5) = [true] := by decide +kernel
  obtain ⟨x, hx, hpage⟩ := List.map_eq_singleton_iff.mp hhanded
  obtain ⟨page, rfl⟩ : ∃ page, x = .input (.page 0 5 page) := by
    unfold isPage at hpage
    split at hpage
    · next w s page =>
      rw [Bool.and_eq_true, beq_iff_eq, beq_iff_eq] at hpage
      exact ⟨page, by rw [hpage.1, hpage.2]⟩
    · cases hpage
  have hdeeds : deeds = before ++ [.input (.page 0 5 page)] := congrArg (before ++ ·) hx
  have hjob : (pairDemander.run (Deed.inputs before)).nextJob = 1 := by decide +kernel
  have hunsent : c'.unsent d' 1 = some {
      target := 5
      topic := { role := .supply, dataset := 0, worker := 0 }
      demand := {
        partitions := ∅
        topology := ⟨1, 0⟩
        timeout := pairDemander.settings.timeout
        batchSize := pairDemander.settings.batchSize
        reply := some { role := .demand, dataset := 0, worker := 0 } } } := by decide +kernel
  obtain ⟨hasked, hask⟩ := hpages before 0 5 page [] hdeeds
  rw [hjob] at hasked hask
  change [] ++ (c'.unsent d' 1).toList = _ at hasked
  change [] ++ (c'.unsent d' 1).toList = [] ∨ _ at hask
  rw [hunsent] at hasked hask
  rcases hask with hnone | ⟨P, demand, -, hP, hget, -, hsame⟩
  · cases hnone
  · exact ⟨hfresh, hruns, hone, hcount, by decide +kernel, page, P, demand, hdeeds, hP, hget,
      hsame hplans, hasked.symm⟩

end Cluster
end Rebalance
