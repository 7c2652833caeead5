/-
  Rebalance.Proofs.Reports

  Which loads are reported.  A page that comes to the end of a partition counts
  and reports it whether or not the partition could be owned; `Owned` and
  `Spoilt` are the two cases.  `Loads` accounts for one page as far as it is
  worked through, by its recursion over the partitions; `told_step` does so for
  everything that can happen, and `loads_are_told` for a whole run.
-/
import Rebalance.Proofs.Hearing
import Rebalance.Proofs.Transfer

namespace Rebalance

-- ============================================================================
-- Partitions that are taken away
-- ============================================================================

namespace Site

variable (s : Site) (sender : NodeId) (p : PartitionId)

/-- What an intake can make of the state of its partition. -/
def TookIn (s : Site) (p : PartitionId) (es : List Entry) (t : Site) : Prop :=
  t.store.base.state? p = s.store.base.state? p ∨
    t.store.base.state? p = (s.store.base.state? p).map (fun _ => .invalid) ∧
      ∃ e ∈ es, e.key ∈ s.store.invalidating

theorem TookIn.refl (s : Site) (p : PartitionId) (es : List Entry) : TookIn s p es s := .inl rfl

theorem TookIn.trans {s t u : Site} {p : PartitionId} {es fs : List Entry} (h₁ : TookIn s p es t)
    (h₂ : TookIn t p fs u) (hi : t.store.invalidating = s.store.invalidating) :
    TookIn s p (es ++ fs) u := by
  rcases h₂ with h₂ | ⟨h₂, e, he, hk⟩
  · rcases h₁ with h₁ | ⟨h₁, e, he, hk⟩
    · exact .inl (h₂.trans h₁)
    · exact .inr ⟨h₂.trans h₁, e, List.mem_append_left _ he, hk⟩
  · refine .inr ⟨?_, e, List.mem_append_right _ he, hi ▸ hk⟩
    rcases h₁ with h₁ | ⟨h₁, -⟩
    · rw [h₂, h₁]
    · rw [h₂, h₁, Option.map_map]
      rfl

/-- The partition of an entry keeps its state, unless the entry finds it taken away. -/
theorem tookIn_takeIn (e : Entry) : TookIn s p [e] (s.takeIn sender p e).1 := by
  by_cases hk : e.key ∈ s.store.invalidating
  · unfold TookIn
    rw [takeIn_eq]
    by_cases hx : e.isExpired s.clock = true ∨ s.accepts p e = false
    · rw [if_pos hx]
      exact .inl rfl
    · rw [if_neg hx, state?_settleWrite]
      rcases s.store.insertIfNewer_cases p e with ⟨reason, -, hr⟩ | ⟨-, before, hb, -, hi⟩
      · rw [hr]
        exact .inl rfl
      · refine .inr ⟨(hi.state? p).trans ?_, e, List.mem_singleton_self e, hk⟩
        rw [hb, if_pos hk, Store.state?_setState, if_pos rfl]
  · exact .inl (state?_takeIn s sender p e p (.inr hk))

theorem tookIn_takeInAll (es : List Entry) : TookIn s p es (s.takeInAll sender p es).1 := by
  induction es generalizing s with
  | nil => exact .inl rfl
  | cons e rest ih =>
    rw [takeInAll]
    split
    · have hskip : TookIn s p [e] (s.measure Board.entrySkipped) := .inl rfl
      exact hskip.trans (ih _) rfl
    · have hone := tookIn_takeIn s sender p e
      have hi := (alike_takeIn s sender p e).invalidating
      split
      · next hr =>
        rw [hr] at hone hi
        exact hone.trans (ih _) hi
      · next hr =>
        rw [hr] at hone hi
        exact hone.trans (.refl _ p rest) hi
      · next hr =>
        rw [hr] at hone hi
        exact hone.trans (.refl _ p rest) hi

end Site

namespace Demander

-- ============================================================================
-- One page
-- ============================================================================

/-- What is noticed of the loads of some partitions of a page: each of `ps` was reported once, every
    partition that became owned is among them, and one of them that was moving is owned now unless
    its entries found it taken away. -/
structure Loads (job : PageJob) (todo : List (PartitionId × List Entry)) (d e : Demander)
    (ps : List PartitionId) : Prop where
  noticed : ∃ ids, Noticed d e ids ps
  within : ps.Sublist (todo.map Prod.fst)
  ends : ∀ p ∈ ps, p ∈ job.page.last
  elsewhere : ∀ p, p ∉ todo.map Prod.fst →
    e.site.store.base.state? p = d.site.store.base.state? p
  complete : ∀ p, d.site.store.base.state? p = some .moving →
    e.site.store.base.state? p = some .owning → p ∈ ps
  sound : ∀ p ∈ ps, d.site.store.base.state? p = some .moving →
    e.site.store.base.state? p = some .owning ∨ e.site.store.base.state? p = some .invalid ∧
      ∃ es, (p, es) ∈ todo ∧ ∃ x ∈ es, x.key ∈ d.site.store.invalidating

namespace Loads

variable {job : PageJob} {todo rest : List (PartitionId × List Entry)} {d e f : Demander}
  {ps qs : List PartitionId}

theorem honest (h : Loads job todo d e ps) : e.Honest := h.noticed.elim fun _ h => h.honest

/-- Nothing is loaded in silence. -/
theorem of_silent (h : Silent d e) (todo : List (PartitionId × List Entry)) :
    Loads job todo d e [] where
  noticed := h.unloaded
  within := List.nil_sublist _
  ends _ hp := absurd hp List.not_mem_nil
  elsewhere p _ := h.states p
  complete p hm ho := by
    rw [h.states, hm] at ho
    cases ho
  sound _ hp := absurd hp List.not_mem_nil

theorem before (h₁ : Silent d e) (hi : e.site.store.invalidating = d.site.store.invalidating)
    (h₂ : Loads job todo e f ps) : Loads job todo d f ps where
  noticed := by
    obtain ⟨ids, h₁⟩ := h₁.unloaded
    obtain ⟨ids', h₂⟩ := h₂.noticed
    exact ⟨_, h₁.trans h₂⟩
  within := h₂.within
  ends := h₂.ends
  elsewhere p hp := (h₂.elsewhere p hp).trans (h₁.states p)
  complete p hm := h₂.complete p ((h₁.states p).trans hm)
  sound p hp hm := hi ▸ h₂.sound p hp ((h₁.states p).trans hm)

theorem after (h₁ : Loads job todo d e ps) (h₂ : Silent e f) : Loads job todo d f ps where
  noticed := by
    obtain ⟨ids, h₁⟩ := h₁.noticed
    obtain ⟨ids', h₂⟩ := h₂.unloaded
    exact ⟨_, List.append_nil ps ▸ h₁.trans h₂⟩
  within := h₁.within
  ends := h₁.ends
  elsewhere p hp := (h₂.states p).trans (h₁.elsewhere p hp)
  complete p hm ho := h₁.complete p hm ((h₂.states p).symm.trans ho)
  sound p hp hm := by
    rw [h₂.states]
    exact h₁.sound p hp hm

/-- A partition that is not worked on does not matter. -/
theorem cons (h : Loads job rest d e ps) (x : PartitionId × List Entry) :
    Loads job (x :: rest) d e ps where
  noticed := h.noticed
  within := h.within.cons x.1
  ends := h.ends
  elsewhere p hp := h.elsewhere p fun hc => hp (List.mem_cons_of_mem _ hc)
  complete := h.complete
  sound p hp hm := (h.sound p hp hm).imp_right fun ⟨hi, es, hes, hx⟩ =>
    ⟨hi, es, List.mem_cons_of_mem _ hes, hx⟩

/-- The loads of a partition and then of others. -/
theorem append {x : PartitionId × List Entry} (h₁ : Loads job [x] d e ps)
    (h₂ : Loads job rest e f qs) (hx : x.1 ∉ rest.map Prod.fst)
    (hi : e.site.store.invalidating = d.site.store.invalidating) :
    Loads job (x :: rest) d f (ps ++ qs) := by
  have hfirst : ∀ p ∈ ps, p = x.1 := fun p hp => List.mem_singleton.mp (h₁.within.subset hp)
  have hsame : ∀ p, p ≠ x.1 → e.site.store.base.state? p = d.site.store.base.state? p :=
    fun p hp => h₁.elsewhere p fun hc => hp (List.mem_singleton.mp hc)
  refine ⟨?_, h₁.within.append h₂.within, fun p hp => ?_, fun p hp => ?_, fun p hm ho => ?_,
    fun p hp hm => ?_⟩
  · obtain ⟨ids, h₁⟩ := h₁.noticed
    obtain ⟨ids', h₂⟩ := h₂.noticed
    exact ⟨_, h₁.trans h₂⟩
  · exact (List.mem_append.mp hp).elim (h₁.ends p) (h₂.ends p)
  · rw [List.map_cons, List.mem_cons, not_or] at hp
    exact (h₂.elsewhere p hp.2).trans (hsame p hp.1)
  · -- A partition comes once, so that either the first load or the others decide about it.
    by_cases hpx : p = x.1
    · rw [h₂.elsewhere p (hpx ▸ hx)] at ho
      exact List.mem_append_left _ (h₁.complete p hm ho)
    · exact List.mem_append_right _ (h₂.complete p ((hsame p hpx).trans hm) ho)
  · rcases List.mem_append.mp hp with hp | hp
    · rw [h₂.elsewhere p (hfirst p hp ▸ hx)]
      refine (h₁.sound p hp hm).imp_right fun ⟨hinv, es, hes, hkey⟩ => ?_
      exact ⟨hinv, es, List.mem_singleton.mp hes ▸ List.mem_cons_self, hkey⟩
    · have hpx : p ≠ x.1 := fun hc => hx (hc ▸ h₂.within.subset hp)
      refine (h₂.sound p hp ((hsame p hpx).trans hm)).imp_right fun ⟨hinv, es, hes, hkey⟩ => ?_
      exact ⟨hinv, es, List.mem_cons_of_mem _ hes, hi ▸ hkey⟩

end Loads

section Page

variable {d : Demander} {job : PageJob} {id : JobId}

/-- The state of a partition after it was loaded. -/
theorem state_load_self (d : Demander) (job : PageJob) (p : PartitionId) (entries : List Entry) :
    (d.load job p entries).1.site.store.base.state? p =
      if d.completes job p entries ∧
          (d.takenIn job p entries).site.store.base.state? p = some .moving then some .owning
      else (d.takenIn job p entries).site.store.base.state? p := by
  rw [load_cases]
  by_cases hc : d.completes job p entries = true
  · rw [if_pos hc, state_letGo, ownLoaded, (beside_changeRound _ _ _).store, ownAndReport,
      Site.store_report]
    change ((d.takenIn job p entries).site.store.base.own p).1.state? p = _
    rw [Store.state?_own]
    simp [hc]
  · rw [if_neg hc, state_letGo, if_neg fun h => hc h.1]

/-- The load of a partition that is completed is reported, and no other. -/
theorem loads_load (hd : d.Honest) (hl : job.round < d.rounds.length) (p : PartitionId)
    (entries : List Entry) :
    Loads job [(p, entries)] d (d.load job p entries).1
      (if d.completes job p entries then [p] else []) := by
  have htook : Site.TookIn d.site p entries (d.takenIn job p entries).site :=
    Site.tookIn_takeInAll d.site job.sender p entries
  have hself := state_load_self d job p entries
  refine ⟨noticed_load hd hl p entries, ?_, fun q hq => ?_, fun q hq => ?_, fun q hm ho => ?_,
    fun q hq hm => ?_⟩
  · split
    · exact List.Sublist.refl _
    · exact List.nil_sublist _
  · obtain ⟨hc, hqp⟩ := List.mem_ite_nil_right.mp hq
    rw [completes, Bool.and_eq_true, decide_eq_true_iff] at hc
    exact List.mem_singleton.mp hqp ▸ hc.2
  · exact state_load_ne (fun hc => hq (List.mem_singleton.mpr hc)) entries
  · by_cases hqp : q = p
    · subst hqp
      refine List.mem_ite_nil_right.mpr ⟨?_, List.mem_singleton_self q⟩
      by_contra hc
      -- The entries alone do not make it owned.
      rw [if_neg fun h => hc h.1] at hself
      rcases htook with h | ⟨h, -⟩
      · rw [hself, h, hm] at ho
        cases ho
      · rw [hself, h, hm] at ho
        cases ho
    · rw [state_load_ne hqp, hm] at ho
      cases ho
  · obtain ⟨hc, hqp⟩ := List.mem_ite_nil_right.mp hq
    rw [List.mem_singleton] at hqp
    subst hqp
    rcases htook with h | ⟨h, hkey⟩
    · left
      rw [hself, if_pos ⟨hc, h.trans hm⟩]
    · rw [hm] at h
      right
      refine ⟨?_, entries, List.mem_singleton_self _, hkey⟩
      rw [hself, h]
      simp

/-- The work on a partition whose lock is free, and then on others.  Of those that are reported only
    the first one may have been moving no more. -/
theorem loads_goOn_of (hd : d.Honest) (hl : job.round < d.rounds.length) {q : PartitionId}
    (es : List Entry) {rest : List (PartitionId × List Entry)} (hq : q ∉ rest.map Prod.fst)
    (hrest : ∀ f : Demander, f.Honest → job.round < f.rounds.length →
      ∃ ps, Loads job rest f (f.walk job rest).1 ps ∧
        ∀ p ∈ ps, f.site.store.base.state? p = some .moving) :
    ∃ ps, Loads job ((q, es) :: rest) d (d.goOn job q es rest).1 ps ∧
      ∀ p ∈ ps, p ≠ q → d.site.store.base.state? p = some .moving := by
  have hlock := silent_withLock hd q
  have hnear := near_withLock d q
  have hload := loads_load hlock.unloaded.honest (by rw [hnear.rounds]; exact hl) q es
  have hnear' := near_load (d.withLock q) job q es
  have hfirst : Loads job [(q, es)] d ((d.withLock q).load job q es).1
      (if (d.withLock q).completes job q es then [q] else []) :=
    .before hlock hnear.site.invalidating hload
  have honly : ∀ p ∈ (if (d.withLock q).completes job q es then [q] else []), p = q :=
    fun p hp => List.mem_singleton.mp (hload.within.subset hp)
  unfold goOn
  split
  · refine ⟨_, .append hfirst (.of_silent (silent_refl hfirst.honest) rest) hq
      (hnear'.site.invalidating.trans hnear.site.invalidating), fun p hp hpq => ?_⟩
    rw [List.append_nil] at hp
    exact absurd (honly p hp) hpq
  · obtain ⟨ps, h, hm⟩ := hrest _ hfirst.honest (by rw [hnear'.rounds, hnear.rounds]; exact hl)
    refine ⟨_, .append hfirst h hq (hnear'.site.invalidating.trans hnear.site.invalidating),
      fun p hp hpq => ?_⟩
    rcases List.mem_append.mp hp with hp | hp
    · exact absurd (honly p hp) hpq
    · exact (hfirst.elsewhere p fun hc => hpq (List.mem_singleton.mp hc)).symm.trans (hm p hp)

/-- The work on partitions of which each comes once.  A partition that is reported was still moving
    when the work began. -/
theorem loads_walk (hd : d.Honest) (hl : job.round < d.rounds.length)
    {todo : List (PartitionId × List Entry)} (hk : (todo.map Prod.fst).Nodup) :
    ∃ ps, Loads job todo d (d.walk job todo).1 ps ∧
      ∀ p ∈ ps, d.site.store.base.state? p = some .moving := by
  induction todo generalizing d with
  | nil => exact ⟨[], .of_silent (silent_refl hd) _, nofun⟩
  | cons x rest ih =>
    obtain ⟨q, es⟩ := x
    obtain ⟨hq, hrest⟩ := List.nodup_cons.mp hk
    rw [walk_cons]
    by_cases hskip : d.owns q job.demand.topology = false ∨ d.site.store.base.state q ≠ .moving
    · rw [if_pos hskip]
      have hb := beside_changeRound d job.round (.drain job.sender q)
      have hsil : Silent d (d.changeRound job.round (.drain job.sender q)) :=
        .of_store (unloaded_changeRound hd hl nofun) hb.store
      obtain ⟨ps, h, hm⟩ := ih hsil.unloaded.honest (by rw [hb.rounds]; exact hl) hrest
      exact ⟨ps, .cons (.before hsil (by rw [hb.store]) h) _, fun p hp =>
        (hsil.states p).symm.trans (hm p hp)⟩
    · rw [if_neg hskip]
      have hmoving : d.site.store.base.state? q = some .moving := by
        rw [← Store.state_eq_moving_iff]
        exact not_not.mp fun hc => hskip (.inr hc)
      split
      · exact ⟨[], .of_silent (silent_refl hd) _, nofun⟩
      · have hpin := silent_pinned hd q
        split
        · exact ⟨[], .of_silent hpin _, nofun⟩
        · have hnear := near_pinned d q
          obtain ⟨ps, h, hm⟩ := loads_goOn_of hpin.unloaded.honest
            (by rw [hnear.rounds]; exact hl) es hq fun f hf hlf => ih hf hlf hrest
          refine ⟨ps, .before hpin hnear.site.invalidating h, fun p hp => ?_⟩
          by_cases hpq : p = q
          · rw [hpq]
            exact hmoving
          · exact (hpin.states p).symm.trans (hm p hp hpq)

theorem loads_goOn (hd : d.Honest) (hl : job.round < d.rounds.length) {q : PartitionId}
    {es : List Entry} {rest : List (PartitionId × List Entry)}
    (hk : (((q, es) :: rest).map Prod.fst).Nodup) :
    ∃ ps, Loads job ((q, es) :: rest) d (d.goOn job q es rest).1 ps ∧
      ∀ p ∈ ps, p ≠ q → d.site.store.base.state? p = some .moving := by
  obtain ⟨hq, hrest⟩ := List.nodup_cons.mp hk
  exact loads_goOn_of hd hl es hq fun f hf hlf => loads_walk hf hlf hrest

/-- A page that is given up reports no load. -/
theorem silent_failPage (hd : d.Honest) (hl : job.round < d.rounds.length) (cause : Fault) :
    Silent d (d.failPage job cause) := by
  refine .of_store ?_ (site_failPage d job cause).1
  unfold failPage
  split
  · exact unloaded_cancelNode hd hl _ _
  · have h := unloaded_cancelNode hd hl job.sender .processingFault
    simp only
    split
    · exact h.trans (.of_rounds h.honest (.refl _) fun _ => rfl)
    · exact h

/-- What follows when a page was worked through reports no load. -/
theorem silent_afterWalk {e : Demander} (he : e.Honest) (hl : job.round < e.rounds.length)
    (w : Walked) : Silent e (afterWalk id job (e, w)) := by
  refine .of_store ?_ (site_afterWalk id job (e, w)).1
  cases w with
  | finished =>
    have h := unloaded_settleMissed he hl
    change Unloaded e (e.endPage id job)
    rw [endPage_eq]
    split
    · exact h.trans (.of_rounds h.honest (.refl _) fun _ => rfl)
    · exact h.trans (.of_rounds h.honest (.refl _) fun _ => rfl)
  | blocked q es rest => exact .of_rounds he (.refl _) fun _ => rfl
  | failed cause =>
    have h := (silent_failPage he hl cause).unloaded
    exact h.trans (.of_rounds h.honest (.refl _) fun _ => rfl)

theorem silent_noteAnswer (hd : d.Honest) (q : Request) (r : Except Fault Unit) :
    Silent d (d.noteAnswer q r) := by
  refine .of_store ?_ (beside_noteAnswer d q r).store
  cases r with
  | ok _ => exact .of_rounds hd (Site.quiet_emit _ rfl rfl) fun _ => rfl
  | error cause => exact .of_rounds hd (Site.quiet_emit _ rfl rfl) fun _ => rfl

theorem silent_replied (hd : d.Honest) (hl : job.round < d.rounds.length) (r : Except Fault Unit) :
    Silent d (d.replied id job r) := by
  unfold replied
  split
  · have h : Unloaded d (d.measure Board.demandSent) := unloaded_measure hd fun _ => rfl
    exact .of_store (h.trans (.of_rounds h.honest (.refl _) fun _ => rfl)) rfl
  · have h : ∀ cause, Silent d (d.failPage job cause) := silent_failPage hd hl
    exact (h _).trans (.of_store (.of_rounds (h _).unloaded.honest (.refl _) fun _ => rfl) rfl)

end Page

-- ============================================================================
-- One step
-- ============================================================================

/-- Something that happens makes the demander own a partition. -/
structure Owned (d : Demander) (i : Input) (p : PartitionId) : Prop where
  inside : ∀ c, i ≠ .site c
  moving : d.site.store.base.state? p = some .moving
  owning : (d.step i).site.store.base.state? p = some .owning

/-- A page comes to the end of a partition that it cannot own. -/
inductive Spoilt (d : Demander) (i : Input) (p : PartitionId) : Prop where
  /-- The partition has left moving while the page waited for its lock. -/
  | waited (id : JobId) (job : PageJob) (entries : List Entry)
      (rest : List (PartitionId × List Entry)) (hi : i = .resume id)
      (hj : d.job? id = some (.locking job p entries rest)) (hl : p ∈ job.page.last)
      (hn : d.site.store.base.state? p ≠ some .moving)
  /-- An entry of the page found the partition taken away. -/
  | taken (id : JobId) (job : PageJob) (entries : List Entry) (e : Entry)
      (hw : d.actor i = .page id job) (hes : job.page.entries.get? p = some entries)
      (hl : p ∈ job.page.last) (he : e ∈ entries) (hk : e.key ∈ d.site.store.invalidating)
      (hn : (d.step i).site.store.base.state? p = some .invalid)

/-- What is noticed of the loads of a step: every partition that it makes the demander own is
    reported once, and what else is reported is spoilt. -/
structure Told (d : Demander) (i : Input) (ps : List PartitionId) : Prop where
  heard : ∃ ids, Heard d (d.step i) (d.said i) ids ps
  once : ps.Nodup
  complete : ∀ p, d.Owned i p → p ∈ ps
  sound : ∀ p ∈ ps, d.Owned i p ∨ d.Spoilt i p

theorem told_of_silent {d : Demander} {i : Input} (h : Silent (d.base i) (d.step i)) :
    d.Told i [] := by
  refine ⟨?_, List.nodup_nil, fun p hp => ?_, fun p hp => absurd hp List.not_mem_nil⟩
  · obtain ⟨ids, h⟩ := h.unloaded
    exact ⟨ids, h.said⟩
  · have hsame := h.states p
    rw [hp.owning, site_base, hp.moving] at hsame
    cases hsame

/-- The partitions that a page has still to work through come once each. -/
theorem nodup_of_suffix {job : PageJob} {todo : List (PartitionId × List Entry)}
    (ht : todo <:+ job.page.entries.toList) : (todo.map Prod.fst).Nodup :=
  (SortedMap.keys_nodup job.page.entries).sublist (ht.sublist.map Prod.fst)

/-- The loads of a page, of which all but the partition it has waited for were moving. -/
theorem told_of_loads {d : Demander} {i : Input} {id : JobId} {job : PageJob}
    {todo : List (PartitionId × List Entry)} {ps : List PartitionId} (hi : ∀ c, i ≠ .site c)
    (hw : d.actor i = .page id job) (ht : todo <:+ job.page.entries.toList)
    (h : Loads job todo (d.base i) (d.step i) ps)
    (hm : ∀ p ∈ ps, d.site.store.base.state? p = some .moving ∨ d.Spoilt i p) : d.Told i ps := by
  refine ⟨?_, (nodup_of_suffix ht).sublist h.within, fun p hp => ?_, fun p hp => ?_⟩
  · obtain ⟨ids, h⟩ := h.noticed
    exact ⟨ids, h.said⟩
  · exact h.complete p (by rw [site_base]; exact hp.moving) hp.owning
  · rcases hm p hp with hmoving | hspoilt
    · rcases h.sound p hp (by rw [site_base]; exact hmoving) with ho | ⟨hn, es, hes, e, he, hk⟩
      · exact .inl ⟨hi, hmoving, ho⟩
      · refine .inr (.taken id job es e hw ?_ (h.ends p hp) he (site_base d i ▸ hk) hn)
        exact SortedMap.get?_eq_some_iff.mpr (ht.subset hes)
    · exact .inr hspoilt

/-- A page arrives that is worked through. -/
theorem told_page {d : Demander} (hs : d.Steady) {worker : WorkerId} {sender : NodeId}
    {page : Supply} {job : PageJob} (ha : d.accepted worker sender page = some job) :
    ∃ ps, d.Told (.page worker sender page) ps := by
  have hw : d.actor (.page worker sender page) = .page d.nextJob job := by simp only [actor, ha]
  have hl : job.round < (d.spawn.1.measure Board.pageReceived).rounds.length := by
    obtain ⟨-, plan, demand, -, -, -, -, rfl⟩ := accepted_round ha
    exact hs.current
  have hsil : Silent d.spawn.1 (d.spawn.1.measure Board.pageReceived) :=
    .of_store (unloaded_measure hs.spawn.honest fun _ => rfl) rfl
  obtain ⟨ps, h, hm⟩ := loads_walk hsil.unloaded.honest hl (nodup_of_suffix (List.suffix_refl _))
  refine ⟨ps, told_of_loads (by rintro c ⟨⟩) hw (List.suffix_refl _) ?_ fun p hp => .inl (hm p hp)⟩
  rw [step_page ha]
  have hticks : Ticks (.page d.nextJob job) (d.spawn.1.measure Board.pageReceived)
      ((d.spawn.1.measure Board.pageReceived).walk job job.page.entries.toList).1 :=
    (chores_walk _ _).ticks
  exact .before hsil rfl
    (.after h (silent_afterWalk h.honest (Nat.lt_of_lt_of_le hl hticks.length_le) _))

/-- A page gets its chance to go on that waits for a lock. -/
theorem told_locking {d : Demander} (hs : d.Steady) {id : JobId} {job : PageJob} {q : PartitionId}
    {es : List Entry} {rest : List (PartitionId × List Entry)}
    (hj : d.job? id = some (.locking job q es rest)) : ∃ ps, d.Told (.resume id) ps := by
  have htodo : ((q, es) :: rest) <:+ job.page.entries.toList := hs.todo id _ job hj rfl
  have hl : job.round < d.rounds.length := (hs.bound id _ _ hj rfl).1
  by_cases hlock : (d.site.store.base.tryLock q).2 = false
  · refine ⟨[], told_of_silent ?_⟩
    rw [step_resume_locking hj, if_pos hlock]
    exact silent_refl hs.honest
  · obtain ⟨ps, h, hm⟩ := loads_goOn hs.honest hl (nodup_of_suffix htodo)
    refine ⟨ps, told_of_loads nofun (actorOf_of_page hj rfl) htodo ?_ fun p hp => ?_⟩
    · rw [step_resume_locking hj, if_neg hlock]
      have hticks : Ticks (.page id job) d (d.goOn job q es rest).1 :=
        (chores_goOn d q es rest).ticks
      exact .after h (silent_afterWalk h.honest (Nat.lt_of_lt_of_le hl hticks.length_le) _)
    · by_cases hpq : p = q
      · subst hpq
        by_cases hmoving : d.site.store.base.state? p = some .moving
        · exact .inl hmoving
        · exact .inr (.waited id job es rest rfl hj (h.ends p hp) hmoving)
      · exact .inl (hm p hp hpq)

/-- The transport's answer to a page. -/
theorem silent_answer {d : Demander} (hs : d.Steady) {id : JobId} {job : PageJob} {q : Request}
    (hj : d.job? id = some (.replying job q)) (r : Except Fault Unit) :
    Silent d (d.step (.answer id r)) := by
  change Silent d (d.answer id r)
  unfold answer
  rw [hj]
  have hnote := silent_noteAnswer hs.honest q r
  refine hnote.trans (silent_replied hnote.unloaded.honest ?_ r)
  rw [(beside_noteAnswer d q r).rounds]
  exact (hs.bound id _ _ hj rfl).1

/-- What is noticed of the loads of anything that happens. -/
theorem told_step {d : Demander} (hs : d.Steady) (i : Input) : ∃ ps, d.Told i ps := by
  by_cases hi : ∃ c, i = .site c
  · obtain ⟨c, rfl⟩ := hi
    exact ⟨[], ⟨[], heard_site d c⟩, List.nodup_nil, fun p hp => absurd rfl (hp.inside c),
      fun p hp => absurd hp List.not_mem_nil⟩
  by_cases hw : ∀ id job, d.actor i ≠ .page id job
  · have hticks := step_ticks hs fun c hc => hi ⟨c, hc⟩
    exact ⟨[], told_of_silent (silent_ticks hticks (steady_base hs i) (fits_actor hs i) hw)⟩
  obtain ⟨id, job, hw⟩ : ∃ id job, d.actor i = .page id job := by
    simpa only [not_forall, not_not] using hw
  -- A page is at work: one that arrives, or one that has waited.
  have hstep := pageStep hw
  generalize he : d.step i = e at hstep
  cases hstep with
  | arrives _ ha => exact told_page hs ha
  | goesOn hj _ => exact told_locking hs hj
  | replied hj r => exact ⟨[], told_of_silent (silent_answer hs hj r)⟩
  | waits hi =>
    refine ⟨[], told_of_silent ?_⟩
    rw [he]
    rcases hi with rfl | ⟨r, rfl⟩ <;> exact silent_refl hs.honest

-- ============================================================================
-- A whole run
-- ============================================================================

/-- What is noticed of the loads of a run: `loads` lists what is reported, each partition with the
    number of the step.  Whatever a step makes the demander own is reported by it once, and what
    else is reported is spoilt. -/
structure ToldRun (d : Demander) (inputs : List Input) (loads : List (Nat × PartitionId)) :
    Prop where
  events : loadedOf (d.noticed inputs) = if d.tells then loads.map Prod.snd else []
  counted : (d.run inputs).countOwned = d.countOwned + UInt64.ofNat loads.length
  once : loads.Nodup
  complete : ∀ m i p, inputs[m]? = some i → (d.moment inputs m).Owned i p → (m, p) ∈ loads
  sound : ∀ m p, (m, p) ∈ loads → ∃ i, inputs[m]? = some i ∧
    ((d.moment inputs m).Owned i p ∨ (d.moment inputs m).Spoilt i p)

theorem toldRun_cons {d : Demander} {i : Input} {ps : List PartitionId} (h : d.Told i ps)
    {inputs : List Input} {loads : List (Nat × PartitionId)}
    (hrest : (d.step i).ToldRun inputs loads) :
    d.ToldRun (i :: inputs)
      (ps.map (fun p => (0, p)) ++ loads.map fun x => (x.1 + 1, x.2)) := by
  obtain ⟨ids, hheard⟩ := h.heard
  have htells : (d.step i).tells = d.tells := by
    simp only [tells, Recorder.isRecordable, hheard.enabled]
  refine ⟨?_, ?_, ?_, fun m x p hm ho => ?_, fun m p hmem => ?_⟩
  · change loadedOf (d.said i ++ (d.step i).noticed inputs) = _
    rw [loadedOf_append, hheard.loaded, hrest.events, htells]
    split
    · simp [Function.comp_def]
    · rfl
  · change ((d.step i).run inputs).countOwned = _
    rw [hrest.counted, hheard.owned, List.length_append, List.length_map, List.length_map,
      UInt64.ofNat_add, UInt64.add_assoc]
  · have hfirst : (ps.map fun p => ((0 : Nat), p)).Nodup :=
      List.Pairwise.map _ (fun p q hpq heq => hpq (Prod.mk.inj heq).2) h.once
    have hlater : (loads.map fun x => (x.1 + 1, x.2)).Nodup :=
      List.Pairwise.map _ (fun x y hxy heq =>
        hxy (Prod.ext (Nat.succ.inj (Prod.mk.inj heq).1) (Prod.mk.inj heq).2)) hrest.once
    refine List.nodup_append.mpr ⟨hfirst, hlater, ?_⟩
    rintro a ha b hb rfl
    obtain ⟨p, -, rfl⟩ := List.mem_map.mp ha
    obtain ⟨x, -, hx⟩ := List.mem_map.mp hb
    exact absurd (Prod.mk.inj hx).1 (Nat.succ_ne_zero _)
  · cases m with
    | zero =>
      cases hm
      exact List.mem_append_left _ (List.mem_map.mpr ⟨p, h.complete p ho, rfl⟩)
    | succ m =>
      exact List.mem_append_right _ (List.mem_map.mpr ⟨(m, p), hrest.complete m x p hm ho, rfl⟩)
  · rcases List.mem_append.mp hmem with hmem | hmem
    · obtain ⟨q, hq, heq⟩ := List.mem_map.mp hmem
      cases heq
      exact ⟨i, rfl, h.sound p hq⟩
    · obtain ⟨⟨m', q⟩, hq, heq⟩ := List.mem_map.mp hmem
      cases heq
      exact hrest.sound m' q hq

/-- A loaded partition is reported and counted exactly once for each time that the demander owns it
    by a step, and never otherwise unless a page comes to the end of a partition that has been
    spoilt for it.  Take any demander that can be there, and any run of it. -/
theorem loads_are_told {d : Demander} (hd : d.Reachable) (inputs : List Input) :
    ∃ loads, d.ToldRun inputs loads := by
  have hs := hd.steady
  clear hd
  induction inputs generalizing d with
  | nil =>
    refine ⟨[], ?_, (UInt64.add_zero _).symm, List.nodup_nil, nofun, nofun⟩
    split <;> rfl
  | cons i inputs ih =>
    obtain ⟨ps, h⟩ := told_step hs i
    obtain ⟨loads, hrest⟩ := ih (steady_step hs i)
    exact ⟨_, toldRun_cons h hrest⟩

/-! ## A partition that is taken away is reported all the same -/

/-- A demander of one partition, which is taken away when an entry with one of some keys is
    written. -/
def fragile (invalidating : SortedSet Bytes) : Demander :=
  newborn { poolSize := 1 } 2 ⟨1, 0⟩ ⟨{}, ∅, ∅, invalidating⟩ [3]

/-- A plan is added, its demand is sent, and the only page arrives. -/
def entryRun : List Input :=
  [.add (planFor ⟨1, 0⟩ [(5, [3])]) true, .answer 0 (.ok ()),
    .page 0 5 (((Supply.empty 0).addEntries 3
      [{ key := [107], value := [1], revision := ⟨1, 0⟩ }]).markLast 3)]

/-- The page makes the demander own the partition, and that is reported. -/
theorem owned_load_is_told :
    (fragile ∅).Reachable ∧ (∃ loads, (fragile ∅).ToldRun entryRun loads) ∧
      ((fragile ∅).moment entryRun 2).site.store.base.state? 3 = some .moving ∧
      ((fragile ∅).run entryRun).site.store.base.state? 3 = some .owning ∧
      loadedOf ((fragile ∅).noticed entryRun) = [3] ∧
      ((fragile ∅).run entryRun).countOwned = 1 := by
  have hreach : (fragile ∅).Reachable := reachable_newborn rfl rfl 2 ⟨1, 0⟩ _ [3]
  exact ⟨hreach, loads_are_told hreach entryRun, by decide +kernel, by decide +kernel,
    by decide +kernel, by decide +kernel⟩

/-- The entry finds the partition taken away.  No step makes the demander own it, but it is counted
    and reported as loaded. -/
theorem spoilt_load_is_told :
    let d := fragile (SortedSet.ofList [[107]])
    d.Reachable ∧ loadedOf (d.noticed entryRun) = [3] ∧ (d.run entryRun).countOwned = 1 ∧
      (∀ m i p, entryRun[m]? = some i → ¬ (d.moment entryRun m).Owned i p) ∧
      (d.run entryRun).site.store.base.state? 3 = some .invalid := by
  intro d
  refine ⟨reachable_newborn rfl rfl 2 ⟨1, 0⟩ _ [3], by decide +kernel, by decide +kernel,
    fun m i p hm ho => ?_, by decide +kernel⟩
  -- There is only one partition, and after no step it is owned.
  have hstates : ∀ l, l < 3 → (d.moment entryRun (l + 1)).site.store.base.partitions.values.all
      (fun x => x.state != .owning) = true := by decide +kernel
  have hlt : m < 3 := (List.getElem?_eq_some_iff.mp hm).1
  have howning := ho.owning
  rw [← moment_succ _ hm] at howning
  obtain ⟨x, hx, hstate⟩ := Option.map_eq_some_iff.mp howning
  have hall := List.all_eq_true.mp (hstates m hlt) x (SortedMap.mem_values_iff.mpr ⟨p, hx⟩)
  rw [hstate] at hall
  cases hall

end Demander
end Rebalance
