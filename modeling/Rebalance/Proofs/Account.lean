/-
  Rebalance.Proofs.Account

  What becomes of the entries of a page while it is worked through.  Unless
  the page fails, or has to wait for a lock with the partition still ahead,
  every entry of a partition that belongs here and is moving is accounted for:
  expired, turned away, or answered for by the store.
-/
import Rebalance.Proofs.Walk

namespace Rebalance
namespace Demander

variable {job : PageJob} {p : PartitionId} {e : Entry}

/-- An entry is accounted for: it is expired or turned away at this moment, or the store answers
    for it. -/
def Accounted (d : Demander) (p : PartitionId) (e : Entry) : Prop :=
  e.isExpired d.site.clock = true ∨ d.site.accepts p e = false ∨ d.site.store.base.Answers p e

/-- Ticks keep what is accounted for. -/
theorem Accounted.later {d f : Demander} (h : d.Accounted p e) (ha : d.site.Alike f.site)
    (hg : d.site.store.base.Grows f.site.store.base) : f.Accounted p e := by
  rcases h with h | h | h
  · refine .inl ?_
    rw [ha.clock]
    exact h
  · refine .inr (.inl ?_)
    rw [ha.accepts]
    exact h
  · exact .inr (.inr (h.grows hg))

/-- A load of another partition keeps the state of this one. -/
theorem state_load_ne {d : Demander} {q : PartitionId} (h : p ≠ q) (entries : List Entry) :
    (d.load job q entries).1.site.store.base.state? p = d.site.store.base.state? p := by
  have htake : (d.takenIn job q entries).site.store.base.state? p = d.site.store.base.state? p :=
    Site.state?_takeInAll d.site job.sender q entries p (.inl h)
  rw [load_cases]
  split
  · rw [state_letGo, ownLoaded, (beside_changeRound _ _ _).store]
    refine Eq.trans ?_ htake
    unfold ownAndReport
    rw [Site.store_report]
    change ((d.takenIn job q entries).site.store.base.own q).1.state? p = _
    rw [Store.state?_own, if_neg fun hc => h hc.1]
  · rw [state_letGo, htake]

/-- A load that does not fail accounts for every entry. -/
theorem load_accounts {d : Demander} {entries : List Entry} (hi : d.site.store.invalidating = ∅)
    (hm : d.site.store.base.state? p = some .moving) (hok : (d.load job p entries).2 = .ok ()) :
    ∀ e ∈ entries, (d.load job p entries).1.Accounted p e := by
  have htake : d.site.takeInAll job.sender p entries =
      ((d.takenIn job p entries).site, .ok ()) := Prod.ext rfl hok
  have hans := Site.takeInAll_answers d.site job.sender p hi hm htake
  intro e he
  have hacc : (d.takenIn job p entries).Accounted p e := by
    have ha := (near_takenIn d job p entries).site
    rcases hans e he with h | h | h
    · refine .inl ?_
      rw [ha.clock]
      exact h
    · refine .inr (.inl ?_)
      rw [ha.accepts]
      exact h
    · exact .inr (.inr h)
  have hnear : Near (d.takenIn job p entries) (d.load job p entries).1 := by
    rw [load_cases]
    split
    · rw [ownLoaded]
      exact ((near_ownAndReport _ job p).trans (beside_changeRound _ _ _).near).trans
        (near_letGo _ p)
    · exact near_letGo _ p
  exact hacc.later hnear.site hnear.grows

/-- What has become of the entries of a partition after its page was worked through as far as it
    goes. -/
def WalkAccounts (p : PartitionId) (entries : List Entry) : Demander × Walked → Prop
  | (_, .failed _) => True
  | (d, .blocked q es rest) => (p, entries) ∈ (q, es) :: rest ∨ ∀ e ∈ entries, d.Accounted p e
  | (d, .finished) => ∀ e ∈ entries, d.Accounted p e

theorem WalkAccounts.of_accounted {d f : Demander} {entries : List Entry} {w : Walked}
    (h : ∀ e ∈ entries, d.Accounted p e) (ha : d.site.Alike f.site)
    (hg : d.site.store.base.Grows f.site.store.base) : WalkAccounts p entries (f, w) := by
  have hlater : ∀ e ∈ entries, f.Accounted p e := fun e he => (h e he).later ha hg
  cases w with
  | finished => exact hlater
  | blocked q es rest => exact .inr hlater
  | failed cause => trivial

/-- A partition that a page has to load: it belongs here and is moving, and no key takes it
    away. -/
structure Fillable (d : Demander) (t : Topology) (p : PartitionId) : Prop where
  owned : d.owns p t = true
  moving : d.site.store.base.state? p = some .moving
  stays : d.site.store.invalidating = ∅

/-- A partition stays to be loaded while its state does. -/
theorem Fillable.later {d f : Demander} {t : Topology} (h : d.Fillable t p)
    (ha : d.site.Alike f.site) (hs : f.site.store.base.state? p = d.site.store.base.state? p) :
    f.Fillable t p where
  owned := by
    rw [owns, ha.affinity]
    exact h.owned
  moving := hs.trans h.moving
  stays := ha.invalidating.trans h.stays

theorem Fillable.withLock {d : Demander} {t : Topology} (h : d.Fillable t p) (q : PartitionId) :
    (d.withLock q).Fillable t p :=
  h.later (near_withLock d q).site (state?_withLock d q p)

theorem Fillable.pinned {d : Demander} {t : Topology} (h : d.Fillable t p) (q : PartitionId) :
    (d.pinned q).Fillable t p :=
  h.later (near_pinned d q).site (state?_pinned d q p)

/-- Going on with the first of some partitions: it accounts for its own entries, and what is left
    accounts for the others. -/
theorem goOn_accounts_of {d : Demander} {q : PartitionId} {es entries : List Entry}
    {rest : List (PartitionId × List Entry)} (hf : d.Fillable job.demand.topology p)
    (hmem : (p, entries) ∈ (q, es) :: rest) (hk : q ∉ rest.map Prod.fst)
    (hrest : ∀ f : Demander, f.Fillable job.demand.topology p → (p, entries) ∈ rest →
      WalkAccounts p entries (f.walk job rest)) :
    WalkAccounts p entries (d.goOn job q es rest) := by
  have hf' := hf.withLock q
  unfold goOn
  split
  · trivial
  · next hok =>
    rcases List.mem_cons.mp hmem with hhead | htail
    · cases hhead
      have hacc := load_accounts hf'.stays hf'.moving hok
      obtain ⟨ha, hg⟩ := site_walk ((d.withLock p).load job p es).1 job rest
      exact .of_accounted hacc ha hg
    · have hne : p ≠ q := by
        rintro rfl
        exact hk (List.mem_map.mpr ⟨_, htail, rfl⟩)
      exact hrest _ (hf'.later (near_load _ job q es).site (state_load_ne hne es)) htail

/-- A page that is worked through accounts for the entries of every partition that it has to
    load, unless it fails or the partition is still ahead. -/
theorem walk_accounts {d : Demander} {entries : List Entry}
    {todo : List (PartitionId × List Entry)} (hf : d.Fillable job.demand.topology p)
    (hmem : (p, entries) ∈ todo) (hk : (todo.map Prod.fst).Nodup) :
    WalkAccounts p entries (d.walk job todo) := by
  induction todo generalizing d with
  | nil => cases hmem
  | cons x rest ih =>
    obtain ⟨q, es⟩ := x
    obtain ⟨hq, hnodup⟩ := List.nodup_cons.mp hk
    rw [walk_cons]
    by_cases hskip : d.owns q job.demand.topology = false ∨ d.site.store.base.state q ≠ .moving
    · rw [if_pos hskip]
      rcases List.mem_cons.mp hmem with hhead | htail
      · cases hhead
        rcases hskip with h | h
        · rw [hf.owned] at h
          cases h
        · exact absurd (Store.state_eq_moving_iff _ _ |>.mpr hf.moving) h
      · have hb := beside_changeRound d job.round (.drain job.sender q)
        exact ih (hf.later hb.near.site (by rw [hb.store])) htail hnodup
    · rw [if_neg hskip]
      split
      · trivial
      · split
        · exact .inl hmem
        · exact goOn_accounts_of (hf.pinned q) hmem hq fun f hff htail => ih hff htail hnodup

/-- A page that goes on, once the lock it has waited for is free, accounts for the entries of
    every partition that was still ahead. -/
theorem goOn_accounts {d : Demander} {q : PartitionId} {es entries : List Entry}
    {rest : List (PartitionId × List Entry)} (hf : d.Fillable job.demand.topology p)
    (hmem : (p, entries) ∈ (q, es) :: rest) (hk : (((q, es) :: rest).map Prod.fst).Nodup) :
    WalkAccounts p entries (d.goOn job q es rest) := by
  obtain ⟨hq, hnodup⟩ := List.nodup_cons.mp hk
  exact goOn_accounts_of hf hmem hq fun f hff htail => walk_accounts hff htail hnodup

end Demander
end Rebalance
