/-
  Rebalance.Proofs.Hearing

  What is noticed of a demander along a run.  `said` is what one step lets be
  noticed and `noticed` what a whole run does; `heard_run` accounts for both
  kinds of it: every exchange that is forced is forced for one round that ended
  with misses, and every loaded partition that is reported is counted.
-/
import Rebalance.Proofs.Host

namespace Rebalance
namespace Demander

-- ============================================================================
-- Ticks
-- ============================================================================

theorem Steady.honest {d : Demander} (hs : d.Steady) : d.Honest := fun id =>
  (hs.standing id).closed_iff

/-- A round that no plan has bound yet is not done. -/
theorem Steady.open_of_unbound {d : Demander} (hs : d.Steady) {id : RoundId}
    (ha : (d.roundOf id).round.attached = false) : (d.roundOf id).round.isDone = false :=
  (hs.standing id).closed_iff.symm.trans ((hs.standing id).fresh ha).1

/-- Nothing is noticed of a load, and no partition changes its state. -/
structure Silent (d e : Demander) : Prop where
  unloaded : Unloaded d e
  states : ∀ p, e.site.store.base.state? p = d.site.store.base.state? p

theorem Silent.trans {d e f : Demander} (h₁ : Silent d e) (h₂ : Silent e f) : Silent d f :=
  ⟨h₁.unloaded.trans h₂.unloaded, fun p => (h₂.states p).trans (h₁.states p)⟩

theorem Silent.of_store {d e : Demander} (h : Unloaded d e) (hs : e.site.store = d.site.store) :
    Silent d e := ⟨h, fun p => by rw [hs]⟩

theorem silent_refl {d : Demander} (hd : d.Honest) : Silent d d :=
  .of_store (.of_rounds hd (.refl _) fun _ => rfl) rfl

theorem silent_pinned {d : Demander} (hd : d.Honest) (p : PartitionId) : Silent d (d.pinned p) := by
  refine ⟨.of_rounds hd ⟨⟨[], (List.append_nil _).symm, rfl, rfl⟩, rfl, rfl⟩ fun _ => rfl,
    fun q => ?_⟩
  change (d.site.store.reserve p).1.base.state? q = _
  unfold Tampered.reserve
  split
  · rfl
  · exact Store.state?_reserve _ p q

theorem silent_withLock {d : Demander} (hd : d.Honest) (p : PartitionId) :
    Silent d (d.withLock p) :=
  ⟨.of_rounds hd ⟨⟨[], (List.append_nil _).symm, rfl, rfl⟩, rfl, rfl⟩ fun _ => rfl,
    fun q => Store.state?_tryLock _ p q⟩

/-- Every chore is silent but that of a page that loads a partition. -/
theorem silent_chore {who : Actor} {d e : Demander} (h : Chore who d e) (hs : d.Steady)
    (hf : who.Fits d) : Silent d e ∨
      ∃ id job p entries, who = .page id job ∧ e = (d.load job p entries).1 := by
  have hd := hs.honest
  cases h with
  | note hb hr hq _ =>
    exact .inl (.of_store (.of_rounds hd hq fun id => by rw [hr]) hb.store)
  | @drain id job d p _ =>
    exact .inl (.of_store (unloaded_changeRound hd hf.2.1 nofun) (beside_changeRound d _ _).store)
  | @settleMissed id job d =>
    exact .inl (.of_store (unloaded_settleMissed hd hf.2.1) (beside_settleMissed d job).store)
  | pin p => exact .inl (silent_pinned hd p)
  | lock p => exact .inl (silent_withLock hd p)
  | @load id job d p entries => exact .inr ⟨id, job, p, entries, rfl, rfl⟩
  | cancel round node reason hl _ =>
    exact .inl (.of_store (unloaded_cancelNode hd hl node reason)
      (beside_cancelNode d round node reason).store)
  | endShipment round s hb _ =>
    exact .inl (.of_store (unloaded_endShipment hd hb.1 s) (beside_endShipment d round s).store)
  | openRound =>
    exact .inl (.of_store (.of_rounds hd (.refl _) fun id => by rw [roundOf_openRound]) rfl)
  | watch tag =>
    exact .inl (.of_store (unloaded_whenDone hd hs.current _) (beside_whenDone d _ _).store)
  | _ => exact .inl (.of_store (.of_rounds hd (.refl _) fun _ => rfl) rfl)

theorem unloaded_abandonRound {d : Demander} (hd : d.Honest) : Unloaded d d.abandonRound := by
  unfold abandonRound
  simp only
  split
  · have h : Unloaded d (d.flag d.current false) := unloaded_flag hd _ _
    exact h.trans (unloaded_measure h.honest (f := Board.roundAbandoned) fun _ => rfl)
  · exact .of_rounds hd (.refl _) fun _ => rfl

/-- Every tick is silent but that of a page that loads a partition. -/
theorem silent_tick {who : Actor} {d e : Demander} (h : Tick who d e) (hs : d.Steady)
    (hf : who.Fits d) : Silent d e ∨
      ∃ id job p entries, who = .page id job ∧ e = (d.load job p entries).1 := by
  have hd := hs.honest
  cases h with
  | chore h => exact silent_chore h hs hf
  | begin round plan hl ha _ _ =>
    exact .inl (.of_store (unloaded_begin hd hl (hs.open_of_unbound ha) plan)
      (beside_begin d round plan).store)
  | pass round plan hl ha =>
    exact .inl (.of_store (unloaded_pass hd hl (hs.open_of_unbound ha) plan)
      (beside_pass d round plan).store)
  | abandon =>
    exact .inl (.of_store (unloaded_abandonRound hd) (beside_abandonRound d).store)

/-- Whoever does not work on a page is silent. -/
theorem silent_ticks {who : Actor} {d e : Demander} (h : Ticks who d e) (hs : d.Steady)
    (hf : who.Fits d) (hw : ∀ id job, who ≠ .page id job) : Silent d e := by
  refine (h.keeps (P := Silent d) (fun e f ht hse hfe he => ?_) hs hf (silent_refl hs.honest)).1
  rcases silent_tick ht hse hfe with hsil | ⟨id, job, p, entries, hwho, -⟩
  · exact he.trans hsil
  · exact absurd hwho (hw id job)

theorem noticed_ticks {who : Actor} {d e : Demander} (h : Ticks who d e) (hs : d.Steady)
    (hf : who.Fits d) : ∃ ids ps, Noticed d e ids ps := by
  refine (h.keeps (P := fun e => ∃ ids ps, Noticed d e ids ps) ?_ hs hf ?_).1
  · rintro e f ht hse hfe ⟨ids, ps, h₁⟩
    rcases silent_tick ht hse hfe with ⟨⟨ids', h₂⟩, -⟩ | ⟨id, job, p, entries, rfl, rfl⟩
    · exact ⟨_, _, h₁.trans h₂⟩
    · obtain ⟨ids', h₂⟩ := noticed_load hse.honest hfe.2.1 p entries
      exact ⟨_, _, h₁.trans h₂⟩
  · obtain ⟨ids, h⟩ := (silent_refl hs.honest).unloaded
    exact ⟨ids, [], h⟩

-- ============================================================================
-- Steps and runs
-- ============================================================================

/-- What something that happens lets others notice. -/
def said (d : Demander) (i : Input) : List Effect :=
  (d.step i).site.trace.drop d.site.trace.length

/-- What a run lets others notice, in order. -/
def noticed (d : Demander) : List Input → List Effect
  | [] => []
  | i :: rest => d.said i ++ (d.step i).noticed rest

/-- What is noticed of the work on something is what it lets others notice. -/
theorem Noticed.said {d : Demander} {i : Input} {ids : List RoundId} {ps : List PartitionId}
    (h : Noticed (d.base i) (d.step i) ids ps) : Heard d (d.step i) (d.said i) ids ps := by
  obtain ⟨es, he, h⟩ := h.heard
  have hsaid : d.said i = es := by
    rw [site_base] at he
    rw [Demander.said, he, List.drop_left]
  rw [hsaid]
  cases i <;> exact ⟨h.dummies, h.loaded, h.enabled, h.owned, h.once, h.ended, h.stays⟩

theorem heard_site (d : Demander) (c : Site.Change) :
    Heard d (d.step (.site c)) (d.said (.site c)) [] [] := by
  have hsaid : d.said (.site c) = [] := by
    unfold said step Site.change
    cases c <;> simp
  rw [hsaid]
  refine .of_rounds rfl rfl ?_ ?_ fun id => ⟨rfl, fun _ => rfl⟩
  · cases c <;> rfl
  · cases c <;> rfl

/-- What is heard of a step. -/
theorem heard_step {d : Demander} (hs : d.Steady) (i : Input) :
    ∃ ids ps, Heard d (d.step i) (d.said i) ids ps := by
  by_cases hi : ∃ c, i = .site c
  · obtain ⟨c, rfl⟩ := hi
    exact ⟨[], [], heard_site d c⟩
  · have ht := step_ticks hs fun c hc => hi ⟨c, hc⟩
    obtain ⟨ids, ps, h⟩ := noticed_ticks ht (steady_base hs i) (fits_actor hs i)
    exact ⟨ids, ps, h.said⟩

/-- What is heard of a run. -/
theorem heard_run {d : Demander} (hs : d.Steady) (inputs : List Input) :
    ∃ ids ps, Heard d (d.run inputs) (d.noticed inputs) ids ps := by
  induction inputs generalizing d with
  | nil => exact ⟨[], [], .of_rounds rfl rfl rfl rfl fun _ => ⟨rfl, fun _ => rfl⟩⟩
  | cons i inputs ih =>
    obtain ⟨ids, ps, h⟩ := heard_step hs i
    obtain ⟨ids', ps', h'⟩ := ih (steady_step hs i)
    exact ⟨_, _, h.trans h'⟩

end Demander
end Rebalance
