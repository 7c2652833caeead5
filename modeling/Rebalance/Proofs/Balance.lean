/-
  Rebalance.Proofs.Balance

  Reservations and locks are balanced.  Any number of pages work on a store that
  others work on as well, who give back only what they hold.  Whoever is at work
  takes and gives back through its hold (`handling_step`), so a step changes what
  that one job holds and nothing else (`Balanced.step`), and
  `reservations_and_locks_are_balanced` adds up: what a partition is reserved for
  are the others and the pages that wait for its lock, and every lock belongs to
  the others.
-/
import Rebalance.Proofs.PartitionHold
import Rebalance.Proofs.Stopped
import Rebalance.Proofs.Timely

namespace Rebalance

-- ============================================================================
-- Counting what a map holds
-- ============================================================================

theorem SortedMap.countP_find {κ ν : Type} [DecidableEq κ] (f : ν → Bool) (k : κ)
    {l : List (κ × ν)} (hn : (l.map Prod.fst).Nodup) :
    l.countP (fun x => f x.2) =
      (l.filter fun x => x.1 ≠ k).countP (fun x => f x.2) +
        if (SortedMap.find k l).any f then 1 else 0 := by
  induction l with
  | nil => rfl
  | cons x l ih =>
    obtain ⟨k', v⟩ := x
    obtain ⟨hk, hl⟩ := List.nodup_cons.mp hn
    by_cases h : k' = k
    · subst h
      have hall : (l.filter fun x => x.1 ≠ k') = l :=
        List.filter_eq_self.mpr fun x hx => by
          have hkey : x.1 ∈ l.map Prod.fst := List.mem_map_of_mem hx
          have hne : x.1 ≠ k' := fun heq => hk (heq ▸ hkey)
          simpa using hne
      rw [List.filter_cons_of_neg (by simp), hall, List.countP_cons, SortedMap.find, if_pos rfl]
      rfl
    · rw [List.filter_cons_of_pos (by simpa using h), List.countP_cons, List.countP_cons, ih hl,
        SortedMap.find, if_neg h]
      omega

/-- What a map holds at one key is counted apart. -/
theorem SortedMap.countP_erase {κ ν : Type} [DecidableEq κ] [Key κ] (f : ν → Bool)
    (m : SortedMap κ ν) (k : κ) :
    m.toList.countP (fun x => f x.2) =
      (m.erase k).toList.countP (fun x => f x.2) + if (m.get? k).any f then 1 else 0 :=
  countP_find f k (keys_nodup m)

namespace Demander

open Store (PartitionHold Handles Handling SamePins Shared)

variable {d e : Demander} {i : Input} {id : JobId} {job : PageJob} {p : PartitionId}

-- ============================================================================
-- What a step does to holds
-- ============================================================================

/-- Another call than that of a page goes on as a job that is none of a page. -/
theorem page?_of_call (hs : d.Steady) (hw : d.actor i = .call id) {j : Job}
    (hj : d.job? id = some j) : j.page? = none := by
  have hnew : id ≠ d.nextJob := Nat.ne_of_lt (hs.young id j hj)
  have hold : ∀ id', d.actorOf id' = .call id → j.page? = none := by
    intro id' hw
    obtain ⟨rfl, -⟩ := id_of_actorOf (show (d.actorOf id').id? = some id by rw [hw]; rfl)
    cases hp : j.page? with
    | none => rfl
    | some job =>
      rw [actorOf_of_page hj hp] at hw
      cases hw
  cases i with
  | page worker sender page =>
    simp only [actor] at hw
    split at hw
    · cases hw
    · cases hw
      exact absurd rfl hnew
  | add plan force =>
    cases hw
    exact absurd rfl hnew
  | stop =>
    cases hw
    exact absurd rfl hnew
  | resume id' => exact hold id' hw
  | answer id' r => exact hold id' hw
  | _ => cases hw

/-- Only pages touch the store. -/
theorem store_of_not_page (hs : d.Steady) (hi : ∀ c, i ≠ .site c)
    (hw : ∀ id job, d.actor i ≠ .page id job) : (d.step i).site.store = d.site.store := by
  rw [(unwritten_ticks (step_ticks hs hi) hw).store, site_base]

/-- Whoever is at work in a step comes from the hold that it had, by taking and giving back, to the
    hold that it has after the step. -/
theorem handling_step (hs : d.Steady) (hid : (d.actor i).id? = some id) :
    Handling (d.holding (d.holdOf id)) ((d.step i).holding ((d.step i).holdOf id)) := by
  have hi : ∀ c, i ≠ .site c := by
    rintro c rfl
    cases hid
  cases hw : d.actor i with
  | nobody =>
    rw [hw] at hid
    cases hid
  | call id' =>
    rw [hw] at hid
    obtain rfl : id' = id := Option.some.inj hid
    have hnot : ∀ id job, d.actor i ≠ .page id job := by simp [hw]
    rw [holdOf_of_not_page fun j hj => page?_of_call hs hw hj, holdOf_of_not_page]
    · exact handling_work _ (.of_eq (congrArg Tampered.base (store_of_not_page hs hi hnot)))
    · intro j hj
      exact (page_of_actor hs hi hj (hnot _)).elim (page?_of_call hs hw) fun h => h
  | page id' job =>
    rw [hw] at hid
    obtain rfl : id' = id := Option.some.inj hid
    have hstep := pageStep hw
    generalize d.step i = e at hstep
    cases hstep with
    | arrives hnew _ =>
      have hfree : d.holdOf id' = .free := holdOf_of_not_page fun j hj =>
        absurd (hs.young id' j hj) (by rw [hnew]; exact Nat.lt_irrefl _)
      rw [hfree]
      exact handling_afterWalk (d := d) id'
        (handling_walk (d.spawn.1.measure Board.pageReceived) job job.page.entries.toList)
    | goesOn hj hlock =>
      rw [holdOf_of_job? hj]
      exact handling_afterWalk id' (handling_goOn hlock job _ _)
    | @replied q hj r =>
      have hstore : ((d.noteAnswer q r).replied id' job r).site.store = d.site.store :=
        (site_replied _ id' job r).trans (beside_noteAnswer d q r).store
      rw [holdOf_of_job? hj, holdOf_of_none (job?_replied _ id' job r)]
      exact handling_work _ (.of_eq (congrArg Tampered.base hstore))
    | waits => exact .refl

/-- A step that is nobody's work leaves reservations and locks alone, unless it is a change of the
    store from outside. -/
theorem samePins_of_nobody (hs : d.Steady) (hid : (d.actor i).id? = none)
    (hi : ∀ f, i = .site (.store f) → SamePins d.site.store.base (f d.site.store).base) :
    SamePins d.site.store.base (d.step i).site.store.base := by
  by_cases hsite : ∃ c, i = .site c
  · obtain ⟨c, rfl⟩ := hsite
    cases c with
    | store f => exact hi f rfl
    | _ => exact .refl _
  · refine .of_eq (congrArg Tampered.base (store_of_not_page hs (fun c hc => hsite ⟨c, hc⟩) ?_))
    intro id job hw
    rw [hw] at hid
    cases hid

-- ============================================================================
-- Pages that wait
-- ============================================================================

/-- How many pages wait for the lock of a partition. -/
def waiting (d : Demander) (p : PartitionId) : Nat :=
  d.jobs.toList.countP fun x => decide (x.2.waitsFor? = some p)

/-- How many other jobs than this one wait for the lock of a partition. -/
def waitingBut (d : Demander) (id : JobId) (p : PartitionId) : Nat :=
  (d.jobs.erase id).toList.countP fun x => decide (x.2.waitsFor? = some p)

theorem waiting_eq (d : Demander) (id : JobId) (p : PartitionId) :
    d.waiting p = d.waitingBut id p + (d.holdOf id).reserves p := by
  have hone : (if (d.job? id).any (fun j => decide (j.waitsFor? = some p)) then 1 else 0) =
      (d.holdOf id).reserves p := by
    cases hj : d.job? id with
    | none =>
      rw [holdOf_of_none hj]
      rfl
    | some j =>
      rw [holdOf_of_job? hj, Option.any_some]
      cases j.waitsFor? with
      | none => rfl
      | some q => simp [PartitionHold.reserves, eq_comm]
  rw [waiting, waitingBut, ← hone]
  exact SortedMap.countP_erase (fun j : Job => decide (j.waitsFor? = some p)) d.jobs id

theorem waitingBut_of_others (h : ∀ id', id' ≠ id → e.job? id' = d.job? id') (p : PartitionId) :
    e.waitingBut id p = d.waitingBut id p := by
  have hjobs : e.jobs.erase id = d.jobs.erase id := by
    apply SortedMap.ext
    intro id'
    rw [SortedMap.get?_erase, SortedMap.get?_erase]
    by_cases hid : id' = id
    · rw [if_pos hid, if_pos hid]
    · rw [if_neg hid, if_neg hid]
      exact h id' hid
  rw [waitingBut, hjobs, waitingBut]

theorem waiting_of_jobs (h : ∀ id, e.job? id = d.job? id) (p : PartitionId) :
    e.waiting p = d.waiting p := by
  have hjobs : e.jobs = d.jobs := SortedMap.ext h
  rw [waiting, hjobs, waiting]

end Demander

-- ============================================================================
-- The others
-- ============================================================================

/-- What others hold in a store: so many reservations of each partition, and some locks. -/
structure Others where
  reserved : PartitionId → Nat
  locked : PartitionId → Bool

/-- Something that happens to a demander whose store others work on as well. -/
inductive Happening where
  /-- Something happens to the demander or to its node. -/
  | step (i : Demander.Input)
  /-- The others try to reserve a partition. -/
  | reserve (p : PartitionId)
  /-- The others give a reservation back. -/
  | release (p : PartitionId)
  /-- The others try to take a lock. -/
  | lock (p : PartitionId)
  /-- The others give a lock back. -/
  | unlock (p : PartitionId)

namespace Happening

/-- A change that others make to a store. -/
def outside (f : Store → Store) : Demander.Input := .site (.store (·.onBase f))

/-- What it is to the demander. -/
def input : Happening → Demander.Input
  | step i => i
  | reserve p => outside fun s => (s.reserve p).1
  | release p => outside (·.release p)
  | lock p => outside fun s => (s.tryLock p).1
  | unlock p => outside (·.unlock p)

/-- It is fair if the others give back only what they hold, and if no other change of the store
    is one of its reservations and locks.  An unlock of what nobody has locked is fair too: a lock of
    a partition that is not there is granted, and takes nothing. -/
def Fair (o : Others) (s : Tampered) : Happening → Prop
  | step i => ∀ f, i = .site (.store f) → Store.SamePins s.base (f s).base
  | release p => 0 < o.reserved p
  | unlock p => o.locked p = true ∨ s.base.isLocked p = false
  | _ => True

end Happening

namespace Others

/-- What the others hold after it: a reservation counts if it was granted, and a lock if it was
    granted and the partition is there. -/
def after (o : Others) (s : Store) : Happening → Others
  | .step _ => o
  | .reserve p =>
    { o with reserved := fun q => o.reserved q + if q = p ∧ (s.reserve p).2 = true then 1 else 0 }
  | .release p => { o with reserved := fun q => o.reserved q - if q = p then 1 else 0 }
  | .lock p =>
    { o with locked := fun q =>
        if q = p ∧ (s.tryLock p).2 = true ∧ (s.get? p).isSome = true then true else o.locked q }
  | .unlock p => { o with locked := fun q => if q = p then false else o.locked q }

/-- What the others hold after a run. -/
def along (o : Others) (d : Demander) : List Happening → Others
  | [] => o
  | x :: steps => (o.after d.site.store.base x).along (d.step x.input) steps

/-- All steps of a run are fair. -/
def AllFair (o : Others) (d : Demander) : List Happening → Prop
  | [] => True
  | x :: steps =>
    x.Fair o d.site.store ∧ (o.after d.site.store.base x).AllFair (d.step x.input) steps

/-- Whatever is no change of the store from outside is fair. -/
theorem AllFair.step {o : Others} {d : Demander} {i : Demander.Input} {steps : List Happening}
    (hi : ∀ f, i ≠ .site (.store f)) (h : o.AllFair (d.step i) steps) :
    o.AllFair d (.step i :: steps) := ⟨fun f hf => absurd hf (hi f), h⟩

end Others

namespace Demander

open Store (PartitionHold Handles Handling SamePins Shared)

variable {d : Demander} {o : Others} {x : Happening}

/-- What is reserved and locked belongs to the others, or to pages that wait: of these each has
    reserved the partition whose lock it waits for. -/
structure Balanced (o : Others) (d : Demander) : Prop where
  reservations : ∀ p, d.site.store.base.reservations p = o.reserved p + d.waiting p
  isLocked : ∀ p, d.site.store.base.isLocked p = o.locked p

/-- What is not reserved and locked for one job is so for the others and the other pages. -/
theorem Balanced.shared (h : Balanced o d) (id : JobId) :
    Shared (fun p => o.reserved p + d.waitingBut id p) o.locked (d.holding (d.holdOf id)) where
  reservations p := by
    rw [h.reservations p, waiting_eq d id p, Nat.add_assoc]
  isLocked p := by
    rw [h.isLocked p]
    unfold holding holdOf
    split <;> simp [PartitionHold.locks]
  apart p hp := by
    unfold holding holdOf at hp
    split at hp <;> cases hp

theorem Shared.balanced {id : JobId}
    (h : Shared (fun p => o.reserved p + d.waitingBut id p) o.locked (d.holding (d.holdOf id))) :
    Balanced o d where
  reservations p := by
    rw [h.reservations p, waiting_eq d id p, Nat.add_assoc]
  isLocked p := by
    rw [h.isLocked p]
    unfold holding holdOf
    split <;> simp [PartitionHold.locks]

/-- What happens to a demander keeps the balance. -/
theorem Balanced.step (hs : d.Steady) (h : Balanced o d) {i : Input}
    (hi : ∀ f, i = .site (.store f) → SamePins d.site.store.base (f d.site.store).base) :
    Balanced o (d.step i) := by
  cases hid : (d.actor i).id? with
  | none =>
    have hsame := samePins_of_nobody hs hid hi
    have hjobs : ∀ id, (d.step i).job? id = d.job? id := fun id =>
      job_of_other hs (by rw [hid]; rintro ⟨⟩)
    refine ⟨fun p => ?_, fun p => ?_⟩
    · rw [hsame.reservations p, h.reservations p, waiting_of_jobs hjobs]
    · rw [hsame.isLocked p, h.isLocked p]
  | some id =>
    have hothers : ∀ id', id' ≠ id → (d.step i).job? id' = d.job? id' := fun id' hne =>
      job_of_other hs (by rw [hid]; exact fun heq => hne (Option.some.inj heq).symm)
    have hshared := (h.shared id).handling (handling_step hs hid)
    refine @Shared.balanced (d.step i) o id ?_
    simpa only [waitingBut_of_others hothers] using hshared

/-- A change from outside keeps the balance if the others account for it. -/
theorem Balanced.outside {o' : Others} {f : Store → Store} (h : Balanced o d)
    (hr : ∀ p, (f d.site.store.base).reservations p + o.reserved p =
      d.site.store.base.reservations p + o'.reserved p)
    (hl : ∀ p, (f d.site.store.base).isLocked p = o'.locked p) :
    Balanced o' (d.step (Happening.outside f)) where
  reservations p := by
    have hbefore := h.reservations p
    have hchange := hr p
    change (f d.site.store.base).reservations p = o'.reserved p + d.waiting p
    omega
  isLocked p := hl p

/-- Everything fair keeps the balance. -/
theorem Balanced.happening (hs : d.Steady) (h : Balanced o d) (hx : x.Fair o d.site.store) :
    Balanced (o.after d.site.store.base x) (d.step x.input) := by
  cases x with
  | step i => exact h.step hs hx
  | reserve p =>
    refine h.outside (fun q => ?_) fun q => ?_
    · cases hok : (d.site.store.base.reserve p).2 with
      | false => simp [Store.reserve_refused _ _ hok, Others.after, hok]
      | true =>
        simp only [Store.reservations_reserve _ _ _ hok, Others.after, hok, and_true]
        omega
    · rw [Store.isLocked_reserve]
      exact h.isLocked q
  | release p =>
    -- What the others give back they hold, so the store has counted it.
    have hheld : 0 < o.reserved p := hx
    refine h.outside (fun q => ?_) fun q => ?_
    · have hcount := h.reservations q
      simp only [Store.reservations_release, Others.after]
      by_cases hq : q = p
      · subst hq
        simp only [if_true]
        omega
      · simp only [hq, if_false]
        omega
    · rw [Store.isLocked_release]
      exact h.isLocked q
  | lock p =>
    refine h.outside (fun q => ?_) fun q => ?_
    · rw [Store.reservations_tryLock]
      rfl
    · cases hok : (d.site.store.base.tryLock p).2 with
      | false => simp [Store.tryLock_refused _ _ hok, Others.after, hok, h.isLocked q]
      | true => simp [Store.isLocked_tryLock, Others.after, hok, h.isLocked q]
  | unlock p =>
    refine h.outside (fun q => ?_) fun q => ?_
    · rw [Store.reservations_unlock]
      rfl
    · rw [Store.isLocked_unlock, h.isLocked q]
      rfl

theorem Balanced.run (hs : d.Steady) (h : Balanced o d) {steps : List Happening}
    (hf : o.AllFair d steps) :
    Balanced (o.along d steps) (d.run (steps.map Happening.input)) := by
  induction steps generalizing o d with
  | nil => exact h
  | cons x steps ih => exact ih (steady_step hs x.input) (h.happening hs hf.1) hf.2

/-- What one step is to the jobs: whoever is at work comes from the hold it had to the hold that it
    has then, taking and giving back, and nobody else's changes; if nobody is, then reservations and
    locks stay, unless the store is changed from outside. -/
structure Keeps (d : Demander) (i : Input) : Prop where
  work : ∀ id, (d.actor i).id? = some id →
    Handling (d.holding (d.holdOf id)) ((d.step i).holding ((d.step i).holdOf id))
  others : ∀ id, (d.actor i).id? ≠ some id → (d.step i).holdOf id = d.holdOf id
  idle : (d.actor i).id? = none → (∀ f, i ≠ .site (.store f)) →
    SamePins d.site.store.base (d.step i).site.store.base

end Demander
end Rebalance
