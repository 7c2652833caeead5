/-
  Rebalance.Proofs.Dependants

  Demanders that wait for others.  Whatever goes on in a cluster comes, for each
  of its demanders, to a run of that demander (`Goes.grown`).  So what is known
  of the first round of a demander is known of it in any cluster, and a
  demander that waits for this round is told that it may begin when the round
  is over, or that it may not when it was stopped itself.
-/
import Mathlib.Logic.Relation
import Rebalance.Proofs.FirstRound
import Rebalance.Proofs.StopState

namespace Rebalance

-- ============================================================================
-- A demander comes into being
-- ============================================================================

namespace Demander

/-- A demander comes into being with settings. -/
def Born (settings : Settings) (d : Demander) : Prop :=
  ∃ (σ : Type) (site : Site) (register : Topic → σ → Except Fault σ) (s t : σ),
    create settings site register s = (t, .ok d)

theorem Born.stopping {settings : Settings} {d : Demander} (h : d.Born settings) :
    d.stopping = false := by
  obtain ⟨σ, site, register, s, t, h⟩ := h
  obtain ⟨-, topics, rfl | rfl⟩ := create_cases h
  · rfl
  · exact (beside_changeRound _ 0 .complete).stopping

end Demander

-- ============================================================================
-- What a demander waits for
-- ============================================================================

namespace Startup

variable {ρ : Type}

/-- Where there is something to wait for, the first round may begin if all of it is done and the
    demander is not stopping, and may not if it is stopping. -/
theorem outcome_iff {w : Startup ρ} (h : w.rounds ≠ []) (stopping : Bool) (done : ρ → Bool) :
    (w.outcome stopping done = some true ↔ stopping = false ∧ ∀ r ∈ w.rounds, done r = true) ∧
      (w.outcome stopping done = some false ↔ stopping = true) := by
  have hempty : w.rounds.isEmpty = false := by
    rwa [← Bool.not_eq_true, List.isEmpty_iff]
  unfold outcome
  rw [hempty, if_neg Bool.false_ne_true]
  cases stopping with
  | true => simp
  | false =>
    cases hall : w.rounds.all done with
    | true => simpa using hall
    | false => simpa using hall

/-- A demander waits for the system dataset, and for the datasets before it if it has a place in
    the order. -/
theorem mem_ofDependencies {settings : Settings} {system ordered : Option ρ} {r : ρ} :
    r ∈ (ofDependencies settings system ordered).rounds ↔
      system = some r ∨ ordered = some r ∧ 0 < settings.order.toNat := by
  unfold ofDependencies
  by_cases ho : 0 < settings.order.toNat
  · simp [ho]
  · simp [ho]

end Startup

-- ============================================================================
-- What goes on in a cluster
-- ============================================================================

namespace Cluster

open Demander (Input)

/-- One thing that goes on in a cluster. -/
inductive Goes (c : Cluster) : Cluster → Prop where
  /-- The cluster makes a move. -/
  | moves {c' : Cluster} (m : Move) (h : c.move m = some c') : Goes c c'
  /-- Something happens to a demander from outside. -/
  | happens (index : Nat) (i : Input) : Goes c (c.step index i)
  /-- A call on a demander begins. -/
  | calls (number index : Nat) (i : Input) : Goes c (c.call number index i)
  /-- A demander is given a plan for partitions of nodes. -/
  | plans (number index : Nat) (topology : Topology) (demands : List (NodeId × List PartitionId))
      (force : Bool) : Goes c (c.plan number index topology demands force)
  /-- A demander gets to know of the latest exchange. -/
  | remembers (index : Nat) : Goes c (c.remember index)
  /-- A demander begins to wait for others. -/
  | waits (number index : Nat) (system ordered : Option Nat) :
      Goes c (c.start number index system ordered)
  /-- A demander comes into being, if it is let. -/
  | joins (node : NodeId) (settings : Settings) (owned : List PartitionId) (clock : Instant) :
      Goes c (c.addDemander node settings owned clock).1
  /-- A supplier comes into being, if it is let. -/
  | supplies (s : Supplier) : Goes c (c.addSupplier s).1
  /-- Something else goes on: on the network, at a supplier, or in the list of tasks. -/
  | elsewhere {c' : Cluster} (h : c'.demanders = c.demanders) : Goes c c'

/-- The demanders that there were are still there, each after a run of its own. -/
def Grown (c c' : Cluster) : Prop :=
  ∀ (k : Nat) (d : Demander), c.demanders[k]? = some d →
    ∃ inputs, c'.demanders[k]? = some (d.run inputs)

section Grown

variable {c c' c'' : Cluster} {index : Nat} {i : Input}

theorem Grown.of_same (h : c'.demanders = c.demanders) : Grown c c' :=
  fun k d hk => ⟨[], by rw [h]; exact hk⟩

theorem Grown.trans (h : Grown c c') (h' : Grown c' c'') : Grown c c'' := by
  intro k d hk
  obtain ⟨inputs, hk⟩ := h k d hk
  obtain ⟨more, hk⟩ := h' k _ hk
  refine ⟨inputs ++ more, ?_⟩
  rw [hk]
  exact congrArg some List.foldl_append.symm

/-- What happens to one demander leaves the others alone. -/
theorem demanders_step (c : Cluster) (index : Nat) (i : Input) :
    (c.step index i).demanders = c.demanders.modify index fun d => d.step i := by
  unfold step
  split
  · next hnone => rw [List.modify_eq_self (List.getElem?_eq_none_iff.mp hnone)]
  · next d hd =>
    unfold setDemander
    rw [hd]
    change c.demanders.set index (d.step i) = _
    rw [List.modify_eq_set_getElem?, hd]
    rfl

theorem Grown.step (c : Cluster) (index : Nat) (i : Input) : Grown c (c.step index i) := by
  intro k d hk
  rw [demanders_step, List.getElem?_modify, hk]
  by_cases hi : index = k
  · exact ⟨[i], by simp [hi, Demander.run]⟩
  · exact ⟨[], by simp [hi, Demander.run]⟩

theorem Grown.call (c : Cluster) (number index : Nat) (i : Input) :
    Grown c (c.call number index i) := by
  unfold Cluster.call
  split
  · exact .of_same rfl
  · next d hd =>
    have hnoted : Grown c { c with tasks := c.tasks.insert number (.call index d.nextJob) } :=
      .of_same rfl
    exact hnoted.trans (.step _ index i)

theorem Grown.exchange {topology : Topology} {e : Exchange}
    (h : c.exchange index topology = some (c', e)) : Grown c c' := by
  obtain ⟨d, -, he⟩ := Option.map_eq_some_iff.mp h
  cases he
  exact .step c index _

theorem Grown.hear (c : Cluster) (i : RouteId) (l : ClusterListener) (e : Envelope) :
    Grown c (c.hear i l e) := by
  unfold Cluster.hear
  split
  · split
    · exact .of_same rfl
    · exact Grown.trans (.step c _ _) (.of_same rfl)
  · exact .step c _ _
  · exact .of_same rfl
  · exact .of_same rfl

theorem demanders_supply (c : Cluster) (i : RouteId) (index : Nat) (s : Supplier) (sender : NodeId)
    (q : Demand) : (c.supply i index s sender q).demanders = c.demanders := by
  unfold supply
  simp only
  split <;> rfl

theorem Grown.listen {i : RouteId} (h : c.listen i = some c') : Grown c c' := by
  have hnext : ∀ l, ((c.network.take i).map fun x =>
      ({ c with network := x.2 } : Cluster).hear i l x.1) = some c' → Grown c c' := by
    intro l hl
    obtain ⟨x, -, rfl⟩ := Option.map_eq_some_iff.mp hl
    have htaken : Grown c { c with network := x.2 } := .of_same rfl
    exact htaken.trans (.hear _ i l x.1)
  unfold Cluster.listen at h
  simp only at h
  split at h
  · cases h
  · split at h
    · cases h
    · split at h
      · cases h
        exact .of_same rfl
      · cases h
  · split at h
    · cases h
    · split at h
      · cases h
      · cases h
        exact .of_same (demanders_supply _ _ _ _ _ _)
  · obtain ⟨_, -, rfl⟩ := Option.map_eq_some_iff.mp h
    exact .of_same rfl
  · exact hnext _ h

theorem Grown.move {m : Move} (h : c.move m = some c') : Grown c c' := by
  cases m with
  | submit index job =>
    change c.submit index job = some c' at h
    unfold submit at h
    split at h
    · cases h
    · split at h
      · cases h
      · obtain ⟨q, -, rfl⟩ := Option.map_eq_some_iff.mp h
        exact .of_same rfl
  | report id =>
    change c.report id = some c' at h
    unfold report at h
    split at h
    · cases h
    · next t _ =>
      obtain ⟨r, -, rfl⟩ := Option.map_eq_some_iff.mp h
      have hgone : Grown c { c with transfers := c.transfers.filter fun x => x.2.2 != id } :=
        .of_same rfl
      exact hgone.trans (.step _ t.1 _)
  | resume index job =>
    change c.resume index job = some c' at h
    unfold resume at h
    split at h
    · cases h
    · split at h
      · cases h
        exact .step c index _
      · cases h
  | listen i => exact .listen h

/-- Whoever registers topics leaves the demanders alone. -/
theorem demanders_registerAll {register : Topic → Cluster → Except Fault Cluster}
    (hr : ∀ t c c', register t c = .ok c' → c'.demanders = c.demanders) (ts : List Topic)
    (c : Cluster) : (Demander.registerAll register ts c).1.demanders = c.demanders := by
  induction ts generalizing c with
  | nil => rfl
  | cons t ts ih =>
    unfold Demander.registerAll
    split
    · rfl
    · next c' hc => exact (ih c').trans (hr t c c' hc)

theorem demanders_listenOn {node : NodeId} {t : Topic} {l : ClusterListener}
    (h : c.listenOn node t l = .ok c') : c'.demanders = c.demanders := by
  unfold listenOn at h
  split at h
  · cases h
  · cases h
    rfl

theorem Grown.addSupplier (c : Cluster) (s : Supplier) : Grown c (c.addSupplier s).1 :=
  .of_same (demanders_registerAll (fun _ _ _ h => demanders_listenOn h) _
    { c with suppliers := c.suppliers ++ [s] })

theorem demanders_create (settings : Settings) (site : Site)
    {register : Topic → Cluster → Except Fault Cluster}
    (hr : ∀ t c c', register t c = .ok c' → c'.demanders = c.demanders) (c : Cluster) :
    (Demander.create settings site register c).1.demanders = c.demanders := by
  have hall := demanders_registerAll hr
    (({ settings, site, schedule := { delay := settings.delay } } : Demander).pool.topics .demand) c
  unfold Demander.create
  split
  · rfl
  · split
    · simp only
      split <;> next heq => rw [heq] at hall; exact hall
    · rfl

theorem Grown.addDemander (c : Cluster) (node : NodeId) (settings : Settings)
    (owned : List PartitionId) (clock : Instant) :
    Grown c (c.addDemander node settings owned clock).1 := by
  have hsame : ∀ {site : Site} {after : Cluster} {r : Except Fault Demander},
      Demander.create settings site (fun t (c' : Cluster) =>
        c'.listenOn node t (.demander c.demanders.length t.worker none)) c = (after, r) →
      after.demanders = c.demanders := by
    intro site after r h
    rw [← demanders_create settings site (fun _ _ _ h => demanders_listenOn h) c, h]
  unfold Cluster.addDemander
  simp only
  split
  · next heq =>
    have hold := hsame heq
    exact .of_same hold
  · next after d heq =>
    have hold := hsame heq
    intro k e hk
    refine ⟨[], ?_⟩
    change (after.demanders ++ [d])[k]? = some e
    rw [hold, List.getElem?_append_left (List.getElem?_eq_some_iff.mp hk).1]
    exact hk

/-- Whatever goes on, each demander takes part in it by what happens to it. -/
theorem Goes.grown (h : Goes c c') : Grown c c' := by
  cases h with
  | moves m h => exact .move h
  | happens index i => exact .step c index i
  | calls number index i => exact .call c number index i
  | plans number index topology demands force =>
    unfold Cluster.plan
    split
    · exact .of_same rfl
    · next heq => exact (Grown.exchange heq).trans (.call _ number index _)
  | remembers index =>
    unfold Cluster.remember
    split
    · exact .of_same rfl
    · next heq => exact (Grown.exchange heq).trans (.step _ index _)
  | waits number index system ordered =>
    unfold Cluster.start
    split <;> exact .of_same rfl
  | joins node settings owned clock => exact .addDemander c node settings owned clock
  | supplies s => exact .addSupplier c s
  | elsewhere h => exact .of_same h

theorem grown_of_goes (h : Relation.ReflTransGen Goes c c') : Grown c c' := by
  induction h with
  | refl => exact .of_same rfl
  | tail _ h ih => exact ih.trans h.grown

end Grown

-- ============================================================================
-- Waiting for the first round of another
-- ============================================================================

/-- The round that another demander has now, as something to wait for. -/
def roundRef (c : Cluster) (other : Nat) : Option RoundRef :=
  c.demanders[other]?.map fun d => (other, d.current)

/-- A demander begins to wait for the rounds that the others have now. -/
theorem get?_start {c : Cluster} {k : Nat} {d : Demander} (hk : c.demanders[k]? = some d)
    (number : Nat) (system ordered : Option Nat) :
    (c.start number k system ordered).tasks.get? number = some (.start k
      (.ofDependencies d.settings (system.bind c.roundRef) (ordered.bind c.roundRef))) := by
  unfold Cluster.start
  rw [hk]
  exact SortedMap.get?_insert_self

/-- What a demander that waits is told is decided by what it waits for and whether it stops. -/
theorem result?_start {c : Cluster} {k : Nat} {d : Demander} (hk : c.demanders[k]? = some d)
    {w : Startup RoundRef} (hw : w.rounds ≠ []) :
    (c.result? (.start k w) = some (.inr true) ↔ d.stopping = false ∧ ∀ r ∈ w.rounds,
        (c.demanders[r.1]?.any fun d => (d.roundOf r.2).round.isDone) = true) ∧
      (c.result? (.start k w) = some (.inr false) ↔ d.stopping = true) := by
  obtain ⟨htrue, hfalse⟩ := Startup.outcome_iff hw d.stopping fun r =>
    c.demanders[r.1]?.any fun d => (d.roundOf r.2).round.isDone
  rw [result?, hk, Option.bind_some, ← htrue, ← hfalse]
  simp only [Option.map_eq_some_iff, Sum.inr.injEq, exists_eq_right, and_self]

/-- Take a demander that takes part from its beginning.  The round that is there from the start is
    neither bound nor over until a plan is processed; only a call that accepts its plan gets the
    first one processed, and this plan takes the round, which no later plan does, and which is over
    once nothing is awaited for the plan any more.  Let another demander wait for this round, as that
    of the system dataset or, if it has a place in the order, of a dataset before it.  Whatever goes
    on in the cluster, it is told that it may begin only when the round is over, so that a first plan
    was processed, and that it may not only if it was stopped itself.  Without a place in the order
    it is told that it may begin as soon as that one round is over, unless it is stopping. -/
theorem dependants_wait_for_first_round {settings : Settings} {first : Demander}
    (hfirst : first.Born settings) (ha : settings.isActive = true) :
    (∀ inputs, first.InitialRound inputs) ∧
      ∀ {settings' : Settings} {second : Demander} {c c' : Cluster} {j k : Nat}
        {past past' : List Input} {system ordered : Option RoundRef},
        second.Born settings' → c.demanders[j]? = some (first.run past) →
        c.demanders[k]? = some (second.run past') →
        (system = some (j, 0) ∨ ordered = some (j, 0) ∧ 0 < settings'.order.toNat) →
        Relation.ReflTransGen Goes c c' →
        let told := c'.result? (.start k (.ofDependencies settings' system ordered))
        ∃ more more', c'.demanders[j]? = some (first.run (past ++ more)) ∧
          c'.demanders[k]? = some (second.run (past' ++ more')) ∧
          (told = some (.inr true) → first.uses (past ++ more) ≠ [] ∧
            ((first.run (past ++ more)).roundOf 0).round.isDone = true) ∧
          (told = some (.inr false) → .stop ∈ past' ++ more') ∧
          (settings'.order = 0 → (told = some (.inr true) ↔
            (second.run (past' ++ more')).stopping = false ∧
              ((first.run (past ++ more)).roundOf 0).round.isDone = true)) := by
  have hunused : first.Unused := by
    obtain ⟨σ, site, register, s, t, h⟩ := hfirst
    exact Demander.unused_create h ha
  refine ⟨hunused.initialRound, ?_⟩
  intro settings' second c c' j k past past' system ordered hsecond hj hk hdep hgoes told
  have hgrown := grown_of_goes hgoes
  obtain ⟨more, hj'⟩ := hgrown j _ hj
  obtain ⟨more', hk'⟩ := hgrown k _ hk
  have hrun : ∀ (d : Demander) (a b : List Input), (d.run a).run b = d.run (a ++ b) :=
    fun d a b => List.foldl_append.symm
  rw [hrun] at hj' hk'
  have hmem : (j, 0) ∈ (Startup.ofDependencies settings' system ordered).rounds :=
    Startup.mem_ofDependencies.mpr hdep
  obtain ⟨htrue, hfalse⟩ := result?_start hk' (List.ne_nil_of_mem hmem)
  have hdone : (∀ r ∈ (Startup.ofDependencies settings' system ordered).rounds,
        (c'.demanders[r.1]?.any fun d => (d.roundOf r.2).round.isDone) = true) →
      ((first.run (past ++ more)).roundOf 0).round.isDone = true := by
    intro hall
    have hone := hall _ hmem
    rw [hj'] at hone
    exact hone
  refine ⟨more, more', hj', hk', fun h => ?_, fun h => ?_, fun horder => ?_⟩
  · have hover := hdone (htrue.mp h).2
    refine ⟨fun hnone => ?_, hover⟩
    rw [(hunused.run hnone).not_done] at hover
    cases hover
  · exact Demander.stop_mem_of_stopping hsecond.stopping (hfalse.mp h)
  · refine htrue.trans (and_congr_right fun _ => ⟨hdone, fun hover r hr => ?_⟩)
    -- Without a place in the order nothing but the first round is waited for.
    have hfirst : r = (j, 0) := by
      have hzero : ¬ 0 < settings'.order.toNat := by simp [horder]
      have hsystem := (Startup.mem_ofDependencies.mp hr).resolve_right fun h => hzero h.2
      have hother := hdep.resolve_right fun h => hzero h.2
      exact Option.some.inj (hsystem.symm.trans hother)
    rw [hfirst, hj']
    exact hover

/-- A demander of a dataset that comes after another one. -/
def successor : Demander :=
  Demander.newborn { dataset := 2, poolSize := 1, order := 1 } 2 ⟨1, 0⟩ ⟨{}, ∅, ∅, ∅⟩ [3]

/-- Two datasets on a node, of which the second waits for the first. -/
def twoDatasets : Cluster :=
  ({ topology := ⟨1, 0⟩, demanders := [Demander.solo 3, successor] } : Cluster).start 7 1 none (some 0)

/-- The first dataset is given a plan. -/
def twoWaiting : Cluster := twoDatasets.step 0 (.add (Demander.planFor ⟨1, 0⟩ [(5, [3])]) true)

/-- The second dataset may begin when the supplier of the first one has left, and not if it is
    stopped before. -/
theorem ordered_dataset_waits :
    let task : ClusterTask := .start 1 (.ofDependencies successor.settings none (some (0, 0)))
    let gone := twoWaiting.step 0 (.nodeLeft 5)
    let stopped := twoWaiting.step 1 .stop
    (Demander.solo 3).Born { poolSize := 1 } ∧ successor.Born successor.settings ∧
      twoDatasets.tasks.get? 7 = some task ∧ twoWaiting.result? task = none ∧
      gone.result? task = some (.inr true) ∧ stopped.result? task = some (.inr false) ∧
      (∃ more, gone.demanders[0]? = some ((Demander.solo 3).run more) ∧
        (Demander.solo 3).uses more ≠ [] ∧
        (((Demander.solo 3).run more).roundOf 0).round.isDone = true) ∧
      ∃ more, stopped.demanders[1]? = some (successor.run more) ∧ .stop ∈ more := by
  intro task gone stopped
  have hfirst : (Demander.solo 3).Born { poolSize := 1 } :=
    ⟨Unit, _, _, (), (), Demander.create_newborn rfl rfl 2 ⟨1, 0⟩ _ [3]⟩
  have hsecond : successor.Born successor.settings :=
    ⟨Unit, _, _, (), (), Demander.create_newborn rfl rfl 2 ⟨1, 0⟩ _ [3]⟩
  have hwaits : twoDatasets.tasks.get? 7 = some task := get?_start rfl 7 none (some 0)
  have htrue : gone.result? task = some (.inr true) := by decide +kernel
  have hfalse : stopped.result? task = some (.inr false) := by decide +kernel
  have hbegun : Relation.ReflTransGen Goes twoDatasets twoWaiting := .single (.happens 0 _)
  obtain ⟨-, hall⟩ := dependants_wait_for_first_round hfirst rfl
  obtain ⟨more, _, hj, -, hover, -, -⟩ := hall (j := 0) (k := 1) hsecond
    (show twoDatasets.demanders[0]? = some ((Demander.solo 3).run []) from rfl)
    (show twoDatasets.demanders[1]? = some (successor.run []) from rfl) (.inr ⟨rfl, by decide⟩)
    (hbegun.tail (.happens 0 (.nodeLeft 5)))
  obtain ⟨_, more, -, hk, -, hstop, -⟩ := hall (j := 0) (k := 1) hsecond
    (show twoDatasets.demanders[0]? = some ((Demander.solo 3).run []) from rfl)
    (show twoDatasets.demanders[1]? = some (successor.run []) from rfl) (.inr ⟨rfl, by decide⟩)
    (hbegun.tail (.happens 1 .stop))
  exact ⟨hfirst, hsecond, hwaits, by decide +kernel, htrue, hfalse, ⟨_, hj, hover htrue⟩,
    _, hk, hstop hfalse⟩

end Cluster

end Rebalance
