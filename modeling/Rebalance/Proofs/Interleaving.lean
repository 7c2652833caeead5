/-
  Rebalance.Proofs.Interleaving

  A round that several workers drain at once. Whatever order their marks come
  in, a partition stays awaited until its own worker drains it, so no miss
  comes after the last drain: the round ends with that one, and its summary and
  the exchange it forces depend on the marks alone. An interleaving of the
  workers is the work of one of them (`Workload.interleaved`), so a single
  sequence is all that the lemmas after it are about.
-/
import Rebalance.Proofs.History
import Rebalance.Proofs.Preloads

namespace Rebalance
namespace Round

open Schedule (joined)

-- ============================================================================
-- Interleavings
-- ============================================================================

section Interleaves

variable {α : Type} {ws : List (List α)} {xs : List α}

/-- An order in which several sequences can be worked off, each in its own order. -/
inductive Interleaves : List (List α) → List α → Prop
  | done {ws : List (List α)} (h : ∀ w ∈ ws, w = []) : Interleaves ws []
  | next (before : List (List α)) {after : List (List α)} {w : List α} {x : α} {xs : List α}
      (h : Interleaves (before ++ w :: after) xs) :
      Interleaves (before ++ (x :: w) :: after) (x :: xs)

namespace Interleaves

theorem mem_iff (h : Interleaves ws xs) {y : α} : y ∈ xs ↔ ∃ w ∈ ws, y ∈ w := by
  induction h with
  | done h =>
    refine ⟨fun hy => absurd hy List.not_mem_nil, ?_⟩
    rintro ⟨w, hw, hy⟩
    rw [h w hw] at hy
    exact absurd hy List.not_mem_nil
  | next _ h ih =>
    simp only [List.mem_cons, ih, List.mem_append, or_and_right, exists_or, exists_eq_left]
    rw [or_left_comm, or_assoc]

/-- What holds of any two marks of one sequence, the earlier one first, and of any two marks of
    two sequences either way, holds of the interleaving. -/
theorem pairwise {R : α → α → Prop} (h : Interleaves ws xs) (hown : ∀ w ∈ ws, w.Pairwise R)
    (hapart : ws.Pairwise fun w v => ∀ x ∈ w, ∀ y ∈ v, R x y ∧ R y x) : xs.Pairwise R := by
  induction h with
  | done h => exact List.Pairwise.nil
  | @next before after w x xs h ih =>
    have hsymm : ∀ {v u : List α}, (∀ x ∈ v, ∀ y ∈ u, R x y ∧ R y x) →
        ∀ x ∈ u, ∀ y ∈ v, R x y ∧ R y x := fun hvu x hx y hy => (hvu y hy x hx).symm
    rw [List.pairwise_middle hsymm, List.pairwise_cons] at hapart
    obtain ⟨hothers, hrest⟩ := hapart
    obtain ⟨hfirst, hw⟩ := List.pairwise_cons.mp (hown (x :: w) (by simp))
    refine List.pairwise_cons.mpr ⟨fun y hy => ?_, ih (fun v hv => ?_) ?_⟩
    · -- What is still to come is of the same worker, or of another one.
      obtain ⟨v, hv, hyv⟩ := h.mem_iff.mp hy
      rcases List.mem_cons.mp (List.perm_middle.mem_iff.mp hv) with rfl | hv
      · exact hfirst y hyv
      · exact (hothers v hv x List.mem_cons_self y hyv).1
    · rcases List.mem_cons.mp (List.perm_middle.mem_iff.mp hv) with rfl | hv
      · exact hw
      · exact hown v (List.perm_middle.mem_iff.mpr (List.mem_cons_of_mem _ hv))
    · rw [List.pairwise_middle hsymm, List.pairwise_cons]
      exact ⟨fun v hv y hy => hothers v hv y (List.mem_cons_of_mem _ hy), hrest⟩

end Interleaves

end Interleaves

-- ============================================================================
-- The change that ends a round
-- ============================================================================

section Closing

variable {τ : Type} (reaction : List (Call τ)) {r : Round (Continuation τ)} {cs pre : List Change}
  {c : Change} {s : Summary}

/-- Nothing is forced on a round that has closed. -/
theorem forcedOf_run_shut (h : r.Shut) (stack : List (Work τ)) :
    forcedOf (run reaction r stack).2 = [] := by
  induction r, stack using work_induction reaction with
  | nil r =>
    rw [run]
    rfl
  | cons r w rest ih =>
    have hnow : forcedOf (work reaction r w).2 = [] := by
      cases w with
      | announce s => rfl
      | run k =>
        rw [work]
        split <;> rfl
      | call c =>
        cases c with
        | probe => rfl
        | onDone tag body =>
          rw [work]
          split <;> rfl
        | change c =>
          simp only [work, (h.change c).1]
          rfl
    rw [run_cons, forcedOf_append, hnow, ih (h.work w)]
    rfl

/-- The change that closes a round forces the exchange that its summary asks for, and nothing else
    is forced. -/
theorem forcedOf_run_closing (hs : (r.change c).2 = some s) (stack : List (Work τ)) :
    forcedOf (run reaction r (.call (.change c) :: stack)).2 =
      ((r.change c).1.forced s).toList := by
  have hlater := forcedOf_run_shut reaction (shut_of_change hs)
  rw [run_cons, forcedOf_append]
  cases he : (r.change c).1.forced s with
  | none => simp only [work, hs, he, hlater]; rfl
  | some e => simp only [work, hs, he, hlater]; rfl

/-- What comes of a fresh round by changes made one after another. -/
def runChanges (cs : List Change) : Round (Continuation τ) × List (Note τ) :=
  run reaction {} (calls (cs.map Call.change))

theorem runChanges_append (pre post : List Change) : runChanges reaction (pre ++ post) =
    ((run reaction (runChanges reaction pre).1 (calls (post.map Call.change))).1,
      (runChanges reaction pre).2 ++
        (run reaction (runChanges reaction pre).1 (calls (post.map Call.change))).2) := by
  rw [runChanges, List.map_append, calls, List.map_append, run_append]
  rfl

theorem exists_first_completion (h : Completed cs) :
    ∃ pre c post, cs = pre ++ c :: post ∧ ¬ Completed pre ∧ Completes pre c := by
  cases told ([] : List (Call Unit)) cs with
  | going _ _ hn => exact absurd h hn
  | ended s _ _ pre c post hcs hn hcomp _ => exact ⟨pre, c, post, hcs, hn, hcomp⟩

/-- A round that nothing has completed is open, and nothing was forced. -/
theorem open_of_not_completed (hn : ¬ Completed cs) :
    Agrees (runChanges reaction cs).1 cs ∧ (runChanges reaction cs).1.summary = none ∧
      forcedOf (runChanges reaction cs).2 = [] := by
  cases told reaction cs with
  | ended s _ _ pre c post hcs _ hcomp _ => exact absurd ⟨pre, c, post, hcs, hcomp⟩ hn
  | going hagrees hv _ =>
    refine ⟨hagrees, hv, ?_⟩
    cases phase (reaches_run reaction {} (calls (cs.map Call.change))) with
    | pending _ _ _ _ _ hf => exact hf
    | closing s e _ _ pre post ha => cases pre <;> cases ha
    | ended s e _ hs =>
      rw [hv] at hs
      cases hs

/-- As long as nothing completes a round, it is bound to what it was attached to. -/
theorem exchange_open {e : Exchange} (hcs : ∀ c ∈ cs, ∀ e, c ≠ .attach e)
    (hn : ¬ Completed (.attach e :: cs)) :
    (runChanges reaction (.attach e :: cs)).1.exchange = some e := by
  induction cs using List.reverseRecOn with
  | nil => exact congrArg Round.exchange (run_change_of_none reaction (c := .attach e) rfl)
  | append_singleton cs c ih =>
    rw [← List.cons_append, completed_snoc, not_or] at hn
    obtain ⟨hagrees, hv, -⟩ := open_of_not_completed reaction hn.1
    rcases hagrees.change hv c with ⟨hnone, -⟩ | ⟨s, -, hcomp, -⟩
    · rw [← List.cons_append, runChanges_append]
      refine (congrArg Round.exchange (run_change_of_none reaction hnone)).trans ?_
      rw [exchange_change _ (hcs c (List.mem_append_right _ (List.mem_singleton_self c)))]
      exact ih (fun d hd => hcs d (List.mem_append_left _ hd)) hn.1
    · exact absurd hcomp hn.2

/-- What the first change that completes a round makes of it, whatever comes after. -/
theorem run_closing (post : List Change) (hn : ¬ Completed pre) (hcomp : Completes pre c) :
    ∃ s, Tells s (pre ++ [c]) ∧ (runChanges reaction (pre ++ c :: post)).1.summary = some s ∧
      forcedOf (runChanges reaction (pre ++ c :: post)).2 =
        if s.missed.isEmpty then [] else (runChanges reaction pre).1.exchange.toList := by
  obtain ⟨hagrees, hv, hquiet⟩ := open_of_not_completed reaction hn
  obtain ⟨s, hs, -, ht⟩ := (hagrees.change hv c).resolve_left fun h => h.2.2 hcomp
  refine ⟨s, ht, ?_, ?_⟩
  · have hnow := (run_change_of_some reaction hv hs).2
    rw [List.append_cons, runChanges_append, runChanges_append]
    exact (reaches_run reaction _ _).keeps (P := fun r => r.summary = some s)
      (fun _ w h => summary_work h w) hnow
  · have hexchange := exchange_change (runChanges reaction pre).1 (c := c) fun e he => by
      rw [he] at hcomp
      exact hcomp.1
    rw [runChanges_append, forcedOf_append, hquiet, List.nil_append, List.map_cons, calls,
      List.map_cons, forcedOf_run_closing reaction hs, forced, hexchange]
    split <;> rfl

end Closing

-- ============================================================================
-- The work of a round
-- ============================================================================

/-- What a worker says about a partition of a node: that the node could not supply it, or that
    nothing more of it is awaited. -/
structure Mark where
  node : NodeId
  partition : PartitionId
  missed : Bool
deriving DecidableEq

namespace Mark

variable {m k : Mark} {n : NodeId} {p : PartitionId}

/-- The call that says so. -/
def change (m : Mark) : Change :=
  if m.missed then .miss m.node m.partition else .drain m.node m.partition

/-- Both are about the same partition of the same node. -/
def Alike (m k : Mark) : Prop := m.node = k.node ∧ m.partition = k.partition

@[simp] theorem asks_change : m.change.asks n p ↔ False := by
  unfold change
  split <;> rfl

@[simp] theorem ends_change : m.change.ends n p ↔ m = ⟨n, p, false⟩ := by
  obtain ⟨n', p', missed⟩ := m
  cases missed <;> simp [change, Change.ends]

@[simp] theorem misses_change : m.change.misses n p ↔ m = ⟨n, p, true⟩ := by
  obtain ⟨n', p', missed⟩ := m
  cases missed <;> simp [change, Change.misses]

@[simp] theorem renews_change : m.change.renews n ↔ False := by
  unfold change
  split <;> rfl

@[simp] theorem mayClose_change : m.change.mayClose ↔ m.missed = false := by
  unfold change
  split <;> simp [Change.mayClose, *]

theorem change_ne_cancel : m.change ≠ .cancel n := by
  unfold change
  split <;> simp

theorem change_ne_attach {e : Exchange} : m.change ≠ .attach e := by
  unfold change
  split <;> simp

end Mark

/-- What each node of a round is asked for. -/
abbrev Assignment := List (NodeId × SortedSet PartitionId)

variable {τ : Type} {assigned : Assignment} {ws : List (List Mark)} {ms : List Mark} {n : NodeId}
  {p : PartitionId} {e : Exchange}

/-- The partition is one of those that the node is asked for. -/
def Registered (assigned : Assignment) (n : NodeId) (p : PartitionId) : Prop :=
  ∃ x ∈ assigned, x.1 = n ∧ p ∈ x.2

instance (assigned : Assignment) (n : NodeId) (p : PartitionId) :
    Decidable (Registered assigned n p) := List.decidableBEx _ _

instance (m k : Mark) : Decidable (m.Alike k) := inferInstanceAs (Decidable (_ ∧ _))

/-- What the workers of a round do: between them they drain everything that was asked for, and no
    partition is reported missing once it was drained. -/
structure Workload (assigned : Assignment) (ws : List (List Mark)) : Prop where
  /-- A node is asked once, and for something. -/
  once : (assigned.map Prod.fst).Nodup
  asked : ∀ x ∈ assigned, x.2 ≠ ∅
  /-- Only what was asked for is marked, -/
  registered : ∀ w ∈ ws, ∀ m ∈ w, Registered assigned m.node m.partition
  /-- by one worker only, -/
  apart : ws.Pairwise fun w v => ∀ m ∈ w, ∀ k ∈ v, ¬ m.Alike k
  /-- and all of it is drained by someone. -/
  drained : ∀ n p, Registered assigned n p → ∃ w ∈ ws, ⟨n, p, false⟩ ∈ w
  missedFirst : ∀ w ∈ ws, w.Pairwise fun m k => m.Alike k → m.missed = false → k.missed = false

/-- The partitions that some worker reports missing. -/
def missedBy (ws : List (List Mark)) : SortedSet PartitionId :=
  .ofList ((ws.flatten.filter (·.missed)).map (·.partition))

theorem mem_missedBy : p ∈ missedBy ws ↔ ∃ n, ∃ w ∈ ws, ⟨n, p, true⟩ ∈ w := by
  simp only [missedBy, SortedSet.mem_ofList, List.mem_map, List.mem_filter, List.mem_flatten]
  constructor
  · rintro ⟨⟨n, q, missed⟩, ⟨⟨w, hw, hm⟩, rfl⟩, rfl⟩
    exact ⟨n, w, hw, hm⟩
  · rintro ⟨n, w, hw, hm⟩
    exact ⟨⟨n, p, true⟩, ⟨⟨w, hw, hm⟩, rfl⟩, rfl⟩

/-- Whatever order the marks of several workers come in, one worker could have made them. -/
theorem Workload.interleaved (h : Workload assigned ws) (hms : Interleaves ws ms) :
    Workload assigned [ms] where
  once := h.once
  asked := h.asked
  registered := by
    intro w hw m hm
    rw [List.mem_singleton.mp hw] at hm
    obtain ⟨v, hv, hmv⟩ := hms.mem_iff.mp hm
    exact h.registered v hv m hmv
  apart := List.pairwise_singleton _ _
  drained n p hp := ⟨ms, List.mem_singleton_self ms, hms.mem_iff.mpr (h.drained n p hp)⟩
  missedFirst := by
    intro w hw
    rw [List.mem_singleton.mp hw]
    refine hms.pairwise h.missedFirst (h.apart.imp fun hap m hm k hk => ⟨fun hmk => ?_, ?_⟩)
    · exact absurd hmk (hap m hm k hk)
    · exact fun hkm => absurd ⟨hkm.1.symm, hkm.2.symm⟩ (hap m hm k hk)

theorem missedBy_interleaved (hms : Interleaves ws ms) : missedBy [ms] = missedBy ws := by
  refine SortedSet.ext fun p => ?_
  simp only [mem_missedBy, List.mem_singleton, exists_eq_left, hms.mem_iff]

-- ============================================================================
-- What its history says
-- ============================================================================

/-- The calls on a round, attached to an exchange and asking for something before it is worked
    on. -/
def worked (e : Exchange) (assigned : Assignment) (ms : List Mark) : List Change :=
  (.attach e :: assigned.map fun x => .append x.1 x.2) ++ ms.map Mark.change

theorem worked_snoc (e : Exchange) (assigned : Assignment) (ms : List Mark) (m : Mark) :
    worked e assigned (ms ++ [m]) = worked e assigned ms ++ [m.change] := by
  rw [worked, List.map_append, ← List.append_assoc]
  rfl

theorem mem_worked {c : Change} : c ∈ worked e assigned ms ↔
    c = .attach e ∨ (∃ x ∈ assigned, c = .append x.1 x.2) ∨ ∃ m ∈ ms, c = m.change := by
  simp only [worked, List.cons_append, List.mem_cons, List.mem_append, List.mem_map, eq_comm]

theorem mem_asked {c : Change} (h : c ∈ worked e assigned []) :
    c = .attach e ∨ ∃ x : NodeId × SortedSet PartitionId, c = .append x.1 x.2 := by
  rcases mem_worked.mp h with h | ⟨x, -, h⟩ | ⟨m, hm, -⟩
  · exact .inl h
  · exact .inr ⟨x, h⟩
  · exact absurd hm List.not_mem_nil

theorem awaited_asked (hn : (assigned.map Prod.fst).Nodup) (ha : ∀ x ∈ assigned, x.2 ≠ ∅) :
    Awaited n p (worked e assigned []) ↔ Registered assigned n p := by
  induction assigned using List.reverseRecOn with
  | nil =>
    rw [show worked e [] [] = [] ++ [.attach e] from rfl, awaited_snoc]
    simp [Change.asks, Awaited, not_since_nil, Registered]
  | append_singleton rest x ih =>
    rw [List.map_append, List.nodup_append] at hn
    have hsplit : worked e (rest ++ [x]) [] = worked e rest [] ++ [.append x.1 x.2] := by
      simp [worked]
    rw [hsplit, awaited_snoc, ih hn.1 fun y hy => ha y (List.mem_append_left _ hy)]
    have hx : x.2 ≠ ∅ := ha x (List.mem_append_right _ (List.mem_singleton_self x))
    constructor
    · rintro (⟨rfl, hp⟩ | ⟨⟨y, hmem, hy, hp⟩, -⟩)
      · exact ⟨x, List.mem_append_right _ (List.mem_singleton_self x), rfl, hp⟩
      · exact ⟨y, List.mem_append_left _ hmem, hy, hp⟩
    · rintro ⟨y, hmem, rfl, hp⟩
      rcases List.mem_append.mp hmem with hmem | hmem
      · -- Another node is asked last.
        refine .inr ⟨⟨y, hmem, rfl, hp⟩, fun hends => ?_⟩
        exact hn.2.2 y.1 (List.mem_map_of_mem hmem) x.1 (by simp) hends.1.symm
      · obtain rfl := List.mem_singleton.mp hmem
        exact .inl ⟨rfl, hp⟩

/-- A partition is awaited until it is drained. -/
theorem Workload.awaited_iff (h : Workload assigned ws) (ms : List Mark) :
    Awaited n p (worked e assigned ms) ↔ Registered assigned n p ∧ ⟨n, p, false⟩ ∉ ms := by
  induction ms using List.reverseRecOn with
  | nil => simpa using awaited_asked h.once h.asked
  | append_singleton ms m ih =>
    rw [worked_snoc, awaited_snoc, ih, Mark.asks_change, Mark.ends_change, false_or, and_assoc,
      List.mem_append, List.mem_singleton, not_or, eq_comm (a := m)]

theorem missedSince_iff : MissedSince n p (worked e assigned ms) ↔ ⟨n, p, true⟩ ∈ ms := by
  induction ms using List.reverseRecOn with
  | nil =>
    refine ⟨?_, fun h => absurd h List.not_mem_nil⟩
    rintro ⟨pre, c, post, h, hc, -⟩
    have hmem : c ∈ worked e assigned [] := by simp [h]
    rcases mem_asked hmem with rfl | ⟨x, rfl⟩
    · exact hc.elim
    · exact hc.elim
  | append_singleton ms m ih =>
    rw [worked_snoc, missedSince_snoc, ih, Mark.misses_change, Mark.renews_change, not_false_iff,
      and_true, or_comm, List.mem_append, List.mem_singleton, eq_comm (a := m)]

theorem not_foundOutstanding : ¬ FoundOutstanding n (worked e assigned ms) := by
  rintro ⟨pre, post, h, -⟩
  have hmem : .cancel n ∈ worked e assigned ms := by simp [h]
  rcases mem_worked.mp hmem with h | ⟨x, -, h⟩ | ⟨m, -, h⟩
  · cases h
  · cases h
  · exact Mark.change_ne_cancel h.symm

/-- What may close the round is a mark, and what came before it is such a history, too. -/
theorem worked_split {pre post : List Change} {c : Change}
    (h : worked e assigned ms = pre ++ c :: post) (hc : c.mayClose) :
    ∃ earlier m later, ms = earlier ++ m :: later ∧ pre = worked e assigned earlier ∧
      c = m.change ∧ m.missed = false := by
  induction ms using List.reverseRecOn generalizing post with
  | nil =>
    have hmem : c ∈ worked e assigned [] := by simp [h]
    rcases mem_asked hmem with rfl | ⟨x, rfl⟩
    · exact hc.elim
    · exact hc.elim
  | append_singleton ms m ih =>
    rw [worked_snoc] at h
    obtain ⟨rfl, rfl, -⟩ | ⟨mid, -, h⟩ := snoc_split h
    · exact ⟨ms, m, [], rfl, rfl, rfl, Mark.mayClose_change.mp hc⟩
    · obtain ⟨earlier, k, later, rfl, hpre, hk⟩ := ih h
      exact ⟨earlier, k, later ++ [m], by simp, hpre, hk⟩

theorem bound_worked : Bound (worked e assigned ms) :=
  ⟨.attach e, mem_worked.mpr (.inl rfl), trivial⟩

namespace Workload

variable {done later : List Mark} {m : Mark}

/-- Once everything is drained, nothing is reported missing any more. -/
theorem missed_eq_false (h : Workload assigned [done ++ later])
    (hdone : ∀ n p, Registered assigned n p → ⟨n, p, false⟩ ∈ done) (hm : m ∈ later) :
    m.missed = false := by
  have hall : (done ++ later) ∈ [done ++ later] := List.mem_singleton_self _
  have hreg := h.registered _ hall m (List.mem_append_right _ hm)
  exact (List.pairwise_append.mp (h.missedFirst _ hall)).2.2 _ (hdone _ _ hreg) m hm ⟨rfl, rfl⟩ rfl

/-- A mark leaves nothing awaited exactly if everything is drained then. -/
theorem completes_iff (h : Workload assigned ws) : Completes (worked e assigned done) m.change ↔
    m.missed = false ∧ ∀ n p, Registered assigned n p → ⟨n, p, false⟩ ∈ done ++ [m] := by
  rw [Completes, Mark.mayClose_change, ← worked_snoc]
  simp only [h.awaited_iff, not_and, not_not, bound_worked, true_and]

/-- The last mark drains the last partition, at the latest. -/
theorem completed (h : Workload assigned [ms]) (hne : assigned ≠ []) :
    Completed (worked e assigned ms) := by
  have hdrained : ∀ n p, Registered assigned n p → ⟨n, p, false⟩ ∈ ms := by
    intro n p hp
    obtain ⟨w, hw, hm⟩ := h.drained n p hp
    rwa [List.mem_singleton.mp hw] at hm
  rcases List.eq_nil_or_concat ms with rfl | ⟨init, m, rfl⟩
  · obtain ⟨x, hx⟩ := List.exists_mem_of_ne_nil assigned hne
    have hsome : x.2.isEmpty = false :=
      Bool.eq_false_iff.mpr fun hempty => h.asked x hx (SortedSet.isEmpty_iff.mp hempty)
    obtain ⟨p, hp⟩ := SortedSet.isEmpty_eq_false_iff.mp hsome
    exact absurd (hdrained x.1 p ⟨x, hx, rfl, hp⟩) List.not_mem_nil
  · rw [List.concat_eq_append] at h hdrained ⊢
    rw [worked_snoc, completed_snoc, h.completes_iff]
    refine .inr ⟨?_, hdrained⟩
    by_contra hm
    refine hm (h.missed_eq_false (fun n p hp => ?_) (List.mem_singleton_self m))
    rcases List.mem_append.mp (hdrained n p hp) with hinit | hlast
    · exact hinit
    · rw [← List.mem_singleton.mp hlast] at hm
      exact absurd rfl hm

/-- The round ends with the marks of a single sequence, after forcing the exchange that they ask
    for. -/
theorem outcome_eq (h : Workload assigned [ms]) (hne : assigned ≠ []) (e : Exchange)
    (reaction : List (Call τ)) :
    (runChanges reaction (worked e assigned ms)).1.summary = some ⟨missedBy [ms], ∅⟩ ∧
      forcedOf (runChanges reaction (worked e assigned ms)).2 =
        if (missedBy [ms]).isEmpty then [] else [e] := by
  obtain ⟨pre, c, post, hcs, hn, hcomp⟩ := exists_first_completion (h.completed (e := e) hne)
  obtain ⟨done, m, later, rfl, rfl, rfl, hm⟩ := worked_split hcs hcomp.1
  obtain ⟨s, ht, hsummary, hforced⟩ := run_closing reaction post hn hcomp
  have hdrained := (h.completes_iff.mp hcomp).2
  rw [← worked_snoc] at ht
  have hsplit : done ++ m :: later = (done ++ [m]) ++ later := by simp
  have hmissed : s.missed = missedBy [done ++ m :: later] := by
    refine SortedSet.ext fun p => ?_
    rw [ht.missed, mem_missedBy]
    simp only [missedSince_iff, List.mem_singleton, exists_eq_left]
    refine exists_congr fun n => ?_
    rw [hsplit, List.mem_append (t := later)]
    refine ⟨.inl, fun hp => hp.resolve_right fun hlater => ?_⟩
    cases (hsplit ▸ h).missed_eq_false hdrained hlater
  have hcancelled : s.cancelled = ∅ := SortedSet.ext fun n => by
    rw [ht.cancelled]
    exact iff_of_false not_foundOutstanding (SortedSet.not_mem_empty n)
  have hexchange : (runChanges reaction (worked e assigned done)).1.exchange = some e := by
    refine exchange_open reaction (fun c hc e' => ?_) hn
    rcases List.mem_append.mp hc with hc | hc
    · obtain ⟨x, -, rfl⟩ := List.mem_map.mp hc
      rintro ⟨⟩
    · obtain ⟨m, -, rfl⟩ := List.mem_map.mp hc
      exact Mark.change_ne_attach
  rw [hcs, hsummary, hforced, hexchange, ← hmissed, ← hcancelled]
  exact ⟨rfl, rfl⟩

end Workload

-- ============================================================================
-- Every interleaving
-- ============================================================================

/-- The outcome of a round does not depend on how its workers interleave: whatever order their
    marks come in, the round ends with what they report missing, gives nobody up, and forces the
    exchange it is attached to once, if anything is missing. -/
theorem interleaving_is_immaterial (reaction : List (Call τ)) (e : Exchange)
    (hne : assigned ≠ []) (h : Workload assigned ws) (hms : Interleaves ws ms) :
    (runChanges reaction (worked e assigned ms)).1.isDone = true ∧
      (runChanges reaction (worked e assigned ms)).1.summary = some ⟨missedBy ws, ∅⟩ ∧
      forcedOf (runChanges reaction (worked e assigned ms)).2 =
        if (missedBy ws).isEmpty then [] else [e] := by
  obtain ⟨hsummary, hforced⟩ := (h.interleaved hms).outcome_eq hne e reaction
  rw [missedBy_interleaved hms] at hsummary hforced
  exact ⟨congrArg Option.isSome hsummary, hsummary, hforced⟩

/-- Two workers drain two partitions of one node and a partition of another; one of them is
    missing, and one is drained twice. -/
def twoWorkers : Assignment × List (List Mark) :=
  ([(1, .ofList [3, 4]), (2, .ofList [3])],
    [[⟨1, 3, true⟩, ⟨1, 3, false⟩, ⟨2, 3, false⟩], [⟨1, 4, false⟩, ⟨1, 4, false⟩]])

/-- The second worker starts between the two marks of the first one, and ends last. -/
def twoWorkersMixed : List Mark :=
  [⟨1, 3, true⟩, ⟨1, 4, false⟩, ⟨1, 3, false⟩, ⟨2, 3, false⟩, ⟨1, 4, false⟩]

theorem interleaving_is_immaterial_twoWorkers :
    twoWorkers.1 ≠ [] ∧ Workload twoWorkers.1 twoWorkers.2 ∧
      Interleaves twoWorkers.2 twoWorkersMixed ∧
      (runChanges ([] : List (Call Unit)) (worked joined twoWorkers.1 twoWorkersMixed)).1.summary =
        some ⟨.ofList [3], ∅⟩ ∧
      forcedOf (runChanges ([] : List (Call Unit))
        (worked joined twoWorkers.1 twoWorkersMixed)).2 = [joined] := by
  have hne : twoWorkers.1 ≠ [] := List.cons_ne_nil _ _
  have hwork : Workload twoWorkers.1 twoWorkers.2 := by
    refine ⟨by decide, by decide, by decide, by decide, ?_, by decide⟩
    rintro n p ⟨x, hx, rfl, hp⟩
    simp only [twoWorkers, List.mem_cons, List.not_mem_nil, or_false] at hx
    rcases hx with rfl | rfl
    · simp only [SortedSet.mem_ofList, List.mem_cons, List.not_mem_nil, or_false] at hp
      rcases hp with rfl | rfl <;> decide
    · simp only [SortedSet.mem_ofList, List.mem_cons, List.not_mem_nil, or_false] at hp
      subst hp
      decide
  have hmixed : Interleaves twoWorkers.2 twoWorkersMixed :=
    .next [] (.next [_] (.next [] (.next [] (.next [_] (.done (by simp))))))
  obtain ⟨-, hsummary, hforced⟩ :=
    interleaving_is_immaterial ([] : List (Call Unit)) joined hne hwork hmixed
  exact ⟨hne, hwork, hmixed, hsummary.trans (by decide +kernel), hforced.trans (by decide +kernel)⟩

/-- Nothing completes a round that nothing was asked for: its workers have nothing to drain. -/
theorem round_of_nothing_stays_open :
    Workload [] [[], []] ∧ Interleaves [[], []] ([] : List Mark) ∧
      (runChanges ([] : List (Call Unit)) (worked joined [] [])).1.isDone = false := by
  refine ⟨⟨List.nodup_nil, by simp, by simp, by simp, ?_, by simp⟩, .done (by simp), ?_⟩
  · rintro n p ⟨x, hx, -⟩
    exact absurd hx List.not_mem_nil
  · exact congrArg Round.isDone (run_change_of_none [] (c := .attach joined) rfl)

end Round
end Rebalance
