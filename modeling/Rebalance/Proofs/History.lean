/-
  Rebalance.Proofs.History

  What a round answers, read off the changes that were made to it.  `Since` is
  the one kind of question that is asked of a history: something happened, and
  nothing that undoes it happened after.  `Agrees` ties an open round to its
  history and is kept by every change; a round that closes takes what it agrees
  with into its summary.
-/
import Mathlib.Data.List.Induction
import Rebalance.Proofs.Reentry

namespace Rebalance
namespace Round

-- ============================================================================
-- Questions to a history
-- ============================================================================

section Since

variable {α : Type} {start stop : α → Prop} {cs ds : List α} {c : α}

/-- Something that starts it happened, and nothing that stops it since. -/
def Since (start stop : α → Prop) (cs : List α) : Prop :=
  ∃ pre x post, cs = pre ++ x :: post ∧ start x ∧ ∀ y ∈ post, ¬ stop y

theorem not_since_nil : ¬ Since start stop [] := by
  rintro ⟨pre, x, post, h, -⟩
  simp at h

/-- The splits of a history that goes on: at something that happened before, or later on. -/
theorem append_split {pre post : List α} {x : α} (h : cs ++ ds = pre ++ x :: post) :
    (∃ mid, post = mid ++ ds ∧ cs = pre ++ x :: mid) ∨
      ∃ mid, pre = cs ++ mid ∧ ds = mid ++ x :: post := by
  rcases List.append_eq_append_iff.mp h with ⟨mid, hpre, hds⟩ | ⟨mid, hcs, hrest⟩
  · exact .inr ⟨mid, hpre, hds⟩
  · cases mid with
    | nil =>
      rw [List.append_nil] at hcs
      exact .inr ⟨[], by rw [hcs, List.append_nil], hrest.symm⟩
    | cons y mid =>
      obtain ⟨rfl, hpost⟩ := List.cons_eq_cons.mp hrest
      exact .inl ⟨mid, hpost, hcs⟩

/-- The splits of a history that goes on with one more change. -/
theorem snoc_split {pre post : List α} {x : α} (h : cs ++ [c] = pre ++ x :: post) :
    (cs = pre ∧ c = x ∧ post = []) ∨ ∃ mid, post = mid ++ [c] ∧ cs = pre ++ x :: mid := by
  rcases append_split h with hbefore | ⟨mid, rfl, hc⟩
  · exact .inr hbefore
  · rcases List.append_eq_singleton_iff.mp hc.symm with ⟨rfl, hx⟩ | ⟨-, hx⟩
    · obtain ⟨rfl, rfl⟩ := List.cons_eq_cons.mp hx
      exact .inl ⟨(List.append_nil cs).symm, rfl, rfl⟩
    · cases hx

theorem since_snoc : Since start stop (cs ++ [c]) ↔ start c ∨ Since start stop cs ∧ ¬ stop c := by
  constructor
  · rintro ⟨pre, x, post, h, hx, hp⟩
    obtain ⟨rfl, rfl, rfl⟩ | ⟨mid, rfl, rfl⟩ := snoc_split h
    · exact .inl hx
    · refine .inr ⟨⟨pre, x, mid, rfl, hx, fun y hy => hp y ?_⟩, hp c ?_⟩
      · exact List.mem_append_left _ hy
      · exact List.mem_append_right _ List.mem_cons_self
  · rintro (hc | ⟨⟨pre, x, post, rfl, hx, hp⟩, hc⟩)
    · exact ⟨cs, c, [], rfl, hc, by simp⟩
    · refine ⟨pre, x, post ++ [c], by simp, hx, fun y hy => ?_⟩
      rcases List.mem_append.mp hy with hy | hy
      · exact hp y hy
      · rw [List.mem_singleton.mp hy]
        exact hc

end Since

namespace Change

/-- Asks a node for a partition. -/
def asks (n : NodeId) (p : PartitionId) : Change → Prop
  | .append m ps => m = n ∧ p ∈ ps
  | _ => False

/-- Ends the wait for a partition of a node. A node that is asked for something anew is asked
    for nothing else. -/
def ends (n : NodeId) (p : PartitionId) : Change → Prop
  | .append m ps => m = n ∧ ps ≠ ∅
  | .drain m q => m = n ∧ q = p
  | .cancel m => m = n
  | .complete => True
  | _ => False

/-- Says that a node could not supply a partition. -/
def misses (n : NodeId) (p : PartitionId) : Change → Prop
  | .miss m q => m = n ∧ q = p
  | _ => False

/-- Asks a node anew, for nothing perhaps. -/
def renews (n : NodeId) : Change → Prop
  | .append m _ => m = n
  | _ => False

/-- Binds the round. -/
def binds : Change → Prop
  | .attach _ => True
  | .complete => True
  | _ => False

/-- Is one of those that may close the round. -/
def mayClose : Change → Prop
  | .drain _ _ => True
  | .cancel _ => True
  | .complete => True
  | _ => False

end Change

/-- The partition was among those that the node was last asked for, was not drained since, and
    the node was not given up. -/
def Awaited (n : NodeId) (p : PartitionId) : List Change → Prop :=
  Since (Change.asks n p) (Change.ends n p)

/-- The partition was reported missing from the node since the node was last asked. -/
def MissedSince (n : NodeId) (p : PartitionId) : List Change → Prop :=
  Since (Change.misses n p) (Change.renews n)

/-- The history binds the round. -/
def Bound (cs : List Change) : Prop := ∃ c ∈ cs, c.binds

/-- Some change gave the node up while something was awaited from it. -/
def FoundOutstanding (n : NodeId) (cs : List Change) : Prop :=
  ∃ pre post, cs = pre ++ .cancel n :: post ∧ ∃ p, Awaited n p pre

/-- After the history `pre`, the change `c` leaves the round bound and nothing awaited. -/
def Completes (pre : List Change) (c : Change) : Prop :=
  c.mayClose ∧ Bound (pre ++ [c]) ∧ ∀ n p, ¬ Awaited n p (pre ++ [c])

/-- Some change of the history completes the round. -/
def Completed (cs : List Change) : Prop :=
  ∃ pre c post, cs = pre ++ c :: post ∧ Completes pre c

theorem awaited_snoc {cs : List Change} {c : Change} {n : NodeId} {p : PartitionId} :
    Awaited n p (cs ++ [c]) ↔ c.asks n p ∨ Awaited n p cs ∧ ¬ c.ends n p := since_snoc

theorem missedSince_snoc {cs : List Change} {c : Change} {n : NodeId} {p : PartitionId} :
    MissedSince n p (cs ++ [c]) ↔ c.misses n p ∨ MissedSince n p cs ∧ ¬ c.renews n := since_snoc

theorem bound_snoc {cs : List Change} {c : Change} : Bound (cs ++ [c]) ↔ Bound cs ∨ c.binds := by
  simp [Bound, or_and_right, exists_or]

theorem foundOutstanding_snoc {cs : List Change} {c : Change} {n : NodeId} :
    FoundOutstanding n (cs ++ [c]) ↔
      FoundOutstanding n cs ∨ (c = .cancel n ∧ ∃ p, Awaited n p cs) := by
  constructor
  · rintro ⟨pre, post, h, hp⟩
    obtain ⟨rfl, rfl, -⟩ | ⟨mid, -, rfl⟩ := snoc_split h
    · exact .inr ⟨rfl, hp⟩
    · exact .inl ⟨pre, mid, rfl, hp⟩
  · rintro (⟨pre, post, rfl, hp⟩ | ⟨rfl, hp⟩)
    · exact ⟨pre, post ++ [c], by simp, hp⟩
    · exact ⟨cs, [], rfl, hp⟩

theorem completed_snoc {cs : List Change} {c : Change} :
    Completed (cs ++ [c]) ↔ Completed cs ∨ Completes cs c := by
  constructor
  · rintro ⟨pre, x, post, h, hx⟩
    obtain ⟨rfl, rfl, -⟩ | ⟨mid, -, rfl⟩ := snoc_split h
    · exact .inr hx
    · exact .inl ⟨pre, x, mid, rfl, hx⟩
  · rintro (⟨pre, x, post, rfl, hx⟩ | hc)
    · exact ⟨pre, x, post ++ [c], by simp, hx⟩
    · exact ⟨cs, c, [], rfl, hc⟩

-- ============================================================================
-- An open round agrees with its history
-- ============================================================================

variable {κ : Type}

/-- The partitions reported missing from a node. -/
def missingFrom (r : Round κ) (n : NodeId) : SortedSet PartitionId := (r.missing.get? n).getD ∅

/-- An open round holds what its history says. -/
structure Agrees (r : Round κ) (cs : List Change) : Prop where
  isOpen : r.closed = false
  bound : r.attached = true ↔ Bound cs
  awaited : ∀ n p, p ∈ r.outstandingFrom n ↔ Awaited n p cs
  awaits : ∀ n ps, r.outstanding.get? n = some ps → ps ≠ ∅
  missing : ∀ n p, p ∈ r.missingFrom n ↔ MissedSince n p cs
  cancelled : ∀ n, n ∈ r.cancelled ↔ FoundOutstanding n cs

/-- The summary is what the history says. -/
structure Tells (s : Summary) (cs : List Change) : Prop where
  missed : ∀ p, p ∈ s.missed ↔ ∃ n, MissedSince n p cs
  cancelled : ∀ n, n ∈ s.cancelled ↔ FoundOutstanding n cs

-- ============================================================================
-- Every change keeps the agreement
-- ============================================================================

theorem agrees_empty : Agrees ({} : Round κ) [] where
  isOpen := rfl
  bound := by simp [Bound]
  awaited n p := by simp [outstandingFrom, Awaited, not_since_nil]
  awaits n ps h := by simp at h
  missing n p := by simp [missingFrom, MissedSince, not_since_nil]
  cancelled n := by simp [FoundOutstanding]

section Step

variable {r : Round κ} {cs : List Change} (n : NodeId)

/-- A node of an open round is outstanding exactly if something is awaited from it. -/
theorem Agrees.contains_iff (h : Agrees r cs) :
    r.outstanding.contains n = true ↔ ∃ p, Awaited n p cs := by
  have hiff : r.outstanding.contains n = true ↔ n ∈ r.outstandingNodes :=
    SortedMap.mem_keys_iff.symm
  rw [hiff, mem_outstandingNodes_iff]
  constructor
  · rintro ⟨ps, hps⟩
    have hne : ps.isEmpty = false := by
      rw [Bool.eq_false_iff]
      exact fun he => h.awaits n ps hps (SortedSet.isEmpty_iff.mp he)
    obtain ⟨p, hp⟩ := SortedSet.isEmpty_eq_false_iff.mp hne
    exact ⟨p, (h.awaited n p).mp (mem_outstandingFrom_iff.mpr ⟨ps, hps, hp⟩)⟩
  · rintro ⟨p, hp⟩
    obtain ⟨ps, hps, -⟩ := mem_outstandingFrom_iff.mp ((h.awaited n p).mpr hp)
    exact ⟨ps, hps⟩

theorem Agrees.attach (h : Agrees r cs) (e : Exchange) :
    Agrees (r.attach e) (cs ++ [.attach e]) where
  isOpen := h.isOpen
  bound := by simp [Round.attach, bound_snoc, Change.binds]
  awaited n p := (h.awaited n p).trans (by simp [awaited_snoc, Change.asks, Change.ends])
  awaits := h.awaits
  missing n p := (h.missing n p).trans (by simp [missedSince_snoc, Change.misses, Change.renews])
  cancelled n := (h.cancelled n).trans (by simp [foundOutstanding_snoc])

theorem Agrees.append (h : Agrees r cs) (ps : SortedSet PartitionId) :
    Agrees (r.append n ps) (cs ++ [.append n ps]) := by
  have hput : r.append n ps =
      { r with
        outstanding := if ps.isEmpty then r.outstanding else r.outstanding.insert n ps
        missing := r.missing.insert n ∅ } := by simp [Round.append, h.isOpen]
  rw [hput]
  refine ⟨h.isOpen, ?_, fun m p => ?_, fun m qs hm => ?_, fun m p => ?_, fun m => ?_⟩
  · rw [bound_snoc]
    simpa [Change.binds] using h.bound
  · rw [awaited_snoc, ← h.awaited m p]
    by_cases he : ps = ∅
    · simp [he, Change.asks, Change.ends, outstandingFrom, SortedSet.isEmpty_iff]
    · have hf : ps.isEmpty = false := by rwa [Bool.eq_false_iff, ne_eq, SortedSet.isEmpty_iff]
      by_cases hm : m = n
      · simp [hf, hm, he, Change.asks, Change.ends, outstandingFrom]
      · simp [hf, hm, Ne.symm hm, Change.asks, Change.ends, outstandingFrom]
  · by_cases he : ps.isEmpty = true
    · rw [if_pos he] at hm
      exact h.awaits m qs hm
    · rw [if_neg he, SortedMap.get?_insert] at hm
      by_cases hmn : m = n
      · rw [if_pos hmn] at hm
        cases hm
        exact fun hqs => he (SortedSet.isEmpty_iff.mpr hqs)
      · rw [if_neg hmn] at hm
        exact h.awaits m qs hm
  · rw [missedSince_snoc, ← h.missing m p]
    by_cases hm : m = n
    · simp [hm, Change.misses, Change.renews, missingFrom]
    · simp [hm, Ne.symm hm, Change.misses, Change.renews, missingFrom]
  · rw [foundOutstanding_snoc]
    simpa using h.cancelled m

theorem Agrees.miss (h : Agrees r cs) (p : PartitionId) :
    Agrees (r.markMissed n p) (cs ++ [.miss n p]) := by
  have hput : r.markMissed n p =
      { r with missing := r.missing.alter n fun old => (old.getD ∅).insert p } := by
    simp [Round.markMissed, h.isOpen]
  rw [hput]
  refine ⟨h.isOpen, ?_, fun m q => ?_, h.awaits, fun m q => ?_, fun m => ?_⟩
  · rw [bound_snoc]
    simpa [Change.binds] using h.bound
  · exact (h.awaited m q).trans (by simp [awaited_snoc, Change.asks, Change.ends])
  · rw [missedSince_snoc, ← h.missing m q]
    by_cases hm : m = n
    · simp [hm, Change.misses, Change.renews, missingFrom, eq_comm]
    · simp [hm, Ne.symm hm, Change.misses, Change.renews, missingFrom]
  · rw [foundOutstanding_snoc]
    simpa using h.cancelled m

/-- What an open round holds is all that makes it sound. -/
theorem Agrees.sound (h : Agrees r cs) (hv : r.summary = none) : r.Sound where
  closed_iff := by rw [h.isOpen, isDone, Promise.isDone, show r.outcome.value = none from hv]; rfl
  settled hc := by rw [h.isOpen] at hc; cases hc
  awaits := h.awaits

/-- Draining, before the round is settled. -/
theorem Agrees.dropping (h : Agrees r cs) (hv : r.summary = none) (p : PartitionId) :
    Agrees (r.dropping n p) (cs ++ [.drain n p]) := by
  obtain ⟨hclosed, -, -, -, hatt⟩ := dropping_same r n p
  have hmissing : (r.dropping n p).missing = r.missing ∧
      (r.dropping n p).cancelled = r.cancelled := by
    unfold Round.dropping
    split <;> exact ⟨rfl, rfl⟩
  refine ⟨hclosed.trans h.isOpen, ?_, fun m q => ?_, dropping_awaits (h.sound hv) n p,
    fun m q => ?_, fun m => ?_⟩
  · rw [hatt, bound_snoc]
    simpa [Change.binds] using h.bound
  · rw [mem_outstandingFrom_dropping, awaited_snoc, h.awaited m q]
    simp [Change.asks, Change.ends, eq_comm]
  · rw [missingFrom, hmissing.1]
    exact (h.missing m q).trans (by simp [missedSince_snoc, Change.misses, Change.renews])
  · rw [hmissing.2, foundOutstanding_snoc]
    simpa using h.cancelled m

/-- Giving a node up, before the round is settled. -/
theorem Agrees.releasing (h : Agrees r cs) (hv : r.summary = none) :
    Agrees (r.releasing n) (cs ++ [.cancel n]) := by
  obtain ⟨hclosed, -, -, hatt⟩ := releasing_same r n
  have hmissing : (r.releasing n).missing = r.missing := by
    unfold Round.releasing
    split <;> rfl
  refine ⟨hclosed.trans h.isOpen, ?_, fun m q => ?_, releasing_awaits (h.sound hv) n,
    fun m q => ?_, fun m => ?_⟩
  · rw [hatt, bound_snoc]
    simpa [Change.binds] using h.bound
  · rw [mem_outstandingFrom_releasing, awaited_snoc, h.awaited m q]
    simp [Change.asks, Change.ends, eq_comm]
  · rw [missingFrom, hmissing]
    exact (h.missing m q).trans (by simp [missedSince_snoc, Change.misses, Change.renews])
  · rw [foundOutstanding_snoc, Change.cancel.injEq, ← h.contains_iff, ← h.cancelled m]
    unfold Round.releasing
    by_cases hn : r.outstanding.contains n = true
    · rw [if_pos hn]
      by_cases hm : m = n
      · simp [hm, hn]
      · simp [hm, Ne.symm hm]
    · rw [if_neg hn]
      refine ⟨.inl, ?_⟩
      rintro (hmem | ⟨rfl, hc⟩)
      · exact hmem
      · exact absurd hc hn

/-- Awaiting nothing any more, before the round is settled. -/
theorem Agrees.emptied (h : Agrees r cs) :
    Agrees { r with attached := true, outstanding := ∅ } (cs ++ [.complete]) where
  isOpen := h.isOpen
  bound := by simp [bound_snoc, Change.binds]
  awaited n p := by simp [awaited_snoc, Change.asks, Change.ends, outstandingFrom]
  awaits n ps hn := by simp at hn
  missing n p := (h.missing n p).trans (by simp [missedSince_snoc, Change.misses, Change.renews])
  cancelled n := (h.cancelled n).trans (by simp [foundOutstanding_snoc])

/-- A round that agrees with its history closes exactly if the history completes it, and then its
    summary tells what the history says. -/
theorem Agrees.settle {c : Change} (h : Agrees r (cs ++ [c])) (hc : c.mayClose) :
    (r.settle = (r, none) ∧ ¬ Completes cs c) ∨
      ∃ s, r.settle.2 = some s ∧ Completes cs c ∧ Tells s (cs ++ [c]) := by
  by_cases hsettled : r.attached = true ∧ r.outstanding.isEmpty = true
  · obtain ⟨ha, ho⟩ := hsettled
    have hsettle : r.settle.2 = some ⟨SortedSet.unions r.missing.values, r.cancelled⟩ := by
      simp [Round.settle, h.isOpen, ha, ho]
    refine .inr ⟨_, hsettle, ⟨hc, h.bound.mp ha, fun n p hp => ?_⟩, fun p => ?_, h.cancelled⟩
    · rw [← h.awaited, mem_outstandingFrom_iff, SortedMap.isEmpty_iff.mp ho] at hp
      simp at hp
    · simp only [SortedSet.mem_unions, SortedMap.mem_values_iff, ← h.missing, missingFrom]
      constructor
      · rintro ⟨ps, ⟨n, hn⟩, hp⟩
        exact ⟨n, by rwa [hn]⟩
      · rintro ⟨n, hp⟩
        cases hn : r.missing.get? n with
        | none => simp [hn] at hp
        | some ps => exact ⟨ps, ⟨n, hn⟩, by simpa [hn] using hp⟩
  · have hkeep : r.settle = (r, none) := by
      simp only [Round.settle, h.isOpen, Bool.false_or]
      rw [if_pos]
      cases ha : r.attached with
      | false => rfl
      | true => simpa [ha] using hsettled
    refine .inl ⟨hkeep, fun hcomp => hsettled ⟨h.bound.mpr hcomp.2.1, ?_⟩⟩
    rw [SortedMap.isEmpty_iff, SortedMap.eq_empty_iff]
    intro n
    cases hn : r.outstanding.get? n with
    | none => rfl
    | some ps =>
      have hnode : r.outstanding.contains n = true := by simp [SortedMap.contains, hn]
      obtain ⟨p, hp⟩ := (h.contains_iff n).mp hnode
      exact absurd hp (hcomp.2.2 n p)

/-- What a change makes of an open round that agrees with its history. -/
theorem Agrees.change (h : Agrees r cs) (hv : r.summary = none) (c : Change) :
    ((r.change c).2 = none ∧ Agrees (r.change c).1 (cs ++ [c]) ∧ ¬ Completes cs c) ∨
      ∃ s, (r.change c).2 = some s ∧ Completes cs c ∧ Tells s (cs ++ [c]) := by
  have hsettle : ∀ t : Round κ, Agrees t (cs ++ [c]) → r.change c = t.settle → c.mayClose →
      ((r.change c).2 = none ∧ Agrees (r.change c).1 (cs ++ [c]) ∧ ¬ Completes cs c) ∨
        ∃ s, (r.change c).2 = some s ∧ Completes cs c ∧ Tells s (cs ++ [c]) := by
    intro t ht heq hc
    rw [heq]
    rcases ht.settle hc with ⟨hkeep, hn⟩ | hs
    · rw [hkeep]
      exact .inl ⟨rfl, ht, hn⟩
    · exact .inr hs
  cases c with
  | attach e => exact .inl ⟨rfl, h.attach e, fun hc => hc.1⟩
  | append n ps => exact .inl ⟨rfl, h.append n ps, fun hc => hc.1⟩
  | miss n p => exact .inl ⟨rfl, h.miss n p, fun hc => hc.1⟩
  | drain n p => exact hsettle _ (h.dropping n hv p) (drain_eq r n p h.isOpen) trivial
  | cancel n => exact hsettle _ (h.releasing n hv) (cancel_eq r n h.isOpen) trivial
  | complete => exact hsettle _ h.emptied rfl trivial

end Step

-- ============================================================================
-- Whole histories
-- ============================================================================

/-- A round and its history: either the round is open and nothing has completed it, or it is done
    and tells what the history said when it was completed first. -/
inductive Told {τ : Type} (r : Round (Continuation τ)) (cs : List Change) : Prop where
  | going (h : Agrees r cs) (hv : r.summary = none) (hn : ¬ Completed cs)
  | ended (s : Summary) (hc : r.Shut) (hv : r.summary = some s) (pre : List Change) (c : Change)
      (post : List Change) (hcs : cs = pre ++ c :: post) (hn : ¬ Completed pre)
      (hcomp : Completes pre c) (ht : Tells s (pre ++ [c]))

variable {τ : Type} (reaction : List (Call τ))

theorem run_change_of_none {r : Round (Continuation τ)} {c : Change} (h : (r.change c).2 = none) :
    (run reaction r [.call (.change c)]).1 = (r.change c).1 := by
  rw [run_cons]
  simp [work, h, run]

/-- A closed round stays closed, and what waits for it does not keep it from saying so. -/
theorem run_announce {r : Round (Continuation τ)} {s : Summary} (hc : r.Shut)
    (hv : r.summary = none) (pre : List (Call τ)) :
    (run reaction r (calls pre ++ [.announce s])).1.Shut ∧
      (run reaction r (calls pre ++ [.announce s])).1.summary = some s := by
  refine ⟨(reaches_run reaction r _).keeps (fun _ w h => h.work w) hc, ?_⟩
  induction pre generalizing r with
  | nil =>
    have hval : r.outcome.value = none := hv
    have hsum : (r.announce s).1.summary = some s := by
      simp [announce, Promise.complete, hval, summary]
    rw [calls, List.map_nil, List.nil_append, run_cons]
    exact (reaches_run reaction _ _).keeps (P := fun r => r.summary = some s)
      (fun _ w h => summary_work h w) hsum
  | cons c pre ih =>
    -- no call on a closed round asks for anything to be done first
    have hnext : (work reaction r (.call c)).1.2 = [] ∧
        (work reaction r (.call c)).1.1.summary = none := by
      cases c with
      | probe => exact ⟨rfl, hv⟩
      | onDone tag body =>
        have hval : r.outcome.value = none := hv
        simp only [work, hv]
        exact ⟨trivial, by simp [summary, onDone, Promise.onDone, hval]⟩
      | change c =>
        simp only [work, (hc.change c).1]
        exact ⟨trivial, (summary_change r c).trans hv⟩
    rw [calls, List.map_cons, List.cons_append, run_cons, hnext.1]
    exact ih (hc.work _) hnext.2

/-- The change that closes a round leaves it done with the summary, whatever the manager does in
    reaction. -/
theorem run_change_of_some {r : Round (Continuation τ)} {c : Change} {s : Summary}
    (hv : r.summary = none) (h : (r.change c).2 = some s) :
    (run reaction r [.call (.change c)]).1.Shut ∧
      (run reaction r [.call (.change c)]).1.summary = some s := by
  have hc := shut_of_change h
  have hsum := (summary_change r c).trans hv
  rw [run_cons]
  cases he : (r.change c).1.forced s with
  | none => simpa [work, h, he, calls] using run_announce reaction hc hsum []
  | some e => simpa [work, h, he] using run_announce reaction hc hsum reaction

theorem told (cs : List Change) :
    Told (run reaction {} (calls (cs.map Call.change))).1 cs := by
  induction cs using List.reverseRecOn with
  | nil =>
    refine .going (by simpa [calls, run] using agrees_empty) (by simp [calls, run]; rfl) ?_
    rintro ⟨pre, c, post, h, -⟩
    simp at h
  | append_singleton cs c ih =>
    have hrun : (run reaction {} (calls ((cs ++ [c]).map Call.change))).1 =
        (run reaction (run reaction {} (calls (cs.map Call.change))).1 [.call (.change c)]).1 := by
      rw [List.map_append, calls, List.map_append, run_append]
      rfl
    rw [hrun]
    cases ih with
    | going h hv hn =>
      rcases h.change hv c with ⟨hnone, hagree, hcomp⟩ | ⟨s, hs, hcomp, ht⟩
      · rw [run_change_of_none reaction hnone]
        refine .going hagree ((summary_change _ c).trans hv) ?_
        rw [completed_snoc]
        exact not_or.mpr ⟨hn, hcomp⟩
      · obtain ⟨hc, hsum⟩ := run_change_of_some reaction hv hs
        exact .ended s hc hsum cs c [] rfl hn hcomp ht
    | ended s hc hv pre x post hcs hn hcomp ht =>
      obtain ⟨hnone, hshut⟩ := hc.change c
      rw [run_change_of_none reaction hnone]
      refine .ended s hshut ((summary_change _ c).trans hv) pre x (post ++ [c]) ?_ hn hcomp ht
      rw [hcs]
      simp

/-- What a round answers after a history of changes. -/
structure FollowsHistory (r : Round (Continuation τ)) (cs : List Change) : Prop where
  /-- Until the round is done: what was asked of a node last and has not arrived since. -/
  awaited : r.isDone = false → ∀ n p, p ∈ r.outstandingFrom n ↔ Awaited n p cs
  /-- No node is ever kept with nothing awaited from it. -/
  kept : ∀ n, n ∈ r.outstandingNodes ↔ ∃ p, p ∈ r.outstandingFrom n
  /-- The round is done exactly from the first change on that completes it. -/
  done : r.isDone = true ↔ Completed cs
  /-- The summary is about the history up to that change. -/
  told : ∀ s, r.summary = some s → ∃ pre c post, cs = pre ++ c :: post ∧ ¬ Completed pre ∧
    Completes pre c ∧ Tells s (pre ++ [c])

/-- Whatever changes are made to a round, and whatever the manager calls when the round ends: the
    round completes exactly when, and with exactly what, its history says. -/
theorem follows_history (cs : List Change) :
    FollowsHistory (run reaction {} (calls (cs.map Call.change))).1 cs := by
  cases told reaction cs with
  | going h hv hn =>
    have hdone : (run reaction {} (calls (cs.map Call.change))).1.isDone = false :=
      congrArg Option.isSome hv
    refine ⟨fun _ => h.awaited, fun n => (h.sound hv).mem_outstandingNodes_iff, ?_, ?_⟩
    · simp [hdone, hn]
    · intro s hs
      rw [hv] at hs
      cases hs
  | ended s hc hv pre c post hcs hn hcomp ht =>
    have hdone : (run reaction {} (calls (cs.map Call.change))).1.isDone = true :=
      congrArg Option.isSome hv
    refine ⟨fun h => ?_, fun n => ?_, ?_, ?_⟩
    · rw [hdone] at h
      cases h
    · simp [outstandingNodes, outstandingFrom, hc.settled, SortedMap.mem_keys_iff]
    · simp only [hdone, true_iff]
      exact ⟨pre, c, post, hcs, hcomp⟩
    · intro s' hs
      rw [hv] at hs
      cases hs
      exact ⟨pre, c, post, hcs, hn, hcomp, ht⟩

end Round
end Rebalance
