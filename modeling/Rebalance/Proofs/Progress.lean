/-
  Rebalance.Proofs.Progress

  A round seen through what it answers: the partitions awaited from each node,
  the partitions missed, and the nodes given up.  `Round.after` is a change
  together with the announcement that follows if it closes the round; closing
  moves the misses and the nodes given up into the summary, so each answer is
  said once for open and closed rounds alike.
-/
import Rebalance.Round.Change

namespace Rebalance

namespace SortedSet

variable {α : Type} [Key α]

theorem isEmpty_eq_false_iff {s : SortedSet α} : s.isEmpty = false ↔ ∃ a, a ∈ s := by
  cases s with
  | mk l h =>
    cases l with
    | nil => simp [isEmpty, mem_def]
    | cons a l => simp only [isEmpty, List.isEmpty_cons, true_iff]; exact ⟨a, List.mem_cons_self⟩

theorem eq_empty_iff {s : SortedSet α} : s = ∅ ↔ ∀ a, a ∉ s := by
  constructor
  · intro h a
    rw [h]
    exact not_mem_empty a
  · intro h
    apply ext
    intro a
    simp [h a]

end SortedSet

namespace SortedMap

variable {κ ν : Type} [Key κ]

theorem isEmpty_iff {m : SortedMap κ ν} : m.isEmpty = true ↔ m = ∅ := by
  constructor
  · intro h
    cases m with
    | mk l hl =>
      cases l with
      | nil => rfl
      | cons a l => simp [isEmpty] at h
  · intro h
    rw [h]
    rfl

variable [DecidableEq κ]

theorem eq_empty_iff {m : SortedMap κ ν} : m = ∅ ↔ ∀ k, m.get? k = none := by
  constructor
  · intro h k
    rw [h]
    exact get?_empty k
  · intro h
    apply ext
    intro k
    rw [h k]
    rfl

theorem mem_values_iff {m : SortedMap κ ν} {v : ν} : v ∈ m.values ↔ ∃ k, m.get? k = some v := by
  unfold values
  rw [List.mem_map]
  constructor
  · rintro ⟨⟨k, v'⟩, hm, rfl⟩
    exact ⟨k, get?_eq_some_iff.mpr hm⟩
  · rintro ⟨k, hk⟩
    exact ⟨(k, v), get?_eq_some_iff.mp hk, rfl⟩

theorem mem_keys_iff_exists {m : SortedMap κ ν} {k : κ} :
    k ∈ m.keys ↔ ∃ v, m.get? k = some v := by
  rw [mem_keys_iff, Option.isSome_iff_exists]

end SortedMap

namespace Round

variable {κ : Type}

-- ============================================================================
-- What a round answers
-- ============================================================================

/-- The nodes given up so far, or those of the summary. -/
def givenUp (r : Round κ) : SortedSet NodeId :=
  match r.summary with
  | some s => s.cancelled
  | none => r.cancelled

/-- The round once its summary, if there is one, is announced. -/
def announced : Round κ × Option Summary → Round κ
  | (r, none) => r
  | (r, some s) => (r.announce s).1

/-- Settle the round, and announce the summary if that closes it. -/
def wrapUp (r : Round κ) : Round κ := announced r.settle

/-- The round after a change, and after the announcement if the change closes it. -/
def after (r : Round κ) (c : Change) : Round κ := announced (r.change c)

/-- A round between two changes: it is closed when it has said so, a closed round awaits
    nothing, and no node is awaited for nothing. -/
structure Sound (r : Round κ) : Prop where
  closed_iff : r.closed = r.isDone
  settled : r.closed = true → r.outstanding = ∅
  awaits : ∀ n ps, r.outstanding.get? n = some ps → ps ≠ ∅

theorem mem_outstandingNodes_iff {r : Round κ} {n : NodeId} :
    n ∈ r.outstandingNodes ↔ ∃ ps, r.outstanding.get? n = some ps := SortedMap.mem_keys_iff_exists

theorem mem_outstandingFrom_iff {r : Round κ} {n : NodeId} {p : PartitionId} :
    p ∈ r.outstandingFrom n ↔ ∃ ps, r.outstanding.get? n = some ps ∧ p ∈ ps := by
  unfold outstandingFrom
  cases h : r.outstanding.get? n with
  | none => simp
  | some ps => simp

/-- A node is awaited exactly as long as something is awaited from it. -/
theorem Sound.mem_outstandingNodes_iff {r : Round κ} (h : r.Sound) {n : NodeId} :
    n ∈ r.outstandingNodes ↔ ∃ p, p ∈ r.outstandingFrom n := by
  rw [Round.mem_outstandingNodes_iff]
  constructor
  · rintro ⟨ps, hps⟩
    have hne : ps.isEmpty = false := by
      cases he : ps.isEmpty with
      | false => rfl
      | true => exact absurd (SortedSet.isEmpty_iff.mp he) (h.awaits n ps hps)
    obtain ⟨p, hp⟩ := SortedSet.isEmpty_eq_false_iff.mp hne
    exact ⟨p, mem_outstandingFrom_iff.mpr ⟨ps, hps, hp⟩⟩
  · rintro ⟨p, hp⟩
    obtain ⟨ps, hps, -⟩ := mem_outstandingFrom_iff.mp hp
    exact ⟨ps, hps⟩

/-- A round that awaits something is open. -/
theorem Sound.isOpen {r : Round κ} (h : r.Sound) {n : NodeId} {p : PartitionId}
    (hp : p ∈ r.outstandingFrom n) : r.closed = false := by
  rw [Bool.eq_false_iff]
  intro hc
  obtain ⟨ps, hps, -⟩ := mem_outstandingFrom_iff.mp hp
  rw [h.settled hc] at hps
  cases hps

-- ============================================================================
-- Closing changes no answer
-- ============================================================================

section WrapUp

variable {r : Round κ}

theorem wrapUp_of_open (h : r.closed = true ∨ r.attached = false ∨ r.outstanding.isEmpty = false) :
    r.wrapUp = r := by
  have hs : (r.closed || !r.attached || !r.outstanding.isEmpty) = true := by
    rcases h with h | h | h <;> simp [h]
  simp [wrapUp, announced, settle, hs]

/-- A bound round that awaits nothing closes, and its summary is what it answered before. -/
theorem wrapUp_of_settled (hd : r.isDone = false) (hc : r.closed = false)
    (ha : r.attached = true) (ho : r.outstanding.isEmpty = true) :
    r.wrapUp = { r with
      closed := true, missing := ∅, cancelled := ∅,
      outcome := { value := some ⟨r.missed, r.givenUp⟩, waiting := [] } } := by
  have hv : r.outcome.value = none := by simpa [isDone, Promise.isDone] using hd
  have hm : r.missed = SortedSet.unions r.missing.values := by simp [missed, summary, hv]
  have hg : r.givenUp = r.cancelled := by simp [givenUp, summary, hv]
  simp [wrapUp, announced, settle, hc, ha, ho, announce, Promise.complete, hv, hm, hg]

/-- Settling and announcing changes none of the answers of a round. -/
theorem wrapUp_answers (hd : r.closed = r.isDone) :
    r.wrapUp.outstanding = r.outstanding ∧ r.wrapUp.missed = r.missed ∧
      r.wrapUp.givenUp = r.givenUp ∧ r.wrapUp.attached = r.attached ∧
      r.wrapUp.closed = r.wrapUp.isDone ∧
      r.wrapUp.closed = (r.closed || (r.attached && r.outstanding.isEmpty)) := by
  cases hc : r.closed with
  | true =>
    rw [wrapUp_of_open (.inl hc)]
    rw [hc] at hd
    simp [hc, ← hd]
  | false =>
    cases ha : r.attached with
    | false =>
      rw [wrapUp_of_open (.inr (.inl ha))]
      simp [ha, hc, hd ▸ hc]
    | true =>
      cases ho : r.outstanding.isEmpty with
      | false =>
        rw [wrapUp_of_open (.inr (.inr ho))]
        simp [ha, hc, hd ▸ hc]
      | true =>
        rw [wrapUp_of_settled (hd ▸ hc) hc ha ho]
        simp [missed, givenUp, summary, isDone, Promise.isDone, ha]

end WrapUp

-- ============================================================================
-- What each change does to the answers
-- ============================================================================

variable (r : Round κ) (n m : NodeId) (p q : PartitionId)

/-- The round with one partition of one node awaited no more. -/
def dropping : Round κ :=
  match r.outstanding.get? n with
  | none => r
  | some ps =>
    { r with
      outstanding :=
        if (ps.erase p).isEmpty then r.outstanding.erase n
        else r.outstanding.insert n (ps.erase p) }

/-- The round with a node awaited no more, and given up if it was. -/
def releasing : Round κ :=
  if r.outstanding.contains n then
    { r with outstanding := r.outstanding.erase n, cancelled := r.cancelled.insert n }
  else r

theorem drain_eq (hc : r.closed = false) : r.drain n p = (r.dropping n p).settle := by
  unfold drain dropping
  rw [if_neg (by simp [hc])]
  cases r.outstanding.get? n <;> rfl

theorem cancel_eq (hc : r.closed = false) : r.cancel n = (r.releasing n).settle := by
  unfold cancel releasing
  rw [if_neg (by simp [hc])]
  cases r.outstanding.contains n <;> rfl

theorem after_drain (hc : r.closed = false) : r.after (.drain n p) = (r.dropping n p).wrapUp :=
  congrArg announced (drain_eq r n p hc)

theorem after_cancel (hc : r.closed = false) : r.after (.cancel n) = (r.releasing n).wrapUp :=
  congrArg announced (cancel_eq r n hc)

theorem after_of_closed (hc : r.closed = true) :
    r.after (.drain n p) = r ∧ r.after (.miss n p) = r ∧ r.after (.cancel n) = r := by
  simp [after, announced, change, drain, markMissed, cancel, hc]

theorem after_miss (hc : r.closed = false) :
    r.after (.miss n p) =
      { r with missing := r.missing.alter n fun old => (old.getD ∅).insert p } := by
  simp [after, announced, change, markMissed, hc]

/-- Dropping a partition touches only what is awaited. -/
theorem dropping_same :
    (r.dropping n p).closed = r.closed ∧ (r.dropping n p).isDone = r.isDone ∧
      (r.dropping n p).missed = r.missed ∧ (r.dropping n p).givenUp = r.givenUp ∧
      (r.dropping n p).attached = r.attached := by
  unfold dropping
  split <;> exact ⟨rfl, rfl, rfl, rfl, rfl⟩

theorem releasing_same :
    (r.releasing n).closed = r.closed ∧ (r.releasing n).isDone = r.isDone ∧
      (r.releasing n).missed = r.missed ∧ (r.releasing n).attached = r.attached := by
  unfold releasing
  split <;> exact ⟨rfl, rfl, rfl, rfl⟩

theorem mem_outstandingFrom_dropping :
    q ∈ (r.dropping n p).outstandingFrom m ↔
      q ∈ r.outstandingFrom m ∧ ¬ (m = n ∧ q = p) := by
  rw [mem_outstandingFrom_iff, mem_outstandingFrom_iff]
  unfold dropping
  cases hn : r.outstanding.get? n with
  | none =>
    by_cases hm : m = n
    · simp [hm, hn]
    · simp [hm]
  | some ps =>
    by_cases he : (ps.erase p).isEmpty = true
    · have hps : ∀ a, a ∈ ps → a = p := by
        intro a ha
        have := SortedSet.eq_empty_iff.mp (SortedSet.isEmpty_iff.mp he) a
        simpa [ha] using this
      simp only [if_pos he, SortedMap.get?_erase]
      by_cases hm : m = n
      · simp only [hm, hn, true_and]
        constructor
        · rintro ⟨_, h, -⟩
          cases h
        · rintro ⟨⟨_, h, hq⟩, hqp⟩
          cases h
          exact absurd (hps q hq) hqp
      · simp [hm]
    · simp only [if_neg he, SortedMap.get?_insert]
      by_cases hm : m = n
      · simp only [hm, hn, true_and]
        constructor
        · rintro ⟨_, h, hq⟩
          cases h
          obtain ⟨hq, hqp⟩ := SortedSet.mem_erase.mp hq
          exact ⟨⟨ps, rfl, hq⟩, hqp⟩
        · rintro ⟨⟨_, h, hq⟩, hqp⟩
          cases h
          exact ⟨_, rfl, SortedSet.mem_erase.mpr ⟨hq, hqp⟩⟩
      · simp [hm]

theorem mem_outstandingFrom_releasing :
    q ∈ (r.releasing n).outstandingFrom m ↔ q ∈ r.outstandingFrom m ∧ m ≠ n := by
  rw [mem_outstandingFrom_iff, mem_outstandingFrom_iff]
  unfold releasing
  cases hn : r.outstanding.contains n with
  | true =>
    by_cases hm : m = n
    · simp [hm]
    · simp [hm]
  | false =>
    by_cases hm : m = n
    · have hnone : r.outstanding.get? n = none := by simpa [SortedMap.contains] using hn
      simp [hm, hnone]
    · simp [hm]

theorem outstandingFrom_congr {r t : Round κ} (h : t.outstanding = r.outstanding) (n : NodeId) :
    t.outstandingFrom n = r.outstandingFrom n := by
  simp only [outstandingFrom, h]

/-- Draining takes one partition of one node off the round and changes no other answer. -/
theorem mem_outstandingFrom_drain (hs : r.Sound) :
    q ∈ (r.after (.drain n p)).outstandingFrom m ↔
      q ∈ r.outstandingFrom m ∧ ¬ (m = n ∧ q = p) := by
  cases hc : r.closed with
  | true =>
    rw [(after_of_closed r n p hc).1, mem_outstandingFrom_iff, hs.settled hc]
    simp
  | false =>
    obtain ⟨h₁, h₂, -⟩ := dropping_same r n p
    have ho := (wrapUp_answers (h₁.trans (hs.closed_iff.trans h₂.symm))).1
    rw [after_drain r n p hc, outstandingFrom_congr ho, mem_outstandingFrom_dropping]

theorem answers_drain (hs : r.Sound) :
    (r.after (.drain n p)).missed = r.missed ∧ (r.after (.drain n p)).givenUp = r.givenUp := by
  cases hc : r.closed with
  | true => rw [(after_of_closed r n p hc).1]; exact ⟨rfl, rfl⟩
  | false =>
    obtain ⟨h₁, h₂, hm, hg, -⟩ := dropping_same r n p
    obtain ⟨-, hm', hg', -⟩ := wrapUp_answers (h₁.trans (hs.closed_iff.trans h₂.symm))
    rw [after_drain r n p hc]
    exact ⟨hm'.trans hm, hg'.trans hg⟩

/-- Giving a node up leaves nothing awaited from it. -/
theorem mem_outstandingFrom_cancel (hs : r.Sound) :
    q ∈ (r.after (.cancel n)).outstandingFrom m ↔ q ∈ r.outstandingFrom m ∧ m ≠ n := by
  cases hc : r.closed with
  | true =>
    rw [(after_of_closed r n 0 hc).2.2, mem_outstandingFrom_iff, hs.settled hc]
    simp
  | false =>
    obtain ⟨h₁, h₂, -⟩ := releasing_same r n
    have ho := (wrapUp_answers (h₁.trans (hs.closed_iff.trans h₂.symm))).1
    rw [after_cancel r n hc, outstandingFrom_congr ho, mem_outstandingFrom_releasing]

theorem missed_cancel (hs : r.Sound) : (r.after (.cancel n)).missed = r.missed := by
  cases hc : r.closed with
  | true => rw [(after_of_closed r n 0 hc).2.2]
  | false =>
    obtain ⟨h₁, h₂, hm, -⟩ := releasing_same r n
    rw [after_cancel r n hc]
    exact (wrapUp_answers (h₁.trans (hs.closed_iff.trans h₂.symm))).2.1.trans hm

/-- A node counts as given up if it was still awaited. -/
theorem mem_givenUp_cancel (hs : r.Sound) :
    m ∈ (r.after (.cancel n)).givenUp ↔ m ∈ r.givenUp ∨ (m = n ∧ n ∈ r.outstandingNodes) := by
  have hnodes : n ∈ r.outstandingNodes ↔ r.outstanding.contains n = true := SortedMap.mem_keys_iff
  cases hc : r.closed with
  | true =>
    rw [(after_of_closed r n 0 hc).2.2, hnodes, hs.settled hc]
    simp [SortedMap.contains]
  | false =>
    have hv : r.outcome.value = none := by
      simpa [isDone, Promise.isDone, hc] using hs.closed_iff.symm
    obtain ⟨h₁, h₂, -⟩ := releasing_same r n
    obtain ⟨-, -, hg, -⟩ := wrapUp_answers (h₁.trans (hs.closed_iff.trans h₂.symm))
    rw [after_cancel r n hc, hg, hnodes]
    unfold releasing
    cases hn : r.outstanding.contains n with
    | true =>
      simp only [if_true, givenUp, summary, hv, SortedSet.mem_insert, and_true]
      exact or_comm
    | false => simp

/-- A miss is added to those of an open round, and changes no other answer. -/
theorem mem_missed_miss (hs : r.Sound) :
    q ∈ (r.after (.miss n p)).missed ↔ q ∈ r.missed ∨ (r.closed = false ∧ q = p) := by
  cases hc : r.closed with
  | true => rw [(after_of_closed r n p hc).2.1]; simp
  | false =>
    have hv : r.outcome.value = none := by
      simpa [isDone, Promise.isDone, hc] using hs.closed_iff.symm
    rw [after_miss r n p hc]
    simp only [missed, summary, hv, SortedSet.mem_unions, SortedMap.mem_values_iff,
      SortedMap.get?_alter, true_and]
    constructor
    · rintro ⟨s, ⟨k, hk⟩, hq⟩
      by_cases hkn : k = n
      · rw [if_pos hkn, Option.some.injEq] at hk
        rw [← hk, SortedSet.mem_insert] at hq
        rcases hq with hq | hq
        · exact .inr hq
        · cases hn : r.missing.get? n with
          | none => simp [hn] at hq
          | some ps =>
            rw [hn] at hq
            exact .inl ⟨ps, ⟨n, hn⟩, hq⟩
      · rw [if_neg hkn] at hk
        exact .inl ⟨s, ⟨k, hk⟩, hq⟩
    · rintro (⟨s, ⟨k, hk⟩, hq⟩ | hq)
      · by_cases hkn : k = n
        · refine ⟨_, ⟨n, if_pos rfl⟩, ?_⟩
          rw [← hkn, hk]
          exact SortedSet.mem_insert.mpr (.inr hq)
        · exact ⟨s, ⟨k, by rw [if_neg hkn]; exact hk⟩, hq⟩
      · exact ⟨_, ⟨n, if_pos rfl⟩, SortedSet.mem_insert.mpr (.inl hq)⟩

theorem answers_miss :
    (r.after (.miss n p)).outstanding = r.outstanding ∧
      (r.after (.miss n p)).givenUp = r.givenUp ∧
      (r.after (.miss n p)).closed = r.closed := by
  cases hc : r.closed with
  | true => rw [(after_of_closed r n p hc).2.1]; exact ⟨rfl, rfl, hc⟩
  | false => rw [after_miss r n p hc]; exact ⟨rfl, rfl, hc⟩

-- ============================================================================
-- Rounds between two changes
-- ============================================================================

/-- A round as it stands between two changes: one that is bound and awaits nothing is closed,
    and nothing has happened to one that is not bound yet. -/
structure Standing (r : Round κ) : Prop extends Sound r where
  closes : r.attached = true → r.outstanding = ∅ → r.closed = true
  fresh : r.attached = false →
    r.closed = false ∧ r.outstanding = ∅ ∧ r.missing = ∅ ∧ r.cancelled = ∅

theorem standing_empty : Standing ({} : Round κ) where
  closed_iff := rfl
  settled _ := rfl
  awaits n ps h := by simp at h
  closes h := by cases h
  fresh _ := ⟨rfl, rfl, rfl, rfl⟩

/-- A round that is bound and awaits nothing from anyone is over. -/
theorem Standing.done_of_none {r : Round κ} (h : r.Standing) (ha : r.attached = true)
    (hn : ∀ n p, p ∉ r.outstandingFrom n) : r.isDone = true := by
  have hempty : r.outstanding = ∅ := by
    refine SortedMap.eq_empty_iff.mpr fun n => ?_
    cases hget : r.outstanding.get? n with
    | none => rfl
    | some ps =>
      refine absurd (SortedSet.eq_empty_iff.mpr fun p hp => ?_) (h.awaits n ps hget)
      exact hn n p (mem_outstandingFrom_iff.mpr ⟨ps, hget, hp⟩)
  exact h.closed_iff.symm.trans (h.closes ha hempty)

theorem wrapUp_awaits {r : Round κ} (hd : r.closed = r.isDone)
    (ha : ∀ n ps, r.outstanding.get? n = some ps → ps ≠ ∅)
    (hs : r.closed = true → r.outstanding = ∅) (hb : r.attached = true) : r.wrapUp.Standing := by
  obtain ⟨ho, -, -, hatt, hdone, hclosed⟩ := wrapUp_answers hd
  refine ⟨⟨hdone, ?_, ?_⟩, ?_, ?_⟩
  · intro hc
    rw [hclosed, Bool.or_eq_true, Bool.and_eq_true] at hc
    rw [ho]
    rcases hc with hc | hc
    · exact hs hc
    · exact SortedMap.isEmpty_iff.mp hc.2
  · intro k ps hk
    rw [ho] at hk
    exact ha k ps hk
  · intro _ he
    rw [ho] at he
    rw [hclosed, hb, he]
    simp [SortedMap.isEmpty_iff]
  · intro hf
    rw [hatt, hb] at hf
    cases hf

theorem dropping_awaits {r : Round κ} (hs : r.Sound) (n : NodeId) (p : PartitionId) :
    ∀ k ps, (r.dropping n p).outstanding.get? k = some ps → ps ≠ ∅ := by
  intro k ps hk
  unfold dropping at hk
  cases hn : r.outstanding.get? n with
  | none =>
    rw [hn] at hk
    exact hs.awaits k ps hk
  | some qs =>
    rw [hn] at hk
    by_cases he : (qs.erase p).isEmpty = true
    · simp only [if_pos he] at hk
      exact hs.awaits k ps (SortedMap.of_get?_erase hk).2
    · simp only [if_neg he] at hk
      rcases SortedMap.of_get?_insert hk with ⟨-, rfl⟩ | ⟨-, hk⟩
      · exact fun h => he (SortedSet.isEmpty_iff.mpr h)
      · exact hs.awaits k ps hk

theorem releasing_awaits {r : Round κ} (hs : r.Sound) (n : NodeId) :
    ∀ k ps, (r.releasing n).outstanding.get? k = some ps → ps ≠ ∅ := by
  intro k ps hk
  unfold releasing at hk
  split at hk
  · exact hs.awaits k ps (SortedMap.of_get?_erase hk).2
  · exact hs.awaits k ps hk

/-- A round that is not bound yet has nothing to drain and nobody to give up. -/
theorem after_of_fresh {r : Round κ} (hs : r.Standing) (ha : r.attached = false) (n : NodeId)
    (p : PartitionId) : r.after (.drain n p) = r ∧ r.after (.cancel n) = r := by
  obtain ⟨hc, ho, -⟩ := hs.fresh ha
  rw [after_drain r n p hc, after_cancel r n hc]
  unfold dropping releasing SortedMap.contains
  simp only [ho, SortedMap.get?_empty, Option.isSome_none, Bool.false_eq_true, if_false]
  exact ⟨wrapUp_of_open (.inr (.inl ha)), wrapUp_of_open (.inr (.inl ha))⟩

theorem standing_drain {r : Round κ} (hs : r.Standing) (n : NodeId) (p : PartitionId) :
    (r.after (.drain n p)).Standing := by
  cases hc : r.closed with
  | true =>
    rw [(after_of_closed r n p hc).1]
    exact hs
  | false =>
    cases ha : r.attached with
    | false =>
      rw [(after_of_fresh hs ha n p).1]
      exact hs
    | true =>
      obtain ⟨h₁, h₂, -, -, h₃⟩ := dropping_same r n p
      rw [after_drain r n p hc]
      refine wrapUp_awaits (h₁.trans (hs.closed_iff.trans h₂.symm)) (dropping_awaits hs.toSound n p)
        ?_ (h₃.trans ha)
      intro h
      rw [h₁, hc] at h
      cases h

theorem standing_cancel {r : Round κ} (hs : r.Standing) (n : NodeId) :
    (r.after (.cancel n)).Standing := by
  cases hc : r.closed with
  | true =>
    rw [(after_of_closed r n 0 hc).2.2]
    exact hs
  | false =>
    cases ha : r.attached with
    | false =>
      rw [(after_of_fresh hs ha n 0).2]
      exact hs
    | true =>
      obtain ⟨h₁, h₂, -, h₃⟩ := releasing_same r n
      rw [after_cancel r n hc]
      refine wrapUp_awaits (h₁.trans (hs.closed_iff.trans h₂.symm)) (releasing_awaits hs.toSound n)
        ?_ (h₃.trans ha)
      intro h
      rw [h₁, hc] at h
      cases h

theorem standing_miss {r : Round κ} (hs : r.Standing) (ha : r.attached = true) (n : NodeId)
    (p : PartitionId) : (r.after (.miss n p)).Standing := by
  cases hc : r.closed with
  | true =>
    rw [(after_of_closed r n p hc).2.1]
    exact hs
  | false =>
    rw [after_miss r n p hc]
    exact ⟨⟨hs.closed_iff, hs.settled, hs.awaits⟩, hs.closes, fun h => by rw [ha] at h; cases h⟩

theorem attached_drain {r : Round κ} (hs : r.Standing) (n : NodeId) (p : PartitionId) :
    (r.after (.drain n p)).attached = r.attached := by
  cases hc : r.closed with
  | true => rw [(after_of_closed r n p hc).1]
  | false =>
    obtain ⟨h₁, h₂, -, -, h₃⟩ := dropping_same r n p
    rw [after_drain r n p hc,
      (wrapUp_answers (h₁.trans (hs.closed_iff.trans h₂.symm))).2.2.2.1, h₃]

theorem attached_cancel {r : Round κ} (hs : r.Standing) (n : NodeId) :
    (r.after (.cancel n)).attached = r.attached := by
  cases hc : r.closed with
  | true => rw [(after_of_closed r n 0 hc).2.2]
  | false =>
    obtain ⟨h₁, h₂, -, h₃⟩ := releasing_same r n
    rw [after_cancel r n hc,
      (wrapUp_answers (h₁.trans (hs.closed_iff.trans h₂.symm))).2.2.2.1, h₃]

theorem attached_miss (r : Round κ) (n : NodeId) (p : PartitionId) :
    (r.after (.miss n p)).attached = r.attached := by
  cases hc : r.closed with
  | true => rw [(after_of_closed r n p hc).2.1]
  | false => rw [after_miss r n p hc]

-- ============================================================================
-- Many partitions at once
-- ============================================================================

/-- The round with each of the partitions listed missed. -/
def missAll (r : Round κ) (node : NodeId) (ps : List PartitionId) : Round κ :=
  ps.foldl (fun r p => r.after (.miss node p)) r

/-- The round with none of the partitions listed awaited from a node. -/
def drainAll (r : Round κ) (node : NodeId) (ps : List PartitionId) : Round κ :=
  ps.foldl (fun r p => r.after (.drain node p)) r

theorem missAll_answers {r : Round κ} (hs : r.Standing) (ha : r.attached = true) (node : NodeId)
    (ps : List PartitionId) :
    (r.missAll node ps).Standing ∧ (r.missAll node ps).attached = true ∧
      (r.missAll node ps).closed = r.closed ∧
      (r.missAll node ps).outstanding = r.outstanding ∧
      (r.missAll node ps).givenUp = r.givenUp ∧
      ∀ q, q ∈ (r.missAll node ps).missed ↔ q ∈ r.missed ∨ (r.closed = false ∧ q ∈ ps) := by
  induction ps generalizing r with
  | nil => exact ⟨hs, ha, rfl, rfl, rfl, by simp [missAll]⟩
  | cons p ps ih =>
    obtain ⟨ho, hg, hc⟩ := answers_miss r node p
    obtain ⟨h₁, h₂, h₃, h₄, h₅, h₆⟩ :=
      ih (standing_miss hs ha node p) ((attached_miss r node p).trans ha)
    refine ⟨h₁, h₂, h₃.trans hc, h₄.trans ho, h₅.trans hg, ?_⟩
    intro q
    refine (h₆ q).trans ?_
    rw [mem_missed_miss r node p q hs.toSound, hc, List.mem_cons]
    constructor
    · rintro ((h | ⟨h, rfl⟩) | ⟨h, hq⟩)
      · exact .inl h
      · exact .inr ⟨h, .inl rfl⟩
      · exact .inr ⟨h, .inr hq⟩
    · rintro (h | ⟨h, rfl | hq⟩)
      · exact .inl (.inl h)
      · exact .inl (.inr ⟨h, rfl⟩)
      · exact .inr ⟨h, hq⟩

theorem drainAll_answers {r : Round κ} (hs : r.Standing) (node : NodeId)
    (ps : List PartitionId) :
    (r.drainAll node ps).Standing ∧ (r.drainAll node ps).attached = r.attached ∧
      (r.drainAll node ps).missed = r.missed ∧ (r.drainAll node ps).givenUp = r.givenUp ∧
      ∀ m q, q ∈ (r.drainAll node ps).outstandingFrom m ↔
        q ∈ r.outstandingFrom m ∧ ¬ (m = node ∧ q ∈ ps) := by
  induction ps generalizing r with
  | nil => exact ⟨hs, rfl, rfl, rfl, by simp [drainAll]⟩
  | cons p ps ih =>
    obtain ⟨h₁, h₂, h₃, h₄, h₅⟩ := ih (standing_drain hs node p)
    obtain ⟨hm, hg⟩ := answers_drain r node p hs.toSound
    refine ⟨h₁, h₂.trans (attached_drain hs node p), h₃.trans hm, h₄.trans hg, ?_⟩
    intro m q
    refine (h₅ m q).trans ?_
    rw [mem_outstandingFrom_drain r node m p q hs.toSound, List.mem_cons]
    constructor
    · rintro ⟨⟨h, hn⟩, hn'⟩
      refine ⟨h, ?_⟩
      rintro ⟨hnode, hq | hq⟩
      · exact hn ⟨hnode, hq⟩
      · exact hn' ⟨hnode, hq⟩
    · rintro ⟨h, hn⟩
      exact ⟨⟨h, fun hc => hn ⟨hc.1, .inl hc.2⟩⟩, fun hc => hn ⟨hc.1, .inr hc.2⟩⟩

-- ============================================================================
-- Binding a round to a plan
-- ============================================================================

theorem after_complete (r : Round κ) :
    r.after .complete = ({ r with attached := true, outstanding := ∅ } : Round κ).wrapUp := rfl

/-- A round that is told to await nothing is over. -/
theorem standing_complete {r : Round κ} (hs : r.closed = r.isDone) :
    (r.after .complete).Standing ∧ (r.after .complete).attached = true := by
  rw [after_complete]
  obtain ⟨-, -, -, ha, -⟩ := wrapUp_answers (r := { r with attached := true, outstanding := ∅ }) hs
  refine ⟨wrapUp_awaits (by exact hs) ?_ (fun _ => rfl) rfl, ha⟩
  intro n ps h
  simp at h

/-- A round that nothing has happened to is over with nothing to tell once it is completed. -/
theorem summary_complete {r : Round κ} (hs : r.Standing) (ha : r.attached = false)
    (e : Exchange) : ((r.attach e).after .complete).summary = some ⟨∅, ∅⟩ := by
  obtain ⟨hc, -, hm, hg⟩ := hs.fresh ha
  have hv : r.outcome.value = none := by
    have hd := hs.closed_iff
    rw [hc] at hd
    simpa [isDone, Promise.isDone] using hd.symm
  have hd : ({ r.attach e with attached := true, outstanding := ∅ } : Round κ).isDone = false := by
    rw [← hs.closed_iff.symm.trans hc]
    rfl
  rw [after_complete, wrapUp_of_settled hd hc rfl rfl]
  show some (Summary.mk _ _) = _
  have hmissed : ({ r.attach e with attached := true, outstanding := ∅ } : Round κ).missed = ∅ := by
    simp only [missed, summary, attach, hv, hm]
    rfl
  have hgiven : ({ r.attach e with attached := true, outstanding := ∅ } : Round κ).givenUp = ∅ := by
    simp only [givenUp, summary, attach, hv, hg]
  rw [hmissed, hgiven]

/-- The round that awaits the demands listed. -/
def appendAll (r : Round κ) (demands : List (NodeId × Demand)) : Round κ :=
  demands.foldl (fun r e => r.append e.1 e.2.partitions) r

theorem appendAll_same {r : Round κ} (hc : r.closed = false) (l : List (NodeId × Demand)) :
    (r.appendAll l).closed = false ∧ (r.appendAll l).attached = r.attached ∧
      (r.appendAll l).exchange = r.exchange ∧ (r.appendAll l).cancelled = r.cancelled ∧
      (r.appendAll l).outcome = r.outcome := by
  induction l generalizing r with
  | nil => exact ⟨hc, rfl, rfl, rfl, rfl⟩
  | cons e l ih =>
    have happ : (r.append e.1 e.2.partitions).closed = false := by simp [append, hc]
    obtain ⟨h₁, h₂, h₃, h₄, h₅⟩ := ih happ
    have hrest : (r.append e.1 e.2.partitions).attached = r.attached ∧
        (r.append e.1 e.2.partitions).exchange = r.exchange ∧
        (r.append e.1 e.2.partitions).cancelled = r.cancelled ∧
        (r.append e.1 e.2.partitions).outcome = r.outcome := by
      simp [append, hc]
    exact ⟨h₁, h₂.trans hrest.1, h₃.trans hrest.2.1, h₄.trans hrest.2.2.1, h₅.trans hrest.2.2.2⟩

/-- Of demands on distinct nodes each node is awaited with its own, if that asks for
    anything. -/
theorem outstanding_appendAll {r : Round κ} (hc : r.closed = false)
    {l : List (NodeId × Demand)} (hl : (l.map Prod.fst).Nodup) (n : NodeId) :
    (r.appendAll l).outstanding.get? n =
      match SortedMap.find n l with
      | some demand => if demand.partitions.isEmpty then r.outstanding.get? n
          else some demand.partitions
      | none => r.outstanding.get? n := by
  induction l generalizing r with
  | nil => rfl
  | cons e l ih =>
    obtain ⟨k, demand⟩ := e
    rw [List.map_cons, List.nodup_cons] at hl
    have happ : (r.append k demand.partitions).closed = false := by simp [append, hc]
    have hget : (r.append k demand.partitions).outstanding.get? n =
        if n = k ∧ demand.partitions.isEmpty = false then some demand.partitions
        else r.outstanding.get? n := by
      simp only [append, hc, Bool.false_eq_true, if_false]
      cases he : demand.partitions.isEmpty <;> simp
    refine (ih happ hl.2).trans ?_
    rw [hget, SortedMap.find]
    by_cases hk : k = n
    · have hnone : SortedMap.find n l = none :=
        SortedMap.find_eq_none_iff.mpr fun h => hl.1 (by rw [hk]; exact h)
      rw [hnone, if_pos hk]
      by_cases he : demand.partitions.isEmpty = true
      · simp [he]
      · simp [he, hk]
    · rw [if_neg hk, if_neg (fun h => hk h.1.symm)]

/-- Awaiting the demands of a plan adds no misses. -/
theorem missing_appendAll {r : Round κ} (hc : r.closed = false)
    (hm : ∀ n ps, r.missing.get? n = some ps → ps = ∅) (l : List (NodeId × Demand)) :
    ∀ n ps, (r.appendAll l).missing.get? n = some ps → ps = ∅ := by
  induction l generalizing r with
  | nil => exact hm
  | cons e l ih =>
    apply ih (r := r.append e.1 e.2.partitions)
    · simp [append, hc]
    · intro n ps h
      simp only [append, hc, Bool.false_eq_true, if_false] at h
      rcases SortedMap.of_get?_insert h with ⟨-, hempty⟩ | ⟨-, h⟩
      · exact hempty.symm
      · exact hm n ps h

end Round

namespace SortedMap

variable {κ ν : Type} [Key κ]

theorem keys_nodup (m : SortedMap κ ν) : (m.toList.map Prod.fst).Nodup :=
  m.ordered.imp fun h => Key.ne_of_below h

end SortedMap

namespace Plan

/-- A plan that asks for something asks some node for some partition. -/
theorem exists_of_not_isEmpty {p : Plan} (h : p.isEmpty = false) :
    ∃ n demand, p.get? n = some demand ∧ demand.partitions.isEmpty = false := by
  simp only [isEmpty, List.all_eq_false] at h
  obtain ⟨demand, hmem, he⟩ := h
  obtain ⟨n, hn⟩ := SortedMap.mem_values_iff.mp hmem
  exact ⟨n, demand, hn, by simpa using he⟩

end Plan

namespace Round

variable {κ : Type}

/-- The round of a plan: bound to its exchange, with every node of it awaited. -/
def started (r : Round κ) (plan : Plan) : Round κ :=
  (r.attach plan.exchange).appendAll plan.demands.toList

/-- What a round that nothing has happened to answers once a plan has started it. -/
theorem started_answers {r : Round κ} (hs : r.Standing) (ha : r.attached = false) (plan : Plan) :
    (r.started plan).closed = false ∧ (r.started plan).attached = true ∧
      (r.started plan).outcome = r.outcome ∧ (r.started plan).exchange = some plan.exchange ∧
      (r.started plan).givenUp = ∅ ∧ (r.started plan).missed = ∅ ∧
      ∀ n, (r.started plan).outstanding.get? n =
        (plan.get? n).bind fun demand =>
          if demand.partitions.isEmpty then none else some demand.partitions := by
  obtain ⟨hc, ho, hm, hg⟩ := hs.fresh ha
  have hc' : (r.attach plan.exchange).closed = false := hc
  obtain ⟨h₁, h₂, h₃, h₄, h₅⟩ := appendAll_same hc' plan.demands.toList
  have hv : (r.started plan).outcome.value = none := by
    have := hs.closed_iff
    rw [hc] at this
    rw [started, h₅]
    simpa [attach, isDone, Promise.isDone] using this.symm
  refine ⟨h₁, h₂, h₅, h₃, ?_, ?_, ?_⟩
  · simp only [givenUp, summary, hv]
    exact h₄.trans hg
  · simp only [missed, summary, hv]
    apply SortedSet.eq_empty_iff.mpr
    intro p hp
    obtain ⟨ps, hps, hp⟩ := SortedSet.mem_unions.mp hp
    obtain ⟨n, hn⟩ := SortedMap.mem_values_iff.mp hps
    have hempty : ∀ n ps, (r.attach plan.exchange).missing.get? n = some ps → ps = ∅ := by
      intro n ps h
      simp [attach, hm] at h
    rw [missing_appendAll hc' hempty plan.demands.toList n ps hn] at hp
    exact SortedSet.not_mem_empty p hp
  · intro n
    rw [started, outstanding_appendAll hc' (SortedMap.keys_nodup plan.demands) n]
    have hnone : (r.attach plan.exchange).outstanding.get? n = none := by simp [attach, ho]
    rw [hnone]
    unfold Plan.get? SortedMap.get?
    cases SortedMap.find n plan.demands.toList <;> rfl

/-- A round started by a plan that asks for something is under way. -/
theorem standing_started {r : Round κ} (hs : r.Standing) (ha : r.attached = false) {plan : Plan}
    (hp : plan.isEmpty = false) : (r.started plan).Standing := by
  obtain ⟨hc, hatt, hout, -, -, -, hget⟩ := started_answers hs ha plan
  refine ⟨⟨?_, ?_, ?_⟩, ?_, ?_⟩
  · rw [hc, isDone, hout, ← isDone, ← hs.closed_iff, (hs.fresh ha).1]
  · intro h
    rw [hc] at h
    cases h
  · intro n ps h
    rw [hget n] at h
    obtain ⟨demand, -, hd⟩ := Option.bind_eq_some_iff.mp h
    by_cases he : demand.partitions.isEmpty = true
    · rw [if_pos he] at hd
      cases hd
    · rw [if_neg he] at hd
      cases hd
      intro hempty
      exact he (SortedSet.isEmpty_iff.mpr hempty)
  · intro _ hempty
    obtain ⟨n, demand, hn, he⟩ := Plan.exists_of_not_isEmpty hp
    have := hget n
    rw [hempty, hn, Option.bind_some, he] at this
    simp at this
  · intro h
    rw [hatt] at h
    cases h

-- ============================================================================
-- Waiting for a round
-- ============================================================================

/-- Waiting for a round changes nothing that the round answers. -/
theorem onDone_answers (r : Round κ) (k : κ) :
    (r.onDone k).1.outstanding = r.outstanding ∧ (r.onDone k).1.missed = r.missed ∧
      (r.onDone k).1.givenUp = r.givenUp ∧ (r.onDone k).1.attached = r.attached ∧
      (r.onDone k).1.closed = r.closed ∧ (r.onDone k).1.summary = r.summary := by
  have hsum : (r.onDone k).1.summary = r.summary := by
    change (r.outcome.onDone k).1.value = r.outcome.value
    unfold Promise.onDone
    split
    · rfl
    · rfl
  refine ⟨rfl, ?_, ?_, rfl, rfl, hsum⟩
  · unfold missed
    rw [hsum]
    rfl
  · unfold givenUp
    rw [hsum]
    rfl

/-- Whoever waits for a round that is over is told the summary there and then. -/
theorem told_onDone (r : Round κ) (k : κ) : (r.onDone k).2 = r.summary := by
  change (r.outcome.onDone k).2 = r.outcome.value
  unfold Promise.onDone
  split
  · next v hv => exact hv.symm
  · next hv => exact hv.symm

/-- Nobody who waits for a round loses its place when another one comes to wait. -/
theorem waiting_onDone (r : Round κ) (k : κ) :
    r.outcome.waiting <+: (r.onDone k).1.outcome.waiting := by
  change r.outcome.waiting <+: (r.outcome.onDone k).1.waiting
  unfold Promise.onDone
  split
  · exact List.prefix_refl _
  · exact List.prefix_append _ _

theorem standing_onDone {r : Round κ} (hs : r.Standing) (k : κ) : (r.onDone k).1.Standing := by
  obtain ⟨-, -, -, -, -, hsum⟩ := onDone_answers r k
  have hdone : (r.onDone k).1.isDone = r.isDone := congrArg Option.isSome hsum
  exact ⟨⟨hs.closed_iff.trans hdone.symm, hs.settled, hs.awaits⟩, hs.closes, hs.fresh⟩

end Round
end Rebalance
