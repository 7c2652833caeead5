/-
  Rebalance.Proofs.Assignments

  Who owned what, and when.  Assignments are made in any order and for any version,
  also for one that has an assignment already; a history lists them as they were
  made.  `LastAssigned` is what a history says of one version, and `InForce` which
  of its assignments holds at a version.  `Records` ties the two to what is on
  record, and a look-up is read off the history from there.
-/
import Rebalance.Affinity

namespace Rebalance
namespace Affinity

/-- The assignments that were made, in this order. -/
abbrev History := List (Topology × SortedSet PartitionId)

/-- What is done to an affinity after it has come into being. -/
inductive Call where
  | assign (version : Topology) (ps : SortedSet PartitionId)
  | advance (version : Topology)

/-- An affinity after a call. -/
def call (a : Affinity) : Call → Affinity
  | .assign version ps => a.assign version ps
  | .advance version => a.advance version

/-- An affinity after a number of calls. -/
def run (a : Affinity) (calls : List Call) : Affinity := calls.foldl call a

/-- The assignment that a call makes. -/
def Call.assigned? : Call → Option (Topology × SortedSet PartitionId)
  | .assign version ps => some (version, ps)
  | .advance _ => none

/-- The version that a call advances to. -/
def Call.reached? : Call → Option Topology
  | .assign .. => none
  | .advance version => some version

-- ============================================================================
-- Histories
-- ============================================================================

variable {H : History} {v w : Topology} {ps qs : SortedSet PartitionId}

/-- The last assignment that a history has for a version. -/
def LastAssigned (H : History) (w : Topology) (ps : SortedSet PartitionId) : Prop :=
  ∃ earlier later, H = earlier ++ (w, ps) :: later ∧ ∀ x ∈ later, x.1 ≠ w

theorem LastAssigned.mem (hl : LastAssigned H w ps) : (w, ps) ∈ H := by
  obtain ⟨earlier, later, rfl, -⟩ := hl
  exact List.mem_append_right _ List.mem_cons_self

theorem exists_lastAssigned (hx : ∃ x ∈ H, x.1 = w) : ∃ ps, LastAssigned H w ps := by
  induction H with
  | nil =>
    obtain ⟨x, hx, -⟩ := hx
    cases hx
  | cons y rest ih =>
    by_cases hlater : ∃ z ∈ rest, z.1 = w
    · obtain ⟨ps, earlier, later, rfl, hl⟩ := ih hlater
      exact ⟨ps, y :: earlier, later, rfl, hl⟩
    · obtain ⟨x, hx, rfl⟩ := hx
      rcases List.mem_cons.mp hx with rfl | hx
      · exact ⟨x.2, [], rest, rfl, fun z hz heq => hlater ⟨z, hz, heq⟩⟩
      · exact absurd ⟨x, hx, rfl⟩ hlater

/-- Another assignment replaces the one for its version, and no other. -/
theorem lastAssigned_snoc {u : Topology} {rs : SortedSet PartitionId} :
    LastAssigned (H ++ [(u, rs)]) w ps ↔ if w = u then rs = ps else LastAssigned H w ps := by
  constructor
  · rintro ⟨earlier, later, heq, hlater⟩
    rcases List.eq_nil_or_concat later with rfl | ⟨later, x, rfl⟩
    · obtain ⟨-, hlast⟩ := List.append_inj' heq rfl
      cases hlast
      rw [if_pos rfl]
    · rw [List.concat_eq_append, ← List.cons_append, ← List.append_assoc] at heq
      obtain ⟨rfl, hlast⟩ := List.append_inj' heq rfl
      cases hlast
      have hne : u ≠ w := hlater (u, rs) (by simp)
      rw [if_neg (Ne.symm hne)]
      exact ⟨earlier, later, rfl, fun x hx => hlater x (by simp [hx])⟩
  · intro hlast
    by_cases hw : w = u
    · rw [if_pos hw] at hlast
      subst hw hlast
      exact ⟨H, [], rfl, fun x hx => absurd hx List.not_mem_nil⟩
    · rw [if_neg hw] at hlast
      obtain ⟨earlier, later, rfl, hlater⟩ := hlast
      refine ⟨earlier, later ++ [(u, rs)], by simp, fun x hx => ?_⟩
      rcases List.mem_append.mp hx with hx | hx
      · exact hlater x hx
      · rw [List.mem_singleton.mp hx]
        exact Ne.symm hw

/-- The assignment of `w` holds at `v`: it was the last one for `w`, and of all versions that are
    not above `v` and were assigned something, `w` is the greatest. -/
structure InForce (H : History) (v w : Topology) (ps : SortedSet PartitionId) : Prop where
  last : LastAssigned H w ps
  notAbove : Key.below v w = false
  greatest : ∀ x ∈ H, Key.below v x.1 = false → Key.below w x.1 = false

/-- An assignment for `w` is one for `v`: `v` is not below `w`, and comes before the next greater
    version that was assigned something. -/
structure Governs (H : History) (w v : Topology) : Prop where
  notBelow : Key.below v w = false
  before : ∀ x ∈ H, Key.below w x.1 = true → Key.below v x.1 = true

/-- A new assignment is in force where it governs. -/
theorem Governs.inForce (hg : Governs H w v) (ps : SortedSet PartitionId) :
    InForce (H ++ [(w, ps)]) v w ps := by
  refine ⟨lastAssigned_snoc.mpr (if_pos rfl ▸ rfl), hg.notBelow, fun x hx hv => ?_⟩
  rcases List.mem_append.mp hx with hx | hx
  · refine Bool.eq_false_iff.mpr fun hw => ?_
    rw [hg.before x hx hw] at hv
    cases hv
  · rw [List.mem_singleton.mp hx]
    exact Key.below_irrefl w

/-- Elsewhere a new assignment leaves in force what was. -/
theorem InForce.snoc {u : Topology} {rs : SortedSet PartitionId} (hf : InForce H v w ps)
    (hg : ¬ Governs H u v) : InForce (H ++ [(u, rs)]) v w ps := by
  -- Where `u` is not above `v`, some version on record is above `u` and not above `v`.
  have hbetween : Key.below v u = false → Key.below u w = true := by
    intro hu
    cases hw : Key.below u w with
    | true => rfl
    | false =>
      refine absurd ⟨hu, fun x hx hux => ?_⟩ hg
      cases hvx : Key.below v x.1 with
      | true => rfl
      | false =>
        rw [Key.not_below_trans (hf.greatest x hx hvx) hw] at hux
        cases hux
  have hne : w ≠ u := by
    rintro rfl
    exact Key.ne_of_below (hbetween hf.notAbove) rfl
  refine ⟨lastAssigned_snoc.mpr (by rw [if_neg hne]; exact hf.last), hf.notAbove, fun x hx hv => ?_⟩
  rcases List.mem_append.mp hx with hx | hx
  · exact hf.greatest x hx hv
  · rw [List.mem_singleton.mp hx] at hv ⊢
    exact Key.below_asymm (hbetween hv)

-- ============================================================================
-- What is on record
-- ============================================================================

/-- What is on record for every version is the last assignment of a history. -/
def Records (a : Affinity) (H : History) : Prop :=
  ∀ w ps, a.assignments.get? w = some ps ↔ LastAssigned H w ps

variable {a : Affinity}

theorem records_start (v : Topology) (ps : SortedSet PartitionId) :
    (Affinity.start v ps).Records [(v, ps)] := by
  intro w qs
  rw [start, SortedMap.get?_insert, ← List.nil_append [(v, ps)], lastAssigned_snoc]
  by_cases hw : w = v
  · rw [if_pos hw, if_pos hw, Option.some.injEq]
  · rw [if_neg hw, if_neg hw, SortedMap.get?_empty]
    refine iff_of_false (by rintro ⟨⟩) fun hl => List.not_mem_nil hl.mem

theorem Records.assign (hr : a.Records H) (v : Topology) (ps : SortedSet PartitionId) :
    (a.assign v ps).Records (H ++ [(v, ps)]) := by
  intro w qs
  rw [Affinity.assign, SortedMap.get?_insert, lastAssigned_snoc]
  by_cases hw : w = v
  · rw [if_pos hw, if_pos hw, Option.some.injEq]
  · rw [if_neg hw, if_neg hw]
    exact hr w qs

theorem Records.run (hr : a.Records H) (calls : List Call) :
    (a.run calls).Records (H ++ calls.filterMap Call.assigned?) := by
  induction calls generalizing a H with
  | nil => rwa [List.filterMap_nil, List.append_nil]
  | cons c calls ih =>
    cases c with
    | assign v ps =>
      have := ih (hr.assign v ps)
      rwa [List.append_assoc] at this
    | advance v => exact ih (a := a.advance v) hr

/-- The same versions are on record as in the history. -/
theorem Records.mem_iff (hr : a.Records H) :
    (∃ x ∈ a.assignments.toList, x.1 = w) ↔ ∃ x ∈ H, x.1 = w := by
  constructor
  · rintro ⟨⟨w, ps⟩, hx, rfl⟩
    exact ⟨(w, ps), ((hr w ps).mp (SortedMap.get?_eq_some_iff.mpr hx)).mem, rfl⟩
  · rintro ⟨x, hx, rfl⟩
    obtain ⟨ps, hl⟩ := exists_lastAssigned ⟨x, hx, rfl⟩
    exact ⟨(x.1, ps), SortedMap.get?_eq_some_iff.mp ((hr x.1 ps).mpr hl), rfl⟩

-- ============================================================================
-- Looking up
-- ============================================================================

/-- `w` with `ps` is the greatest entry of a list that is not above `v`. -/
structure Selects (l : History) (v w : Topology) (ps : SortedSet PartitionId) : Prop where
  mem : (w, ps) ∈ l
  notAbove : Key.below v w = false
  greatest : ∀ x ∈ l, Key.below v x.1 = false → Key.below w x.1 = false

variable {l : History}

/-- Where a look-up finds nothing, everything is above. -/
theorem above_of_greatestUpTo (ho : (l.map Prod.fst).Pairwise fun a b => Key.below a b = true)
    (hg : greatestUpTo v l = none) : ∀ x ∈ l, Key.below v x.1 = true := by
  cases l with
  | nil => exact fun x hx => absurd hx List.not_mem_nil
  | cons e rest =>
    rw [List.map_cons, List.pairwise_cons] at ho
    have hfirst : Key.below v e.1 = true := by
      rw [greatestUpTo] at hg
      split at hg
      · next hv => exact hv
      · cases hg
    intro x hx
    rcases List.mem_cons.mp hx with rfl | hx
    · exact hfirst
    · exact Key.below_trans hfirst (ho.1 x.1 (List.mem_map_of_mem hx))

/-- What a look-up finds belongs to the greatest version that is not above. -/
theorem selects_of_greatestUpTo (ho : (l.map Prod.fst).Pairwise fun a b => Key.below a b = true)
    (hg : greatestUpTo v l = some ps) : ∃ w, Selects l v w ps := by
  induction l generalizing ps with
  | nil => cases hg
  | cons e rest ih =>
    obtain ⟨w, qs⟩ := e
    rw [List.map_cons, List.pairwise_cons] at ho
    rw [greatestUpTo] at hg
    split at hg
    · cases hg
    · next hv =>
      cases hrest : greatestUpTo v rest with
      | none =>
        rw [hrest, Option.getD_none, Option.some.injEq] at hg
        subst hg
        have habove := above_of_greatestUpTo ho.2 hrest
        refine ⟨w, List.mem_cons_self, Bool.eq_false_iff.mpr hv, fun x hx hvx => ?_⟩
        rcases List.mem_cons.mp hx with rfl | hx
        · exact Key.below_irrefl w
        · rw [habove x hx] at hvx
          cases hvx
      | some rs =>
        rw [hrest, Option.getD_some, Option.some.injEq] at hg
        subst hg
        obtain ⟨u, hu⟩ := ih ho.2 hrest
        refine ⟨u, List.mem_cons_of_mem _ hu.mem, hu.notAbove, fun x hx hvx => ?_⟩
        rcases List.mem_cons.mp hx with rfl | hx
        · exact Key.below_asymm (ho.1 u (List.mem_map_of_mem hu.mem))
        · exact hu.greatest x hx hvx

/-- There is one such entry at most, if no version is listed twice. -/
theorem Selects.unique {rs : SortedSet PartitionId} {u : Topology}
    (ho : (l.map Prod.fst).Pairwise fun a b => Key.below a b = true)
    (h₁ : Selects l v w ps) (h₂ : Selects l v u rs) : ps = rs := by
  have hversion : w = u :=
    Key.eq_of_not_below (h₁.greatest _ h₂.mem h₂.notAbove) (h₂.greatest _ h₁.mem h₁.notAbove)
  subst hversion
  exact Option.some.inj ((SortedMap.find_of_mem ho h₁.mem).symm.trans (SortedMap.find_of_mem ho h₂.mem))

/-- What is in force is what is selected from the record. -/
theorem Records.inForce_iff (hr : a.Records H) :
    InForce H v w ps ↔ Selects a.assignments.toList v w ps := by
  have hgreatest : (∀ x ∈ H, Key.below v x.1 = false → Key.below w x.1 = false) ↔
      ∀ x ∈ a.assignments.toList, Key.below v x.1 = false → Key.below w x.1 = false := by
    constructor
    · intro hall x hx
      obtain ⟨y, hy, hxy⟩ := hr.mem_iff.mp ⟨x, hx, rfl⟩
      exact hxy ▸ hall y hy
    · intro hall x hx
      obtain ⟨y, hy, hxy⟩ := hr.mem_iff.mpr ⟨x, hx, rfl⟩
      exact hxy ▸ hall y hy
  have hlast : LastAssigned H w ps ↔ (w, ps) ∈ a.assignments.toList :=
    (hr w ps).symm.trans SortedMap.get?_eq_some_iff
  exact ⟨fun hf => ⟨hlast.mp hf.last, hf.notAbove, hgreatest.mp hf.greatest⟩,
    fun hs => ⟨hlast.mpr hs.mem, hs.notAbove, hgreatest.mpr hs.greatest⟩⟩

/-- A look-up answers with the assignment in force, and with nothing below the first version. -/
theorem Records.ownedAt_cases (hr : a.Records H) (v : Topology) :
    (∃ w, InForce H v w (a.ownedAt v)) ∨
      (∀ x ∈ H, Key.below v x.1 = true) ∧ a.ownedAt v = ∅ := by
  unfold ownedAt
  cases hg : greatestUpTo v a.assignments.toList with
  | none =>
    refine .inr ⟨fun x hx => ?_, rfl⟩
    obtain ⟨y, hy, hxy⟩ := hr.mem_iff.mpr ⟨x, hx, rfl⟩
    exact hxy ▸ above_of_greatestUpTo a.assignments.ordered hg y hy
  | some ps =>
    obtain ⟨w, hs⟩ := selects_of_greatestUpTo a.assignments.ordered hg
    exact .inl ⟨w, hr.inForce_iff.mpr hs⟩

theorem Records.ownedAt_of_inForce (hr : a.Records H) (hf : InForce H v w ps) :
    a.ownedAt v = ps := by
  rcases hr.ownedAt_cases v with ⟨u, hu⟩ | ⟨habove, -⟩
  · exact Selects.unique a.assignments.ordered (hr.inForce_iff.mp hu) (hr.inForce_iff.mp hf)
  · have := habove _ hf.last.mem
    rw [hf.notAbove] at this
    cases this

theorem Records.ownedAt_of_above (hr : a.Records H) (habove : ∀ x ∈ H, Key.below v x.1 = true) :
    a.ownedAt v = ∅ := by
  rcases hr.ownedAt_cases v with ⟨u, hu⟩ | ⟨-, hempty⟩
  · have := habove _ hu.last.mem
    rw [hu.notAbove] at this
    cases this
  · exact hempty

/-- An assignment answers where it governs, and leaves every other look-up as it was. -/
theorem Records.ownedAt_assign (hr : a.Records H) (w v : Topology) (ps : SortedSet PartitionId) :
    (Governs H w v → (a.assign w ps).ownedAt v = ps) ∧
      (¬ Governs H w v → (a.assign w ps).ownedAt v = a.ownedAt v) := by
  refine ⟨fun hg => (hr.assign w ps).ownedAt_of_inForce (hg.inForce ps), fun hg => ?_⟩
  rcases hr.ownedAt_cases v with ⟨u, hu⟩ | ⟨habove, hempty⟩
  · exact (hr.assign w ps).ownedAt_of_inForce (hu.snoc hg)
  · rw [hempty]
    refine (hr.assign w ps).ownedAt_of_above fun x hx => ?_
    rcases List.mem_append.mp hx with hx | hx
    · exact habove x hx
    · rw [List.mem_singleton.mp hx]
      cases hv : Key.below v w with
      | true => rfl
      | false => exact absurd ⟨hv, fun y hy _ => habove y hy⟩ hg

-- ============================================================================
-- The current version
-- ============================================================================

/-- A version is the greatest of some. -/
def IsGreatest (v : Topology) (vs : List Topology) : Prop :=
  v ∈ vs ∧ ∀ w ∈ vs, Key.below v w = false

theorem current_run (a : Affinity) (calls : List Call) :
    IsGreatest (a.run calls).current (a.current :: calls.filterMap Call.reached?) := by
  induction calls generalizing a with
  | nil =>
    refine ⟨List.mem_cons_self, fun w hw => ?_⟩
    rw [List.mem_singleton.mp hw]
    exact Key.below_irrefl _
  | cons c calls ih =>
    cases c with
    | assign v ps => exact ih (a.assign v ps)
    | advance v =>
      obtain ⟨hmem, hmax⟩ := ih (a.advance v)
      have hlatest := hmax _ List.mem_cons_self
      refine ⟨?_, fun w hw => ?_⟩
      · rcases List.mem_cons.mp hmem with hcurrent | hlater
        · rcases Topology.latest_eq_or a.current v with heq | heq
          · exact List.mem_cons.mpr (.inl (hcurrent.trans heq))
          · exact List.mem_cons.mpr (.inr (List.mem_cons.mpr (.inl (hcurrent.trans heq))))
        · exact List.mem_cons_of_mem _ (List.mem_cons_of_mem _ hlater)
      · rcases List.mem_cons.mp hw with rfl | hw
        · exact Key.not_below_trans (Topology.not_below_latest _ _) hlatest
        · rcases List.mem_cons.mp hw with rfl | hw
          · exact Key.not_below_trans (Topology.not_below_latest_right _ _) hlatest
          · exact hmax w (List.mem_cons_of_mem _ hw)

-- ============================================================================
-- Every sequence of calls
-- ============================================================================

/-- After any calls, with the assignments that were made so far as history: at every version the
    partitions owned are those of the assignment in force, and none below the first version that was
    assigned something; both look-ups agree; a further assignment is found from its version up to
    the next greater one, and changes no other look-up; and the current version is the greatest of
    the first one and those advanced to, so further calls never take it back. -/
theorem lookups_follow_history (first : Topology) (owned : SortedSet PartitionId)
    (calls : List Call) :
    let a := (Affinity.start first owned).run calls
    let H : History := (first, owned) :: calls.filterMap Call.assigned?
    (∀ v, (∃ w, InForce H v w (a.ownedAt v)) ∨
      (∀ x ∈ H, Key.below v x.1 = true) ∧ a.ownedAt v = ∅) ∧
    (∀ v w ps, InForce H v w ps → a.ownedAt v = ps) ∧
    (∀ p v, a.isOwned p v = true ↔ p ∈ a.ownedAt v) ∧
    (∀ w ps v, (Governs H w v → (a.assign w ps).ownedAt v = ps) ∧
      (¬ Governs H w v → (a.assign w ps).ownedAt v = a.ownedAt v)) ∧
    IsGreatest a.current (first :: calls.filterMap Call.reached?) ∧
    ∀ more, Key.below (a.run more).current a.current = false := by
  intro a H
  have hr : a.Records H := (records_start first owned).run calls
  exact ⟨hr.ownedAt_cases, fun v w ps => hr.ownedAt_of_inForce, fun p v => isOwned_iff,
    fun w ps v => hr.ownedAt_assign w v ps, current_run (Affinity.start first owned) calls,
    fun more => (current_run a more).2 _ List.mem_cons_self⟩

/-- Assignments for 2.0 and 1.0 come after one for 3.0, and the second for 1.0 replaces the first. -/
example :
    let a := (Affinity.start ⟨1, 0⟩ (SortedSet.ofList [0, 1])).run
      [.assign ⟨3, 0⟩ (SortedSet.ofList [7]), .advance ⟨3, 0⟩, .assign ⟨2, 0⟩ (SortedSet.ofList [4]),
        .assign ⟨1, 0⟩ (SortedSet.ofList [1, 2]), .advance ⟨2, 5⟩]
    [⟨0, 9⟩, ⟨1, 5⟩, ⟨2, 4294967295⟩, ⟨3, 1⟩].map (fun v => (a.ownedAt v).toList) =
      [[], [1, 2], [4], [7]] ∧ a.current = ⟨3, 0⟩ := by
  decide

end Affinity
end Rebalance
