/-
  Rebalance.Proofs.RangeText

  The text of a set of partitions.  `Splits` is what the loop over the ascending
  numbers has come to at any point: proper runs, each more than one number away
  from the next, that together have the numbers met so far.  From it the runs are
  the maximal ones of the set, and from the reader below the text determines the
  set.  `extendChecked?` is the same loop with the successor guarded: ascending
  numbers never make it fail, since another number is still to come above it.
-/
import Rebalance.Partition.Ranges
import Mathlib.Data.List.Pairwise

namespace Rebalance

/-- A number with another above it has a successor. -/
theorem toNat_succ_of_lt {p q : PartitionId} (h : p < q) : (p + 1).toNat = p.toNat + 1 := by
  have hq := q.toNat_lt
  rw [UInt32.lt_iff_toNat_lt] at h
  rw [UInt32.toNat_add, UInt32.toNat_one]
  exact Nat.mod_eq_of_lt (by omega)

theorem SortedSet.pairwise_lt (s : SortedSet PartitionId) : s.toList.Pairwise (· < ·) :=
  s.ordered.imp fun h => UInt32.lt_iff_toNat_lt.mpr (of_decide_eq_true h)

namespace Run

/-- A run has the numbers from its first to its last. -/
instance : Membership PartitionId Run := ⟨fun r p => r.first ≤ p ∧ p ≤ r.last⟩

theorem mem_iff {r : Run} {p : PartitionId} :
    p ∈ r ↔ r.first.toNat ≤ p.toNat ∧ p.toNat ≤ r.last.toNat := Iff.rfl

theorem mem_single {p q : PartitionId} : q ∈ (⟨p, p⟩ : Run) ↔ q = p := by
  rw [mem_iff, ← UInt32.toNat_inj]
  exact ⟨fun h => Nat.le_antisymm h.2 h.1, fun h => ⟨Nat.le_of_eq h.symm, Nat.le_of_eq h⟩⟩

/-- A run that goes on has one number more. -/
theorem mem_next {r : Run} {p q : PartitionId} (hr : r.first ≤ r.last)
    (hp : p.toNat = r.last.toNat + 1) : q ∈ ({ r with last := p } : Run) ↔ q ∈ r ∨ q = p := by
  rw [UInt32.le_iff_toNat_le] at hr
  rw [mem_iff, mem_iff, ← UInt32.toNat_inj]
  change r.first.toNat ≤ q.toNat ∧ q.toNat ≤ p.toNat ↔ _
  omega

/-- Between the last number of a run and the first of the next there is a gap. -/
def Apart (r t : Run) : Prop := r.last.toNat + 1 < t.first.toNat

-- ============================================================================
-- Splitting into runs
-- ============================================================================

/-- Proper runs in ascending order, with gaps between them, that have certain numbers together. -/
structure Splits (rs : List Run) (has : PartitionId → Prop) : Prop where
  proper : ∀ r ∈ rs, r.first ≤ r.last
  apart : rs.Pairwise Apart
  covers : ∀ p, (∃ r ∈ rs, p ∈ r) ↔ has p

/-- What comes of the run that is being built, and of the numbers that are still to come. -/
theorem splits_extend {r : Run} {rest : List PartitionId} (hr : r.first ≤ r.last)
    (ho : (r.last :: rest).Pairwise (· < ·)) :
    Splits (extend r rest) (fun p => p ∈ r ∨ p ∈ rest) ∧
      ∀ t ∈ extend r rest, r.first ≤ t.first := by
  induction rest generalizing r with
  | nil =>
    refine ⟨⟨fun t ht => ?_, List.pairwise_singleton _ _, fun p => ?_⟩, fun t ht => ?_⟩
    · rw [List.mem_singleton.mp ht]
      exact hr
    · simp [extend]
    · rw [List.mem_singleton.mp ht]
      exact UInt32.le_refl _
  | cons p rest ih =>
    obtain ⟨habove, htail⟩ := List.pairwise_cons.mp ho
    have hp := habove p List.mem_cons_self
    have hsucc := toNat_succ_of_lt hp
    rw [UInt32.le_iff_toNat_le] at hr
    rw [UInt32.lt_iff_toNat_lt] at hp
    rw [extend]
    split
    · -- The number continues the run.
      next hnext =>
      have hlast : p.toNat = r.last.toNat + 1 := by rw [hnext, hsucc]
      have hfirst : r.first ≤ p := by
        rw [UInt32.le_iff_toNat_le]
        omega
      obtain ⟨hs, hfirsts⟩ := ih (r := { r with last := p }) hfirst htail
      refine ⟨⟨hs.proper, hs.apart, fun q => (hs.covers q).trans ?_⟩, hfirsts⟩
      rw [List.mem_cons, ← or_assoc, mem_next hr hlast]
    · -- The run is complete, and the number begins another.
      next hnext =>
      have hgap : r.last.toNat + 1 < p.toNat := by
        rw [← UInt32.toNat_inj, hsucc] at hnext
        omega
      obtain ⟨hs, hfirsts⟩ := ih (r := ⟨p, p⟩) (UInt32.le_refl p) htail
      have hlater : ∀ t ∈ extend ⟨p, p⟩ rest, p.toNat ≤ t.first.toNat := hfirsts
      refine ⟨⟨fun t ht => ?_, List.pairwise_cons.mpr ⟨fun t ht => ?_, hs.apart⟩, fun q => ?_⟩,
        fun t ht => ?_⟩
      · rcases List.mem_cons.mp ht with rfl | ht
        · exact hr
        · exact hs.proper t ht
      · have := hlater t ht
        rw [Apart]
        omega
      · simp only [List.mem_cons, exists_eq_or_imp, hs.covers q, mem_single]
      · rcases List.mem_cons.mp ht with rfl | ht
        · exact UInt32.le_refl _
        · have := hlater t ht
          rw [UInt32.le_iff_toNat_le]
          omega

theorem splits_ofAscending (s : SortedSet PartitionId) :
    Splits (ofAscending s.toList) (· ∈ s) := by
  have ho := s.pairwise_lt
  suffices h : Splits (ofAscending s.toList) (· ∈ s.toList) from h
  cases hs : s.toList with
  | nil => exact ⟨fun r hr => absurd hr List.not_mem_nil, .nil, fun p => by simp [ofAscending]⟩
  | cons p rest =>
    rw [hs] at ho
    obtain ⟨hsplits, -⟩ := splits_extend (r := ⟨p, p⟩) (UInt32.le_refl p) ho
    refine ⟨hsplits.proper, hsplits.apart, fun q => (hsplits.covers q).trans ?_⟩
    rw [List.mem_cons, mem_single]

-- ============================================================================
-- The runs are maximal
-- ============================================================================

/-- A run of numbers of a set that neither begins after nor ends before one of them. -/
structure IsMaximal (s : SortedSet PartitionId) (r : Run) : Prop where
  proper : r.first ≤ r.last
  inside : ∀ p ∈ r, p ∈ s
  begins : ∀ p ∈ s, p.toNat + 1 ≠ r.first.toNat
  ends : ∀ p ∈ s, p.toNat ≠ r.last.toNat + 1

variable {s : SortedSet PartitionId} {rs : List Run} {r t : Run}

/-- Of two different runs that are split into, one comes before the other. -/
theorem Splits.apart_or (h : Splits rs (· ∈ s)) (hr : r ∈ rs) (ht : t ∈ rs) (hne : r ≠ t) :
    Apart r t ∨ Apart t r := by
  have hsymm : Std.Symm fun r t : Run => Apart r t ∨ Apart t r := ⟨fun _ _ h => h.symm⟩
  have hpair : rs.Pairwise fun r t => Apart r t ∨ Apart t r := h.apart.imp Or.inl
  exact hpair.forall hr ht hne

theorem Splits.isMaximal (h : Splits rs (· ∈ s)) (hr : r ∈ rs) : IsMaximal s r := by
  refine ⟨h.proper r hr, fun p hp => (h.covers p).mp ⟨r, hr, hp⟩, fun p hp hbegin => ?_,
    fun p hp hend => ?_⟩
  all_goals
    obtain ⟨t, ht, hpt⟩ := (h.covers p).mpr hp
    have hproper := h.proper r hr
    rw [UInt32.le_iff_toNat_le] at hproper
    rw [mem_iff] at hpt
    by_cases hrt : r = t
    · subst hrt
      omega
    · rcases h.apart_or hr ht hrt with hgap | hgap
      · rw [Apart] at hgap
        omega
      · rw [Apart] at hgap
        omega

/-- A number of one maximal run that is also in another is not before its beginning. -/
theorem IsMaximal.first_le {p : PartitionId} (hr : IsMaximal s r) (ht : IsMaximal s t) (hpr : p ∈ r)
    (hpt : p ∈ t) : r.first ≤ t.first := by
  refine UInt32.not_lt.mp fun hlt => ?_
  have hbound := r.first.toNat_lt
  rw [UInt32.lt_iff_toNat_lt] at hlt
  rw [mem_iff] at hpr hpt
  -- The number just before the beginning of `r` is in `t`.
  have hq : (UInt32.ofNat (r.first.toNat - 1)).toNat = r.first.toNat - 1 :=
    UInt32.toNat_ofNat_of_lt' (Nat.lt_of_le_of_lt (Nat.sub_le _ 1) hbound)
  refine hr.begins _ (ht.inside (UInt32.ofNat (r.first.toNat - 1)) (mem_iff.mpr ?_)) ?_
  · omega
  · omega

theorem IsMaximal.le_last {p : PartitionId} (hr : IsMaximal s r) (ht : IsMaximal s t) (hpr : p ∈ r)
    (hpt : p ∈ t) : t.last ≤ r.last := by
  refine UInt32.not_lt.mp fun hlt => ?_
  have hsucc := toNat_succ_of_lt hlt
  rw [UInt32.lt_iff_toNat_lt] at hlt
  rw [mem_iff] at hpr hpt
  -- The number just after the end of `r` is in `t`.
  refine hr.ends _ (ht.inside (r.last + 1) (mem_iff.mpr ?_)) hsucc
  omega

/-- Two maximal runs with a number in common are the same. -/
theorem IsMaximal.unique {p : PartitionId} (hr : IsMaximal s r) (ht : IsMaximal s t) (hpr : p ∈ r)
    (hpt : p ∈ t) : r = t := by
  have hfirst : r.first = t.first :=
    UInt32.le_antisymm (hr.first_le ht hpr hpt) (ht.first_le hr hpt hpr)
  have hlast : r.last = t.last :=
    UInt32.le_antisymm (ht.le_last hr hpt hpr) (hr.le_last ht hpr hpt)
  cases r
  cases t
  subst hfirst hlast
  rfl

theorem Splits.mem_iff_isMaximal (h : Splits rs (· ∈ s)) : r ∈ rs ↔ IsMaximal s r := by
  refine ⟨h.isMaximal, fun hmax => ?_⟩
  have hfirst : r.first ∈ r := ⟨UInt32.le_refl _, hmax.proper⟩
  obtain ⟨t, ht, hpt⟩ := (h.covers r.first).mpr (hmax.inside _ hfirst)
  rw [hmax.unique (h.isMaximal ht) hfirst hpt]
  exact ht

-- ============================================================================
-- No successor overflows
-- ============================================================================

/-- The number after a number, if there is one. -/
def succ? (p : PartitionId) : Option PartitionId :=
  if p.toNat + 1 < UInt32.size then some (p + 1) else none

/-- The same splitting, which fails as soon as a successor is to be taken that there is not. -/
def extendChecked? (r : Run) : List PartitionId → Option (List Run)
  | [] => some [r]
  | p :: rest =>
    match succ? r.last with
    | none => none
    | some next =>
      if p = next then extendChecked? { r with last := p } rest
      else (extendChecked? ⟨p, p⟩ rest).map (r :: ·)

/-- The runs of an ascending list, by the splitting that may fail. -/
def ofAscendingChecked? : List PartitionId → Option (List Run)
  | [] => some []
  | p :: rest => extendChecked? ⟨p, p⟩ rest

theorem succ?_of_lt {p q : PartitionId} (h : p < q) : succ? p = some (p + 1) := by
  have hq := q.toNat_lt
  rw [UInt32.lt_iff_toNat_lt] at h
  exact if_pos (Nat.lt_of_le_of_lt h hq)

theorem extendChecked?_eq {r : Run} {rest : List PartitionId}
    (ho : (r.last :: rest).Pairwise (· < ·)) : extendChecked? r rest = some (extend r rest) := by
  induction rest generalizing r with
  | nil => rfl
  | cons p rest ih =>
    obtain ⟨habove, htail⟩ := List.pairwise_cons.mp ho
    rw [extendChecked?, extend, succ?_of_lt (habove p List.mem_cons_self)]
    change (if p = r.last + 1 then _ else _) = _
    split
    · exact ih htail
    · rw [ih (r := ⟨p, p⟩) htail]
      rfl

theorem ofAscendingChecked?_eq (s : SortedSet PartitionId) :
    ofAscendingChecked? s.toList = some (ofAscending s.toList) := by
  have ho := s.pairwise_lt
  cases hs : s.toList with
  | nil => rfl
  | cons p rest =>
    rw [hs] at ho
    exact extendChecked?_eq (r := ⟨p, p⟩) ho

-- ============================================================================
-- The text and how to read it
-- ============================================================================

/-- All numbers of a run. -/
def members (r : Run) : List PartitionId :=
  (List.range' r.first.toNat (r.last.toNat + 1 - r.first.toNat)).map UInt32.ofNat

/-- Reads digits; a number that is not an id is refused. -/
def readNumber? (cs : List Char) : Option PartitionId :=
  if cs ≠ [] ∧ cs.all Char.isDigit = true ∧ Nat.ofDigitChars 10 cs 0 < UInt32.size then
    some (UInt32.ofNat (Nat.ofDigitChars 10 cs 0))
  else none

/-- Reads a number, or two numbers joined by a hyphen. -/
def read? (cs : List Char) : Option Run :=
  match cs.splitOn '-' with
  | [a] => (readNumber? a).map fun p => ⟨p, p⟩
  | [a, b] => (readNumber? a).bind fun p => (readNumber? b).map fun q => ⟨p, q⟩
  | _ => none

/-- Reads runs separated by commas, in any order. Blanks do not count. -/
def readAll? (cs : List Char) : Option (List Run) :=
  let cs := cs.filter (· ≠ ' ')
  if cs = [] then some [] else (cs.splitOn ',').mapM read?

theorem mem_members {p : PartitionId} : p ∈ r.members ↔ p ∈ r := by
  have hlast := r.last.toNat_lt
  rw [members, List.mem_map, mem_iff]
  constructor
  · rintro ⟨n, hn, rfl⟩
    rw [List.mem_range'_1] at hn
    rw [UInt32.toNat_ofNat_of_lt' (by rw [UInt32.size]; omega)]
    omega
  · intro hp
    refine ⟨p.toNat, List.mem_range'_1.mpr ?_, UInt32.ofNat_toNat⟩
    omega

/-- The decimal digits of an id. -/
def digits (p : PartitionId) : List Char := Nat.toDigits 10 p.toNat

theorem isDigit_of_mem_digits {p : PartitionId} {c : Char} (hc : c ∈ digits p) :
    c.isDigit = true := Nat.isDigit_of_mem_toDigits (by decide) (by decide) hc

theorem readNumber?_digits (p : PartitionId) : readNumber? (digits p) = some p := by
  have hvalue : Nat.ofDigitChars 10 (digits p) 0 = p.toNat :=
    Nat.ofDigitChars_toDigits (by decide) (by decide)
  rw [readNumber?, hvalue, UInt32.ofNat_toNat]
  exact if_pos ⟨Nat.toDigits_ne_nil, List.all_eq_true.mpr fun c => isDigit_of_mem_digits,
    p.toNat_lt⟩

/-- What is written of a run: one number, or both ends. -/
def parts (r : Run) : List (List Char) :=
  if r.first = r.last then [digits r.first] else [digits r.first, digits r.last]

theorem chars_eq (r : Run) : r.chars = ['-'].intercalate r.parts := by
  rw [chars, parts]
  split
  · exact (List.append_nil _).symm
  · exact congrArg (digits r.first ++ '-' :: ·) (List.append_nil _).symm

theorem eq_hyphen_or_isDigit {c : Char} (hc : c ∈ r.chars) : c = '-' ∨ c.isDigit = true := by
  rw [chars] at hc
  split at hc
  · exact .inr (isDigit_of_mem_digits hc)
  · rcases List.mem_append.mp hc with hc | hc
    · exact .inr (isDigit_of_mem_digits hc)
    · exact (List.mem_cons.mp hc).imp id isDigit_of_mem_digits

theorem splitOn_chars (r : Run) : r.chars.splitOn '-' = r.parts := by
  have hhyphen : ∀ p, '-' ∉ digits p := fun p h => absurd (isDigit_of_mem_digits h) (by decide)
  rw [chars_eq]
  refine List.splitOn_intercalate '-' (fun l hl => ?_) ?_
  · rw [parts] at hl
    split at hl
    · rw [List.mem_singleton.mp hl]
      exact hhyphen _
    · rcases List.mem_cons.mp hl with rfl | hl
      · exact hhyphen _
      · rw [List.mem_singleton.mp hl]
        exact hhyphen _
  · rw [parts]
    split <;> exact List.cons_ne_nil _ _

theorem read?_chars (r : Run) : read? r.chars = some r := by
  rw [read?, splitOn_chars, parts]
  by_cases hone : r.first = r.last
  · simp only [if_pos hone, readNumber?_digits, Option.map_some]
    exact congrArg (fun q => some (⟨r.first, q⟩ : Run)) hone
  · simp only [if_neg hone, readNumber?_digits, Option.bind_some, Option.map_some]

theorem joinChars_eq (rs : List Run) : joinChars rs = [',', ' '].intercalate (rs.map chars) := by
  induction rs with
  | nil => rfl
  | cons r rest ih =>
    cases rest with
    | nil => exact (List.append_nil _).symm
    | cons t rest =>
      rw [joinChars, ih]
      rfl

/-- Without the blanks, only the commas are left between the runs. -/
theorem filter_joinChars (rs : List Run) :
    (joinChars rs).filter (· ≠ ' ') = [','].intercalate (rs.map chars) := by
  have hblank : ∀ r : Run, r.chars.filter (· ≠ ' ') = r.chars := by
    intro r
    refine List.filter_eq_self.mpr fun c hc => ?_
    rcases eq_hyphen_or_isDigit hc with rfl | hdigit
    · rfl
    · exact decide_eq_true fun heq => absurd (heq ▸ hdigit) (by decide)
  induction rs with
  | nil => rfl
  | cons r rest ih =>
    cases rest with
    | nil => exact (hblank r).trans (List.append_nil _).symm
    | cons t rest =>
      rw [joinChars, List.filter_append, hblank]
      exact congrArg (r.chars ++ ',' :: ·) ih

theorem chars_ne_nil (r : Run) : r.chars ≠ [] := by
  rw [chars]
  split
  · exact Nat.toDigits_ne_nil
  · exact List.append_ne_nil_of_right_ne_nil _ (List.cons_ne_nil _ _)

theorem mapM_read?_chars (rs : List Run) : (rs.map chars).mapM read? = some rs := by
  induction rs with
  | nil => rfl
  | cons r rest ih =>
    rw [List.map_cons, List.mapM_cons, read?_chars, ih]
    rfl

/-- What is written is read back. -/
theorem readAll?_joinChars (rs : List Run) : readAll? (joinChars rs) = some rs := by
  rw [readAll?, filter_joinChars]
  cases rs with
  | nil => rfl
  | cons r rest =>
    have hcomma : ∀ l ∈ (r :: rest).map chars, ',' ∉ l := by
      intro l hl hmem
      obtain ⟨t, -, rfl⟩ := List.mem_map.mp hl
      rcases eq_hyphen_or_isDigit hmem with heq | hdigit
      · exact absurd heq (by decide)
      · exact absurd hdigit (by decide)
    have hsome : [','].intercalate ((r :: rest).map chars) ≠ [] := by
      cases rest with
      | nil => exact List.append_ne_nil_of_left_ne_nil (chars_ne_nil r) _
      | cons t rest => exact List.append_ne_nil_of_left_ne_nil (chars_ne_nil r) _
    simp only [if_neg hsome]
    rw [List.splitOn_intercalate ',' hcomma (List.cons_ne_nil _ _), mapM_read?_chars]

end Run

/-- Reads the text of a set. -/
def readRanges? (text : String) : Option (SortedSet PartitionId) :=
  (Run.readAll? text.toList).map fun rs => SortedSet.ofList (rs.flatMap Run.members)

theorem readRanges?_rangesText (s : SortedSet PartitionId) :
    readRanges? (rangesText s) = some s := by
  rw [readRanges?, rangesText, String.toList_ofList, Run.readAll?_joinChars, Option.map_some]
  refine congrArg some (SortedSet.ext fun p => ?_)
  rw [SortedSet.mem_ofList, List.mem_flatMap, ← (Run.splits_ofAscending s).covers p]
  exact exists_congr fun r => and_congr_right fun _ => Run.mem_members

/-- The text of a set is that of its maximal runs, which are listed in ascending order with gaps
    between them, a comma and a blank after each but the last; reading it gives back the set, so
    different sets have different texts; and no successor that is taken while the runs are
    found is beyond the greatest id. -/
theorem rangesText_is_canonical (s : SortedSet PartitionId) :
    let runs := Run.ofAscending s.toList
    (∀ r, r ∈ runs ↔ Run.IsMaximal s r) ∧ runs.Pairwise Run.Apart ∧
      (rangesText s).toList = [',', ' '].intercalate (runs.map fun r =>
        if r.first = r.last then Run.digits r.first
        else Run.digits r.first ++ '-' :: Run.digits r.last) ∧
      readRanges? (rangesText s) = some s ∧
      (∀ t, rangesText t = rangesText s → t = s) ∧
      Run.ofAscendingChecked? s.toList = some runs := by
  intro runs
  have hsplits := Run.splits_ofAscending s
  refine ⟨fun r => hsplits.mem_iff_isMaximal, hsplits.apart, ?_, readRanges?_rangesText s,
    fun t ht => ?_, Run.ofAscendingChecked?_eq s⟩
  · rw [rangesText, String.toList_ofList, Run.joinChars_eq]
    rfl
  · have hread := readRanges?_rangesText t
    rw [ht, readRanges?_rangesText s] at hread
    exact (Option.some.inj hread).symm

/-- Both ends of the range of ids, and a run of two next to a single number. -/
example : rangesText (SortedSet.ofList [4294967295, 7, 0, 5, 4294967294, 8]) =
    "0, 5, 7-8, 4294967294-4294967295" := by
  decide

end Rebalance
