/-
  Rebalance.Sorted.Map

  Finite maps kept as lists of pairs in strictly ascending key order. What a
  map says about each key determines it (`SortedMap.ext`), and `get?_insert`,
  `get?_erase` and `get?_alter` give each operation through that view.
-/
import Rebalance.Sorted.Set

namespace Rebalance

universe u v w

open Key (below)

/-- A finite map, listed in strictly ascending key order. -/
structure SortedMap (κ : Type u) (ν : Type v) [Key κ] where
  toList : List (κ × ν)
  ordered : (toList.map Prod.fst).Pairwise (fun a b => below a b = true)
deriving DecidableEq

namespace SortedMap

variable {κ : Type u} {ν : Type v} {μ : Type w} [Key κ]

instance : EmptyCollection (SortedMap κ ν) := ⟨⟨[], (∅ : SortedSet κ).ordered⟩⟩

instance : Inhabited (SortedMap κ ν) := ⟨∅⟩

@[simp] theorem toList_empty : (∅ : SortedMap κ ν).toList = [] := rfl

/-- Whether the map has no keys. -/
def isEmpty (m : SortedMap κ ν) : Bool := m.toList.isEmpty

/-- Number of keys. -/
def size (m : SortedMap κ ν) : Nat := m.toList.length

/-- The keys. -/
def keys (m : SortedMap κ ν) : SortedSet κ := ⟨m.toList.map Prod.fst, m.ordered⟩

/-- The values, in key order. -/
def values (m : SortedMap κ ν) : List ν := m.toList.map Prod.snd

/-! ## Look-up -/

/-- The first value listed for a key. -/
def find [DecidableEq κ] (k : κ) : List (κ × ν) → Option ν
  | [] => none
  | (k', v) :: l => if k' = k then some v else find k l

/-- The value of a key. -/
def get? [DecidableEq κ] (m : SortedMap κ ν) (k : κ) : Option ν := find k m.toList

/-- Whether the map has a key. -/
def contains [DecidableEq κ] (m : SortedMap κ ν) (k : κ) : Bool := (m.get? k).isSome

@[simp] theorem get?_empty [DecidableEq κ] (k : κ) : (∅ : SortedMap κ ν).get? k = none := rfl

omit [Key κ] in
theorem find_eq_none_iff [DecidableEq κ] {k : κ} {l : List (κ × ν)} :
    find k l = none ↔ k ∉ l.map Prod.fst := by
  induction l with
  | nil => simp [find]
  | cons p l ih =>
    obtain ⟨k', v⟩ := p
    by_cases h : k' = k
    · simp [find, h]
    · simp [find, h, ih, Ne.symm h]

omit [Key κ] in
theorem mem_of_find [DecidableEq κ] {k : κ} {v : ν} {l : List (κ × ν)}
    (h : find k l = some v) : (k, v) ∈ l := by
  induction l with
  | nil => simp [find] at h
  | cons p l ih =>
    obtain ⟨k', v'⟩ := p
    by_cases hk : k' = k
    · simp only [find, hk, if_true, Option.some.injEq] at h
      simp [hk, h]
    · simp only [find, hk, if_false] at h
      exact List.mem_cons_of_mem _ (ih h)

theorem find_of_mem [DecidableEq κ] {k : κ} {v : ν} {l : List (κ × ν)}
    (ho : (l.map Prod.fst).Pairwise (fun a b => below a b = true)) (h : (k, v) ∈ l) :
    find k l = some v := by
  induction l with
  | nil => simp at h
  | cons p l ih =>
    obtain ⟨k', v'⟩ := p
    rw [List.map_cons, List.pairwise_cons] at ho
    rcases List.mem_cons.mp h with e | h
    · simp only [Prod.mk.injEq] at e
      simp [find, e.1, e.2]
    · have hk : k' ≠ k := Key.ne_of_below (ho.1 k (List.mem_map.mpr ⟨_, h, rfl⟩))
      simp only [find, hk, if_false]
      exact ih ho.2 h

/-- A pair is listed exactly when it is what look-up answers. -/
theorem get?_eq_some_iff [DecidableEq κ] {m : SortedMap κ ν} {k : κ} {v : ν} :
    m.get? k = some v ↔ (k, v) ∈ m.toList :=
  ⟨mem_of_find, find_of_mem m.ordered⟩

/-- A key has a value exactly when it is among the keys. -/
theorem mem_keys_iff [DecidableEq κ] {m : SortedMap κ ν} {k : κ} :
    k ∈ m.keys ↔ (m.get? k).isSome = true := by
  rw [Option.isSome_iff_ne_none, Ne, get?, find_eq_none_iff, Classical.not_not]
  exact Iff.rfl

/-! ## Insertion -/

/-- Put a pair into its place, replacing the pair of the same key. -/
def place (k : κ) (v : ν) : List (κ × ν) → List (κ × ν)
  | [] => [(k, v)]
  | (k', v') :: l =>
    if below k k' then (k, v) :: (k', v') :: l
    else if below k' k then (k', v') :: place k v l
    else (k, v) :: l

theorem mem_map_fst_place {k x : κ} {v : ν} {l : List (κ × ν)} :
    x ∈ (place k v l).map Prod.fst ↔ x = k ∨ x ∈ l.map Prod.fst := by
  induction l with
  | nil => simp [place]
  | cons p l ih =>
    obtain ⟨k', v'⟩ := p
    rw [place]
    by_cases h₁ : below k k' = true
    · rw [if_pos h₁]
      simp
    · by_cases h₂ : below k' k = true
      · rw [if_neg h₁, if_pos h₂]
        simp only [List.map_cons, List.mem_cons, ih]
        exact or_left_comm
      · have e : k = k' := Key.eq_of_not_below (by simpa using h₁) (by simpa using h₂)
        rw [if_neg h₁, if_neg h₂, e]
        simp

/-- The pair of a key that is above all others comes last. -/
theorem place_of_above {k : κ} {v : ν} {l : List (κ × ν)}
    (h : ∀ x ∈ l.map Prod.fst, below x k = true) : place k v l = l ++ [(k, v)] := by
  induction l with
  | nil => rfl
  | cons p l ih =>
    obtain ⟨k', v'⟩ := p
    have hk : below k' k = true := h k' List.mem_cons_self
    rw [place, Key.below_asymm hk, if_neg Bool.false_ne_true, if_pos hk,
      ih fun x hx => h x (List.mem_cons_of_mem k' hx)]
    rfl

theorem place_ordered {k : κ} {v : ν} {l : List (κ × ν)}
    (h : (l.map Prod.fst).Pairwise (fun a b => below a b = true)) :
    ((place k v l).map Prod.fst).Pairwise (fun a b => below a b = true) := by
  induction l with
  | nil => simp [place]
  | cons p l ih =>
    obtain ⟨k', v'⟩ := p
    rw [List.map_cons, List.pairwise_cons] at h
    rw [place]
    by_cases h₁ : below k k' = true
    · rw [if_pos h₁, List.map_cons, List.map_cons, List.pairwise_cons, List.pairwise_cons]
      refine ⟨?_, h.1, h.2⟩
      intro x hx
      rcases List.mem_cons.mp hx with rfl | hx
      · exact h₁
      · exact Key.below_trans h₁ (h.1 x hx)
    · by_cases h₂ : below k' k = true
      · rw [if_neg h₁, if_pos h₂, List.map_cons, List.pairwise_cons]
        refine ⟨?_, ih h.2⟩
        intro x hx
        rcases mem_map_fst_place.mp hx with rfl | hx
        · exact h₂
        · exact h.1 x hx
      · have e : k = k' := Key.eq_of_not_below (by simpa using h₁) (by simpa using h₂)
        rw [if_neg h₁, if_neg h₂, List.map_cons, List.pairwise_cons, e]
        exact h

/-- The map with a value for a key, replacing the one it had. -/
def insert (k : κ) (v : ν) (m : SortedMap κ ν) : SortedMap κ ν :=
  ⟨place k v m.toList, place_ordered m.ordered⟩

theorem find_place [DecidableEq κ] {k x : κ} {v : ν} {l : List (κ × ν)} :
    find x (place k v l) = if x = k then some v else find x l := by
  induction l with
  | nil =>
    by_cases h : x = k
    · simp [place, find, h]
    · simp [place, find, h, Ne.symm h]
  | cons p l ih =>
    obtain ⟨k', v'⟩ := p
    rw [place]
    by_cases h₁ : below k k' = true
    · rw [if_pos h₁]
      by_cases h : x = k
      · simp [find, h]
      · simp [find, h, Ne.symm h]
    · by_cases h₂ : below k' k = true
      · have hne : k' ≠ k := Key.ne_of_below h₂
        rw [if_neg h₁, if_pos h₂, find, find, ih]
        by_cases h : x = k
        · simp [h, hne]
        · simp [h]
      · have e : k = k' := Key.eq_of_not_below (by simpa using h₁) (by simpa using h₂)
        subst e
        rw [if_neg h₁, if_neg h₂, find, find]
        by_cases h : x = k
        · simp [h]
        · simp [h, Ne.symm h]

@[simp] theorem get?_insert [DecidableEq κ] {k x : κ} {v : ν} {m : SortedMap κ ν} :
    (m.insert k v).get? x = if x = k then some v else m.get? x := find_place

theorem get?_insert_self [DecidableEq κ] {k : κ} {v : ν} {m : SortedMap κ ν} :
    (m.insert k v).get? k = some v := get?_insert.trans (if_pos rfl)

theorem get?_insert_of_ne [DecidableEq κ] {k x : κ} {v : ν} {m : SortedMap κ ν} (h : x ≠ k) :
    (m.insert k v).get? x = m.get? x := get?_insert.trans (if_neg h)

/-- A value after an insertion is the one inserted, or was there under another key. -/
theorem of_get?_insert [DecidableEq κ] {k x : κ} {v w : ν} {m : SortedMap κ ν}
    (h : (m.insert k v).get? x = some w) : x = k ∧ v = w ∨ x ≠ k ∧ m.get? x = some w := by
  rw [get?_insert] at h
  split at h
  · next hx => exact .inl ⟨hx, Option.some.inj h⟩
  · next hx => exact .inr ⟨hx, h⟩

/-- The map with the value of a key replaced by what `f` makes of it. -/
def alter [DecidableEq κ] (k : κ) (f : Option ν → ν) (m : SortedMap κ ν) : SortedMap κ ν :=
  m.insert k (f (m.get? k))

@[simp] theorem get?_alter [DecidableEq κ] {k x : κ} {f : Option ν → ν} {m : SortedMap κ ν} :
    (m.alter k f).get? x = if x = k then some (f (m.get? k)) else m.get? x := get?_insert

/-- The map of the pairs listed; of two pairs with one key the later counts. -/
def ofList (l : List (κ × ν)) : SortedMap κ ν := l.foldl (fun m p => m.insert p.1 p.2) ∅

/-! ## Removal and change of values -/

/-- The pairs that satisfy `p`. -/
def filter (p : κ → ν → Bool) (m : SortedMap κ ν) : SortedMap κ ν :=
  ⟨m.toList.filter (fun e => p e.1 e.2),
    m.ordered.sublist (List.filter_sublist.map Prod.fst)⟩

theorem mem_toList_filter {p : κ → ν → Bool} {m : SortedMap κ ν} {e : κ × ν} :
    e ∈ (m.filter p).toList ↔ e ∈ m.toList ∧ p e.1 e.2 = true := List.mem_filter

/-- The map without a key. -/
def erase [DecidableEq κ] (k : κ) (m : SortedMap κ ν) : SortedMap κ ν :=
  m.filter (fun x _ => x ≠ k)

@[simp] theorem get?_erase [DecidableEq κ] {k x : κ} {m : SortedMap κ ν} :
    (m.erase k).get? x = if x = k then none else m.get? x := by
  apply Option.ext
  intro v
  rw [get?_eq_some_iff, erase, mem_toList_filter, ← get?_eq_some_iff]
  by_cases h : x = k
  · simp [h]
  · simp [h]

theorem get?_erase_of_ne [DecidableEq κ] {k x : κ} {m : SortedMap κ ν} (h : x ≠ k) :
    (m.erase k).get? x = m.get? x := get?_erase.trans (if_neg h)

/-- A value after a removal was there under another key. -/
theorem of_get?_erase [DecidableEq κ] {k x : κ} {w : ν} {m : SortedMap κ ν}
    (h : (m.erase k).get? x = some w) : x ≠ k ∧ m.get? x = some w := by
  rw [get?_erase] at h
  split at h
  · cases h
  · next hx => exact ⟨hx, h⟩

/-- The map with every value changed by `f`. -/
def mapValues (f : κ → ν → μ) (m : SortedMap κ ν) : SortedMap κ μ :=
  ⟨m.toList.map (fun e => (e.1, f e.1 e.2)), by
    have e : (m.toList.map (fun e => (e.1, f e.1 e.2))).map Prod.fst = m.toList.map Prod.fst := by
      simp [List.map_map, Function.comp_def]
    rw [e]
    exact m.ordered⟩

omit [Key κ] in
theorem find_map [DecidableEq κ] {f : κ → ν → μ} {k : κ} {l : List (κ × ν)} :
    find k (l.map (fun e => (e.1, f e.1 e.2))) = (find k l).map (f k) := by
  induction l with
  | nil => rfl
  | cons p l ih =>
    obtain ⟨k', v⟩ := p
    by_cases h : k' = k
    · subst h
      simp [find]
    · simp only [List.map_cons, find, h, if_false]
      exact ih

@[simp] theorem get?_mapValues [DecidableEq κ] {f : κ → ν → μ} {m : SortedMap κ ν} {k : κ} :
    (m.mapValues f).get? k = (m.get? k).map (f k) := find_map

/-! ## Look-up determines the map -/

theorem eq_of_find_eq [DecidableEq κ] {l m : List (κ × ν)}
    (hl : (l.map Prod.fst).Pairwise (fun a b => below a b = true))
    (hm : (m.map Prod.fst).Pairwise (fun a b => below a b = true))
    (h : ∀ k, find k l = find k m) : l = m := by
  have hkeys : l.map Prod.fst = m.map Prod.fst := by
    apply SortedSet.eq_of_mem_iff hl hm
    intro k
    have e := congrArg Option.isSome (h k)
    have hl' := find_eq_none_iff (k := k) (l := l)
    have hm' := find_eq_none_iff (k := k) (l := m)
    cases h₁ : find k l with
    | none =>
      have h₂ : find k m = none := by rw [← h k]; exact h₁
      simp [hl'.mp h₁, hm'.mp h₂]
    | some v =>
      have h₂ : find k m = some v := by rw [← h k]; exact h₁
      have m₁ := List.mem_map_of_mem (f := Prod.fst) (mem_of_find h₁)
      have m₂ := List.mem_map_of_mem (f := Prod.fst) (mem_of_find h₂)
      exact ⟨fun _ => m₂, fun _ => m₁⟩
  induction l generalizing m with
  | nil =>
    cases m with
    | nil => rfl
    | cons q m => simp at hkeys
  | cons p l ih =>
    cases m with
    | nil => simp at hkeys
    | cons q m =>
      obtain ⟨k, v⟩ := p
      obtain ⟨k', v'⟩ := q
      simp only [List.map_cons, List.cons.injEq] at hkeys
      obtain ⟨rfl, hkeys⟩ := hkeys
      have hv := h k
      simp only [find, if_true, Option.some.injEq] at hv
      subst hv
      rw [List.map_cons, List.pairwise_cons] at hl hm
      congr 1
      apply ih hl.2 hm.2 _ hkeys
      intro x
      by_cases hx : k = x
      · subst hx
        have n₁ : k ∉ l.map Prod.fst := fun hk => Key.ne_of_below (hl.1 k hk) rfl
        have n₂ : k ∉ m.map Prod.fst := fun hk => Key.ne_of_below (hm.1 k hk) rfl
        rw [find_eq_none_iff.mpr n₁, find_eq_none_iff.mpr n₂]
      · have := h x
        simpa only [find, hx, if_false] using this

/-- Maps that say the same about every key are equal. -/
theorem ext [DecidableEq κ] {m n : SortedMap κ ν} (h : ∀ k, m.get? k = n.get? k) : m = n := by
  cases m with
  | mk l hl =>
    cases n with
    | mk l' hl' =>
      have e : l = l' := eq_of_find_eq hl hl' h
      subst e
      rfl

/-- A key that is removed need not have been inserted. -/
theorem erase_insert [DecidableEq κ] {k : κ} {v : ν} {m : SortedMap κ ν} :
    (m.insert k v).erase k = m.erase k := by
  refine ext fun x => ?_
  by_cases h : x = k
  · rw [get?_erase, get?_erase, if_pos h, if_pos h]
  · rw [get?_erase_of_ne h, get?_erase_of_ne h, get?_insert_of_ne h]

theorem erase_of_none [DecidableEq κ] {k : κ} {m : SortedMap κ ν} (h : m.get? k = none) :
    m.erase k = m := by
  refine ext fun x => ?_
  by_cases hx : x = k
  · rw [get?_erase, if_pos hx, hx, h]
  · exact get?_erase_of_ne hx

end SortedMap

end Rebalance
