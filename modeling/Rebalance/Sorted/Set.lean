/-
  Rebalance.Sorted.Set

  Finite sets kept as strictly ascending lists. Two sets with the same
  members are the same value (`SortedSet.ext`), so equality of sets needs no
  quotient, and listing a set lists it in order.
-/
import Rebalance.Sorted.Order

namespace Rebalance

universe u v

open Key (below)

/-- A finite set, listed in strictly ascending order. -/
structure SortedSet (α : Type u) [Key α] where
  toList : List α
  ordered : toList.Pairwise (fun a b => below a b = true)
deriving DecidableEq

namespace SortedSet

variable {α : Type u} {β : Type v} [Key α]

instance : Membership α (SortedSet α) := ⟨fun s a => a ∈ s.toList⟩

theorem mem_def {a : α} {s : SortedSet α} : a ∈ s ↔ a ∈ s.toList := Iff.rfl

instance [DecidableEq α] (a : α) (s : SortedSet α) : Decidable (a ∈ s) :=
  inferInstanceAs (Decidable (a ∈ s.toList))

instance : EmptyCollection (SortedSet α) := ⟨⟨[], .nil⟩⟩

instance : Inhabited (SortedSet α) := ⟨∅⟩

@[simp] theorem toList_empty : (∅ : SortedSet α).toList = [] := rfl

@[simp] theorem not_mem_empty (a : α) : a ∉ (∅ : SortedSet α) := List.not_mem_nil

/-- Whether the set has no members. -/
def isEmpty (s : SortedSet α) : Bool := s.toList.isEmpty

/-- Number of members. -/
def size (s : SortedSet α) : Nat := s.toList.length

theorem isEmpty_iff {s : SortedSet α} : s.isEmpty = true ↔ s = ∅ := by
  cases s with
  | mk l h =>
    cases l with
    | nil => simp [isEmpty, EmptyCollection.emptyCollection]
    | cons a l => simp [isEmpty, EmptyCollection.emptyCollection]

/-! ## Insertion -/

/-- Put a member into its place; a member already there stays. -/
def place (a : α) : List α → List α
  | [] => [a]
  | b :: l => if below a b then a :: b :: l else if below b a then b :: place a l else b :: l

theorem mem_place {a x : α} {l : List α} : x ∈ place a l ↔ x = a ∨ x ∈ l := by
  induction l with
  | nil => simp [place]
  | cons b l ih =>
    rw [place]
    by_cases h₁ : below a b = true
    · rw [if_pos h₁]
      exact List.mem_cons
    · by_cases h₂ : below b a = true
      · rw [if_neg h₁, if_pos h₂]
        simp only [List.mem_cons, ih]
        exact or_left_comm
      · have hab : a = b := Key.eq_of_not_below (by simpa using h₁) (by simpa using h₂)
        rw [if_neg h₁, if_neg h₂, hab]
        simp only [List.mem_cons, or_self_left]

theorem place_ordered {a : α} {l : List α}
    (h : l.Pairwise (fun a b => below a b = true)) :
    (place a l).Pairwise (fun a b => below a b = true) := by
  induction l with
  | nil => simp [place]
  | cons b l ih =>
    rw [List.pairwise_cons] at h
    rw [place]
    by_cases h₁ : below a b = true
    · rw [if_pos h₁, List.pairwise_cons, List.pairwise_cons]
      refine ⟨?_, h.1, h.2⟩
      intro x hx
      rcases List.mem_cons.mp hx with rfl | hx
      · exact h₁
      · exact Key.below_trans h₁ (h.1 x hx)
    · by_cases h₂ : below b a = true
      · rw [if_neg h₁, if_pos h₂, List.pairwise_cons]
        refine ⟨?_, ih h.2⟩
        intro x hx
        rcases mem_place.mp hx with rfl | hx
        · exact h₂
        · exact h.1 x hx
      · rw [if_neg h₁, if_neg h₂, List.pairwise_cons]
        exact h

/-- The set with one more member. -/
def insert (a : α) (s : SortedSet α) : SortedSet α := ⟨place a s.toList, place_ordered s.ordered⟩

@[simp] theorem mem_insert {a x : α} {s : SortedSet α} :
    x ∈ s.insert a ↔ x = a ∨ x ∈ s := mem_place

/-- The set of the values listed, in any order and with repeats. -/
def ofList (l : List α) : SortedSet α := l.foldr insert ∅

@[simp] theorem mem_ofList {x : α} {l : List α} : x ∈ ofList l ↔ x ∈ l := by
  induction l with
  | nil => simp [ofList]
  | cons a l ih => simp [ofList, ← ih]

/-- All members of either set. -/
def union (s t : SortedSet α) : SortedSet α := s.toList.foldr insert t

@[simp] theorem mem_union {x : α} {s t : SortedSet α} : x ∈ s.union t ↔ x ∈ s ∨ x ∈ t := by
  rw [mem_def (s := s)]
  unfold union
  induction s.toList with
  | nil => simp
  | cons a l ih => simp [ih, or_assoc]

/-! ## Removal -/

/-- The members that satisfy `p`. -/
def filter (p : α → Bool) (s : SortedSet α) : SortedSet α :=
  ⟨s.toList.filter p, s.ordered.filter p⟩

@[simp] theorem mem_filter {p : α → Bool} {x : α} {s : SortedSet α} :
    x ∈ s.filter p ↔ x ∈ s ∧ p x = true := List.mem_filter

/-- The set without one member. -/
def erase [DecidableEq α] (a : α) (s : SortedSet α) : SortedSet α := s.filter (fun b => b ≠ a)

@[simp] theorem mem_erase [DecidableEq α] {a x : α} {s : SortedSet α} :
    x ∈ s.erase a ↔ x ∈ s ∧ x ≠ a := by
  simp [erase]

/-! ## Members determine the set -/

theorem eq_of_mem_iff {l m : List α} (hl : l.Pairwise (fun a b => below a b = true))
    (hm : m.Pairwise (fun a b => below a b = true)) (h : ∀ x, x ∈ l ↔ x ∈ m) : l = m := by
  induction l generalizing m with
  | nil =>
    cases m with
    | nil => rfl
    | cons b m => exact absurd ((h b).mpr (by simp)) (by simp)
  | cons a l ih =>
    cases m with
    | nil => exact absurd ((h a).mp (by simp)) (by simp)
    | cons b m =>
      rw [List.pairwise_cons] at hl hm
      have hab : a = b := by
        apply Key.eq_of_not_below
        · rcases List.mem_cons.mp ((h b).mpr (by simp)) with e | hb
          · simp [e, Key.below_irrefl]
          · rcases List.mem_cons.mp ((h a).mp (by simp)) with e | ha
            · simp [e, Key.below_irrefl]
            · exact Key.below_asymm (hm.1 a ha)
        · rcases List.mem_cons.mp ((h a).mp (by simp)) with e | ha
          · simp [e, Key.below_irrefl]
          · rcases List.mem_cons.mp ((h b).mpr (by simp)) with e | hb
            · simp [e, Key.below_irrefl]
            · exact Key.below_asymm (hl.1 b hb)
      subst hab
      congr 1
      apply ih hl.2 hm.2
      intro x
      constructor
      · intro hx
        rcases List.mem_cons.mp ((h x).mp (by simp [hx])) with e | hx'
        · exact absurd e.symm (Key.ne_of_below (hl.1 x hx))
        · exact hx'
      · intro hx
        rcases List.mem_cons.mp ((h x).mpr (by simp [hx])) with e | hx'
        · exact absurd e.symm (Key.ne_of_below (hm.1 x hx))
        · exact hx'

/-- Sets with the same members are equal. -/
theorem ext {s t : SortedSet α} (h : ∀ x, x ∈ s ↔ x ∈ t) : s = t := by
  cases s with
  | mk l hl =>
    cases t with
    | mk m hm =>
      have e : l = m := eq_of_mem_iff hl hm h
      subst e
      rfl

/-- Listing a set and gathering the list gives the set back. -/
@[simp] theorem ofList_toList (s : SortedSet α) : ofList s.toList = s :=
  ext fun _ => mem_ofList

/-- Union of the sets listed. -/
def unions (l : List (SortedSet α)) : SortedSet α := l.foldr union ∅

@[simp] theorem mem_unions {x : α} {l : List (SortedSet α)} :
    x ∈ unions l ↔ ∃ s ∈ l, x ∈ s := by
  induction l with
  | nil => simp [unions]
  | cons s l ih =>
    have e : unions (s :: l) = s.union (unions l) := rfl
    simp [e, ih]

end SortedSet

end Rebalance
