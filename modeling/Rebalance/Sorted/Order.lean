/-
  Rebalance.Sorted.Order

  The strict total orders that sets and maps are kept in. Every order that
  an answer shows (node order, partition order, byte order of keys, version
  order) is an instance of `Key`, so a listing never depends on how a value
  was built.
-/

namespace Rebalance

universe u v

/-- A decidable strict total order: `below` is irreflexive and transitive, and two
    values of which neither is below the other are the same value. -/
class Key (α : Type u) where
  below : α → α → Bool
  below_irrefl : ∀ a, below a a = false
  below_trans : ∀ {a b c}, below a b = true → below b c = true → below a c = true
  eq_of_not_below : ∀ {a b}, below a b = false → below b a = false → a = b

namespace Key

variable {α : Type u} {β : Type v}

/-- Of two values at most one is below the other. -/
theorem below_asymm [Key α] {a b : α} (h : below a b = true) : below b a = false := by
  cases hb : below b a with
  | false => rfl
  | true => exact absurd (below_trans h hb) (by simp [below_irrefl])

/-- A value is not below itself, so what is below it differs from it. -/
theorem ne_of_below [Key α] {a b : α} (h : below a b = true) : a ≠ b := by
  intro hab
  subst hab
  simp [below_irrefl] at h

/-- Not to be below is transitive. -/
theorem not_below_trans [Key α] {a b c : α} (h₁ : below b a = false) (h₂ : below c b = false) :
    below c a = false := by
  cases hca : below c a with
  | false => rfl
  | true =>
    cases hab : below a b with
    | true => exact absurd (below_trans hca hab) (by simp [h₂])
    | false =>
      rw [eq_of_not_below hab h₁, h₂] at hca
      cases hca

/-- The order that an injection into an ordered type induces. -/
@[reducible] def comap [Key β] (f : α → β) (inj : ∀ a b, f a = f b → a = b) : Key α where
  below a b := below (f a) (f b)
  below_irrefl a := below_irrefl (f a)
  below_trans := below_trans
  eq_of_not_below h₁ h₂ := inj _ _ (eq_of_not_below h₁ h₂)

instance : Key Nat where
  below a b := decide (a < b)
  below_irrefl a := by simp
  below_trans h₁ h₂ := by
    simp only [decide_eq_true_eq] at *
    exact Nat.lt_trans h₁ h₂
  eq_of_not_below h₁ h₂ := by
    simp only [decide_eq_false_iff_not] at *
    exact Nat.le_antisymm (Nat.not_lt.mp h₂) (Nat.not_lt.mp h₁)

instance : Key UInt8 := comap UInt8.toNat fun _ _ => UInt8.toNat_inj.mp

instance : Key UInt32 := comap UInt32.toNat fun _ _ => UInt32.toNat_inj.mp

instance : Key UInt64 := comap UInt64.toNat fun _ _ => UInt64.toNat_inj.mp

/-! ## Pairs: the first component decides, then the second -/

/-- Lexicographic comparison of two pairs. -/
def pairBelow [Key α] [Key β] (a b : α × β) : Bool :=
  below a.1 b.1 || (!below b.1 a.1 && below a.2 b.2)

/-- One pair is below another when its first component is, or when neither first
    component is below the other and its second component is. -/
theorem pairBelow_iff [Key α] [Key β] {a b : α × β} :
    pairBelow a b = true ↔
      below a.1 b.1 = true ∨ (a.1 = b.1 ∧ below a.2 b.2 = true) := by
  unfold pairBelow
  cases h₁ : below a.1 b.1 with
  | true => simp
  | false =>
    cases h₂ : below b.1 a.1 with
    | true =>
      have : a.1 ≠ b.1 := fun h => by simp [h, below_irrefl] at h₂
      simp [this]
    | false => simp [eq_of_not_below h₁ h₂]

instance [Key α] [Key β] : Key (α × β) where
  below := pairBelow
  below_irrefl a := by simp [pairBelow, below_irrefl]
  below_trans {a b c} h₁ h₂ := by
    rw [pairBelow_iff] at *
    rcases h₁ with h₁ | ⟨e₁, h₁⟩ <;> rcases h₂ with h₂ | ⟨e₂, h₂⟩
    · exact .inl (below_trans h₁ h₂)
    · exact .inl (e₂ ▸ h₁)
    · exact .inl (e₁ ▸ h₂)
    · exact .inr ⟨e₁.trans e₂, below_trans h₁ h₂⟩
  eq_of_not_below {a b} h₁ h₂ := by
    have n₁ : ¬ pairBelow a b = true := by simp [h₁]
    have n₂ : ¬ pairBelow b a = true := by simp [h₂]
    rw [pairBelow_iff, not_or, not_and] at n₁ n₂
    have e : a.1 = b.1 := eq_of_not_below (by simpa using n₁.1) (by simpa using n₂.1)
    have e' : a.2 = b.2 :=
      eq_of_not_below (by simpa using n₁.2 e) (by simpa using n₂.2 e.symm)
    exact Prod.ext e e'

/-! ## Lists: the first difference decides, and a proper beginning comes first -/

/-- Lexicographic comparison of two lists. -/
def listBelow [Key α] : List α → List α → Bool
  | [], [] => false
  | [], _ :: _ => true
  | _ :: _, [] => false
  | a :: l, b :: m => below a b || (!below b a && listBelow l m)

theorem listBelow_irrefl [Key α] (l : List α) : listBelow l l = false := by
  induction l with
  | nil => rfl
  | cons a l ih => simp [listBelow, below_irrefl, ih]

theorem listBelow_cons_iff [Key α] {a b : α} {l m : List α} :
    listBelow (a :: l) (b :: m) = true ↔
      below a b = true ∨ (a = b ∧ listBelow l m = true) := by
  rw [listBelow]
  cases h₁ : below a b with
  | true => simp
  | false =>
    cases h₂ : below b a with
    | true =>
      have : a ≠ b := fun h => by simp [h, below_irrefl] at h₂
      simp [this]
    | false => simp [eq_of_not_below h₁ h₂]

theorem listBelow_trans [Key α] {l m n : List α} (h₁ : listBelow l m = true)
    (h₂ : listBelow m n = true) : listBelow l n = true := by
  induction l generalizing m n with
  | nil =>
    cases n with
    | nil => cases m <;> simp [listBelow] at h₂
    | cons c n => rfl
  | cons a l ih =>
    cases m with
    | nil => simp [listBelow] at h₁
    | cons b m =>
      cases n with
      | nil => simp [listBelow] at h₂
      | cons c n =>
        rw [listBelow_cons_iff] at *
        rcases h₁ with h₁ | ⟨e₁, h₁⟩ <;> rcases h₂ with h₂ | ⟨e₂, h₂⟩
        · exact .inl (below_trans h₁ h₂)
        · exact .inl (e₂ ▸ h₁)
        · exact .inl (e₁ ▸ h₂)
        · exact .inr ⟨e₁.trans e₂, ih h₁ h₂⟩

theorem eq_of_not_listBelow [Key α] {l m : List α} (h₁ : listBelow l m = false)
    (h₂ : listBelow m l = false) : l = m := by
  induction l generalizing m with
  | nil =>
    cases m with
    | nil => rfl
    | cons b m => simp [listBelow] at h₁
  | cons a l ih =>
    cases m with
    | nil => simp [listBelow] at h₂
    | cons b m =>
      have n₁ : ¬ listBelow (a :: l) (b :: m) = true := by simp [h₁]
      have n₂ : ¬ listBelow (b :: m) (a :: l) = true := by simp [h₂]
      rw [listBelow_cons_iff, not_or, not_and] at n₁ n₂
      have e : a = b := eq_of_not_below (by simpa using n₁.1) (by simpa using n₂.1)
      rw [e, ih (by simpa using n₁.2 e) (by simpa using n₂.2 e.symm)]

instance [Key α] : Key (List α) where
  below := listBelow
  below_irrefl := listBelow_irrefl
  below_trans := listBelow_trans
  eq_of_not_below := eq_of_not_listBelow

instance : Key Char := comap Char.toNat fun _ _ => Char.toNat_inj.mp

/-- Texts are ordered by code points, which is also the order of their UTF-8 bytes. -/
instance : Key String := comap String.toList fun _ _ => String.toList_inj.mp

end Key

end Rebalance
