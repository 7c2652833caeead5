/-
  Rebalance.Version

  The two version numbers of the protocol, each a pair compared
  lexicographically: the version of the cluster's topology, and the revision
  of a single entry.
-/
import Rebalance.Ident

namespace Rebalance

/-- Version of the cluster's topology: `major` counts membership changes, `minor`
    assignment changes within one membership. -/
structure Topology where
  major : UInt64
  minor : UInt32
deriving DecidableEq, Inhabited

namespace Topology

instance : Key Topology :=
  Key.comap (fun t => (t.major, t.minor)) fun a b h => by
    cases a
    cases b
    simp only [Prod.mk.injEq] at h
    simp [h]

/-- The membership decides, and within one membership the assignment. -/
theorem below_iff {a b : Topology} :
    Key.below a b = true ↔ a.major < b.major ∨ a.major = b.major ∧ a.minor < b.minor := by
  refine Key.pairBelow_iff.trans ?_
  rw [UInt64.lt_iff_toNat_lt, UInt32.lt_iff_toNat_lt]
  exact or_congr decide_eq_true_iff (and_congr_right fun _ => decide_eq_true_iff)

/-- The version before any change. -/
def initial : Topology := ⟨0, 0⟩

/-- The next membership starts its assignments anew. -/
def nextMajor (t : Topology) : Topology := ⟨t.major + 1, 0⟩

/-- The next assignment within the same membership. -/
def nextMinor (t : Topology) : Topology := ⟨t.major, t.minor + 1⟩

/-- Both numbers, separated by a point. -/
def text (t : Topology) : String := toString t.major.toNat ++ "." ++ toString t.minor.toNat

/-- The later of two versions. -/
def latest (a b : Topology) : Topology := if Key.below a b then b else a

theorem latest_eq_or (a b : Topology) : a.latest b = a ∨ a.latest b = b := by
  unfold latest
  split
  · exact .inr rfl
  · exact .inl rfl

theorem not_below_latest (a b : Topology) : Key.below (a.latest b) a = false := by
  unfold latest
  split
  · next h => exact Key.below_asymm h
  · exact Key.below_irrefl a

theorem not_below_latest_right (a b : Topology) : Key.below (a.latest b) b = false := by
  unfold latest
  split
  · exact Key.below_irrefl b
  · next h => exact Bool.eq_false_iff.mpr h

/-- Both numbers with their names. -/
def describe (t : Topology) : String :=
  "TopologyVersion \x7b major: " ++ toString t.major.toNat ++ ", minor: " ++
    toString t.minor.toNat ++ " \x7d"

end Topology

/-- Revision of an entry: `order` is the global update order, `origin` the order of the
    node that made the update, which breaks ties. -/
structure Revision where
  order : UInt64
  origin : UInt32
deriving DecidableEq, Inhabited

namespace Revision

instance : Key Revision :=
  Key.comap (fun r => (r.order, r.origin)) fun a b h => by
    cases a
    cases b
    simp only [Prod.mk.injEq] at h
    simp [h]

/-- The revision of a slot that was never written. -/
def initial : Revision := ⟨0, 0⟩

/-- Both numbers, separated by a colon. -/
def text (r : Revision) : String := toString r.order.toNat ++ ":" ++ toString r.origin.toNat

/-- Whether `a` is the same revision as `b` or an earlier one. -/
def atMost (a b : Revision) : Bool := !Key.below b a

end Revision

/-- How two values of an ordered type compare, as `-1`, `0` or `1`. -/
def Key.sign {α : Type} [Key α] (a b : α) : Int :=
  if Key.below a b then -1 else if Key.below b a then 1 else 0

/-- How each value of a list compares with the next. -/
def Key.signs {α : Type} [Key α] (l : List α) : List Int := List.zipWith Key.sign l l.tail

/-- The values listed in ascending order, repeats kept. -/
def Key.sort {α : Type} [Key α] (l : List α) : List α := l.mergeSort fun a b => !Key.below b a

end Rebalance
