/-
  Rebalance.Stack

  Work that is taken off a stack, piece by piece.  A piece of work changes the
  state, puts other work in its place and may become visible; `Reaches` is any
  number of such pieces, so every moment between two of them can be spoken of.
  A machine that does what another one does, seen through a view of its state,
  reaches what that one reaches (`Reaches.mirror`, `Reaches.lift`).
-/

namespace Rebalance
namespace Stack

variable {σ ω ν : Type}

/-- A state, and the work that is pending on it. -/
abbrev Stage (σ ω : Type) := σ × List ω

/-- From a stage to a later one, with what becomes visible in between. -/
inductive Reaches (work : σ → ω → Stage σ ω × List ν) : Stage σ ω → List ν → Stage σ ω → Prop where
  | refl (x : Stage σ ω) : Reaches work x [] x
  | step {x : Stage σ ω} {ns : List ν} {s : σ} {w : ω} {rest : List ω}
      (h : Reaches work x ns (s, w :: rest)) :
      Reaches work x (ns ++ (work s w).2) ((work s w).1.1, (work s w).1.2 ++ rest)

namespace Reaches

variable {work : σ → ω → Stage σ ω × List ν} {x y z : Stage σ ω} {ns ms : List ν}

theorem trans (h₁ : Reaches work x ns y) (h₂ : Reaches work y ms z) :
    Reaches work x (ns ++ ms) z := by
  induction h₂ with
  | refl => rwa [List.append_nil]
  | step _ ih =>
    rw [← List.append_assoc]
    exact .step ih

/-- One piece of work, and then what follows. -/
theorem head {s : σ} {w : ω} {rest : List ω}
    (h : Reaches work ((work s w).1.1, (work s w).1.2 ++ rest) ns z) :
    Reaches work (s, w :: rest) ((work s w).2 ++ ns) z := by
  have h₁ : Reaches work (s, w :: rest) ([] ++ (work s w).2) _ := .step (.refl _)
  exact h₁.trans h

/-- What every piece of work keeps is kept. -/
theorem keeps {P : σ → Prop} (hwork : ∀ s w, P s → P (work s w).1.1) (h : Reaches work x ns y)
    (hx : P x.1) : P y.1 := by
  induction h with
  | refl => exact hx
  | step _ ih => exact hwork _ _ ih

end Reaches

-- ============================================================================
-- One machine seen as another
-- ============================================================================

section Views

variable {σ' ω' : Type} {work : σ → ω → Stage σ ω × List ν} {work' : σ' → ω' → Stage σ' ω' × List ν}

/-- A stage as it is seen through a view of its state and of its work. -/
def Stage.seen (view : σ → σ') (plain : ω → ω') (x : Stage σ ω) : Stage σ' ω' :=
  (view x.1, x.2.map plain)

/-- A piece of work does what its view does, and `P` holds afterwards. -/
def Follows (work : σ → ω → Stage σ ω × List ν) (work' : σ' → ω' → Stage σ' ω' × List ν)
    (view : σ → σ') (plain : ω → ω') (P : Stage σ ω → Prop) (s : σ) (w : ω) (rest : List ω) :
    Prop :=
  P ((work s w).1.1, (work s w).1.2 ++ rest) ∧
    work' (view s) (plain w) = (Stage.seen view plain (work s w).1, (work s w).2)

/-- Every piece of work does what its view does, as long as `P` holds, and keeps `P`. -/
def Mirrored (work : σ → ω → Stage σ ω × List ν) (work' : σ' → ω' → Stage σ' ω' × List ν)
    (view : σ → σ') (plain : ω → ω') (P : Stage σ ω → Prop) : Prop :=
  ∀ s w rest, P (s, w :: rest) → Follows work work' view plain P s w rest

variable {view : σ → σ'} {plain : ω → ω'} {P : Stage σ ω → Prop}

theorem Stage.seen_append (x : Stage σ ω) (rest : List ω) :
    Stage.seen view plain (x.1, x.2 ++ rest) =
      ((x.seen view plain).1, (x.seen view plain).2 ++ rest.map plain) :=
  congrArg (view x.1, ·) List.map_append

theorem Reaches.mirror (h : Mirrored work work' view plain P) {x y : Stage σ ω} {ns : List ν}
    (hr : Reaches work x ns y) (hx : P x) :
    P y ∧ Reaches work' (x.seen view plain) ns (y.seen view plain) := by
  induction hr with
  | refl => exact ⟨hx, .refl _⟩
  | @step ns s w rest _ ih =>
    obtain ⟨hp, hreach⟩ := ih
    obtain ⟨hkeep, hsame⟩ := h s w rest hp
    refine ⟨hkeep, ?_⟩
    have hstep : Reaches work' (x.seen view plain) _ _ := .step (s := view s) (w := plain w) hreach
    rw [hsame] at hstep
    rw [Stage.seen_append]
    exact hstep

theorem Reaches.lift (h : Mirrored work work' view plain P) {x : Stage σ ω} {ns : List ν}
    {y' : Stage σ' ω'} (hr : Reaches work' (x.seen view plain) ns y') (hx : P x) :
    ∃ y, Reaches work x ns y ∧ y.seen view plain = y' := by
  induction hr with
  | refl => exact ⟨x, .refl x, rfl⟩
  | @step ns s' w' rest' _ ih =>
    obtain ⟨⟨s, stack⟩, hreach, hseen⟩ := ih
    cases stack with
    | nil => cases hseen
    | cons w rest =>
      obtain ⟨rfl, hwork⟩ := Prod.mk.inj hseen
      obtain ⟨rfl, rfl⟩ := List.cons.inj hwork
      obtain ⟨-, hsame⟩ := h s w rest (hreach.mirror h hx).1
      rw [show work' (view (s, w :: rest).1) (plain w) = _ from hsame]
      exact ⟨_, .step hreach, Stage.seen_append (work s w).1 rest⟩

end Views

end Stack
end Rebalance
