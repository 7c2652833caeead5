/-
  Rebalance.Proofs.Reentry

  Calls on a round that are made from inside: by the continuations that run
  when it ends, and by the exchange manager when it is asked to force an
  exchange.  `work` is one piece of pending work, `Reaches` any number of
  them, so every moment between two calls can be spoken of, however deep
  inside it lies.  `Phase` is what holds at each of these moments: the round
  is open, or it has closed and its one announcement is pending, or it is
  over.  `completes_exactly_once` reads off what follows for a whole run.
-/
import Rebalance.Proofs.Progress
import Rebalance.Round.Script

namespace Rebalance
namespace Round

variable {τ : Type}

-- ============================================================================
-- One piece of work at a time
-- ============================================================================

/-- A round, and the work that is pending on it. -/
abbrev Stage (τ : Type) := Round (Continuation τ) × List (Work τ)

/-- One piece of work: what it makes of the round, the work it puts in its place, and what
    becomes visible. -/
def work (reaction : List (Call τ)) (r : Round (Continuation τ)) :
    Work τ → Stage τ × List (Note τ)
  | .announce s => (((r.announce s).1, runs (r.announce s).2), [])
  | .run k =>
    match r.summary with
    | none => ((r, []), [])
    | some s => ((r, calls k.2), [.ran k.1 s])
  | .call .probe => ((r, []), [.probed r.isDone])
  | .call (.onDone tag body) =>
    match r.summary with
    | none => (((r.onDone (tag, body)).1, []), [])
    | some _ => ((r, [.run (tag, body)]), [])
  | .call (.change c) =>
    match (r.change c).2 with
    | none => (((r.change c).1, []), [])
    | some s =>
      match (r.change c).1.forced s with
      | none => (((r.change c).1, [.announce s]), [])
      | some e => (((r.change c).1, calls reaction ++ [.announce s]), [.forced e])

/-- From a stage to a later one, with what becomes visible in between. -/
inductive Reaches (reaction : List (Call τ)) : Stage τ → List (Note τ) → Stage τ → Prop where
  | refl (x : Stage τ) : Reaches reaction x [] x
  | step {x : Stage τ} {ns : List (Note τ)} {r : Round (Continuation τ)} {w : Work τ}
      {rest : List (Work τ)} (h : Reaches reaction x ns (r, w :: rest)) :
      Reaches reaction x (ns ++ (work reaction r w).2)
        ((work reaction r w).1.1, (work reaction r w).1.2 ++ rest)

namespace Reaches

variable {reaction : List (Call τ)} {x y z : Stage τ} {ns ms : List (Note τ)}

theorem trans (h₁ : Reaches reaction x ns y) (h₂ : Reaches reaction y ms z) :
    Reaches reaction x (ns ++ ms) z := by
  induction h₂ with
  | refl => rwa [List.append_nil]
  | step _ ih =>
    rw [← List.append_assoc]
    exact .step ih

/-- One piece of work, and then what follows. -/
theorem head {r : Round (Continuation τ)} {w : Work τ} {rest : List (Work τ)}
    (h : Reaches reaction ((work reaction r w).1.1, (work reaction r w).1.2 ++ rest) ns z) :
    Reaches reaction (r, w :: rest) ((work reaction r w).2 ++ ns) z := by
  have h₁ : Reaches reaction (r, w :: rest) ([] ++ (work reaction r w).2) _ := .step (.refl _)
  exact h₁.trans h

end Reaches

/-- Working off a stack takes the first piece of it and then works off the rest. -/
theorem run_cons (reaction : List (Call τ)) (r : Round (Continuation τ)) (w : Work τ)
    (rest : List (Work τ)) :
    run reaction r (w :: rest) =
      ((run reaction (work reaction r w).1.1 ((work reaction r w).1.2 ++ rest)).1,
        (work reaction r w).2 ++
          (run reaction (work reaction r w).1.1 ((work reaction r w).1.2 ++ rest)).2) := by
  cases w with
  | announce s =>
    rw [run, work]
    split
    · next h =>
      have hsame : r.announce s = (r, []) := by simp [announce, h]
      simp [hsame, runs]
    · simp
  | run k =>
    rw [run, work]
    cases r.summary <;> rfl
  | call c =>
    cases c with
    | probe =>
      rw [run, work]
      rfl
    | onDone tag body =>
      rw [run, work]
      cases hv : r.outcome.value with
      | none => simp [summary, onDone, Promise.onDone, hv]
      | some v => simp [summary, hv]
    | change c =>
      rw [run, work]
      cases hc : (r.change c).2 with
      | none => simp
      | some s =>
        cases hf : (r.change c).1.forced s with
        | none => simp [hf]
        | some e => simp [hf]

/-- Induction along the work: whatever holds of a stage if it holds after the next piece of
    work holds of every stage. -/
theorem work_induction (reaction : List (Call τ))
    {motive : Round (Continuation τ) → List (Work τ) → Prop} (nil : ∀ r, motive r [])
    (cons : ∀ r w rest, motive (work reaction r w).1.1 ((work reaction r w).1.2 ++ rest) →
      motive r (w :: rest)) (r : Round (Continuation τ)) (stack : List (Work τ)) :
    motive r stack := by
  induction r, stack using run.induct reaction with
  | case1 r => exact nil r
  | case2 r s rest h ih =>
    refine cons _ _ _ ?_
    have hsame : r.announce s = (r, []) := by simp [announce, h]
    simpa [work, hsame, runs] using ih
  | case3 r s rest _ h ih => exact cons _ _ _ ih
  | case4 r k rest h ih => exact cons _ _ _ (by simpa [work, h] using ih)
  | case5 r k rest s h _ _ _ ih => exact cons _ _ _ (by simpa [work, h] using ih)
  | case6 r rest _ _ _ ih => exact cons _ _ _ (by simpa [work] using ih)
  | case7 r tag body rest h ih =>
    exact cons _ _ _ (by simpa [work, summary, onDone, Promise.onDone, h] using ih)
  | case8 r tag body rest s h ih => exact cons _ _ _ (by simpa [work, summary, h] using ih)
  | case9 r c rest h ih => exact cons _ _ _ (by simpa [work, h] using ih)
  | case10 r c rest s h hf ih => exact cons _ _ _ (by simpa [work, h, hf] using ih)
  | case11 r c rest s h e hf _ _ _ ih => exact cons _ _ _ (by simpa [work, h, hf] using ih)

theorem reaches_run (reaction : List (Call τ)) (r : Round (Continuation τ))
    (stack : List (Work τ)) :
    Reaches reaction (r, stack) (run reaction r stack).2 ((run reaction r stack).1, []) := by
  induction r, stack using work_induction reaction with
  | nil r =>
    rw [run]
    exact .refl _
  | cons r w rest ih =>
    rw [run_cons]
    exact .head ih

theorem run_append (reaction : List (Call τ)) (r : Round (Continuation τ))
    (a b : List (Work τ)) :
    run reaction r (a ++ b) =
      ((run reaction (run reaction r a).1 b).1,
        (run reaction r a).2 ++ (run reaction (run reaction r a).1 b).2) := by
  induction r, a using work_induction reaction with
  | nil r =>
    rw [run]
    rfl
  | cons r w rest ih =>
    rw [List.cons_append, run_cons, run_cons reaction r w rest, ← List.append_assoc, ih,
      List.append_assoc]

-- ============================================================================
-- What becomes visible
-- ============================================================================

/-- The continuation that ran, with the summary it was given. -/
def Note.ran? : Note τ → Option (τ × Summary)
  | .ran tag s => some (tag, s)
  | _ => none

/-- The exchange that was forced. -/
def Note.forced? : Note τ → Option Exchange
  | .forced e => some e
  | _ => none

/-- The continuations that ran, in order. -/
def ranOf (ns : List (Note τ)) : List (τ × Summary) := ns.filterMap Note.ran?

/-- The exchanges that were forced, in order. -/
def forcedOf (ns : List (Note τ)) : List Exchange := ns.filterMap Note.forced?

@[simp] theorem ranOf_append (ns ms : List (Note τ)) : ranOf (ns ++ ms) = ranOf ns ++ ranOf ms :=
  List.filterMap_append

@[simp] theorem forcedOf_append (ns ms : List (Note τ)) :
    forcedOf (ns ++ ms) = forcedOf ns ++ forcedOf ms := List.filterMap_append

@[simp] theorem ranOf_ran (tag : τ) (s : Summary) : ranOf [Note.ran tag s] = [(tag, s)] := rfl

@[simp] theorem ranOf_forced (e : Exchange) : ranOf [(Note.forced e : Note τ)] = [] := rfl

@[simp] theorem ranOf_probed (b : Bool) : ranOf [(Note.probed b : Note τ)] = [] := rfl

@[simp] theorem forcedOf_forced (e : Exchange) : forcedOf [(Note.forced e : Note τ)] = [e] := rfl

@[simp] theorem forcedOf_ran (tag : τ) (s : Summary) : forcedOf [Note.ran tag s] = [] := rfl

@[simp] theorem forcedOf_probed (b : Bool) : forcedOf [(Note.probed b : Note τ)] = [] := rfl

mutual

/-- The continuations that a call registers, and those that they register in turn. -/
def Call.tags : Call τ → List τ
  | .change _ => []
  | .onDone tag body => tag :: tagsOf body
  | .probe => []

def tagsOf : List (Call τ) → List τ
  | [] => []
  | c :: cs => c.tags ++ tagsOf cs

end

/-- The continuations that a registered one stands for: itself and those it registers. -/
def tagsOfWaiting (ks : List (Continuation τ)) : List τ := ks.flatMap fun k => k.1 :: tagsOf k.2

/-- The continuations that a piece of work has run by the time that it is done, as far as they
    can run. -/
def Work.tags : Work τ → List τ
  | .call c => c.tags
  | .run k => k.1 :: tagsOf k.2
  | .announce _ => []

/-- The continuations of a whole stack of work. -/
def tagsOfStack (ws : List (Work τ)) : List τ := ws.flatMap Work.tags

theorem tagsOfStack_calls (cs : List (Call τ)) : tagsOfStack (calls cs) = tagsOf cs := by
  induction cs with
  | nil => rfl
  | cons c cs ih =>
    rw [tagsOf, ← ih]
    rfl

theorem tagsOfStack_runs (ks : List (Continuation τ)) :
    tagsOfStack (runs ks) = tagsOfWaiting ks := by
  simp [tagsOfStack, runs, tagsOfWaiting, List.flatMap_map, Work.tags]

-- ============================================================================
-- A round that has closed
-- ============================================================================

theorem settle_outstanding {r : Round (Continuation τ)} {s : Summary} (h : r.settle.2 = some s) :
    r.settle.1.outstanding = ∅ := by
  unfold settle at h ⊢
  split at h
  · cases h
  · next hc =>
    rw [if_neg hc]
    simp only [Bool.or_eq_true, not_or, Bool.not_eq_true, Bool.not_eq_false'] at hc
    exact SortedMap.isEmpty_iff.mp hc.2

/-- The round has closed, and awaits nothing. -/
structure Shut (r : Round (Continuation τ)) : Prop where
  closed : r.closed = true
  settled : r.outstanding = ∅

theorem shut_of_change {r : Round (Continuation τ)} {c : Change} {s : Summary}
    (h : (r.change c).2 = some s) : (r.change c).1.Shut := by
  refine ⟨by rw [change_closed, h]; simp, ?_⟩
  cases c with
  | attach e => cases h
  | append n ps => cases h
  | miss n p => cases h
  | complete => exact settle_outstanding h
  | drain n p =>
    simp only [change, drain] at h ⊢
    split at h
    · cases h
    · next hc =>
      rw [if_neg hc]
      split at h
      · exact settle_outstanding h
      · exact settle_outstanding h
  | cancel n =>
    simp only [change, cancel] at h ⊢
    split at h
    · cases h
    · next hc =>
      rw [if_neg hc]
      split at h
      · next hn =>
        rw [if_pos hn]
        exact settle_outstanding h
      · next hn =>
        rw [if_neg hn]
        exact settle_outstanding h

/-- No change opens a closed round, or yields another summary. -/
theorem Shut.change {r : Round (Continuation τ)} (h : r.Shut) (c : Change) :
    (r.change c).2 = none ∧ (r.change c).1.Shut := by
  obtain ⟨hc, ho⟩ := h
  have hsame : (r.change c).2 = none ∧ (r.change c).1.closed = true ∧
      (r.change c).1.outstanding = ∅ := by
    cases c <;>
      simp [Round.change, attach, append, markMissed, drain, cancel, complete, settle, hc, ho]
  exact ⟨hsame.1, hsame.2.1, hsame.2.2⟩

-- ============================================================================
-- What every piece of work keeps
-- ============================================================================

section Keeps

variable {reaction : List (Call τ)}

/-- Whatever is kept by every change, by the announcement and by whoever starts to wait is kept by
    every piece of work. -/
theorem work_keeps {P : Round (Continuation τ) → Prop} (reaction : List (Call τ))
    {r : Round (Continuation τ)} (h : P r) (hchange : ∀ c, P (r.change c).1)
    (hannounce : ∀ s, P (r.announce s).1) (hwait : ∀ k, r.summary = none → P (r.onDone k).1)
    (w : Work τ) : P (work reaction r w).1.1 := by
  cases w with
  | announce s => exact hannounce s
  | run k =>
    cases hv : r.summary with
    | none => simpa only [work, hv] using h
    | some s => simpa only [work, hv] using h
  | call c =>
    cases c with
    | probe => exact h
    | onDone tag body =>
      cases hv : r.summary with
      | none => simpa only [work, hv] using hwait (tag, body) hv
      | some s => simpa only [work, hv] using h
    | change c =>
      cases hs : (r.change c).2 with
      | none => simpa only [work, hs] using hchange c
      | some s =>
        cases he : (r.change c).1.forced s with
        | none => simpa only [work, hs, he] using hchange c
        | some e => simpa only [work, hs, he] using hchange c

theorem summary_change (r : Round (Continuation τ)) (c : Change) :
    (r.change c).1.summary = r.summary := by
  rw [summary, change_waiting]
  rfl

/-- A summary that is there stays. -/
theorem summary_work {r : Round (Continuation τ)} {s : Summary} (h : r.summary = some s)
    (w : Work τ) : (work reaction r w).1.1.summary = some s := by
  have hval : r.outcome.value = some s := h
  refine work_keeps (P := fun r => r.summary = some s) reaction h
    (fun c => (summary_change r c).trans h) (fun s' => ?_) (fun k hv => ?_) w
  · simp [announce, Promise.complete, hval, summary]
  · rw [h] at hv
    cases hv

theorem Shut.work {r : Round (Continuation τ)} (h : r.Shut) (w : Work τ) :
    (Round.work reaction r w).1.1.Shut := by
  refine work_keeps reaction h (fun c => (h.change c).2) (fun s => ?_)
    (fun k _ => ⟨h.closed, h.settled⟩) w
  unfold announce
  split
  · exact h
  · exact ⟨h.closed, h.settled⟩

theorem Reaches.keeps {P : Round (Continuation τ) → Prop}
    (hwork : ∀ r w, P r → P (work reaction r w).1.1) {ns : List (Note τ)} {y z : Stage τ}
    (h : Reaches reaction y ns z) (hy : P y.1) : P z.1 := by
  induction h with
  | refl => exact hy
  | step _ ih => exact hwork _ _ ih

end Keeps

-- ============================================================================
-- Every moment
-- ============================================================================

section Moments

variable {reaction : List (Call τ)} {x : Stage τ}

/-- The round has closed with a summary, before which nothing was forced and no continuation ran.
    Closing forces the exchange the round is bound to then, if anything was missed and there is
    one, and nothing is forced afterwards. -/
def ClosedWith (reaction : List (Call τ)) (x : Stage τ) (s : Summary) (e : Option Exchange)
    (ns : List (Note τ)) : Prop :=
  ∃ before r c rest after,
    Reaches reaction x before (r, .call (.change c) :: rest) ∧ (r.change c).2 = some s ∧
    e = (if s.missed.isEmpty then none else (r.change c).1.exchange) ∧
    ns = before ++ e.toList.map .forced ++ after ∧
    ranOf before = [] ∧ forcedOf before = [] ∧ forcedOf after = []

theorem ClosedWith.later {s : Summary} {e : Option Exchange} {ns ms : List (Note τ)}
    (h : ClosedWith reaction x s e ns) (hm : forcedOf ms = []) :
    ClosedWith reaction x s e (ns ++ ms) := by
  obtain ⟨before, r, c, rest, after, hr, hs, he, hn, hran, hb, ha⟩ := h
  refine ⟨before, r, c, rest, after ++ ms, hr, hs, he, ?_, hran, hb, ?_⟩
  · rw [hn, List.append_assoc]
  · rw [forcedOf_append, ha, hm]
    rfl

/-- What holds at every moment: the round is open, or it has closed and will announce its summary,
    or it is over. -/
inductive Phase (reaction : List (Call τ)) (x : Stage τ) (ns : List (Note τ))
    (r : Round (Continuation τ)) (ahead : List (Work τ)) : Prop where
  /-- Nothing but calls is pending, and nobody was told anything. -/
  | pending (hc : r.closed = false) (hv : r.summary = none) (cs : List (Call τ))
      (ha : ahead = calls cs) (hran : ranOf ns = []) (hf : forcedOf ns = [])
  /-- What the manager does in reaction comes first, then the announcement. -/
  | closing (s : Summary) (e : Option Exchange) (hc : r.Shut) (hv : r.summary = none)
      (pre post : List (Call τ)) (ha : ahead = calls pre ++ .announce s :: calls post)
      (h : ClosedWith reaction x s e ns) (hran : ranOf ns = [])
  /-- Nobody waits any more, and whoever was told was told the one summary. -/
  | ended (s : Summary) (e : Option Exchange) (hc : r.Shut) (hv : r.summary = some s)
      (hw : r.outcome.waiting = [])
      (ha : ∀ w ∈ ahead, ∀ s, w ≠ .announce s)
      (h : ClosedWith reaction x s e ns) (hran : ∀ y ∈ ranOf ns, y.2 = s)

theorem phase_of_pending {r : Round (Continuation τ)} {rest : List (Work τ)} {ns : List (Note τ)}
    {c : Call τ} {cs : List (Call τ)} (hc : r.closed = false) (hv : r.summary = none)
    (hrest : rest = calls cs) (hran : ranOf ns = []) (hf : forcedOf ns = [])
    (hreach : Reaches reaction x ns (r, .call c :: rest)) :
    Phase reaction x (ns ++ (work reaction r (.call c)).2) (work reaction r (.call c)).1.1
      ((work reaction r (.call c)).1.2 ++ rest) := by
  cases c with
  | probe => exact .pending hc hv cs hrest (by simp [work, hran]) (by simp [work, hf])
  | onDone tag body =>
    have hval : r.outcome.value = none := hv
    simp only [work, hv, List.append_nil, List.nil_append]
    exact .pending hc (by simp [summary, onDone, Promise.onDone, hval]) cs hrest hran hf
  | change c =>
    cases hs : (r.change c).2 with
    | none =>
      simp only [work, hs, List.append_nil, List.nil_append]
      refine .pending ?_ ((summary_change r c).trans hv) cs hrest hran hf
      rw [change_closed, hs, hc]
      rfl
    | some s =>
      have hshut := shut_of_change hs
      have hsum := (summary_change r c).trans hv
      have hforced : (r.change c).1.forced s =
          if s.missed.isEmpty then none else (r.change c).1.exchange := rfl
      have hwith : ∀ e, (r.change c).1.forced s = e →
          ClosedWith reaction x s e (ns ++ e.toList.map .forced) := fun e he =>
        ⟨ns, r, c, rest, [], hreach, hs, he.symm.trans hforced, (List.append_nil _).symm, hran, hf,
          rfl⟩
      cases he : (r.change c).1.forced s with
      | none =>
        simp only [work, hs, he]
        exact .closing s none hshut hsum [] cs (by rw [hrest]; rfl) (hwith none he)
          (by simp [hran])
      | some e =>
        simp only [work, hs, he]
        exact .closing s (some e) hshut hsum reaction cs (by rw [hrest]; simp)
          (hwith (some e) he) (by simp [hran])

theorem phase_of_closing {r : Round (Continuation τ)} {rest : List (Work τ)} {w : Work τ}
    {ns : List (Note τ)} {s : Summary} {e : Option Exchange} (hc : r.Shut)
    (hv : r.summary = none) {pre post : List (Call τ)}
    (ha : w :: rest = calls pre ++ .announce s :: calls post)
    (h : ClosedWith reaction x s e ns) (hran : ranOf ns = []) :
    Phase reaction x (ns ++ (work reaction r w).2) (work reaction r w).1.1
      ((work reaction r w).1.2 ++ rest) := by
  have hval : r.outcome.value = none := hv
  cases pre with
  | nil =>
    obtain ⟨rfl, rfl⟩ := List.cons.inj ha
    have hann : r.announce s =
        ({ r with outcome := { value := some s, waiting := [] } }, r.outcome.waiting) := by
      simp [announce, Promise.complete, hval]
    simp only [work, hann, List.append_nil]
    refine .ended s e ⟨hc.closed, hc.settled⟩ rfl rfl ?_ h (by simp [hran])
    intro y hy s'
    rcases List.mem_append.mp hy with hy | hy
    · obtain ⟨k, -, rfl⟩ := List.mem_map.mp hy
      simp
    · obtain ⟨k, -, rfl⟩ := List.mem_map.mp hy
      simp
  | cons c pre =>
    obtain ⟨rfl, hrest⟩ := List.cons.inj ha
    cases c with
    | probe =>
      exact .closing s e hc hv pre post hrest (h.later rfl) (by simp [work, hran])
    | onDone tag body =>
      simp only [work, hv, List.append_nil, List.nil_append]
      exact .closing s e ⟨hc.closed, hc.settled⟩ (by simp [summary, onDone, Promise.onDone, hval])
        pre post hrest h hran
    | change c =>
      obtain ⟨hnone, hshut⟩ := hc.change c
      simp only [work, hnone, List.append_nil, List.nil_append]
      exact .closing s e hshut ((summary_change r c).trans hv) pre post hrest h hran

theorem phase_of_ended {r : Round (Continuation τ)} {rest : List (Work τ)} {w : Work τ}
    {ns : List (Note τ)} {s : Summary} {e : Option Exchange} (hc : r.Shut)
    (hv : r.summary = some s) (hw : r.outcome.waiting = [])
    (ha : ∀ y ∈ w :: rest, ∀ s, y ≠ .announce s)
    (h : ClosedWith reaction x s e ns) (hran : ∀ y ∈ ranOf ns, y.2 = s) :
    Phase reaction x (ns ++ (work reaction r w).2) (work reaction r w).1.1
      ((work reaction r w).1.2 ++ rest) := by
  have hrest : ∀ y ∈ rest, ∀ s, y ≠ .announce s := fun y hy => ha y (List.mem_cons_of_mem _ hy)
  cases w with
  | announce s' => exact absurd rfl (ha _ List.mem_cons_self s')
  | run k =>
    simp only [work, hv]
    refine .ended s e hc hv hw ?_ (h.later rfl) ?_
    · intro y hy s'
      rcases List.mem_append.mp hy with hy | hy
      · obtain ⟨c, -, rfl⟩ := List.mem_map.mp hy
        simp
      · exact hrest y hy s'
    · intro y hy
      rw [ranOf_append] at hy
      rcases List.mem_append.mp hy with hy | hy
      · exact hran y hy
      · rw [ranOf_ran, List.mem_singleton] at hy
        rw [hy]
  | call c =>
    cases c with
    | probe =>
      exact .ended s e hc hv hw hrest (h.later rfl) (by simpa [work] using hran)
    | onDone tag body =>
      simp only [work, hv, List.append_nil]
      refine .ended s e hc hv hw ?_ h hran
      intro y hy s'
      rcases List.mem_append.mp hy with hy | hy
      · rw [List.mem_singleton.mp hy]
        simp
      · exact hrest y hy s'
    | change c =>
      obtain ⟨hnone, hshut⟩ := hc.change c
      simp only [work, hnone, List.append_nil, List.nil_append]
      refine .ended s e hshut ((summary_change r c).trans hv) ?_ hrest h hran
      rw [change_waiting]
      exact hw

/-- Every moment of a run of calls on a fresh round is in one of the phases. -/
theorem phase {cs : List (Call τ)} {ns : List (Note τ)} {y : Stage τ}
    (h : Reaches reaction ({}, calls cs) ns y) : Phase reaction ({}, calls cs) ns y.1 y.2 := by
  induction h with
  | refl => exact .pending rfl rfl cs rfl rfl rfl
  | @step ns r w rest hr ih =>
    cases ih with
    | pending hc hv cs ha hran hf =>
      cases cs with
      | nil => cases ha
      | cons c cs =>
        obtain ⟨rfl, hrest⟩ := List.cons.inj ha
        exact phase_of_pending hc hv hrest hran hf hr
    | closing s e hc hv pre post ha h hran => exact phase_of_closing hc hv ha h hran
    | ended s e hc hv hw ha h hran => exact phase_of_ended hc hv hw ha h hran

-- ============================================================================
-- Every continuation is accounted for
-- ============================================================================

/-- The continuations that the manager's reaction to the forced exchanges registers. -/
def tagsForced (reaction : List (Call τ)) (es : List Exchange) : List τ :=
  es.flatMap fun _ => tagsOf reaction

@[simp] theorem tagsOfStack_append (a b : List (Work τ)) :
    tagsOfStack (a ++ b) = tagsOfStack a ++ tagsOfStack b := List.flatMap_append

/-- One piece of work: the continuations that it stands for have run, or wait, or are ahead, next
    to those that the manager's reaction registers. -/
theorem work_accounts (reaction : List (Call τ)) {r : Round (Continuation τ)} {w : Work τ}
    (h : ∀ k, w = .run k → r.summary ≠ none) :
    ((ranOf (work reaction r w).2).map Prod.fst ++
      tagsOfWaiting (work reaction r w).1.1.outcome.waiting ++
      tagsOfStack (work reaction r w).1.2).Perm
    (tagsOfWaiting r.outcome.waiting ++ w.tags ++
      tagsForced reaction (forcedOf (work reaction r w).2)) := by
  cases w with
  | announce s =>
    cases hv : r.outcome.value with
    | none =>
      simp [work, announce, Promise.complete, hv, tagsOfStack_runs, Work.tags, ranOf, forcedOf,
        tagsForced, tagsOfWaiting]
    | some v =>
      simp [work, announce, Promise.complete, hv, runs, Work.tags, ranOf, forcedOf, tagsForced,
        tagsOfStack]
  | run k =>
    cases hv : r.summary with
    | none => exact absurd hv (h k rfl)
    | some s =>
      simp only [work, hv, ranOf_ran, forcedOf_ran, tagsOfStack_calls, Work.tags, tagsForced,
        List.map_cons, List.map_nil, List.flatMap_nil, List.append_nil]
      exact List.perm_append_comm.append_right (tagsOf k.2) |>.trans (by simp)
  | call c =>
    cases c with
    | probe => simp [work, Work.tags, Call.tags, tagsForced, tagsOfStack]
    | onDone tag body =>
      cases hv : r.outcome.value with
      | none =>
        simp [work, summary, onDone, Promise.onDone, hv, Work.tags, Call.tags, tagsOfWaiting,
          ranOf, forcedOf, tagsForced, tagsOfStack]
      | some v =>
        simp [work, summary, hv, Work.tags, Call.tags, ranOf, forcedOf, tagsForced, tagsOfStack]
    | change c =>
      cases hs : (r.change c).2 with
      | none => 
        simp [work, hs, change_waiting, Work.tags, Call.tags, ranOf, forcedOf, tagsForced,
          tagsOfStack]
      | some s =>
        cases he : (r.change c).1.forced s with
        | none =>
          simp [work, hs, he, change_waiting, Work.tags, Call.tags, ranOf, forcedOf, tagsForced,
            tagsOfStack]
        | some e =>
          simp [work, hs, he, change_waiting, tagsOfStack_calls, Work.tags, Call.tags, tagsForced]
          simp [tagsOfStack, Work.tags]

theorem ClosedWith.forcedOf_eq {s : Summary} {e : Option Exchange} {ns : List (Note τ)}
    (h : ClosedWith reaction x s e ns) : forcedOf ns = e.toList := by
  obtain ⟨before, r, c, rest, after, -, -, -, rfl, -, hb, ha⟩ := h
  cases e with
  | none => simp [hb, ha]
  | some e =>
    rw [Option.toList_some, List.map_singleton, forcedOf_append, forcedOf_append, hb, ha,
      forcedOf_forced]
    rfl

/-- A run of a continuation is only ever pending on a round that is over. -/
theorem Phase.summary_of_run {ns : List (Note τ)} {r : Round (Continuation τ)} {w : Work τ}
    {rest : List (Work τ)} (h : Phase reaction x ns r (w :: rest)) (k : Continuation τ)
    (hk : w = .run k) : r.summary ≠ none := by
  subst hk
  cases h with
  | pending hc hv cs ha hran hf =>
    cases cs with
    | nil => cases ha
    | cons c cs => cases ha
  | closing s e hc hv pre post ha h hran =>
    cases pre with
    | nil => cases ha
    | cons c pre => cases ha
  | ended s e hc hv => simp [hv]

/-- At every moment the continuations that the calls register, from inside as well, have run or
    wait or are still to come. -/
theorem accounts {cs : List (Call τ)} {ns : List (Note τ)} {y : Stage τ}
    (h : Reaches reaction ({}, calls cs) ns y) :
    ((ranOf ns).map Prod.fst ++ tagsOfWaiting y.1.outcome.waiting ++ tagsOfStack y.2).Perm
      (tagsOf cs ++ tagsForced reaction (forcedOf ns)) := by
  classical
  induction h with
  | refl =>
    simp [ranOf, forcedOf, tagsOfWaiting, tagsForced, tagsOfStack_calls]
  | @step ns r w rest hr ih =>
    have hstep := work_accounts reaction (phase hr).summary_of_run
    rw [List.perm_iff_count] at ih hstep ⊢
    intro t
    have h₁ := ih t
    have h₂ := hstep t
    simp only [tagsOfStack, List.flatMap_cons] at h₁
    simp only [tagsOfStack, tagsForced, ranOf_append, forcedOf_append, List.map_append,
      List.flatMap_append, List.count_append] at h₁ h₂ ⊢
    omega

end Moments

-- ============================================================================
-- Exactly once
-- ============================================================================

/-- What a caller may rely on, whichever calls are made on a fresh round, in whichever order, and
    whatever is called from inside. -/
structure CompletesOnce (reaction cs : List (Call τ)) : Prop where
  /-- From the moment the round is done, nothing that can be asked of it changes. -/
  stays : ∀ {ns ms : List (Note τ)} {y z : Stage τ} {s : Summary},
    Reaches reaction ({}, calls cs) ns y → y.1.summary = some s → Reaches reaction y ms z →
      z.1.summary = some s ∧ z.1.missed = y.1.missed ∧
        z.1.outstandingNodes = y.1.outstandingNodes ∧
        ∀ n, z.1.outstandingFrom n = y.1.outstandingFrom n
  /-- A summary is announced on a round that is not done yet, so this happens once. -/
  once : ∀ {ns : List (Note τ)} {r : Round (Continuation τ)} {s : Summary} {rest : List (Work τ)},
    Reaches reaction ({}, calls cs) ns (r, .announce s :: rest) →
      r.summary = none ∧ (r.announce s).1.summary = some s
  /-- A continuation that is registered when the round is done runs at once. -/
  late : ∀ {ns : List (Note τ)} {r : Round (Continuation τ)} {tag : τ} {body : List (Call τ)}
    {rest : List (Work τ)} {s : Summary},
    Reaches reaction ({}, calls cs) ns (r, .call (.onDone tag body) :: rest) →
      r.summary = some s →
      Reaches reaction (r, .call (.onDone tag body) :: rest) [.ran tag s] (r, calls body ++ rest)
  /-- If the round is done in the end, then the exchange was forced as its misses ask for and every
      continuation ran once, with the one summary. -/
  done : ∀ {s : Summary}, (run reaction {} (calls cs)).1.summary = some s →
    ∃ e, ClosedWith reaction ({}, calls cs) s e (run reaction {} (calls cs)).2 ∧
      (ranOf (run reaction {} (calls cs)).2).Perm
        ((tagsOf cs ++ tagsForced reaction e.toList).map (·, s))
  /-- If it is not, nobody was told and nothing was forced. -/
  undone : (run reaction {} (calls cs)).1.summary = none →
    ranOf (run reaction {} (calls cs)).2 = [] ∧ forcedOf (run reaction {} (calls cs)).2 = []

theorem Phase.of_summary {reaction : List (Call τ)} {x : Stage τ} {ns : List (Note τ)}
    {r : Round (Continuation τ)} {ahead : List (Work τ)} {s : Summary}
    (h : Phase reaction x ns r ahead) (hs : r.summary = some s) :
    r.outstanding = ∅ ∧ r.outcome.waiting = [] ∧
      ∃ e, ClosedWith reaction x s e ns ∧ ∀ y ∈ ranOf ns, y.2 = s := by
  cases h with
  | pending hc hv => simp [hv] at hs
  | closing s e hc hv => simp [hv] at hs
  | ended s' e hc hv hw ha h hran =>
    obtain rfl : s' = s := Option.some.inj (hv.symm.trans hs)
    exact ⟨hc.settled, hw, e, h, hran⟩

/-- Whatever calls are made, and from wherever: a round completes at most once, with one summary
    for everyone, after the one exchange that its misses ask for. -/
theorem completes_exactly_once (reaction cs : List (Call τ)) : CompletesOnce reaction cs where
  stays := by
    intro ns ms y z s hy hs hz
    have hs' := hz.keeps (P := fun r => r.summary = some s) (fun _ w h => summary_work h w) hs
    have hpy := phase hy
    have hpz := phase (hy.trans hz)
    have hout : z.1.outstanding = y.1.outstanding :=
      (hpz.of_summary hs').1.trans (hpy.of_summary hs).1.symm
    refine ⟨hs', ?_, ?_, fun n => ?_⟩
    · simp [missed, hs, hs']
    · simp [outstandingNodes, hout]
    · simp [outstandingFrom, hout]
  once := by
    intro ns r s rest h
    cases phase h with
    | pending hc hv cs ha hran hf =>
      cases cs with
      | nil => cases ha
      | cons c cs => cases ha
    | closing s' e hc hv =>
      have hval : r.outcome.value = none := hv
      exact ⟨hv, by simp [announce, Promise.complete, hval, summary]⟩
    | ended s' e hc hv hw ha => exact absurd rfl (ha _ List.mem_cons_self s)
  late := by
    intro ns r tag body rest s h hs
    have h₁ : Reaches reaction (r, .call (.onDone tag body) :: rest) _ _ := .step (.refl _)
    simp only [work, hs] at h₁
    have h₂ := Reaches.step h₁
    simpa [work, hs] using h₂
  done := by
    intro s hs
    have hreach := reaches_run reaction {} (calls cs)
    obtain ⟨-, hw, e, hclosed, hran⟩ := (phase hreach).of_summary hs
    refine ⟨e, hclosed, ?_⟩
    have hsame : ranOf (run reaction {} (calls cs)).2 =
        ((ranOf (run reaction {} (calls cs)).2).map Prod.fst).map (·, s) := by
      rw [List.map_map]
      refine (List.map_id _).symm.trans (List.map_congr_left fun y hy => ?_)
      exact Prod.ext rfl (hran y hy)
    have hacc := accounts hreach
    rw [hw, hclosed.forcedOf_eq] at hacc
    rw [hsame]
    exact List.Perm.map _ (by simpa [tagsOfWaiting, tagsOfStack] using hacc)
  undone := by
    intro hs
    cases phase (reaches_run reaction {} (calls cs)) with
    | pending hc hv cs' ha hran hf => exact ⟨hran, hf⟩
    | closing s e hc hv pre post ha => cases pre <;> cases ha
    | ended s e hc hv => simp [hv] at hs

end Round
end Rebalance
