/-
  Rebalance.Proofs.Fulfilment

  What calls on a promise come to, whatever the continuations call in turn.
  Until the first call that completes it nothing runs and all wait; then each
  continuation that waited runs, in the order of registration, and what is
  called from there on finds the value (`told`).  `Phase` says so for every
  moment in between, and with it when a waiting task resumes.
-/
import Rebalance.Promise.Waiting

namespace Rebalance
namespace Promise

open Stack (Stage Reaches)

variable {τ α : Type}

-- ============================================================================
-- One piece of work at a time
-- ============================================================================

/-- Working off a stack takes the first piece of it and then works off the rest. -/
theorem run_cons (s : Scene τ α) (w : Work τ α) (rest : List (Work τ α)) :
    run s.promise (w :: rest) =
      ((run (s.work w).1.1.promise ((s.work w).1.2 ++ rest)).1,
        (s.work w).2 ++ (run (s.work w).1.1.promise ((s.work w).1.2 ++ rest)).2) := by
  cases w with
  | finish won =>
    rw [run, Scene.work]
    rfl
  | run k =>
    rw [run, Scene.work]
    cases s.promise.value <;> rfl
  | call c =>
    cases c with
    | onDone tag body =>
      rw [run, Scene.work, onDone]
      cases s.promise.value <;> rfl
    | complete v =>
      rw [run, Scene.work, complete]
      cases s.promise.value <;> simp

/-- Induction along the work: whatever holds of a stage if it holds after the next piece of
    work holds of every stage. -/
theorem work_induction {motive : Scene τ α → List (Work τ α) → Prop} (nil : ∀ s, motive s [])
    (cons : ∀ s w rest, motive (s.work w).1.1 ((s.work w).1.2 ++ rest) → motive s (w :: rest))
    (s : Scene τ α) (stack : List (Work τ α)) : motive s stack := by
  obtain ⟨p, n⟩ := s
  induction p, stack using run.induct generalizing n with
  | case1 p => exact nil _
  | case2 p won rest _ _ _ ih => exact cons _ _ _ (ih _)
  | case3 p k rest h ih => exact cons _ _ _ (by simpa [Scene.work, h] using ih n)
  | case4 p k rest v h _ _ _ ih => exact cons _ _ _ (by simpa [Scene.work, h] using ih n)
  | case5 p tag body rest h ih => exact cons _ _ _ (by simpa [Scene.work, onDone, h] using ih n)
  | case6 p tag body rest v h ih => exact cons _ _ _ (by simpa [Scene.work, onDone, h] using ih n)
  | case7 p v rest w h ih => exact cons _ _ _ (by simpa [Scene.work, complete, h] using ih n)
  | case8 p v rest h ih => exact cons _ _ _ (by simpa [Scene.work, complete, h] using ih n)

theorem reaches_run (s : Scene τ α) (stack : List (Work τ α)) :
    ∃ n, Reaches Scene.work (s, stack) (run s.promise stack).2
      (⟨(run s.promise stack).1, n⟩, []) := by
  induction s, stack using work_induction with
  | nil s =>
    rw [run]
    exact ⟨s.signals, .refl _⟩
  | cons s w rest ih =>
    obtain ⟨n, hreach⟩ := ih
    rw [run_cons]
    exact ⟨n, hreach.head⟩

/-- Every moment is a moment of the run. -/
theorem run_of_reaches {x y : Stage (Scene τ α) (Work τ α)} {ns : List (Note τ α)}
    (h : Reaches Scene.work x ns y) :
    run x.1.promise x.2 = ((run y.1.promise y.2).1, ns ++ (run y.1.promise y.2).2) := by
  induction h with
  | refl => rfl
  | step _ ih =>
    rw [ih, run_cons]
    simp

-- ============================================================================
-- What becomes visible
-- ============================================================================

/-- The continuation that ran, with the value it was given. -/
def Note.ran? : Note τ α → Option (τ × α)
  | .ran tag v => some (tag, v)
  | .returned _ => none

/-- What a call to complete returned. -/
def Note.returned? : Note τ α → Option Bool
  | .ran _ _ => none
  | .returned won => some won

/-- The continuations that ran, in order. -/
def ranOf (ns : List (Note τ α)) : List (τ × α) := ns.filterMap Note.ran?

/-- What the calls to complete returned, in order. -/
def returnsOf (ns : List (Note τ α)) : List Bool := ns.filterMap Note.returned?

@[simp] theorem ranOf_append (ns ms : List (Note τ α)) : ranOf (ns ++ ms) = ranOf ns ++ ranOf ms :=
  List.filterMap_append

@[simp] theorem returnsOf_append (ns ms : List (Note τ α)) :
    returnsOf (ns ++ ms) = returnsOf ns ++ returnsOf ms := List.filterMap_append

@[simp] theorem ranOf_ran (tag : τ) (v : α) (ns : List (Note τ α)) :
    ranOf (.ran tag v :: ns) = (tag, v) :: ranOf ns := rfl

@[simp] theorem ranOf_returned (won : Bool) (ns : List (Note τ α)) :
    ranOf (.returned won :: ns) = ranOf ns := rfl

@[simp] theorem returnsOf_ran (tag : τ) (v : α) (ns : List (Note τ α)) :
    returnsOf (.ran tag v :: ns) = returnsOf ns := rfl

@[simp] theorem returnsOf_returned (won : Bool) (ns : List (Note τ α)) :
    returnsOf (.returned won :: ns) = won :: returnsOf ns := rfl

theorem mem_returnsOf {won : Bool} {ns : List (Note τ α)} :
    won ∈ returnsOf ns ↔ .returned won ∈ ns := by
  rw [returnsOf, List.mem_filterMap]
  constructor
  · rintro ⟨n, hn, hr⟩
    cases n with
    | ran tag v => cases hr
    | returned w =>
      obtain rfl : w = won := Option.some.inj hr
      exact hn
  · intro h
    exact ⟨_, h, rfl⟩

-- ============================================================================
-- Calls
-- ============================================================================

mutual

/-- What becomes visible of a call that finds the value. -/
def Call.told (v : α) : Call τ α → List (Note τ α)
  | .onDone tag body => .ran tag v :: told v body
  | .complete _ => [.returned false]

def told (v : α) : List (Call τ α) → List (Note τ α)
  | [] => []
  | c :: cs => c.told v ++ told v cs

end

mutual

/-- The continuations that a call registers, and those that they register in turn. -/
def Call.tags : Call τ α → List τ
  | .onDone tag body => tag :: tagsOf body
  | .complete _ => []

def tagsOf : List (Call τ α) → List τ
  | [] => []
  | c :: cs => c.tags ++ tagsOf cs

end

mutual

/-- How often the promise is to be completed, from inside as well. -/
def Call.tries : Call τ α → Nat
  | .onDone _ body => triesOf body
  | .complete _ => 1

def triesOf : List (Call τ α) → Nat
  | [] => 0
  | c :: cs => c.tries + triesOf cs

end

/-- Induction along calls and the calls that their continuations make. -/
theorem calls_induction {motive : List (Call τ α) → Prop} (nil : motive [])
    (onDone : ∀ tag body cs, motive body → motive cs → motive (.onDone tag body :: cs))
    (complete : ∀ v cs, motive cs → motive (.complete v :: cs)) (cs : List (Call τ α)) :
    motive cs := by
  generalize hn : weights cs = n
  induction n using Nat.strongRecOn generalizing cs with
  | ind n ih =>
    cases cs with
    | nil => exact nil
    | cons c cs =>
      cases c with
      | onDone tag body =>
        simp only [weights, Call.weight] at hn
        exact onDone tag body cs (ih _ (by omega) body rfl) (ih _ (by omega) cs rfl)
      | complete v =>
        simp only [weights, Call.weight] at hn
        exact complete v cs (ih _ (by omega) cs rfl)

theorem tagsOf_append (cs ds : List (Call τ α)) : tagsOf (cs ++ ds) = tagsOf cs ++ tagsOf ds := by
  induction cs with
  | nil => rfl
  | cons c cs ih => rw [List.cons_append, tagsOf, tagsOf, ih, List.append_assoc]

/-- Once the value is there, a continuation runs when it is registered. -/
theorem ranOf_told (v : α) (cs : List (Call τ α)) : ranOf (told v cs) = (tagsOf cs).map (·, v) := by
  induction cs using calls_induction with
  | nil => rfl
  | onDone tag body cs hb hc => simp [told, Call.told, tagsOf, Call.tags, hb, hc]
  | complete w cs hc => simp [told, Call.told, tagsOf, Call.tags, hc]

/-- Once the value is there, no call to complete wins. -/
theorem returnsOf_told (v : α) (cs : List (Call τ α)) :
    returnsOf (told v cs) = List.replicate (triesOf cs) false := by
  induction cs using calls_induction with
  | nil => rfl
  | onDone tag body cs hb hc =>
    simp [told, Call.told, triesOf, Call.tries, hb, hc]
  | complete w cs hc =>
    simp [told, Call.told, triesOf, Call.tries, hc, Nat.add_comm 1, List.replicate_succ]

/-- The continuation that a call registers. -/
def Call.registers : Call τ α → Option (Continuation τ α)
  | .onDone tag body => some (tag, body)
  | .complete _ => none

/-- The continuations that calls register themselves, in order. -/
def registered (cs : List (Call τ α)) : List (Continuation τ α) := cs.filterMap Call.registers

/-- The value of a call to complete. -/
def Call.value? : Call τ α → Option α
  | .onDone _ _ => none
  | .complete v => some v

/-- The value of the first of the calls that is one to complete. -/
def firstValue (cs : List (Call τ α)) : Option α := cs.findSome? Call.value?

/-- What becomes visible of continuations that run with a value. -/
def released (v : α) (ks : List (Continuation τ α)) : List (Note τ α) :=
  ks.flatMap fun k => .ran k.1 v :: told v k.2

theorem firstValue_cons_eq_none {c : Call τ α} {cs : List (Call τ α)}
    (h : firstValue (c :: cs) = none) :
    ∃ tag body, c = .onDone tag body ∧ firstValue cs = none := by
  cases c with
  | onDone tag body => exact ⟨tag, body, rfl, h⟩
  | complete v => cases h

/-- As long as no call completes the promise, those registered are all there is. -/
theorem released_registered {cs : List (Call τ α)} (h : firstValue cs = none) (v : α) :
    ranOf (released v (registered cs)) = (tagsOf cs).map (·, v) ∧
      returnsOf (released v (registered cs)) = List.replicate (triesOf cs) false := by
  induction cs with
  | nil => exact ⟨rfl, rfl⟩
  | cons c cs ih =>
    obtain ⟨tag, body, rfl, hcs⟩ := firstValue_cons_eq_none h
    obtain ⟨hran, hreturns⟩ := ih hcs
    have hsplit : released v (registered (.onDone tag body :: cs)) =
        .ran tag v :: told v body ++ released v (registered cs) := rfl
    rw [hsplit]
    constructor
    · simp [hran, ranOf_told, tagsOf, Call.tags]
    · simp [hreturns, returnsOf_told, triesOf, Call.tries]

-- ============================================================================
-- Before the value is there, and after
-- ============================================================================

/-- What becomes visible of a piece of work, and of what it sets off, when the value is there. -/
def Work.told (v : α) : Work τ α → List (Note τ α)
  | .call c => c.told v
  | .run k => .ran k.1 v :: Promise.told v k.2
  | .finish won => [.returned won]

theorem told_calls (v : α) (cs : List (Call τ α)) :
    (calls cs).flatMap (Work.told v) = told v cs := by
  induction cs with
  | nil => rfl
  | cons c cs ih =>
    rw [told, ← ih]
    rfl

theorem told_runs (v : α) (ks : List (Continuation τ α)) :
    (runs ks).flatMap (Work.told v) = released v ks := by
  rw [runs, List.flatMap_map]
  rfl

/-- No piece of work changes a promise whose value is there. -/
theorem work_of_value {s : Scene τ α} {v : α} (h : s.promise.value = some v) (w : Work τ α) :
    (s.work w).1.1.promise = s.promise ∧
      (s.work w).2 ++ (s.work w).1.2.flatMap (Work.told v) = w.told v := by
  cases w with
  | finish won => exact ⟨rfl, rfl⟩
  | run k => simp [Scene.work, h, told_calls, Work.told]
  | call c =>
    cases c with
    | onDone tag body => simp [Scene.work, onDone, h, Work.told, Call.told]
    | complete w => simp [Scene.work, complete, h, Work.told, Call.told]

theorem run_of_value {p : Promise α (Continuation τ α)} {v : α} (h : p.value = some v)
    (stack : List (Work τ α)) : run p stack = (p, stack.flatMap (Work.told v)) := by
  -- The induction is along the work on a scene, whose signals do not matter here.
  suffices hscene : ∀ s : Scene τ α, s.promise = p →
      run s.promise stack = (s.promise, stack.flatMap (Work.told v)) from hscene ⟨p, 0⟩ rfl
  intro s hs
  rw [← hs] at h
  clear hs
  induction s, stack using work_induction with
  | nil s =>
    rw [run]
    rfl
  | cons s w rest ih =>
    obtain ⟨hsame, htold⟩ := work_of_value h w
    rw [run_cons, ih (hsame ▸ h), hsame, List.flatMap_cons, ← htold, List.flatMap_append,
      List.append_assoc]

/-- Calls that do not complete a promise wait. -/
theorem run_registering {cs : List (Call τ α)} (h : firstValue cs = none)
    (ks : List (Continuation τ α)) (rest : List (Work τ α)) :
    run ⟨none, ks⟩ (calls cs ++ rest) = run ⟨none, ks ++ registered cs⟩ rest := by
  induction cs generalizing ks with
  | nil =>
    have hnone : registered ([] : List (Call τ α)) = [] := rfl
    rw [hnone, List.append_nil]
    rfl
  | cons c cs ih =>
    obtain ⟨tag, body, rfl, hcs⟩ := firstValue_cons_eq_none h
    have hstep := run_cons ⟨⟨none, ks⟩, 0⟩ (.call (.onDone tag body)) (calls cs ++ rest)
    simp only [Scene.work, onDone, List.nil_append] at hstep
    change run ⟨none, ks⟩ (.call (.onDone tag body) :: (calls cs ++ rest)) = _
    rw [hstep, ih hcs, List.append_assoc]
    rfl

/-- What becomes visible of calls among which the first to complete is one with the value `v`. -/
def fulfilled (before : List (Call τ α)) (v : α) (after : List (Call τ α)) : List (Note τ α) :=
  released v (registered before) ++ .returned true :: told v after

/-- The first call that completes a promise releases those registered before. -/
theorem run_fulfilled {before : List (Call τ α)} (h : firstValue before = none) (v : α)
    (after : List (Call τ α)) :
    run {} (calls (before ++ .complete v :: after)) =
      (⟨some v, []⟩, fulfilled before v after) := by
  have hsplit : calls (before ++ .complete v :: after) =
      calls before ++ .call (.complete v) :: calls after := by simp [calls]
  change run ⟨none, []⟩ _ = _
  rw [hsplit, run_registering h]
  have hstep := run_cons ⟨⟨none, registered before⟩, 0⟩ (.call (.complete v)) (calls after)
  simp only [Scene.work, complete] at hstep
  rw [List.nil_append, hstep, run_of_value rfl]
  simp [fulfilled, told_runs, told_calls, Work.told]

theorem exists_of_firstValue {cs : List (Call τ α)} {v : α} (h : firstValue cs = some v) :
    ∃ before after, cs = before ++ .complete v :: after ∧ firstValue before = none := by
  induction cs with
  | nil => cases h
  | cons c cs ih =>
    cases c with
    | onDone tag body =>
      obtain ⟨before, after, rfl, hb⟩ := ih h
      exact ⟨.onDone tag body :: before, after, rfl, hb⟩
    | complete w =>
      obtain rfl : w = v := Option.some.inj h
      exact ⟨[], cs, rfl, rfl⟩

theorem firstValue_append {before : List (Call τ α)} (h : firstValue before = none)
    (cs : List (Call τ α)) : firstValue (before ++ cs) = firstValue cs := by
  rw [firstValue, List.findSome?_append, show before.findSome? Call.value? = none from h]
  rfl

-- ============================================================================
-- Every moment
-- ============================================================================

/-- The stage at which calls begin. -/
def start (cs : List (Call τ α)) : Stage (Scene τ α) (Work τ α) := ({}, calls cs)

/-- What holds at every moment of calls on a fresh promise: it waits for the first that completes
    it, and nothing is visible, or it has the value of that one. -/
inductive Phase (cs : List (Call τ α)) (ns : List (Note τ α)) :
    Scene τ α → List (Work τ α) → Prop where
  | waiting (before todo : List (Call τ α)) (n : Nat) (hcs : cs = before ++ todo)
      (hfirst : firstValue before = none) (hns : ns = []) :
      Phase cs ns ⟨⟨none, registered before⟩, n⟩ (calls todo)
  | settled (v : α) (n : Nat) (stack : List (Work τ α)) (hfirst : firstValue cs = some v) :
      Phase cs ns ⟨⟨some v, []⟩, n⟩ stack

theorem phase {cs : List (Call τ α)} {ns : List (Note τ α)} {y : Stage (Scene τ α) (Work τ α)}
    (h : Reaches Scene.work (start cs) ns y) : Phase cs ns y.1 y.2 := by
  induction h with
  | refl => exact .waiting [] cs 0 rfl rfl rfl
  | @step ns s w rest _ ih =>
    generalize hstack : w :: rest = stack at ih
    cases ih with
    | waiting before todo n hcs hfirst hns =>
      -- Only calls are pending yet, so the next piece of work is the next call.
      cases todo with
      | nil => cases hstack
      | cons c todo =>
        obtain ⟨rfl, rfl⟩ := List.cons.inj hstack
        cases c with
        | onDone tag body =>
          have hall : firstValue (before ++ [.onDone tag body]) = none :=
            firstValue_append hfirst _
          have hcs' : cs = (before ++ [.onDone tag body]) ++ todo := by simp [hcs]
          have hphase := Phase.waiting (before ++ [.onDone tag body]) todo n hcs' hall hns
          simpa [Scene.work, onDone, registered, Call.registers, calls] using hphase
        | complete v =>
          refine .settled v n _ ?_
          rw [hcs, firstValue_append hfirst]
          rfl
    | settled v n stack hfirst =>
      have hsame := (work_of_value (s := ⟨⟨some v, []⟩, n⟩) rfl w).1
      generalize (Scene.work ⟨⟨some v, []⟩, n⟩ w).1.1 = s' at hsame ⊢
      obtain ⟨p, n'⟩ := s'
      obtain rfl : p = ⟨some v, []⟩ := hsame
      exact .settled v n' _ hfirst

theorem phase_value {cs : List (Call τ α)} {ns : List (Note τ α)} {s : Scene τ α}
    {stack : List (Work τ α)} {v : α} (h : Phase cs ns s stack) (hv : s.promise.value = some v) :
    s.promise = ⟨some v, []⟩ ∧ firstValue cs = some v := by
  cases h with
  | waiting before todo n hcs hfirst hns => cases hv
  | settled w n stack hfirst =>
    obtain rfl : w = v := Option.some.inj hv
    exact ⟨rfl, hfirst⟩

theorem phase_none {cs : List (Call τ α)} {ns : List (Note τ α)} {s : Scene τ α}
    {stack : List (Work τ α)} (h : Phase cs ns s stack) (hv : s.promise.value = none) :
    ns = [] ∧ ∃ before todo, cs = before ++ todo ∧ firstValue before = none ∧
      stack = calls todo := by
  cases h with
  | waiting before todo n hcs hfirst hns => exact ⟨hns, before, todo, hcs, hfirst, rfl⟩
  | settled w n stack hfirst => cases hv

/-- A value that is there stays. -/
theorem value_of_reaches {y z : Stage (Scene τ α) (Work τ α)} {ns : List (Note τ α)} {v : α}
    (h : Reaches Scene.work y ns z) (hy : y.1.promise.value = some v) :
    z.1.promise.value = some v := by
  refine h.keeps (P := fun s => s.promise.value = some v) (fun s w hs => ?_) hy
  rw [(work_of_value hs w).1]
  exact hs

-- ============================================================================
-- Tasks that wait
-- ============================================================================

/-- There is a signal for each call that returns that it won. -/
theorem signals_of_reaches {y z : Stage (Scene τ α) (Work τ α)} {ns : List (Note τ α)}
    (h : Reaches Scene.work y ns z) : z.1.signals = y.1.signals + (returnsOf ns).count true := by
  induction h with
  | refl => rfl
  | @step ns s w rest _ ih =>
    have hwork : (s.work w).1.1.signals = s.signals + (returnsOf (s.work w).2).count true := by
      cases w with
      | finish won => cases won <;> rfl
      | run k =>
        rw [Scene.work]
        cases s.promise.value <;> rfl
      | call c =>
        cases c with
        | onDone tag body =>
          rw [Scene.work, onDone]
          cases s.promise.value <;> rfl
        | complete v =>
          rw [Scene.work, complete]
          cases s.promise.value <;> rfl
    rw [returnsOf_append, List.count_append, hwork, ih, Nat.add_assoc]

/-- A task that sleeps resumes exactly when a call has returned that it won. -/
theorem poll_of_reaches {y z : Stage (Scene τ α) (Work τ α)} {ns : List (Note τ α)}
    (h : Reaches Scene.work y ns z) (hy : y.1.promise.value = none) :
    (.returned true ∉ ns → z.1.poll y.1.look = y.1.look) ∧
      (.returned true ∈ ns → z.1.poll y.1.look = z.1.look) := by
  have hasleep : y.1.look = .asleep y.1.signals := by rw [Scene.look, hy, Waiter.look]
  have hsignals := signals_of_reaches h
  rw [hasleep, Scene.poll, Waiter.poll]
  constructor
  · intro hnot
    have hzero : (returnsOf ns).count true = 0 :=
      List.count_eq_zero.mpr fun hmem => hnot (mem_returnsOf.mp hmem)
    rw [if_pos (by omega)]
  · intro hmem
    have hpos := List.count_pos_iff.mpr (mem_returnsOf.mpr hmem)
    rw [if_neg (by omega)]
    rfl

theorem look_of_value {s : Scene τ α} {v : α} (h : s.promise.value = some v) :
    s.look = .resumed v := by
  rw [Scene.look, h, Waiter.look]

/-- What comes before something that is further down a list is all there if that is there. -/
theorem prefix_of_mem {β : Type} {as bs cs ds : List β} {a : β}
    (h : as ++ a :: bs = cs ++ ds) (ha : a ∉ as) (hc : a ∈ cs) : as ++ [a] <+: cs := by
  rcases List.append_eq_append_iff.mp h with ⟨es, rfl, hes⟩ | ⟨es, rfl, -⟩
  · cases es with
    | nil =>
      rw [List.append_nil] at hc
      exact absurd hc ha
    | cons e es =>
      obtain ⟨rfl, -⟩ := List.cons.inj hes
      exact ⟨es, by simp⟩
  · exact absurd (List.mem_append_left es hc) ha

-- ============================================================================
-- What a caller may rely on
-- ============================================================================

/-- What a caller may rely on, whichever calls are made on a fresh promise, in whichever order, and
    whatever the continuations call from inside. -/
structure Settles (cs : List (Call τ α)) : Prop where
  /-- If no call completes the promise, then those registered wait, and nothing is visible. -/
  unfulfilled : firstValue cs = none → run {} (calls cs) = (⟨none, registered cs⟩, [])
  /-- The first call that completes it gives it its value.  Before this call returns the
      continuations registered before have run in their order, each with all that it calls, and
      those registered later run where they are registered. -/
  fulfilled : ∀ {before after : List (Call τ α)} {v : α}, cs = before ++ .complete v :: after →
    firstValue before = none →
      run {} (calls cs) = (⟨some v, []⟩, Promise.fulfilled before v after)
  /-- Each continuation runs once, with the value, and one call to complete returns that it won. -/
  once : ∀ {before after : List (Call τ α)} {v : α}, cs = before ++ .complete v :: after →
    firstValue before = none →
      ranOf (Promise.fulfilled before v after) = (tagsOf cs).map (·, v) ∧
        returnsOf (Promise.fulfilled before v after) =
          List.replicate (triesOf before) false ++ true :: List.replicate (triesOf after) false
  /-- Every moment is one of the run, which ends. -/
  moments : ∀ {ns : List (Note τ α)} {y : Stage (Scene τ α) (Work τ α)},
    Reaches Scene.work (start cs) ns y →
      ∃ ms n, Reaches Scene.work y ms (⟨(run {} (calls cs)).1, n⟩, []) ∧
        ns ++ ms = (run {} (calls cs)).2
  /-- A call that finds no value is the first to complete the promise, and wins. -/
  wins : ∀ {ns : List (Note τ α)} {s : Scene τ α} {v : α} {rest : List (Work τ α)},
    Reaches Scene.work (start cs) ns (s, .call (.complete v) :: rest) →
      s.promise.value = none → firstValue cs = some v ∧ ns = []
  /-- A call that finds a value returns at once that it did not win. -/
  loses : ∀ {s : Scene τ α} {v w : α} {rest : List (Work τ α)}, s.promise.value = some v →
    Reaches Scene.work (s, .call (.complete w) :: rest) [.returned false] (s, rest)
  /-- The value is the one of the first call, and never changes. -/
  stays : ∀ {ns ms : List (Note τ α)} {y z : Stage (Scene τ α) (Work τ α)} {v : α},
    Reaches Scene.work (start cs) ns y → y.1.promise.value = some v → Reaches Scene.work y ms z →
      firstValue cs = some v ∧ z.1.promise.value = some v
  /-- A continuation that is registered when the value is there runs at once. -/
  late : ∀ {s : Scene τ α} {tag : τ} {body : List (Call τ α)} {rest : List (Work τ α)} {v : α},
    s.promise.value = some v →
      Reaches Scene.work (s, .call (.onDone tag body) :: rest) [.ran tag v] (s, calls body ++ rest)
  /-- A task that began to wait before the value was there sleeps until the call that won has
      returned, and then resumes with the value. -/
  waits : ∀ {ns ms : List (Note τ α)} {y z : Stage (Scene τ α) (Work τ α)},
    Reaches Scene.work (start cs) ns y → y.1.promise.value = none → Reaches Scene.work y ms z →
      (.returned true ∉ ms → z.1.poll y.1.look = y.1.look) ∧
      (.returned true ∈ ms → ∃ before v after, cs = before ++ .complete v :: after ∧
        firstValue before = none ∧ z.1.poll y.1.look = .resumed v ∧
        released v (registered before) ++ [.returned true] <+: ms)

theorem not_mem_released {before : List (Call τ α)} (h : firstValue before = none) (v : α) :
    (.returned true : Note τ α) ∉ released v (registered before) := by
  rw [← mem_returnsOf, (released_registered h v).2]
  exact fun hmem => Bool.false_ne_true (List.eq_of_mem_replicate hmem).symm

/-- A task that waits resumes once the call that won has returned, behind everything that the call
    released. -/
theorem resumes_of_reaches {cs : List (Call τ α)} {ms : List (Note τ α)}
    {y z : Stage (Scene τ α) (Work τ α)} (hpast : Reaches Scene.work (start cs) ms z)
    (hv : y.1.promise.value = none) (hz : Reaches Scene.work y ms z) (hmem : .returned true ∈ ms) :
    ∃ before v after, cs = before ++ .complete v :: after ∧ firstValue before = none ∧
      z.1.poll y.1.look = .resumed v ∧
      released v (registered before) ++ [.returned true] <+: ms := by
  obtain ⟨-, hresumes⟩ := poll_of_reaches hz hv
  cases hvalue : z.1.promise.value with
  | none =>
    rw [(phase_none (phase hpast) hvalue).1] at hmem
    cases hmem
  | some v =>
    obtain ⟨before, after, rfl, hfirst⟩ :=
      exists_of_firstValue (phase_value (phase hpast) hvalue).2
    -- What is visible by now is how the whole run begins, and in the run the call that won
    -- returns behind everything that it released.
    have hrun := run_of_reaches hpast
    change run {} (calls (before ++ .complete v :: after)) = _ at hrun
    rw [run_fulfilled hfirst, Prod.mk.injEq] at hrun
    refine ⟨before, v, after, rfl, hfirst, ?_, ?_⟩
    · rw [hresumes hmem, look_of_value hvalue]
    · exact prefix_of_mem hrun.2 (not_mem_released hfirst v) hmem

theorem settles (cs : List (Call τ α)) : Settles cs where
  unfulfilled := by
    intro h
    have hrun := run_registering h [] ([] : List (Work τ α))
    rw [List.append_nil, run] at hrun
    exact hrun
  fulfilled := by
    rintro before after v rfl h
    exact run_fulfilled h v after
  once := by
    rintro before after v rfl h
    obtain ⟨hran, hreturns⟩ := released_registered h v
    rw [Promise.fulfilled]
    constructor
    · simp [hran, ranOf_told, tagsOf_append, tagsOf, Call.tags]
    · simp [hreturns, returnsOf_told]
  moments := by
    intro ns y h
    obtain ⟨n, hrest⟩ := reaches_run y.1 y.2
    have hrun : run {} (calls cs) = _ := run_of_reaches h
    rw [hrun]
    exact ⟨_, n, hrest, rfl⟩
  wins := by
    intro ns s v rest h hv
    obtain ⟨hns, before, todo, rfl, hfirst, hstack⟩ := phase_none (phase h) hv
    refine ⟨?_, hns⟩
    cases todo with
    | nil => cases hstack
    | cons c todo =>
      obtain ⟨hc, -⟩ := List.cons.inj hstack
      obtain rfl : .complete v = c := Work.call.inj hc
      rw [firstValue_append hfirst]
      rfl
  loses := by
    intro s v w rest hv
    have hcall : Reaches Scene.work (s, .call (.complete w) :: rest) _ _ := .step (.refl _)
    simp only [Scene.work, complete, hv] at hcall
    exact .step hcall
  stays := by
    intro ns ms y z v hy hv hz
    exact ⟨(phase_value (phase hy) hv).2, value_of_reaches hz hv⟩
  late := by
    intro s tag body rest v hv
    have hcall : Reaches Scene.work (s, .call (.onDone tag body) :: rest) _ _ := .step (.refl _)
    simp only [Scene.work, onDone, hv] at hcall
    have hrun := Reaches.step hcall
    simpa [Scene.work, hv] using hrun
  waits := by
    intro ns ms y z hy hv hz
    have hns : ns = [] := (phase_none (phase hy) hv).1
    exact ⟨(poll_of_reaches hz hv).1, resumes_of_reaches (by simpa [hns] using hy.trans hz) hv hz⟩

end Promise
end Rebalance
