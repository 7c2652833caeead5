/-
  Rebalance.Round.Script

  Calls on a round, including those made from inside: by a continuation that
  runs when the round ends, and by the exchange manager while it is asked to
  force an exchange. What the manager does in reaction is a list of calls as
  well. `run` works off a stack of pending work and always ends, because a
  round closes once and every other step shrinks what is pending.
-/
import Rebalance.Round.Change

namespace Rebalance
namespace Round

variable {τ : Type}

/-- A call on a round. `probe` asks whether it is done. -/
inductive Call (τ : Type) where
  | change (c : Change)
  | onDone (tag : τ) (body : List (Call τ))
  | probe

/-- A registered continuation: its tag and the calls it makes. -/
abbrev Continuation (τ : Type) := τ × List (Call τ)

/-- What becomes visible while calls are worked off. -/
inductive Note (τ : Type) where
  /-- The manager was asked to force an exchange that reassigns the misses. -/
  | forced (e : Exchange)
  /-- The continuation `tag` ran with the summary. -/
  | ran (tag : τ) (s : Summary)
  /-- The answer to a probe. -/
  | probed (done : Bool)

/-- Pending work. -/
inductive Work (τ : Type) where
  | call (c : Call τ)
  | run (k : Continuation τ)
  | announce (s : Summary)

/-- Calls to be made in order. -/
def calls (cs : List (Call τ)) : List (Work τ) := cs.map Work.call

/-- Continuations to be run in order. -/
def runs (ks : List (Continuation τ)) : List (Work τ) := ks.map Work.run

/-! ## The size of pending work -/

mutual

def Call.weight : Call τ → Nat
  | .change _ => 1
  | .onDone _ body => 2 + weights body
  | .probe => 1

def weights : List (Call τ) → Nat
  | [] => 0
  | c :: cs => c.weight + weights cs

end

def Work.weight : Work τ → Nat
  | .call c => c.weight
  | .run k => 1 + weights k.2
  | .announce _ => 1

def stackWeight : List (Work τ) → Nat
  | [] => 0
  | w :: ws => w.weight + stackWeight ws

def waitingWeight : List (Continuation τ) → Nat
  | [] => 0
  | k :: ks => 1 + weights k.2 + waitingWeight ks

theorem stackWeight_append (a b : List (Work τ)) :
    stackWeight (a ++ b) = stackWeight a + stackWeight b := by
  induction a with
  | nil => simp [stackWeight]
  | cons w ws ih =>
    simp only [List.cons_append, stackWeight, ih]
    omega

theorem stackWeight_calls (cs : List (Call τ)) : stackWeight (calls cs) = weights cs := by
  induction cs with
  | nil => rfl
  | cons c cs ih =>
    have e : calls (c :: cs) = .call c :: calls cs := rfl
    simp only [e, stackWeight, Work.weight, weights, ih]

theorem stackWeight_runs (ks : List (Continuation τ)) :
    stackWeight (runs ks) = waitingWeight ks := by
  induction ks with
  | nil => rfl
  | cons k ks ih =>
    have e : runs (k :: ks) = .run k :: runs ks := rfl
    simp only [e, stackWeight, Work.weight, waitingWeight, ih]

theorem waitingWeight_append (a b : List (Continuation τ)) :
    waitingWeight (a ++ b) = waitingWeight a + waitingWeight b := by
  induction a with
  | nil => simp [waitingWeight]
  | cons k ks ih =>
    simp only [List.cons_append, waitingWeight, ih]
    omega

/-- What the manager's reaction still adds: it comes at most once. -/
def reserve (reaction : List (Call τ)) (r : Round (Continuation τ)) : Nat :=
  if r.closed then 0 else weights reaction + 1

/-! ## Working it off -/

/-- Work off a stack, noting what becomes visible. Closing forces the exchange first, with
    the manager's reaction, and then announces the summary. -/
def run (reaction : List (Call τ)) (r : Round (Continuation τ)) :
    List (Work τ) → Round (Continuation τ) × List (Note τ)
  | [] => (r, [])
  | .announce s :: rest =>
    match _h : r.outcome.complete s with
    | none => run reaction r rest
    | some _ => run reaction (r.announce s).1 (runs (r.announce s).2 ++ rest)
  | .run k :: rest =>
    match r.summary with
    | none => run reaction r rest
    | some s =>
      let (r', notes) := run reaction r (calls k.2 ++ rest)
      (r', .ran k.1 s :: notes)
  | .call .probe :: rest =>
    let (r', notes) := run reaction r rest
    (r', .probed r.isDone :: notes)
  | .call (.onDone tag body) :: rest =>
    match r.outcome.value with
    | none =>
      run reaction
        { r with outcome := { r.outcome with waiting := r.outcome.waiting ++ [(tag, body)] } } rest
    | some _ => run reaction r (.run (tag, body) :: rest)
  | .call (.change c) :: rest =>
    match _h : (r.change c).2 with
    | none => run reaction (r.change c).1 rest
    | some s =>
      match (r.change c).1.forced s with
      | none => run reaction (r.change c).1 (.announce s :: rest)
      | some e =>
        let (r', notes) := run reaction (r.change c).1 (calls reaction ++ .announce s :: rest)
        (r', .forced e :: notes)
termination_by stack => stackWeight stack + waitingWeight r.outcome.waiting + reserve reaction r
decreasing_by
  · simp only [stackWeight, Work.weight]
    omega
  · have hv : r.outcome.value = none := by
      cases hv : r.outcome.value with
      | none => rfl
      | some v => simp [Promise.complete, hv] at _h
    have e : r.announce s =
        ({ r with outcome := { value := some s, waiting := [] } }, r.outcome.waiting) := by
      simp [announce, Promise.complete, hv]
    simp only [e, stackWeight, stackWeight_append, stackWeight_runs, waitingWeight, Work.weight,
      reserve]
    omega
  · simp only [stackWeight, Work.weight]
    omega
  · simp only [stackWeight, stackWeight_append, stackWeight_calls, Work.weight]
    omega
  · simp only [stackWeight, Work.weight, Call.weight]
    omega
  · simp only [stackWeight, waitingWeight_append, waitingWeight, Work.weight, Call.weight, reserve]
    omega
  · simp only [stackWeight, Work.weight, Call.weight]
    omega
  · have hc := change_closed r c
    rw [_h] at hc
    simp only [stackWeight, Work.weight, Call.weight, change_waiting, reserve, hc, Option.isSome_none,
      Bool.or_false]
    omega
  · have hc := change_closed r c
    have ho := change_summary r c (by simp [_h])
    rw [_h] at hc
    simp only [stackWeight, Work.weight, Call.weight, change_waiting, reserve, hc, ho,
      Option.isSome_some, Bool.or_true, if_true]
    simp only [Bool.false_eq_true, if_false]
    omega
  · have hc := change_closed r c
    have ho := change_summary r c (by simp [_h])
    rw [_h] at hc
    simp only [stackWeight, stackWeight_append, stackWeight_calls, Work.weight, Call.weight,
      change_waiting, reserve, hc, ho, Option.isSome_some, Bool.or_true, if_true]
    simp only [Bool.false_eq_true, if_false]
    omega

/-- Make one call and everything it sets off. -/
def perform (reaction : List (Call τ)) (r : Round (Continuation τ)) (c : Call τ) :
    Round (Continuation τ) × List (Note τ) :=
  run reaction r [.call c]

end Round
end Rebalance
