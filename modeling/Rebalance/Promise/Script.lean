/-
  Rebalance.Promise.Script

  Calls on a promise, including those that a running continuation makes. A
  continuation is named by a tag and holds the calls it will make; running it
  may register further continuations or try to complete the promise again, to
  any depth. `run` works off a stack of pending work, and every step of it
  shrinks what is pending and registered together, so it always ends.
-/
import Rebalance.Promise

namespace Rebalance
namespace Promise

variable {α τ : Type}

/-- A call on a promise. -/
inductive Call (τ α : Type) where
  | onDone (tag : τ) (body : List (Call τ α))
  | complete (value : α)

/-- A registered continuation: its tag and the calls it makes. -/
abbrev Continuation (τ α : Type) := τ × List (Call τ α)

/-- What becomes visible while calls are worked off. -/
inductive Note (τ α : Type) where
  /-- The continuation `tag` ran with the value. -/
  | ran (tag : τ) (value : α)
  /-- A call to complete returned whether it produced the value. -/
  | returned (won : Bool)
deriving DecidableEq

/-- Pending work. -/
inductive Work (τ α : Type) where
  | call (c : Call τ α)
  | run (k : Continuation τ α)
  | finish (won : Bool)

/-- Calls to be made in order. -/
def calls (cs : List (Call τ α)) : List (Work τ α) := cs.map Work.call

/-- Continuations to be run in order. -/
def runs (ks : List (Continuation τ α)) : List (Work τ α) := ks.map Work.run

/-! ## The size of pending work -/

mutual

def Call.weight : Call τ α → Nat
  | .onDone _ body => 2 + weights body
  | .complete _ => 2

def weights : List (Call τ α) → Nat
  | [] => 0
  | c :: cs => c.weight + weights cs

end

def Work.weight : Work τ α → Nat
  | .call c => c.weight
  | .run k => 1 + weights k.2
  | .finish _ => 1

def stackWeight : List (Work τ α) → Nat
  | [] => 0
  | w :: ws => w.weight + stackWeight ws

def waitingWeight : List (Continuation τ α) → Nat
  | [] => 0
  | k :: ks => 1 + weights k.2 + waitingWeight ks

theorem stackWeight_append (a b : List (Work τ α)) :
    stackWeight (a ++ b) = stackWeight a + stackWeight b := by
  induction a with
  | nil => simp [stackWeight]
  | cons w ws ih =>
    simp only [List.cons_append, stackWeight, ih]
    omega

theorem stackWeight_calls (cs : List (Call τ α)) :
    stackWeight (calls cs) = weights cs := by
  induction cs with
  | nil => rfl
  | cons c cs ih =>
    have e : calls (c :: cs) = .call c :: calls cs := rfl
    simp only [e, stackWeight, Work.weight, weights, ih]

theorem stackWeight_runs (ks : List (Continuation τ α)) :
    stackWeight (runs ks) = waitingWeight ks := by
  induction ks with
  | nil => rfl
  | cons k ks ih =>
    have e : runs (k :: ks) = .run k :: runs ks := rfl
    simp only [e, stackWeight, Work.weight, waitingWeight, ih]

theorem waitingWeight_append (a b : List (Continuation τ α)) :
    waitingWeight (a ++ b) = waitingWeight a + waitingWeight b := by
  induction a with
  | nil => simp [waitingWeight]
  | cons k ks ih =>
    simp only [List.cons_append, waitingWeight, ih]
    omega

/-! ## Working it off -/

/-- Work off a stack, noting what becomes visible. A continuation's own calls come before
    whatever was pending when it ran, and a call that produces the value returns only after
    the continuations it released. -/
def run (p : Promise α (Continuation τ α)) :
    List (Work τ α) → Promise α (Continuation τ α) × List (Note τ α)
  | [] => (p, [])
  | .finish won :: rest =>
    let (p', notes) := run p rest
    (p', .returned won :: notes)
  | .run k :: rest =>
    match p.value with
    | none => run p rest
    | some v =>
      let (p', notes) := run p (calls k.2 ++ rest)
      (p', .ran k.1 v :: notes)
  | .call (.onDone tag body) :: rest =>
    match p.value with
    | none => run { p with waiting := p.waiting ++ [(tag, body)] } rest
    | some _ => run p (.run (tag, body) :: rest)
  | .call (.complete v) :: rest =>
    match p.value with
    | some _ => run p (.finish false :: rest)
    | none => run ⟨some v, []⟩ (runs p.waiting ++ .finish true :: rest)
termination_by stack => stackWeight stack + waitingWeight p.waiting
decreasing_by
  all_goals simp only [stackWeight, stackWeight_append, stackWeight_calls, stackWeight_runs,
    waitingWeight_append, waitingWeight, Work.weight, Call.weight]
  all_goals omega

/-- Make one call and everything it sets off. -/
def perform (p : Promise α (Continuation τ α)) (c : Call τ α) :
    Promise α (Continuation τ α) × List (Note τ α) :=
  run p [.call c]

end Promise
end Rebalance
