/-
  Rebalance.Proofs.Preloads

  Which preload exchanges are asked for. A delayed request is followed through
  the calls after it until its deadline passes or a later call takes its
  place; a forced one is due at once. What is asked for is exactly what has
  become due and whose exchange has finished.

  A due request whose exchange is still to finish waits in the book, so the
  count is kept over both: what is asked for and what waits there are together
  what waited before and what has become due since.
-/
import Mathlib.Data.List.Perm.Basic
import Rebalance.Schedule

namespace Rebalance

-- ============================================================================
-- What waits in the book
-- ============================================================================

namespace ExchangeBook

variable {κ : Type} {b : ExchangeBook κ} {e e' : Exchange} {p : Promise Topology κ}

/-- Everything that waits for some exchange. -/
def waiting (b : ExchangeBook κ) : List κ := b.promises.flatMap (·.waiting)

theorem promise_congr (same : e.number = e'.number) : b.promise e = b.promise e' := by
  rw [promise, same, promise]

theorem promises_of_promise (known : e.number < b.promises.length) :
    b.promises[e.number]? = some (b.promise e) := by
  rw [promise, List.getElem?_eq_getElem known, Option.getD_some]

theorem promise_set (known : e.number < b.promises.length) :
    (ExchangeBook.mk (b.promises.set e.number p)).promise e' =
      if e.number = e'.number then p else b.promise e' := by
  rw [promise, List.getElem?_set]
  split
  · rfl
  · rfl

/-- Replacing one promise exchanges what waits in it for what waits in the new one. -/
theorem waiting_set (known : e.number < b.promises.length) :
    ((b.promise e).waiting ++ (ExchangeBook.mk (b.promises.set e.number p)).waiting).Perm
      (p.waiting ++ b.waiting) := by
  have swap : ∀ (l : List (Promise Topology κ)) (n : Nat) (q : Promise Topology κ),
      l[n]? = some q → (q.waiting ++ (l.set n p).flatMap (·.waiting)).Perm
        (p.waiting ++ l.flatMap (·.waiting)) := by
    intro l
    induction l with
    | nil => intro n q found; simp at found
    | cons a l ih =>
      rintro (_ | n) q found
      · obtain rfl : a = q := by simpa using found
        rw [List.set_cons_zero, List.flatMap_cons, List.flatMap_cons, ← List.append_assoc,
          ← List.append_assoc]
        exact List.perm_append_comm.append_right _
      · rw [List.set_cons_succ, List.flatMap_cons, List.flatMap_cons]
        refine (List.perm_append_comm_assoc ..).trans (((ih n q ?_).append_left _).trans
          (List.perm_append_comm_assoc ..))
        simpa using found
  exact swap _ _ _ (promises_of_promise known)

theorem isDone_set (known : e.number < b.promises.length) :
    (ExchangeBook.mk (b.promises.set e.number p)).isDone e' =
      if e.number = e'.number then p.isDone else b.isDone e' := by
  rw [isDone, promise_set known]
  split <;> rfl

theorem known_of_isDone (h : b.isDone e = true) : e.number < b.promises.length := by
  by_contra unknown
  rw [isDone, promise, List.getElem?_eq_none (Nat.le_of_not_lt unknown)] at h
  cases h

theorem known_of_waits {k : κ} (h : k ∈ (b.promise e).waiting) :
    e.number < b.promises.length := by
  by_contra unknown
  rw [promise, List.getElem?_eq_none (Nat.le_of_not_lt unknown)] at h
  cases h

theorem onDone_of_isDone {k : κ} (h : b.isDone e = true) :
    ∃ topology, b.onDone e k = (b, some topology) := by
  obtain ⟨topology, value⟩ := Option.isSome_iff_exists.1 h
  obtain ⟨_, found⟩ := List.getElem?_eq_some_iff.1 (promises_of_promise (known_of_isDone h))
  refine ⟨topology, ?_⟩
  simp only [onDone, Promise.onDone, value]
  rw [← found, List.set_getElem_self]

theorem onDone_of_not_isDone {k : κ} (h : b.isDone e = false) :
    b.onDone e k =
      (⟨b.promises.set e.number
        { b.promise e with waiting := (b.promise e).waiting ++ [k] }⟩, none) := by
  simp only [onDone, Promise.onDone, Option.isSome_eq_false_iff.1 h |> Option.isNone_iff_eq_none.1]

theorem complete_eq_some {ks : List κ} {b' : ExchangeBook κ} (h : b.complete e = some (b', ks)) :
    b.isDone e = false ∧ ks = (b.promise e).waiting ∧
      b' = ⟨b.promises.set e.number { value := some e.topology, waiting := [] }⟩ := by
  cases value : (b.promise e).value with
  | none =>
    simp only [complete, Promise.complete, value, Option.some.injEq, Prod.mk.injEq] at h
    exact ⟨by rw [isDone, Promise.isDone, value]; rfl, h.2.symm, h.1.symm⟩
  | some topology => simp [complete, Promise.complete, value] at h

theorem isDone_onDone {k : κ} (known : e.number < b.promises.length) :
    (b.onDone e k).1.isDone e' = b.isDone e' := by
  cases finished : b.isDone e with
  | true => obtain ⟨_, asks⟩ := onDone_of_isDone (k := k) finished; rw [asks]
  | false =>
    rw [onDone_of_not_isDone finished, isDone_set known]
    split
    · next same => rw [isDone, ← promise_congr same]; rfl
    · rfl

theorem onDone_length {k : κ} : (b.onDone e k).1.promises.length = b.promises.length :=
  List.length_set

/-- Registering is accounted for: the continuation is run at once or waits. -/
theorem onDone_balance {k : κ} (known : e.number < b.promises.length) :
    ((if (b.onDone e k).2.isSome then [k] else []) ++ (b.onDone e k).1.waiting).Perm
      (b.waiting ++ [k]) := by
  cases finished : b.isDone e with
  | true =>
    obtain ⟨_, asks⟩ := onDone_of_isDone (k := k) finished
    rw [asks]
    exact List.perm_append_comm
  | false =>
    rw [onDone_of_not_isDone finished]
    have moved := waiting_set (p := { b.promise e with
      waiting := (b.promise e).waiting ++ [k] }) known
    rw [List.append_assoc, List.perm_append_left_iff] at moved
    exact moved.trans List.perm_append_comm

variable {b' : ExchangeBook κ} {ks : List κ}

theorem complete_length (h : b.complete e = some (b', ks)) :
    b'.promises.length = b.promises.length := by
  rw [(complete_eq_some h).2.2, List.length_set]

/-- Finishing is accounted for: what waited is run and waits no more. -/
theorem complete_balance (h : b.complete e = some (b', ks)) : (ks ++ b'.waiting).Perm b.waiting := by
  obtain ⟨_, rfl, rfl⟩ := complete_eq_some h
  by_cases known : e.number < b.promises.length
  · exact waiting_set known
  · rw [List.set_eq_of_length_le (Nat.le_of_not_lt known), promise,
      List.getElem?_eq_none (Nat.le_of_not_lt known)]
    exact List.Perm.refl _

theorem isDone_complete (h : b.complete e = some (b', ks)) (known : e'.number < b.promises.length) :
    b'.isDone e' = (decide (e.number = e'.number) || b.isDone e') := by
  obtain ⟨_, -, rfl⟩ := complete_eq_some h
  by_cases same : e.number = e'.number
  · rw [isDone_set (same ▸ known), if_pos same, decide_eq_true same]; rfl
  · rw [isDone, promise, List.getElem?_set_ne same, decide_eq_false same]; rfl

theorem promise_enter (topology : Topology) (discovery : Discovery) (finished : Bool)
    (known : e.number < b.promises.length) :
    (b.enter topology discovery finished).1.promise e = b.promise e := by
  rw [promise, enter, List.getElem?_append_left known, promise]

theorem waiting_enter (topology : Topology) (discovery : Discovery) (finished : Bool) :
    (b.enter topology discovery finished).1.waiting = b.waiting := by
  rw [waiting, enter, List.flatMap_append, waiting]
  exact List.append_nil _

end ExchangeBook

-- ============================================================================
-- What waits names what it waits for
-- ============================================================================

namespace ExchangeBook

variable {b b' : ExchangeBook Exchange} {e k : Exchange} {ks : List Exchange}

/-- A preload exchange that waits for an exchange is for that one, which is still to finish. -/
def Homed (b : ExchangeBook Exchange) : Prop :=
  ∀ e, ∀ k ∈ (b.promise e).waiting, k.number = e.number ∧ b.isDone e = false

theorem Homed.not_isDone (homed : b.Homed) (h : k ∈ b.waiting) : b.isDone k = false := by
  obtain ⟨p, place, waits⟩ := List.mem_flatMap.1 h
  obtain ⟨n, found⟩ := List.mem_iff_getElem?.1 place
  have at_n : b.promise { k with number := n } = p := by rw [promise, found]; rfl
  obtain ⟨own, unfinished⟩ := homed { k with number := n } k (at_n ▸ waits)
  rw [isDone, promise, own]
  exact unfinished

theorem Homed.onDone (homed : b.Homed) (known : e.number < b.promises.length) :
    (b.onDone e e).1.Homed := by
  cases finished : b.isDone e with
  | true => obtain ⟨_, asks⟩ := onDone_of_isDone (k := e) finished; rwa [asks]
  | false =>
    intro e' k waits
    rw [isDone_onDone known]
    rw [onDone_of_not_isDone finished, promise_set known] at waits
    split at waits
    · next same =>
      rw [isDone, ← promise_congr same]
      refine ⟨?_, finished⟩
      rcases List.mem_append.1 waits with before | own
      · exact (homed e k before).1.trans same
      · rw [List.mem_singleton.1 own, same]
    · exact homed e' k waits

theorem Homed.complete (homed : b.Homed) (h : b.complete e = some (b', ks)) : b'.Homed := by
  obtain ⟨_, -, rfl⟩ := complete_eq_some h
  by_cases known : e.number < b.promises.length
  · intro e' k waits
    rw [promise_set known] at waits
    rw [isDone_set known]
    split at waits
    · cases waits
    · next other => rw [if_neg other]; exact homed e' k waits
  · rwa [List.set_eq_of_length_le (Nat.le_of_not_lt known)]

theorem Homed.enter (homed : b.Homed) (topology : Topology) (discovery : Discovery)
    (finished : Bool) : (b.enter topology discovery finished).1.Homed := by
  intro e k waits
  by_cases known : e.number < b.promises.length
  · rw [promise_enter _ _ _ known] at waits
    rw [isDone, promise_enter _ _ _ known]
    exact homed e k waits
  · rw [promise, ExchangeBook.enter, List.getElem?_append_right (Nat.le_of_not_lt known)] at waits
    cases place : e.number - b.promises.length <;> simp [place] at waits

end ExchangeBook

namespace Schedule

-- ============================================================================
-- Calls
-- ============================================================================

/-- What is done to the schedule or the exchanges it knows. -/
inductive Call where
  | arm (delay : Span)
  | forcePreload
  | disarm
  | remember (e : Exchange)
  | stop
  | enter (topology : Topology) (d : Discovery) (finished : Bool)
  | finish (e : Exchange)
  | elapse (ms : Nat)

variable {s : Schedule} {c : Call} {calls : List Call} {t : Timer} {d ms : Nat}

/-- One call: the schedule after it and the preload exchanges it asks for. -/
def call (s : Schedule) : Call → Schedule × List Exchange
  | .arm delay =>
    match s.arm delay with
    | .error _ => (s, [])
    | .ok armed => (armed, [])
  | .forcePreload => s.forcePreload
  | .disarm => (s.disarm.1, [])
  | .remember e => (s.remember e, [])
  | .stop => (s.stop, [])
  | .enter topology discovery finished => ((s.enter topology discovery finished).1, [])
  | .finish e => ((s.finish e).1, (s.finish e).2.1)
  | .elapse ms => s.elapse ms

/-- The schedule after some calls. -/
def run (s : Schedule) (calls : List Call) : Schedule :=
  calls.foldl (fun s c => (s.call c).1) s

/-- The preload exchanges asked for in the course of some calls. -/
def asked (s : Schedule) : List Call → List Exchange
  | [] => []
  | c :: cs => (s.call c).2 ++ asked (s.call c).1 cs

/-- A handle names an exchange that has been entered. -/
def Known (s : Schedule) : Call → Prop
  | .remember e => e.number < s.book.promises.length
  | _ => True

/-- Every handle remembered names an exchange entered before. -/
def AllKnown (s : Schedule) : List Call → Prop
  | [] => True
  | c :: cs => s.Known c ∧ AllKnown (s.call c).1 cs

instance decidableKnown (s : Schedule) : (c : Call) → Decidable (s.Known c)
  | .remember e => inferInstanceAs (Decidable (e.number < s.book.promises.length))
  | .arm _ | .forcePreload | .disarm | .stop | .enter .. | .finish _ | .elapse _ => isTrue trivial

instance decidableAllKnown (s : Schedule) : (calls : List Call) → Decidable (s.AllKnown calls)
  | [] => isTrue trivial
  | c :: cs =>
    have := decidableAllKnown (s.call c).1 cs
    inferInstanceAs (Decidable (s.Known c ∧ AllKnown (s.call c).1 cs))

@[simp] theorem run_nil (s : Schedule) : s.run [] = s := rfl

@[simp] theorem run_cons (s : Schedule) (c : Call) (calls : List Call) :
    s.run (c :: calls) = (s.call c).1.run calls := rfl

theorem run_append (s : Schedule) (before rest : List Call) :
    s.run (before ++ rest) = (s.run before).run rest :=
  List.foldl_append

-- ============================================================================
-- The fate of a delayed request
-- ============================================================================

/-- Whether a call takes the place of the delayed request before it. A request that fails
    does not. -/
def supersedes (s : Schedule) : Call → Bool
  | .arm _ => s.last.isSome
  | .forcePreload | .disarm | .stop => true
  | _ => false

/-- Whether a call lets time pass up to a deadline. -/
def reaches (s : Schedule) (deadline : Nat) : Call → Bool
  | .elapse ms => decide (deadline ≤ s.now + ms)
  | _ => false

/-- What becomes of a delayed request. -/
inductive Fate where
  | waiting
  | elapsed
  | superseded
deriving DecidableEq

/-- What the calls after a delayed request make of it. -/
def fate (s : Schedule) (deadline : Nat) : List Call → Fate
  | [] => .waiting
  | c :: cs =>
    if s.supersedes c then .superseded
    else if s.reaches deadline c then .elapsed
    else fate (s.call c).1 deadline cs

/-- The delayed request a call makes. -/
def request? (s : Schedule) : Call → Option Timer
  | .arm delay => s.last.map (⟨s.now + delay.coverMillis, ·, false⟩)
  | _ => none

/-- The delayed requests made, in order, and what became of each. -/
def requests (s : Schedule) : List Call → List (Timer × Fate)
  | [] => []
  | c :: cs =>
    (s.request? c).toList.map (fun t => (t, (s.call c).1.fate t.deadline cs)) ++
      requests (s.call c).1 cs

/-- The requests with a given fate. -/
def withFate (f : Fate) (l : List (Timer × Fate)) : List Timer :=
  (l.filter (·.2 = f)).map (·.1)

/-- The exchange a call forces: the latest, where there is one. -/
def forcedBy (s : Schedule) : Call → List Exchange
  | .forcePreload => s.last.toList
  | _ => []

/-- The exchanges forced, in order. -/
def forced (s : Schedule) : List Call → List Exchange
  | [] => []
  | c :: cs => s.forcedBy c ++ forced (s.call c).1 cs

/-- The exchanges a preload exchange has become due for: the delay is over, or it was forced. -/
def ripe (s : Schedule) (calls : List Call) : List Exchange :=
  (withFate .elapsed (s.requests calls)).map (·.exchange) ++ s.forced calls

-- ============================================================================
-- The pending timer
-- ============================================================================

/-- The timer, while it has not fired. -/
def pending (s : Schedule) : Option Timer := s.timer.filter (!·.fired)

theorem not_reaches_of_supersedes (h : s.supersedes c = true) : s.reaches d c = false := by
  cases c with
  | elapse ms => cases h
  | _ => rfl

theorem supersedes_of_request (h : (s.request? c).isSome) : s.supersedes c = true := by
  cases c with
  | arm delay => simpa [request?, supersedes] using h
  | _ => cases h

/-- The timer a call fires: the pending one, when its deadline is reached. -/
def firedBy (s : Schedule) (c : Call) : Option Timer :=
  s.pending.filter fun t => s.reaches t.deadline c

theorem elapse_of_fired (h : s.firedBy (.elapse ms) = some t) :
    s.elapse ms =
      preloadWhenDone { s with now := s.now + ms, timer := some { t with fired := true } }
        t.exchange := by
  obtain ⟨armed, due⟩ := Option.filter_eq_some_iff.1 h
  obtain ⟨timer, fresh⟩ := Option.filter_eq_some_iff.1 armed
  have fresh : t.fired = false := by simpa using fresh
  have due : ¬ s.now + ms < t.deadline := by simpa [reaches] using due
  simp [elapse, fireDue, timer, fresh, due]

theorem elapse_of_not_fired (h : s.firedBy (.elapse ms) = none) :
    s.elapse ms = ({ s with now := s.now + ms }, []) := by
  rw [elapse, fireDue]
  dsimp only
  cases timer : s.timer with
  | none => rfl
  | some t =>
    dsimp only
    rw [if_pos]
    cases fired : t.fired with
    | true => rfl
    | false => simpa [firedBy, pending, timer, fired, reaches, Option.filter_some] using h

/-- The pending timer after a call: the one the call asks for, else the one before unless its
    place is taken or its deadline reached. -/
theorem pending_call (s : Schedule) (c : Call) :
    (s.call c).1.pending =
      (s.request? c).or (s.pending.filter fun t => !s.supersedes c && !s.reaches t.deadline c) := by
  cases c with
  | arm delay =>
    cases last : s.last <;>
      simp [call, arm, last, request?, pending, supersedes, reaches, Option.filter_some]
  | forcePreload =>
    cases last : s.last <;>
      simp [call, forcePreload, disarm, last, request?, pending, supersedes, preloadWhenDone]
  | disarm => simp [call, disarm, request?, pending, supersedes]
  | stop => simp [call, stop, request?, pending, supersedes]
  | remember e => simp [call, remember, request?, pending, supersedes, reaches]
  | enter topology discovery finished =>
    simp [call, enter, request?, pending, supersedes, reaches]
  | finish e =>
    simp only [call, finish]
    split <;> simp [request?, pending, supersedes, reaches]
  | elapse ms =>
    rw [call]
    cases fires : s.firedBy (.elapse ms) with
    | some t =>
      obtain ⟨armed, due⟩ := Option.filter_eq_some_iff.1 fires
      rw [elapse_of_fired fires, armed]
      simp [pending, preloadWhenDone, request?, due, Option.filter_some]
    | none =>
      rw [elapse_of_not_fired fires, show s.request? (.elapse ms) = none from rfl, Option.none_or]
      cases armed : s.pending with
      | none => exact armed
      | some t =>
        have waits := Option.filter_eq_none_iff.1 fires t armed
        rw [Option.filter_some_pos (by simpa [supersedes] using waits)]
        exact armed

/-- The delayed requests open at some time, with what the calls after it make of each: the
    pending timer, then those made by the calls. -/
def outstanding (s : Schedule) (calls : List Call) : List (Timer × Fate) :=
  s.pending.toList.map (fun t => (t, s.fate t.deadline calls)) ++ s.requests calls

theorem withFate_append (f : Fate) (l l' : List (Timer × Fate)) :
    withFate f (l ++ l') = withFate f l ++ withFate f l' := by
  rw [withFate, List.filter_append, List.map_append, withFate, withFate]

/-- A request that is not superseded meets its fate once: it is elapsed by the call that fires
    it, and otherwise still open after the call. -/
theorem withFate_outstanding_cons (f : Fate) (s : Schedule) (c : Call) (calls : List Call)
    (kept : f ≠ .superseded) :
    withFate f (s.outstanding (c :: calls)) =
      (if f = .elapsed then (s.firedBy c).toList else []) ++
        withFate f ((s.call c).1.outstanding calls) := by
  rw [outstanding, requests, outstanding, pending_call, firedBy]
  cases asks : s.request? c with
  | some t =>
    have taken := supersedes_of_request (s := s) (c := c) (by rw [asks]; rfl)
    cases armed : s.pending with
    | none => simp
    | some u => simp [fate, taken, not_reaches_of_supersedes taken, withFate, kept.symm]
  | none =>
    cases armed : s.pending with
    | none => simp
    | some u =>
      cases taken : s.supersedes c with
      | true => simp [fate, taken, not_reaches_of_supersedes taken, withFate, kept.symm]
      | false =>
        cases reached : s.reaches u.deadline c with
        | true =>
          by_cases met : .elapsed = f
          · simp [fate, taken, reached, withFate, met, Option.filter_some]
          · simp [fate, taken, reached, withFate, met, Ne.symm met]
        | false => simp [fate, taken, reached, withFate, Option.filter_some]

-- ============================================================================
-- What a call does to the book
-- ============================================================================

/-- The exchanges a preload exchange becomes due for by a call. -/
def dueBy (s : Schedule) (c : Call) : List Exchange :=
  (s.firedBy c).toList.map (·.exchange) ++ s.forcedBy c

/-- What a call can do to the exchanges: a preload exchange becomes due for the timer's or the
    latest exchange, an exchange is entered, one finishes, or nothing happens to them. -/
inductive Effect (s : Schedule) (c : Call) : Prop where
  | due (e : Exchange) (of : s.last = some e ∨ ∃ t, s.timer = some t ∧ t.exchange = e)
      (dueBy : s.dueBy c = [e]) (book : (s.call c).1.book = (s.book.onDone e e).1)
      (asks : (s.call c).2 = if (s.book.onDone e e).2.isSome then [e] else [])
  | enter (topology : Topology) (d : Discovery) (finished : Bool) (dueBy : s.dueBy c = [])
      (book : (s.call c).1.book = (s.book.enter topology d finished).1) (asks : (s.call c).2 = [])
  | finish (e : Exchange) (dueBy : s.dueBy c = [])
      (book : s.book.complete e = some ((s.call c).1.book, (s.call c).2))
  | none (dueBy : s.dueBy c = []) (book : (s.call c).1.book = s.book) (asks : (s.call c).2 = [])

theorem firedBy_eq_none (h : ∀ d, s.reaches d c = false) : s.firedBy c = none :=
  Option.filter_eq_none_iff.2 fun t _ => by rw [h]; exact Bool.false_ne_true

theorem effect (s : Schedule) (c : Call) : s.Effect c := by
  cases c with
  | arm delay =>
    cases last : s.last <;>
      exact .none (by rw [dueBy, firedBy_eq_none fun _ => rfl]; rfl) (by simp [call, arm, last])
        (by simp [call, arm, last])
  | forcePreload =>
    have unfired : s.firedBy .forcePreload = none := firedBy_eq_none fun _ => rfl
    cases last : s.last with
    | none =>
      exact .none (by simp [dueBy, unfired, forcedBy, last])
        (by simp [call, forcePreload, disarm, last]) (by simp [call, forcePreload, disarm, last])
    | some e =>
      exact .due e (.inl last) (by simp [dueBy, unfired, forcedBy, last])
        (by simp [call, forcePreload, disarm, last, preloadWhenDone])
        (by simp [call, forcePreload, disarm, last, preloadWhenDone])
  | disarm => exact .none (by rw [dueBy, firedBy_eq_none fun _ => rfl]; rfl) rfl rfl
  | remember e => exact .none (by rw [dueBy, firedBy_eq_none fun _ => rfl]; rfl) rfl rfl
  | stop => exact .none (by rw [dueBy, firedBy_eq_none fun _ => rfl]; rfl) rfl rfl
  | enter topology d finished =>
    exact .enter topology d finished (by rw [dueBy, firedBy_eq_none fun _ => rfl]; rfl) rfl rfl
  | finish e =>
    have undue : s.dueBy (.finish e) = [] := by rw [dueBy, firedBy_eq_none fun _ => rfl]; rfl
    cases finishes : s.book.complete e with
    | none =>
      exact .none undue (by simp [call, finish, finishes]) (by simp [call, finish, finishes])
    | some taken => exact .finish e undue (by simp [call, finish, finishes])
  | elapse ms =>
    cases fires : s.firedBy (.elapse ms) with
    | none =>
      exact .none (by rw [dueBy, fires]; rfl) (by rw [call, elapse_of_not_fired fires])
        (by rw [call, elapse_of_not_fired fires])
    | some t =>
      have armed := (Option.filter_eq_some_iff.1 (Option.filter_eq_some_iff.1 fires).1).1
      exact .due t.exchange (.inr ⟨t, armed, rfl⟩) (by rw [dueBy, fires]; rfl)
        (by rw [call, elapse_of_fired fires]; rfl) (by rw [call, elapse_of_fired fires]; rfl)

/-- What holds between calls: what waits is for the exchange it waits for, and the latest
    exchange and the timer's have been entered. -/
structure Kept (s : Schedule) : Prop where
  homed : s.book.Homed
  last : ∀ e, s.last = some e → e.number < s.book.promises.length
  timer : ∀ t, s.timer = some t → t.exchange.number < s.book.promises.length

theorem kept_fresh (delay : Option Span) : Kept { delay } where
  homed := by intro e k waits; simp [ExchangeBook.promise] at waits
  last := by rintro e ⟨⟩
  timer := by rintro t ⟨⟩

theorem length_le_call (s : Schedule) (c : Call) :
    s.book.promises.length ≤ (s.call c).1.book.promises.length := by
  cases s.effect c with
  | due e _ _ book _ => exact Nat.le_of_eq (by rw [book, ExchangeBook.onDone_length])
  | enter topology d finished _ book _ => rw [book, ExchangeBook.enter]; simp
  | finish e _ book => exact Nat.le_of_eq (ExchangeBook.complete_length book).symm
  | none _ book _ => exact Nat.le_of_eq (by rw [book])

/-- The latest exchange after a call. -/
theorem last_call (s : Schedule) (c : Call) :
    (s.call c).1.last =
      match c with
      | .remember e => some e
      | .stop => none
      | _ => s.last := by
  cases c with
  | arm delay => cases last : s.last <;> simp [call, arm, last]
  | forcePreload =>
    cases last : s.last <;> simp [call, forcePreload, disarm, last, preloadWhenDone]
  | disarm => rfl
  | remember e => rfl
  | stop => rfl
  | enter topology d finished => rfl
  | finish e => simp only [call, finish]; split <;> rfl
  | elapse ms =>
    cases fires : s.firedBy (.elapse ms) with
    | none => rw [call, elapse_of_not_fired fires]
    | some t => rw [call, elapse_of_fired fires]; rfl

/-- A timer is armed for the latest exchange, or stays armed for the exchange it was for. -/
theorem timer_call (h : (s.call c).1.timer = some t) :
    s.last = some t.exchange ∨ ∃ u, s.timer = some u ∧ u.exchange = t.exchange := by
  cases c with
  | arm delay =>
    cases last : s.last with
    | none => exact .inr ⟨t, by simpa [call, arm, last] using h, rfl⟩
    | some e =>
      have armed : (⟨s.now + delay.coverMillis, e, false⟩ : Timer) = t := by
        simpa [call, arm, last] using h
      exact .inl (by rw [← armed])
  | forcePreload =>
    cases last : s.last <;> simp [call, forcePreload, disarm, last, preloadWhenDone] at h
  | disarm => cases h
  | remember e => exact .inr ⟨t, h, rfl⟩
  | stop => cases h
  | enter topology d finished => exact .inr ⟨t, h, rfl⟩
  | finish e =>
    refine .inr ⟨t, ?_, rfl⟩
    simp only [call, finish] at h
    split at h <;> exact h
  | elapse ms =>
    cases fires : s.firedBy (.elapse ms) with
    | none => rw [call, elapse_of_not_fired fires] at h; exact .inr ⟨t, h, rfl⟩
    | some u =>
      rw [call, elapse_of_fired fires] at h
      have armed := (Option.filter_eq_some_iff.1 (Option.filter_eq_some_iff.1 fires).1).1
      exact .inr ⟨u, armed, by cases h; rfl⟩

theorem Kept.due (kept : s.Kept) {e : Exchange}
    (h : s.last = some e ∨ ∃ t, s.timer = some t ∧ t.exchange = e) :
    e.number < s.book.promises.length := by
  rcases h with last | ⟨t, timer, rfl⟩
  · exact kept.last e last
  · exact kept.timer t timer

theorem kept_call (kept : s.Kept) (known : s.Known c) : (s.call c).1.Kept where
  homed := by
    cases s.effect c with
    | due e of _ book _ => rw [book]; exact kept.homed.onDone (kept.due of)
    | enter topology d finished _ book _ => rw [book]; exact kept.homed.enter topology d finished
    | finish e _ book => exact kept.homed.complete book
    | none _ book _ => rw [book]; exact kept.homed
  last := by
    intro e last
    cases c with
    | remember e' => cases last; exact known
    | stop => cases last
    | _ =>
      rw [last_call] at last
      exact Nat.lt_of_lt_of_le (kept.last e last) (s.length_le_call _)
  timer := by
    intro t timer
    exact Nat.lt_of_lt_of_le (kept.due (timer_call timer)) (s.length_le_call c)

/-- An exchange that has finished stays finished. -/
theorem isDone_call {e : Exchange} (kept : s.Kept) (h : s.book.isDone e = true) :
    (s.call c).1.book.isDone e = true := by
  have known := ExchangeBook.known_of_isDone h
  cases s.effect c with
  | due e' of _ book _ => rw [book, ExchangeBook.isDone_onDone (kept.due of)]; exact h
  | enter topology d finished _ book _ =>
    rw [book, ExchangeBook.isDone, ExchangeBook.promise_enter _ _ _ known]; exact h
  | finish e' _ book => rw [ExchangeBook.isDone_complete book known, h, Bool.or_true]
  | none _ book _ => rw [book]; exact h

/-- A preload exchange is asked for only when its exchange has finished. -/
theorem isDone_of_asked {e : Exchange} (kept : s.Kept) (h : e ∈ (s.call c).2) :
    (s.call c).1.book.isDone e = true := by
  cases s.effect c with
  | due e' of _ book asks =>
    rw [book, ExchangeBook.isDone_onDone (kept.due of)]
    rw [asks] at h
    cases finished : s.book.isDone e' with
    | true =>
      split at h
      · rw [List.mem_singleton.1 h]; exact finished
      · cases h
    | false => rw [ExchangeBook.onDone_of_not_isDone finished] at h; cases h
  | enter topology d finished _ _ asks => rw [asks] at h; cases h
  | finish e' _ book =>
    obtain ⟨_, waited, _⟩ := ExchangeBook.complete_eq_some book
    rw [waited] at h
    have own := (kept.homed e' e h).1
    have known := ExchangeBook.known_of_waits h
    rw [ExchangeBook.isDone_complete book (own ▸ known), own, decide_eq_true rfl, Bool.true_or]
  | none _ _ asks => rw [asks] at h; cases h

/-- What a call asks for, and what waits after it, is what waited before and what has become
    due by it. -/
theorem call_balance (kept : s.Kept) :
    ((s.call c).2 ++ (s.call c).1.book.waiting).Perm (s.book.waiting ++ s.dueBy c) := by
  cases s.effect c with
  | due e of dueBy book asks =>
    rw [dueBy, book, asks]
    exact ExchangeBook.onDone_balance (kept.due of)
  | enter topology d finished dueBy book asks =>
    rw [dueBy, book, asks, ExchangeBook.waiting_enter, List.append_nil, List.nil_append]
  | finish e dueBy book =>
    rw [dueBy, List.append_nil]
    exact ExchangeBook.complete_balance book
  | none dueBy book asks => rw [dueBy, book, asks, List.append_nil, List.nil_append]

-- ============================================================================
-- A run of calls
-- ============================================================================

/-- The preload exchanges become due since some time on: for the requests outstanding then whose
    delay passes, and for what is forced. -/
def dueOn (s : Schedule) (calls : List Call) : List Exchange :=
  (withFate .elapsed (s.outstanding calls)).map (·.exchange) ++ s.forced calls

theorem dueOn_cons (s : Schedule) (c : Call) (calls : List Call) :
    (s.dueOn (c :: calls)).Perm (s.dueBy c ++ (s.call c).1.dueOn calls) := by
  rw [dueOn, withFate_outstanding_cons _ _ _ _ (by decide), if_pos rfl, List.map_append, forced,
    dueBy, dueOn]
  simp only [List.perm_iff_count, List.count_append]
  intro e
  omega

/-- What has been asked for and what still waits is what waited at the start and what has
    become due since. -/
theorem run_balance (kept : s.Kept) (known : s.AllKnown calls) :
    (s.asked calls ++ (s.run calls).book.waiting).Perm (s.book.waiting ++ s.dueOn calls) := by
  induction calls generalizing s with
  | nil =>
    have none_due : s.dueOn [] = [] := by
      rw [dueOn, outstanding, requests, forced, List.append_nil, List.append_nil]
      cases s.pending <;> rfl
    rw [none_due, List.append_nil]
    exact List.Perm.refl _
  | cons c calls ih =>
    have later := ih (kept_call kept known.1) known.2
    have now := call_balance (c := c) kept
    have split := s.dueOn_cons c calls
    rw [asked, run_cons]
    simp only [List.perm_iff_count, List.count_append] at later now split ⊢
    intro e
    have := later e; have := now e; have := split e
    omega

theorem kept_run (kept : s.Kept) (known : s.AllKnown calls) : (s.run calls).Kept := by
  induction calls generalizing s with
  | nil => exact kept
  | cons c calls ih => exact ih (kept_call kept known.1) known.2

theorem isDone_run {e : Exchange} (kept : s.Kept) (known : s.AllKnown calls)
    (h : s.book.isDone e = true) : (s.run calls).book.isDone e = true := by
  induction calls generalizing s with
  | nil => exact h
  | cons c calls ih => exact ih (kept_call kept known.1) known.2 (isDone_call kept h)

theorem isDone_of_asked_run {e : Exchange} (kept : s.Kept) (known : s.AllKnown calls)
    (h : e ∈ s.asked calls) : (s.run calls).book.isDone e = true := by
  induction calls generalizing s with
  | nil => cases h
  | cons c calls ih =>
    rcases List.mem_append.1 h with now | later
    · rw [run_cons]
      exact isDone_run (kept_call kept known.1) known.2 (isDone_of_asked kept now)
    · exact ih (kept_call kept known.1) known.2 later

/-- What is asked for is what waited or has become due and has finished. -/
theorem asked_perm (kept : s.Kept) (known : s.AllKnown calls) :
    (s.asked calls).Perm
      ((s.book.waiting ++ s.dueOn calls).filter (s.run calls).book.isDone) := by
  have balance := (run_balance kept known).filter (s.run calls).book.isDone
  have finished : (s.asked calls).filter (s.run calls).book.isDone = s.asked calls :=
    List.filter_eq_self.2 fun e => isDone_of_asked_run kept known
  have waits : (s.run calls).book.waiting.filter (s.run calls).book.isDone = [] :=
    List.filter_eq_nil_iff.2 fun e h => by
      rw [(kept_run kept known).homed.not_isDone h]; exact Bool.false_ne_true
  rwa [List.filter_append, finished, waits, List.append_nil] at balance

/-- What waits is what waited or has become due and is still to finish. -/
theorem waiting_perm (kept : s.Kept) (known : s.AllKnown calls) :
    (s.run calls).book.waiting.Perm
      ((s.book.waiting ++ s.dueOn calls).filter fun e => !(s.run calls).book.isDone e) := by
  have balance := (run_balance kept known).filter fun e => !(s.run calls).book.isDone e
  have finished : (s.asked calls).filter (fun e => !(s.run calls).book.isDone e) = [] :=
    List.filter_eq_nil_iff.2 fun e h => by
      rw [isDone_of_asked_run kept known h]; exact Bool.false_ne_true
  have waits : (s.run calls).book.waiting.filter (fun e => !(s.run calls).book.isDone e) =
      (s.run calls).book.waiting :=
    List.filter_eq_self.2 fun e h => by rw [(kept_run kept known).homed.not_isDone h]; rfl
  rwa [List.filter_append, finished, waits, List.nil_append] at balance

/-- The requests that still wait are those of the pending timer. -/
theorem waiting_eq_pending (s : Schedule) (calls : List Call) :
    withFate .waiting (s.outstanding calls) = (s.run calls).pending.toList := by
  induction calls generalizing s with
  | nil =>
    rw [outstanding, requests, List.append_nil, run_nil]
    cases s.pending <;> rfl
  | cons c calls ih =>
    rw [withFate_outstanding_cons _ _ _ _ (by decide), if_neg (by decide), ih]
    rfl

-- ============================================================================
-- Every request is accounted for
-- ============================================================================

theorem isOk_arm (s : Schedule) (delay : Span) : (s.arm delay).isOk = s.last.isSome := by
  cases last : s.last <;> simp [arm, last, Except.isOk, Except.toBool]

/-- Over every sequence of calls on a fresh schedule, and so after each of them: a preload
    exchange has been asked for once for each delayed request whose deadline passed before its
    place was taken and once for each forced one, for the exchange it was made for, as far as that
    exchange has finished, and for nothing else. The requests still waiting are those of the one
    pending timer. A delayed request succeeds where there is an exchange; without one it fails and
    changes nothing. -/
theorem preloads_accounted (delay : Option Span) (calls : List Call)
    (known : AllKnown { delay } calls) :
    (asked { delay } calls).Perm
        ((ripe { delay } calls).filter (run { delay } calls).book.isDone) ∧
      withFate .waiting (requests { delay } calls) = (run { delay } calls).pending.toList ∧
      (withFate .waiting (requests { delay } calls)).length ≤ 1 ∧
      (∀ d, ((run { delay } calls).arm d).isOk = (run { delay } calls).last.isSome) ∧
      ((run { delay } calls).last = none → ∀ d,
        (run { delay } calls).arm d = .error (.invariant .delayWithoutExchange) ∧
          (run { delay } calls).call (.arm d) = (run { delay } calls, [])) := by
  have waiting : withFate .waiting (requests { delay } calls) =
      (run { delay } calls).pending.toList := waiting_eq_pending { delay } calls
  refine ⟨asked_perm (kept_fresh delay) known, waiting, ?_, fun d => isOk_arm _ d,
    fun last d => ?_⟩
  · rw [waiting]
    cases (run { delay } calls).pending <;> simp
  · have fails : (run { delay } calls).arm d = .error (.invariant .delayWithoutExchange) := by
      rw [arm, last]
    exact ⟨fails, by rw [call, fails]⟩

/-- An exchange after node 2 has joined. -/
def joined : Exchange := ⟨0, ⟨2, 0⟩, ⟨2, .nodeJoined, 0⟩⟩

/-- A delayed request replaced by another, whose delay passes before the exchange finishes, and
    a forced one after that. -/
def delayedThenForced : List Call :=
  [.enter joined.topology joined.discovery false, .remember joined, .arm (Span.ofMillis 5),
    .elapse 4, .arm (Span.ofMillis 5), .elapse 5, .finish joined, .forcePreload]

theorem preloads_accounted_delayedThenForced :
    AllKnown { delay := none } delayedThenForced ∧
      (asked { delay := none } delayedThenForced).Perm [joined, joined] :=
  ⟨by decide, (preloads_accounted none delayedThenForced (by decide)).1.trans
    (by decide +kernel)⟩

end Schedule

end Rebalance
