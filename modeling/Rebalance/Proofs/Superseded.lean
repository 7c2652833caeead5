/-
  Rebalance.Proofs.Superseded

  What a superseded delayed request still does. Two runs are compared: one in
  which the request is made, and one in which its caller only removes the timer
  before it. They differ in the timer and in what waits in the book, and in
  nothing that decides what later requests do, so every difference in what is
  asked for is due to the request.

  Taking the place of a request removes its timer. A request whose delay is
  over has no use for the timer any more: it waits in the book, where nothing
  reaches it.
-/
import Rebalance.Proofs.Preloads

namespace Rebalance

namespace ExchangeBook

variable {κ : Type} {b b' : ExchangeBook κ} {e : Exchange}

/-- What each exchange has come to, without what waits for it. -/
def values (b : ExchangeBook κ) : List (Option Topology) := b.promises.map (·.value)

theorem value_eq (b : ExchangeBook κ) (e : Exchange) :
    (b.promise e).value = (b.values[e.number]?).join := by
  rw [values, List.getElem?_map, promise]
  cases b.promises[e.number]? <;> rfl

theorem isDone_congr (h : b.values = b'.values) (e : Exchange) : b.isDone e = b'.isDone e := by
  rw [isDone, Promise.isDone, value_eq, h, ← value_eq, isDone, Promise.isDone]

theorem values_set_same {p : Promise Topology κ} (h : p.value = (b.promise e).value) :
    (ExchangeBook.mk (b.promises.set e.number p)).values = b.values := by
  by_cases known : e.number < b.promises.length
  · obtain ⟨_, found⟩ := List.getElem?_eq_some_iff.1 (promises_of_promise known)
    rw [values, List.map_set, h, ← found, ← List.map_set, List.set_getElem_self, values]
  · rw [List.set_eq_of_length_le (Nat.le_of_not_lt known)]

theorem values_onDone {k : κ} : (b.onDone e k).1.values = b.values := by
  refine values_set_same (b := b) (e := e) ?_
  cases value : (b.promise e).value <;> simp only [value]

/-- What the exchanges have come to once one is finished. -/
def finishedIn (values : List (Option Topology)) (e : Exchange) : List (Option Topology) :=
  if (values[e.number]?).join.isSome then values else values.set e.number (some e.topology)

theorem values_complete : ((b.complete e).elim b Prod.fst).values = finishedIn b.values e := by
  rw [finishedIn, ← value_eq]
  cases value : (b.promise e).value with
  | none => simp [complete, Promise.complete, value, values, List.map_set]
  | some topology => simp [complete, Promise.complete, value]

end ExchangeBook

namespace Schedule

variable {s s' : Schedule} {c : Call} {calls : List Call} {e : Exchange} {d : Span} {f : Fate}

-- ============================================================================
-- What decides the fate of later requests
-- ============================================================================

/-- Two schedules with the same latest exchange and time, where the exchanges have come to the
    same. -/
structure Alike (s s' : Schedule) : Prop where
  last : s.last = s'.last
  now : s.now = s'.now
  values : s.book.values = s'.book.values

theorem now_call (s : Schedule) (c : Call) :
    (s.call c).1.now =
      match c with
      | .elapse ms => s.now + ms
      | _ => s.now := by
  cases c with
  | arm delay => cases last : s.last <;> simp [call, arm, last]
  | forcePreload =>
    cases last : s.last <;> simp [call, forcePreload, disarm, last, preloadWhenDone]
  | disarm => rfl
  | remember e => rfl
  | stop => rfl
  | enter topology d finished => rfl
  | finish e => simp only [call, finish]; split <;> rfl
  | elapse ms =>
    cases fires : s.firedBy (.elapse ms) with
    | none => rw [call, elapse_of_not_fired fires]
    | some t => rw [call, elapse_of_fired fires]; rfl

theorem values_call (s : Schedule) (c : Call) :
    (s.call c).1.book.values =
      match c with
      | .enter topology _ finished =>
        s.book.values ++ [if finished then some topology else none]
      | .finish e => ExchangeBook.finishedIn s.book.values e
      | _ => s.book.values := by
  cases c with
  | arm delay => cases last : s.last <;> simp [call, arm, last]
  | forcePreload =>
    cases last : s.last <;> simp [call, forcePreload, disarm, last, preloadWhenDone]
    exact ExchangeBook.values_onDone
  | disarm => rfl
  | remember e => rfl
  | stop => rfl
  | enter topology d finished => exact List.map_append
  | finish e =>
    dsimp only
    rw [← ExchangeBook.values_complete, call, finish]
    cases s.book.complete e <;> rfl
  | elapse ms =>
    cases fires : s.firedBy (.elapse ms) with
    | none => rw [call, elapse_of_not_fired fires]
    | some t => rw [call, elapse_of_fired fires]; exact ExchangeBook.values_onDone

theorem Alike.call (h : Alike s s') (c : Call) : Alike (s.call c).1 (s'.call c).1 where
  last := by rw [last_call, last_call, h.last]
  now := by rw [now_call, now_call, h.now]
  values := by rw [values_call, values_call, h.values]

theorem Alike.run (h : Alike s s') (calls : List Call) : Alike (s.run calls) (s'.run calls) := by
  induction calls generalizing s s' with
  | nil => exact h
  | cons c calls ih => exact ih (h.call c)

theorem Alike.isDone (h : Alike s s') (e : Exchange) : s.book.isDone e = s'.book.isDone e :=
  ExchangeBook.isDone_congr h.values e

theorem Alike.supersedes (h : Alike s s') (c : Call) : s.supersedes c = s'.supersedes c := by
  cases c with
  | arm delay => rw [Schedule.supersedes, h.last, Schedule.supersedes]
  | _ => rfl

theorem Alike.fate (h : Alike s s') (deadline : Nat) (calls : List Call) :
    s.fate deadline calls = s'.fate deadline calls := by
  induction calls generalizing s s' with
  | nil => rfl
  | cons c calls ih =>
    have reaches : s.reaches deadline c = s'.reaches deadline c := by
      cases c with
      | elapse ms => rw [Schedule.reaches, h.now, Schedule.reaches]
      | _ => rfl
    rw [Schedule.fate, h.supersedes, reaches, ih (h.call c), Schedule.fate]

theorem Alike.requests (h : Alike s s') (calls : List Call) :
    s.requests calls = s'.requests calls := by
  induction calls generalizing s s' with
  | nil => rfl
  | cons c calls ih =>
    have asks : s.request? c = s'.request? c := by
      cases c with
      | arm delay => rw [request?, h.last, h.now, request?]
      | _ => rfl
    have fates : (fun t : Timer => (t, (s.call c).1.fate t.deadline calls)) =
        fun t => (t, (s'.call c).1.fate t.deadline calls) :=
      funext fun t => by rw [(h.call c).fate]
    rw [Schedule.requests, asks, fates, ih (h.call c), Schedule.requests]

theorem Alike.forced (h : Alike s s') (calls : List Call) : s.forced calls = s'.forced calls := by
  induction calls generalizing s s' with
  | nil => rfl
  | cons c calls ih =>
    have forces : s.forcedBy c = s'.forcedBy c := by
      cases c with
      | forcePreload => exact congrArg Option.toList h.last
      | _ => rfl
    rw [Schedule.forced, forces, ih (h.call c), Schedule.forced]

theorem Alike.ripe (h : Alike s s') (calls : List Call) : s.ripe calls = s'.ripe calls := by
  rw [Schedule.ripe, h.requests, h.forced, Schedule.ripe]

theorem Alike.allKnown (h : Alike s s') (known : s.AllKnown calls) : s'.AllKnown calls := by
  induction calls generalizing s s' with
  | nil => trivial
  | cons c calls ih =>
    refine ⟨?_, ih (h.call c) known.2⟩
    have entered := congrArg List.length h.values
    rw [ExchangeBook.values, ExchangeBook.values, List.length_map, List.length_map] at entered
    cases c with
    | remember e => exact Nat.lt_of_lt_of_eq known.1 entered
    | _ => trivial

theorem allKnown_append {calls' : List Call} :
    s.AllKnown (calls ++ calls') ↔ s.AllKnown calls ∧ (s.run calls).AllKnown calls' := by
  induction calls generalizing s with
  | nil => exact ⟨fun h => ⟨trivial, h⟩, fun h => h.2⟩
  | cons c calls ih => rw [List.cons_append, AllKnown, ih, AllKnown, run_cons, and_assoc]

-- ============================================================================
-- A request and none
-- ============================================================================

/-- What becomes due is what the pending timer comes to and what is asked for later. -/
theorem dueOn_eq (s : Schedule) (calls : List Call) :
    s.dueOn calls =
      (s.pending.filter fun t => s.fate t.deadline calls = .elapsed).toList.map (·.exchange) ++
        s.ripe calls := by
  rw [dueOn, outstanding, withFate_append, List.map_append, List.append_assoc, ripe]
  congr 2
  cases s.pending with
  | none => rfl
  | some t => by_cases h : s.fate t.deadline calls = .elapsed <;> simp [withFate, h, Option.filter_some]

theorem dueOn_superseded (h : s.supersedes c = true) :
    s.dueOn (c :: calls) = s.ripe (c :: calls) := by
  rw [dueOn_eq, Option.filter_eq_none_iff.2]
  · rfl
  · intro t _
    rw [fate, if_pos h]
    decide

theorem dueOn_unarmed (h : s.pending = none) : s.dueOn calls = s.ripe calls := by
  rw [dueOn_eq, h]
  rfl

/-- Making a request leaves all but the timer as removing the one before does. -/
theorem alike_arm (s : Schedule) (d : Span) : Alike (s.call (.arm d)).1 (s.call .disarm).1 where
  last := by rw [last_call, last_call]
  now := by rw [now_call, now_call]
  values := by rw [values_call, values_call]

theorem pending_arm (h : s.last = some e) :
    (s.call (.arm d)).1.pending = some ⟨s.now + d.coverMillis, e, false⟩ := by
  rw [pending_call, request?, h]
  rfl

theorem dueOn_arm (h : s.last = some e) :
    (s.call (.arm d)).1.dueOn calls =
      (if (s.call (.arm d)).1.fate (s.now + d.coverMillis) calls = .elapsed then [e] else []) ++
        (s.call (.arm d)).1.ripe calls := by
  rw [dueOn_eq, pending_arm h, Option.filter_some]
  by_cases elapsed : (s.call (.arm d)).1.fate (s.now + d.coverMillis) calls = .elapsed
  · rw [if_pos elapsed, if_pos (decide_eq_true elapsed)]; rfl
  · rw [if_neg elapsed, if_neg (by rw [decide_eq_false elapsed]; exact Bool.false_ne_true)]; rfl

theorem book_arm (s : Schedule) (d : Span) : (s.call (.arm d)).1.book = s.book := by
  cases last : s.last <;> simp [call, arm, last]

/-- What waits for the sake of a request some calls later: its exchange, if its delay is over
    and the exchange is still to finish. -/
theorem waiting_arm {mid : List Call} (kept : s.Kept) (known : s.AllKnown (.arm d :: mid))
    (recorded : s.last = some e) :
    ((s.call (.arm d)).1.run mid).book.waiting.Perm
      ((if (s.call (.arm d)).1.fate (s.now + d.coverMillis) mid = .elapsed ∧
          ((s.call (.arm d)).1.run mid).book.isDone e = false then [e] else []) ++
        ((s.call .disarm).1.run mid).book.waiting) := by
  have alike : Alike (s.call (.arm d)).1 (s.call .disarm).1 := alike_arm s d
  have same : ((s.call .disarm).1.run mid).book.isDone = ((s.call (.arm d)).1.run mid).book.isDone :=
    funext fun e => ((alike.run mid).isDone e).symm
  have unmade := waiting_perm (kept_call (c := .disarm) kept trivial) (alike.allKnown known.2)
  rw [dueOn_unarmed rfl, ← alike.ripe, same] at unmade
  refine (waiting_perm (kept_call kept known.1) known.2).trans (.trans ?_
    (unmade.symm.append_left _))
  rw [dueOn_arm recorded, book_arm]
  change (List.filter _ (s.book.waiting ++ _)).Perm (_ ++ List.filter _ (s.book.waiting ++ _))
  by_cases elapsed : (s.call (.arm d)).1.fate (s.now + d.coverMillis) mid = .elapsed
  · cases finished : ((s.call (.arm d)).1.run mid).book.isDone e with
    | true => simp [elapsed, finished]
    | false =>
      simp only [elapsed, finished, if_true, and_self, List.filter_append, List.filter_cons,
        List.filter_nil, Bool.not_false]
      exact List.perm_append_comm_assoc ..
  · simp [elapsed]

/-- What is asked for from the superseding call on is the same with the request and without it,
    apart from what waits for the sake of it. -/
theorem asked_superseded {mid after : List Call} (kept : s.Kept)
    (known : s.AllKnown (.arm d :: mid ++ c :: after)) (recorded : s.last = some e)
    (superseded : ((s.call (.arm d)).1.run mid).supersedes c = true) :
    (((s.call (.arm d)).1.run mid).asked (c :: after)).Perm
      ((if (s.call (.arm d)).1.fate (s.now + d.coverMillis) mid = .elapsed ∧
            ((s.call (.arm d)).1.run mid).book.isDone e = false ∧
            (((s.call (.arm d)).1.run mid).run (c :: after)).book.isDone e = true
          then [e] else []) ++
        ((s.call .disarm).1.run mid).asked (c :: after)) := by
  obtain ⟨knownMid, knownAfter⟩ := allKnown_append.1 known
  have alike : Alike ((s.call (.arm d)).1.run mid) ((s.call .disarm).1.run mid) :=
    (alike_arm s d).run mid
  have made := asked_perm (kept_run kept knownMid) knownAfter
  have unmade := asked_perm
    (kept_run (kept_call (c := .disarm) kept trivial) ((alike_arm s d).allKnown knownMid.2))
    (alike.allKnown knownAfter)
  rw [run_cons, dueOn_superseded superseded] at made
  rw [dueOn_superseded (alike.supersedes c ▸ superseded), ← alike.ripe,
    ← funext (alike.run (c :: after)).isDone] at unmade
  refine made.trans (.trans ?_ (unmade.symm.append_left _))
  have waits := waiting_arm kept knownMid recorded
  refine ((waits.append_right _).filter _).trans ?_
  rw [List.append_assoc, List.filter_append]
  refine List.Perm.append_right _ (List.Perm.of_eq ?_)
  rw [run_cons]
  by_cases late : (s.call (.arm d)).1.fate (s.now + d.coverMillis) mid = .elapsed ∧
      ((s.call (.arm d)).1.run mid).book.isDone e = false
  · rw [if_pos late, List.filter_cons, List.filter_nil]
    exact if_congr ⟨fun h => ⟨late.1, late.2, h⟩, fun h => h.2.2⟩ rfl rfl
  · rw [if_neg late, if_neg fun h => late ⟨h.1, h.2.1⟩]
    rfl

-- ============================================================================
-- A superseded request can still fire
-- ============================================================================

/-- What a delayed request still does once its place is taken: it asks for its preload exchange
    exactly if its delay was over by then while its exchange was still to finish, and the
    exchange finishes later. Apart from that, what is asked for is what is asked for without it. -/
theorem superseded_fires_iff (delay : Option Span) (before mid after : List Call) (d : Span)
    (c : Call) (e : Exchange)
    (known : AllKnown { delay } (before ++ (.arm d :: mid ++ c :: after)))
    (recorded : (run { delay } before).last = some e)
    (superseded : (run { delay } (before ++ .arm d :: mid)).supersedes c = true) :
    let armed := run { delay } (before ++ [.arm d])
    let made := run { delay } (before ++ .arm d :: mid)
    let unmade := run { delay } (before ++ .disarm :: mid)
    (made.asked (c :: after)).Perm
      ((if armed.fate (armed.now + d.coverMillis) mid = .elapsed ∧ made.book.isDone e = false ∧
            (made.run (c :: after)).book.isDone e = true
          then [e] else []) ++
        unmade.asked (c :: after)) := by
  obtain ⟨knownBefore, knownAfter⟩ := allKnown_append.1 known
  rw [run_append, run_cons] at superseded
  simp only [run_append, run_cons, run_nil, now_call]
  exact asked_superseded (kept_run (kept_fresh delay) knownBefore) knownAfter recorded superseded

/-- A node joins, and the exchange for it begins. -/
def joining : List Call :=
  [.enter joined.topology joined.discovery false, .remember joined]

theorem superseded_fires_iff_stop :
    AllKnown { delay := none }
        (joining ++ (.arm (Span.ofMillis 5) :: [.elapse 10] ++ .stop :: [.finish joined])) ∧
      (run { delay := none } joining).last = some joined ∧
      (run { delay := none } (joining ++ .arm (Span.ofMillis 5) :: [.elapse 10])).supersedes .stop =
        true ∧
      ((run { delay := none } (joining ++ .arm (Span.ofMillis 5) :: [.elapse 10])).asked
        [.stop, .finish joined]).Perm [joined] :=
  ⟨by decide, by decide, by decide,
    (superseded_fires_iff none joining [.elapse 10] [.finish joined] (Span.ofMillis 5) .stop joined
      (by decide) (by decide) (by decide)).trans (by decide +kernel)⟩

/-- Stopping does not reach a request whose delay is over: up to the stop it has asked for
    nothing, and when its exchange finishes afterwards it asks for a preload exchange, which
    nobody asks for where the request was not made. -/
theorem stopped_request_fires :
    (run { delay := none } joining).last = some joined ∧
      asked { delay := none } (joining ++ [.arm (Span.ofMillis 5), .elapse 10, .stop]) = [] ∧
      asked { delay := none }
        (joining ++ [.arm (Span.ofMillis 5), .elapse 10, .stop, .finish joined]) = [joined] ∧
      asked { delay := none } (joining ++ [.disarm, .elapse 10, .stop, .finish joined]) = [] := by
  decide +kernel

end Schedule

end Rebalance
