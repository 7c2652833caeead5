/-
  Rebalance.Proofs.Clones

  Calls through the handles of one exchange.  All handles of an exchange lead
  to the one promise that the book holds of it, so calls through any of them do
  what the same calls do on that promise (`mirrored`); other exchanges are left
  alone.
-/
import Rebalance.Exchange.Script
import Rebalance.Proofs.Fulfilment
import Rebalance.Proofs.Preloads

namespace Rebalance
namespace ExchangeBook

open Stack (Stage Reaches Mirrored)

variable {τ : Type}

-- ============================================================================
-- What is seen through a handle
-- ============================================================================

mutual

/-- A call on the promise of the exchange, instead of through a handle. -/
def Call.plain : Call τ → Promise.Call τ Topology
  | .onDone _ tag body => .onDone tag (plain body)
  | .complete e => .complete e.topology

def plain : List (Call τ) → List (Promise.Call τ Topology)
  | [] => []
  | c :: cs => c.plain :: plain cs

end

theorem plain_eq_map (cs : List (Call τ)) : plain cs = cs.map Call.plain := by
  induction cs with
  | nil => rfl
  | cons c cs ih => rw [plain, ih, List.map_cons]

/-- A continuation of the promise, instead of one that was registered through a handle. -/
def plainly (k : Continuation τ) : Promise.Continuation τ Topology := (k.1, plain k.2)

/-- Work on the promise of the exchange. -/
def Work.plain : Work τ → Promise.Work τ Topology
  | .call c => .call c.plain
  | .run _ k => .run (plainly k)
  | .finish _ won => .finish won

/-- What is behind a handle: the promise of its exchange, and its signals. -/
def Scene.behind (s : Scene τ) (e : Exchange) : Promise.Scene τ Topology where
  promise :=
    { value := (s.book.promise e).value
      waiting := (s.book.promise e).waiting.map plainly }
  signals := s.signals e.number

mutual

/-- The call, and those made from inside, are made through handles of the exchange. -/
def Call.Through (e : Exchange) : Call τ → Prop
  | .onDone h _ body => h.same e = true ∧ Through e body
  | .complete h => h.same e = true

def Through (e : Exchange) : List (Call τ) → Prop
  | [] => True
  | c :: cs => c.Through e ∧ Through e cs

end

theorem through_iff {e : Exchange} {cs : List (Call τ)} : Through e cs ↔ ∀ c ∈ cs, c.Through e := by
  induction cs with
  | nil => exact iff_of_true trivial fun c hc => absurd hc List.not_mem_nil
  | cons c cs ih => rw [Through, ih, List.forall_mem_cons]

/-- The work was set off through handles of the exchange, and so is what it sets off. -/
def Work.Through (e : Exchange) : Work τ → Prop
  | .call c => c.Through e
  | .run h k => h.same e = true ∧ ExchangeBook.Through e k.2
  | .finish h _ => h.same e = true

/-- What holds while calls are made through handles of the exchange `e` of a book `b`. -/
structure Confined (b : ExchangeBook (Continuation τ)) (e : Exchange)
    (x : Stage (Scene τ) (Work τ)) : Prop where
  known : e.number < x.1.book.promises.length
  waiting : ∀ k ∈ (x.1.book.promise e).waiting, Through e k.2
  work : ∀ w ∈ x.2, w.Through e
  others : ∀ h : Exchange, h.same e = false →
    x.1.book.promise h = b.promise h ∧ x.1.signals h.number = 0

theorem through_calls {e : Exchange} {cs : List (Call τ)} (h : Through e cs) :
    ∀ w ∈ calls cs, w.Through e := by
  intro w hw
  obtain ⟨c, hc, rfl⟩ := List.mem_map.mp hw
  exact through_iff.mp h c hc

theorem plain_calls (cs : List (Call τ)) :
    (calls cs).map Work.plain = Promise.calls (plain cs) := by
  rw [plain_eq_map, calls, Promise.calls, List.map_map, List.map_map]
  rfl

section Steps

variable {b : ExchangeBook (Continuation τ)} {e h : Exchange} {s : Scene τ}
  {stack stack' : List (Work τ)} {p : Promise Topology (Continuation τ)}

theorem behind_set (hs : h.number = e.number) (hknown : e.number < s.book.promises.length) :
    ({ s with book := ⟨s.book.promises.set h.number p⟩ } : Scene τ).behind e =
      ⟨⟨p.value, p.waiting.map plainly⟩, s.signals e.number⟩ := by
  unfold Scene.behind
  rw [promise_set (hs ▸ hknown), if_pos hs]

/-- Whatever is done to the promise of the exchange stays within it. -/
theorem Confined.set (hx : Confined b e (s, stack)) (hs : h.number = e.number)
    (hp : ∀ k ∈ p.waiting, Through e k.2) (hw : ∀ w ∈ stack', w.Through e) :
    Confined b e ({ s with book := ⟨s.book.promises.set h.number p⟩ }, stack') where
  known := by
    rw [List.length_set]
    exact hx.known
  waiting := by
    rw [promise_set (hs ▸ hx.known), if_pos hs]
    exact hp
  work := hw
  others := by
    intro h' hh'
    have hne : h.number ≠ h'.number := fun heq => by simp [Exchange.same, ← heq, hs] at hh'
    rw [promise_set (hs ▸ hx.known), if_neg hne]
    exact hx.others h' hh'

theorem Confined.goOn (hx : Confined b e (s, stack)) (hw : ∀ w ∈ stack', w.Through e) :
    Confined b e (s, stack') :=
  ⟨hx.known, hx.waiting, hw, hx.others⟩

theorem Confined.signal (hx : Confined b e (s, stack)) (hs : h.number = e.number) :
    Confined b e (s.signal h, stack) where
  known := hx.known
  waiting := hx.waiting
  work := hx.work
  others := by
    intro h' hh'
    have hne : h'.number ≠ h.number := fun heq => by simp [Exchange.same, heq, hs] at hh'
    refine ⟨(hx.others h' hh').1, ?_⟩
    change (if h'.number = h.number then _ else _) = 0
    rw [if_neg hne]
    exact (hx.others h' hh').2

/-- What is done next on a stage that is confined is done on the promise, and it stays confined. -/
abbrev Plainly (b : ExchangeBook (Continuation τ)) (e : Exchange) : Scene τ → Work τ →
    List (Work τ) → Prop :=
  Stack.Follows Scene.work Promise.Scene.work (fun s => s.behind e) Work.plain (Confined b e)

variable {rest : List (Work τ)}

theorem plainly_finish {won : Bool} (hx : Confined b e (s, .finish h won :: rest)) :
    Plainly b e s (.finish h won) rest := by
  obtain ⟨hh, hrest⟩ := List.forall_mem_cons.mp hx.work
  have hs : h.number = e.number := by simpa [Work.Through, Exchange.same] using hh
  cases won with
  | false => exact ⟨hx.goOn hrest, rfl⟩
  | true =>
    refine ⟨(hx.goOn hrest).signal hs, ?_⟩
    simp [Scene.work, Promise.Scene.work, Work.plain, Stage.seen, Scene.behind, Scene.signal, hs]

theorem plainly_run {k : Continuation τ} (hx : Confined b e (s, .run h k :: rest)) :
    Plainly b e s (.run h k) rest := by
  obtain ⟨⟨hh, hk⟩, hrest⟩ := List.forall_mem_cons.mp hx.work
  have hpromise : s.book.promise h = s.book.promise e :=
    promise_congr (by simpa [Exchange.same] using hh)
  cases hv : (s.book.promise e).value with
  | none =>
    simp only [Plainly, Stack.Follows, Scene.work, hpromise, hv]
    refine ⟨hx.goOn hrest, ?_⟩
    simp [Promise.Scene.work, Work.plain, Stage.seen, Scene.behind, hv]
  | some t =>
    simp only [Plainly, Stack.Follows, Scene.work, hpromise, hv]
    refine ⟨hx.goOn (List.forall_mem_append.mpr ⟨through_calls hk, hrest⟩), ?_⟩
    simp [Promise.Scene.work, Work.plain, Stage.seen, Scene.behind, hv, plain_calls, plainly]

theorem plainly_onDone {tag : τ} {body : List (Call τ)}
    (hx : Confined b e (s, .call (.onDone h tag body) :: rest)) :
    Plainly b e s (.call (.onDone h tag body)) rest := by
  obtain ⟨⟨hh, hbody⟩, hrest⟩ := List.forall_mem_cons.mp hx.work
  have hs : h.number = e.number := by simpa [Exchange.same] using hh
  have hpromise : s.book.promise h = s.book.promise e := promise_congr hs
  cases hv : (s.book.promise e).value with
  | none =>
    simp only [Plainly, Stack.Follows, Scene.work, onDone, Promise.onDone, hpromise, hv]
    refine ⟨hx.set hs (List.forall_mem_append.mpr ⟨hx.waiting, by simpa using hbody⟩) hrest, ?_⟩
    simp only [Promise.Scene.work, Work.plain, Call.plain, Stage.seen, behind_set hs hx.known]
    simp [Promise.onDone, Scene.behind, hv, plainly]
  | some t =>
    simp only [Plainly, Stack.Follows, Scene.work, onDone, Promise.onDone, hpromise, hv]
    refine ⟨hx.set hs hx.waiting (List.forall_mem_cons.mpr ⟨⟨hh, hbody⟩, hrest⟩), ?_⟩
    simp only [Promise.Scene.work, Work.plain, Call.plain, Stage.seen, behind_set hs hx.known]
    simp [Promise.onDone, Scene.behind, hv, Work.plain, plainly]

theorem plainly_complete (hx : Confined b e (s, .call (.complete h) :: rest)) :
    Plainly b e s (.call (.complete h)) rest := by
  obtain ⟨hh, hrest⟩ := List.forall_mem_cons.mp hx.work
  have hs : h.number = e.number := by simpa [Work.Through, Call.Through, Exchange.same] using hh
  have hpromise : s.book.promise h = s.book.promise e := promise_congr hs
  cases hv : (s.book.promise e).value with
  | none =>
    -- The continuations are released through the handle of the call, not through their own.
    have hreleased : ∀ w ∈ (s.book.promise e).waiting.map (Work.run h) ++ [.finish h true],
        w.Through e := by
      intro w hw
      rcases List.mem_append.mp hw with hw | hw
      · obtain ⟨k, hk, rfl⟩ := List.mem_map.mp hw
        exact ⟨hh, hx.waiting k hk⟩
      · obtain rfl := List.mem_singleton.mp hw
        exact hh
    simp only [Plainly, Stack.Follows, Scene.work, complete, Promise.complete, hpromise, hv]
    refine ⟨hx.set hs (by simp) (List.forall_mem_append.mpr ⟨hreleased, hrest⟩), ?_⟩
    simp only [Promise.Scene.work, Work.plain, Call.plain, Stage.seen, behind_set hs hx.known]
    simp [Promise.complete, Scene.behind, hv, Work.plain, plainly, Promise.runs]
  | some t =>
    simp only [Plainly, Stack.Follows, Scene.work, complete, Promise.complete, hpromise, hv]
    refine ⟨hx.goOn (List.forall_mem_cons.mpr ⟨hh, hrest⟩), ?_⟩
    simp [Promise.Scene.work, Work.plain, Call.plain, Stage.seen, Promise.complete, Scene.behind,
      hv]

end Steps

/-- Whatever is done through handles of an exchange is done on its promise. -/
theorem mirrored (b : ExchangeBook (Continuation τ)) (e : Exchange) :
    Mirrored Scene.work Promise.Scene.work (fun s : Scene τ => s.behind e) Work.plain
      (Confined b e) := by
  intro s w rest hx
  cases w with
  | finish h won => exact plainly_finish hx
  | run h k => exact plainly_run hx
  | call c =>
    cases c with
    | onDone h tag body => exact plainly_onDone hx
    | complete h => exact plainly_complete hx

-- ============================================================================
-- All handles of an exchange
-- ============================================================================

/-- Calls that are about to be made on the exchanges of a book. -/
def start (b : ExchangeBook (Continuation τ)) (cs : List (Call τ)) : Stage (Scene τ) (Work τ) :=
  ({ book := b }, calls cs)

/-- A stage as it is behind a handle. -/
def behind (e : Exchange) (x : Stage (Scene τ) (Work τ)) :
    Stage (Promise.Scene τ Topology) (Promise.Work τ Topology) :=
  x.seen (fun s => s.behind e) Work.plain

/-- Calls through handles of the exchange `e` of a book `b` are calls on one promise. -/
structure Shared (b : ExchangeBook (Continuation τ)) (e : Exchange) (cs : List (Call τ)) :
    Prop where
  /-- They begin as the calls on a fresh promise do. -/
  begins : behind e (start b cs) = Promise.start (plain cs)
  /-- What they do is done on the promise. -/
  follows : ∀ {ns ms : List (Promise.Note τ Topology)} {y z : Stage (Scene τ) (Work τ)},
    Reaches Scene.work (start b cs) ns y → Reaches Scene.work y ms z →
      Reaches Promise.Scene.work (behind e y) ms (behind e z)
  /-- What can be done on the promise is done by them. -/
  leads : ∀ {ns : List (Promise.Note τ Topology)}
    {z : Stage (Promise.Scene τ Topology) (Promise.Work τ Topology)},
    Reaches Promise.Scene.work (Promise.start (plain cs)) ns z →
      ∃ y, Reaches Scene.work (start b cs) ns y ∧ behind e y = z
  /-- Who waits through any of the handles waits for the promise. -/
  looks : ∀ (h : Exchange) (s : Scene τ), h.same e = true →
    s.look h = (s.behind e).look ∧ ∀ w, s.poll h w = (s.behind e).poll w
  /-- Other exchanges stay as they are. -/
  others : ∀ {ns : List (Promise.Note τ Topology)} {y : Stage (Scene τ) (Work τ)} {h : Exchange},
    Reaches Scene.work (start b cs) ns y → h.same e = false →
      y.1.book.promise h = b.promise h ∧ y.1.signals h.number = 0

/-- The promise of an exchange that was just entered is fresh. -/
theorem promise_entered (b : ExchangeBook (Continuation τ)) (topology : Topology)
    (discovery : Discovery) :
    (b.enter topology discovery false).1.promise (b.enter topology discovery false).2 = {} := by
  simp [promise, enter]

theorem confined_start (b : ExchangeBook (Continuation τ)) (topology : Topology)
    (discovery : Discovery) {cs : List (Call τ)}
    (h : Through (b.enter topology discovery false).2 cs) :
    Confined (b.enter topology discovery false).1 (b.enter topology discovery false).2
      (start (b.enter topology discovery false).1 cs) where
  known := by simp [start, enter]
  waiting := by
    rw [start, promise_entered]
    exact fun k hk => absurd hk List.not_mem_nil
  work := through_calls h
  others := fun _ _ => ⟨rfl, rfl⟩

theorem shared (b : ExchangeBook (Continuation τ)) (topology : Topology) (discovery : Discovery)
    {cs : List (Call τ)} (h : Through (b.enter topology discovery false).2 cs) :
    Shared (b.enter topology discovery false).1 (b.enter topology discovery false).2 cs := by
  have hstart := confined_start b topology discovery h
  have hbegins : behind (b.enter topology discovery false).2
      (start (b.enter topology discovery false).1 cs) = Promise.start (plain cs) := by
    rw [behind, Stage.seen, start, plain_calls, Scene.behind, promise_entered]
    rfl
  refine ⟨hbegins, ?_, ?_, ?_, ?_⟩
  · intro ns ms y z hy hz
    exact (hz.mirror (mirrored _ _) (hy.mirror (mirrored _ _) hstart).1).2
  · intro ns z hz
    rw [← hbegins] at hz
    exact hz.lift (mirrored _ _) hstart
  · intro h' s hs
    have hnumber : h'.number = (b.enter topology discovery false).2.number := by
      simpa [Exchange.same] using hs
    simp [Scene.look, Scene.poll, Promise.Scene.look, Promise.Scene.poll, Scene.behind, hnumber,
      promise_congr hnumber]
  · intro ns y h' hy hs
    exact (hy.mirror (mirrored _ _) hstart).1.others h' hs

/-- Whatever calls are made on a promise, and from wherever, it settles once, for those who
    registered, for those who register later and for those who wait.  The handles of a new exchange
    share one such promise. -/
theorem settles_for_every_handle {α : Type} (cs : List (Promise.Call τ α))
    (others : ExchangeBook (Continuation τ)) (topology : Topology) (discovery : Discovery)
    {hs : List (Call τ)} (hthrough : Through (others.enter topology discovery false).2 hs) :
    Promise.Settles cs ∧ Promise.Settles (plain hs) ∧
      Shared (others.enter topology discovery false).1 (others.enter topology discovery false).2
        hs := by
  exact ⟨Promise.settles cs, Promise.settles (plain hs), shared others topology discovery hthrough⟩

/-- A continuation that tries to complete the promise again, and registers another one, does so
    before the call returns from which it runs; one that is registered later runs then. -/
theorem settles_for_every_handle_reentrant :
    let cs : List (Promise.Call Nat Nat) :=
      [.onDone 1 [.complete 7, .onDone 2 []], .complete 5, .onDone 3 []]
    let entered := ({} : ExchangeBook (Continuation Nat)).enter ⟨3, 0⟩ ⟨2, .nodeJoined, 0⟩ false
    let copy := entered.2
    let hs : List (Call Nat) := [.onDone copy 1 [.complete entered.2], .complete copy]
    Through entered.2 hs ∧
      Promise.run {} (Promise.calls cs) =
        (⟨some 5, []⟩,
          [.ran 1 5, .returned false, .ran 2 5, .returned true, .ran 3 5]) ∧
      Promise.run {} (Promise.calls (plain hs)) =
        (⟨some ⟨3, 0⟩, []⟩, [.ran 1 ⟨3, 0⟩, .returned false, .returned true]) ∧
      Shared entered.1 entered.2 hs := by
  intro cs entered copy hs
  have hthrough : Through entered.2 hs := ⟨⟨rfl, rfl, trivial⟩, rfl, trivial⟩
  obtain ⟨hsettles, hplain, hshared⟩ :=
    settles_for_every_handle cs {} ⟨3, 0⟩ ⟨2, .nodeJoined, 0⟩ hthrough
  have hcs : cs = [.onDone 1 [.complete 7, .onDone 2 []]] ++ .complete 5 :: [.onDone 3 []] := rfl
  have hhs : plain hs = [.onDone 1 [.complete ⟨3, 0⟩]] ++ .complete ⟨3, 0⟩ :: [] := rfl
  exact ⟨hthrough, hsettles.fulfilled hcs rfl, hplain.fulfilled hhs rfl, hshared⟩

end ExchangeBook
end Rebalance
