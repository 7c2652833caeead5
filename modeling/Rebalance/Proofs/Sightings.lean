/-
  Rebalance.Proofs.Sightings

  What those who are told of a round note.  Along a trail every continuation
  that is told leaves one note in the trace, with the site as it finds it, and
  no other notes are made; so a note that is found in the trace belongs to a
  milestone of the trail, and what is so at the milestone was seen.
-/
import Rebalance.Proofs.History
import Rebalance.Proofs.Trail

namespace Rebalance
namespace Demander

variable {d e f : Demander} {ms ns : List Milestone}

/-- Every note that is made between the two demanders is one of a milestone, in its place in the
    trace, and shows the site as it was found there. -/
def Sighted (d : Demander) (ms : List Milestone) (e : Demander) : Prop :=
  ∃ es, e.site.trace = d.site.trace ++ es ∧
    ∀ a R w s seen b, es = a ++ .notified R w s seen :: b →
      ∃ before x after, ms = before ++ .told R w s x :: after ∧
        x.site.trace = d.site.trace ++ a ∧ x.site.glimpse = seen

/-- Nothing is seen by anyone where no note is made. -/
theorem Sighted.of_hushed (h : d.site.Hushed e.site) (ms : List Milestone) : Sighted d ms e := by
  obtain ⟨es, he, hes⟩ := h
  refine ⟨es, he, fun a R w s seen b hsplit => ?_⟩
  have hnote := hes (.notified R w s seen) (by
    rw [hsplit]
    exact List.mem_append_right _ List.mem_cons_self)
  cases hnote

theorem Sighted.of_trace (h : e.site.trace = d.site.trace) (ms : List Milestone) : Sighted d ms e :=
  .of_hushed (.of_trace h) ms

theorem Sighted.trans (h₁ : Sighted d ms e) (h₂ : Sighted e ns f) : Sighted d (ms ++ ns) f := by
  obtain ⟨es, he, hes⟩ := h₁
  obtain ⟨fs, hf, hfs⟩ := h₂
  refine ⟨es ++ fs, by rw [hf, he, List.append_assoc], fun a R w s seen b hsplit => ?_⟩
  rcases Round.append_split hsplit with ⟨mid, -, hfirst⟩ | ⟨mid, rfl, hlater⟩
  · obtain ⟨before, x, after, rfl, htrace, hseen⟩ := hes a R w s seen mid hfirst
    exact ⟨before, x, after ++ ns, by rw [List.append_assoc, List.cons_append], htrace, hseen⟩
  · obtain ⟨before, x, after, rfl, htrace, hseen⟩ := hfs mid R w s seen b hlater
    refine ⟨ms ++ before, x, after, by rw [List.append_assoc], ?_, hseen⟩
    rw [htrace, he, List.append_assoc]

/-- What waits for a round notes what it finds, and that only. -/
theorem trace_runWait (d : Demander) (id : RoundId) (s : Summary) (w : RoundWait) :
    (d.runWait id s w).site.trace = d.site.trace ++ [.notified id w s d.site.glimpse] := by
  cases w with
  | settle => exact trace_settleRound _ id s
  | notify tag bound => rfl

theorem Sighted.told (d : Demander) (R : RoundId) (w : RoundWait) (s : Summary) :
    Sighted d [.told R w s d] (d.runWait R s w) := by
  refine ⟨_, trace_runWait d R s w, fun a R' w' s' seen b hsplit => ?_⟩
  rcases List.append_eq_singleton_iff.mp hsplit.symm with ⟨rfl, hcons⟩ | ⟨-, hcons⟩
  · obtain ⟨hnote, -⟩ := List.cons_eq_cons.mp hcons
    cases hnote
    exact ⟨[], d, [], rfl, (List.append_nil _).symm, rfl⟩
  · cases hcons

theorem sighted_announcing (id : RoundId) (s : Summary) (ws : List RoundWait) (d : Demander) :
    Sighted d (announcing id s ws d) (ws.foldl (fun d w => d.runWait id s w) d) := by
  induction ws generalizing d with
  | nil => exact .of_trace rfl []
  | cons w ws ih => exact (Sighted.told d id w s).trans (ih _)

/-- The exchange that a summary asks for is forced before anyone looks. -/
theorem hushed_shut (d : Demander) (id : RoundId) (c : Round.Change) (s : Summary) :
    d.site.Hushed (d.shut id c s).site := by
  obtain ⟨htrace, -, -⟩ := forcing_site (d.withChange id c) id s
  refine ⟨_, htrace, fun e he => ?_⟩
  obtain ⟨x, -, rfl⟩ := List.mem_map.mp he
  rfl

theorem Changes.sighted {id : RoundId} {c : Round.Change} (h : Changes d id c ms e) :
    Sighted d ms e := by
  cases h with
  | stays => exact .of_trace rfl []
  | closes s _ =>
    exact (Sighted.of_hushed (hushed_shut d id c s) []).trans (sighted_announcing _ _ _ _)

/-- The partitions of a plan are awaited without a trace. -/
theorem trace_awaitAll (d : Demander) (id : RoundId) (plan : Plan) :
    (d.awaitAll id plan).site.trace = d.site.trace := by
  have happend : ∀ (l : List (NodeId × Demand)) (d : Demander),
      (l.foldl (fun d e => d.changeRound id (.append e.1 e.2.partitions)) d).site.trace =
        d.site.trace := by
    intro l
    induction l with
    | nil => exact fun _ => rfl
    | cons e l ih => exact fun d => ih (d.changeRound id (.append e.1 e.2.partitions))
  exact happend plan.demands.toList (d.changeRound id (.attach plan.exchange))

theorem trace_begin (hs : d.Steady) {id : RoundId} (hl : id < d.rounds.length)
    (ha : (d.roundOf id).round.attached = false) (plan : Plan) :
    (d.begin id plan).site.trace = d.site.trace := by
  rw [begin_of_open hs hl ha plan]
  exact trace_awaitAll d id plan

theorem trace_abandonRound (d : Demander) : d.abandonRound.site.trace = d.site.trace := by
  unfold abandonRound
  simp only
  split <;> rfl

theorem Beat.sighted (h : Beat d ms e) : Sighted d ms e := by
  cases h with
  | uneventful h => exact .of_hushed h.site.hushed []
  | change _ _ hc => exact hc.sighted
  | @pass _ ms job p _ _ _ hc =>
    exact (Sighted.of_trace rfl [.happens (.passed job p)]).trans hc.sighted
  | @load _ ms job p _ _ hc =>
    have hown : d.site.Hushed (d.ownAndReport job p).site := by
      refine Site.Hushed.trans ?_ (Site.hushed_report _ _)
      exact .of_trace rfl
    exact (Sighted.of_hushed hown [.happens (.loaded job p)]).trans hc.sighted
  | join tag hl _ => exact .of_trace rfl []
  | late tag s hl _ =>
    have hwait : Sighted d [] (d.withWait d.current (.notify tag d.currentRound.attached)) :=
      .of_trace rfl []
    exact hwait.trans (.told _ _ _ s)
  | begin plan hs _ _ hl ha _ => exact .of_trace (trace_begin hs hl ha plan) []
  | skip plan hs _ _ hl ha hc =>
    have hend := (Sighted.of_trace (d := d) (e := d.vacate _ plan) rfl []).trans hc.sighted
    have hcount := hend.trans (Sighted.of_trace (e := _) rfl [])
    rwa [List.append_nil] at hcount
  | abandon _ => exact .of_trace (trace_abandonRound d) []

/-- Whoever notes something along a trail was told, and noted what was there. -/
theorem Trail.sighted (h : Trail d ms e) : Sighted d ms e := by
  induction h with
  | nil d => exact .of_trace rfl []
  | cons hb _ ih => exact hb.sighted.trans ih

end Demander
end Rebalance
