/-
  Rebalance.Proofs.Heedless

  Steps that have nothing to do with the data of a node.  `Heedless f d` says that
  neither the store nor the recorder plays a part in `f`, whatever they are: with
  others everything else comes to the same, and these are left as they are.  What
  changes rounds, sends demands or ends calls is heedless, and so is every step of
  a demander that is stopping in which no page is at work (`heedless_step`).
-/
import Rebalance.Proofs.Step

namespace Rebalance

/-- What is noticed where the store and the recorder are others: a continuation sees those. -/
def Effect.withData (store : Tampered → Tampered) (recorder : Recorder → Recorder) :
    Effect → Effect
  | notified round w summary seen =>
    notified round w summary
      { seen with store := store seen.store, recorder := recorder seen.recorder }
  | e => e

namespace Demander

/-- The same demander with its store and its recorder, those that continuations have seen among
    them, replaced by others. -/
def withData (d : Demander) (store : Tampered → Tampered) (recorder : Recorder → Recorder) :
    Demander :=
  { d with
    site := { d.site with
      store := store d.site.store
      recorder := recorder d.site.recorder
      trace := d.site.trace.map (Effect.withData store recorder) } }

/-- Replaced by themselves they stay. -/
theorem withData_id (d : Demander) : d.withData id id = d := by
  have heffect : Effect.withData id id = id := funext fun e => by cases e <;> rfl
  unfold withData
  rw [heffect, List.map_id]
  rfl

/-- Neither the store nor the recorder of a demander plays a part in what becomes of it, but that
    continuations may look at them; they stay as they are, and no event is handed to the recorder. -/
structure Heedless (f : Demander → Demander) (d : Demander) : Prop where
  same : ∀ store recorder, f (d.withData store recorder) = (f d).withData store recorder
  store : (f d).site.store = d.site.store
  recorder : (f d).site.recorder = d.site.recorder
  mute : ∃ es, (f d).site.trace = d.site.trace ++ es ∧ ∀ event, Effect.recorded event ∉ es

namespace Heedless

variable {f g : Demander → Demander} {d : Demander}

theorem comp (hf : Heedless f d) (hg : Heedless g (f d)) : Heedless (fun d => g (f d)) d where
  same store recorder := by rw [hf.same, hg.same]
  store := hg.store.trans hf.store
  recorder := hg.recorder.trans hf.recorder
  mute := by
    obtain ⟨es, hes, hmute⟩ := hf.mute
    obtain ⟨fs, hfs, hmute'⟩ := hg.mute
    refine ⟨es ++ fs, by rw [hfs, hes, List.append_assoc], fun event h => ?_⟩
    rcases List.mem_append.mp h with h | h
    · exact hmute event h
    · exact hmute' event h

/-- On a demander with whatever data one function does what a heedless one does. -/
theorem congr (h : Heedless g d)
    (hfg : ∀ store recorder, f (d.withData store recorder) = g (d.withData store recorder)) :
    Heedless f d := by
  have heq : f d = g d := by
    have hself := hfg id id
    rwa [withData_id] at hself
  refine ⟨fun store recorder => by rw [hfg, h.same, heq], ?_, ?_, ?_⟩ <;> rw [heq]
  · exact h.store
  · exact h.recorder
  · exact h.mute

/-- Nothing but the meters changes of the site. -/
theorem quiet (hs : ∀ store recorder, f (d.withData store recorder) = (f d).withData store recorder)
    (hm : ∃ board, (f d).site = d.site.measure fun _ => board) : Heedless f d := by
  obtain ⟨board, hm⟩ := hm
  refine ⟨hs, ?_, ?_, [], ?_, fun _ => List.not_mem_nil⟩ <;> rw [hm]
  · rfl
  · rfl
  · exact (List.append_nil _).symm

theorem refl (d : Demander) : Heedless (fun d => d) d := .quiet (fun _ _ => rfl) ⟨_, rfl⟩

theorem foldl {α : Type} {f : Demander → α → Demander} (h : ∀ d a, Heedless (f · a) d)
    (l : List α) (d : Demander) : Heedless (fun d => l.foldl f d) d := by
  induction l generalizing d with
  | nil => exact .refl d
  | cons a l ih => exact (h d a).comp (ih (f d a))

end Heedless

@[simp] theorem roundOf_withData (d : Demander) (store : Tampered → Tampered)
    (recorder : Recorder → Recorder) (id : RoundId) :
    (d.withData store recorder).roundOf id = d.roundOf id := rfl

@[simp] theorem job?_withData (d : Demander) (store : Tampered → Tampered)
    (recorder : Recorder → Recorder) (id : JobId) :
    (d.withData store recorder).job? id = d.job? id := rfl

-- ============================================================================
-- Rounds
-- ============================================================================

variable (d : Demander)

theorem heedless_measure (f : Board → Board) : Heedless (·.measure f) d :=
  .quiet (fun _ _ => rfl) ⟨_, rfl⟩

theorem heedless_setRound (id : RoundId) (r : RoundRecord) : Heedless (·.setRound id r) d :=
  .quiet (fun _ _ => rfl) ⟨_, rfl⟩

theorem heedless_emit {e : Effect} (hw : ∀ store recorder, e.withData store recorder = e)
    (h : ∀ event, e ≠ .recorded event) : Heedless (·.emit e) d where
  same store recorder := by
    simp only [emit, Site.emit, withData, List.map_append, List.map_cons, List.map_nil, hw]
  store := rfl
  recorder := rfl
  mute := ⟨[e], rfl, fun event hmem => h event (List.mem_singleton.mp hmem).symm⟩

theorem heedless_settleRound (id : RoundId) (s : Summary) : Heedless (·.settleRound id s) d := by
  have hm := heedless_measure d (·.roundCompleted s.missed.size)
  by_cases hf : (d.roundOf id).inFlight = true
  · exact ((hm.comp (heedless_setRound _ id { d.roundOf id with inFlight := false })).comp
      (heedless_measure _ Board.roundSettled)).congr fun _ _ => if_pos hf
  · exact hm.congr fun _ _ => if_neg hf

theorem heedless_runWait (id : RoundId) (s : Summary) (w : RoundWait) :
    Heedless (·.runWait id s w) d := by
  have hseen : Heedless (fun d => d.emit (.notified id w s d.site.glimpse)) d := by
    refine ⟨fun store recorder => ?_, rfl, rfl, [_], rfl, fun event hmem => ?_⟩
    · simp only [emit, Site.emit, withData, List.map_append, List.map_cons, List.map_nil]
      rfl
    · cases List.mem_singleton.mp hmem
  cases w with
  | settle => exact hseen.comp (heedless_settleRound _ id s)
  | notify tag bound => exact hseen

theorem heedless_forcing (id : RoundId) (s : Summary) : Heedless (·.forcing id s) d := by
  cases hf : (d.roundOf id).round.forced s with
  | none => exact (Heedless.refl d).congr fun _ _ => by simp only [forcing, roundOf_withData, hf]
  | some e =>
    exact (heedless_emit d (e := .dummy e true) (fun _ _ => rfl) nofun).congr fun _ _ => by
      simp only [forcing, roundOf_withData, hf]

theorem heedless_conclude (id : RoundId) (s : Summary) : Heedless (·.conclude id s) d := by
  have hset := (heedless_forcing d id s).comp (heedless_setRound (d.forcing id s) id
    { d.roundOf id with round := ((d.roundOf id).round.announce s).1 })
  exact (hset.comp (.foldl (heedless_runWait · id s) ((d.roundOf id).round.announce s).2 _)).congr
    fun _ _ => conclude_eq _ id s

theorem heedless_changeRound (id : RoundId) (c : Round.Change) :
    Heedless (·.changeRound id c) d := by
  have hset := heedless_setRound d id
    { d.roundOf id with round := ((d.roundOf id).round.change c).1 }
  cases hc : ((d.roundOf id).round.change c).2 with
  | none =>
    exact hset.congr fun _ _ => by simp only [changeRound_eq, roundOf_withData, hc, withChange]
  | some s =>
    exact (hset.comp (heedless_conclude _ id s)).congr fun _ _ => by
      simp only [changeRound_eq, roundOf_withData, hc, withChange]

theorem heedless_whenDone (id : RoundId) (w : RoundWait) : Heedless (·.whenDone id w) d := by
  have hset := heedless_setRound d id
    { d.roundOf id with round := ((d.roundOf id).round.onDone w).1 }
  cases hw : ((d.roundOf id).round.onDone w).2 with
  | none =>
    exact hset.congr fun _ _ => by simp only [whenDone_eq, roundOf_withData, hw, withWait]
  | some s =>
    exact (hset.comp (heedless_runWait _ id s w)).congr fun _ _ => by
      simp only [whenDone_eq, roundOf_withData, hw, withWait]

theorem heedless_cancelNode (id : RoundId) (node : NodeId) (reason : CancelReason) :
    Heedless (·.cancelNode id node reason) d :=
  (heedless_changeRound d id (.cancel node)).comp
    (heedless_measure _ (·.streamCancelled reason.label))

theorem heedless_missOwned (id : RoundId) (node : NodeId) (t : Topology) (p : PartitionId) :
    Heedless (·.missOwned id node t p) d := by
  by_cases ho : d.owns p t = true
  · exact ((heedless_changeRound d id (.miss node p)).comp
      (heedless_measure _ Board.partitionMissed)).congr fun _ _ => if_pos ho
  · exact (Heedless.refl d).congr fun _ _ => if_neg ho

theorem heedless_cancelIfStale (id : RoundId) : Heedless (·.cancelIfStale id) d := by
  cases ht : (d.roundOf id).round.topology with
  | none =>
    exact (Heedless.refl d).congr fun _ _ => by simp only [cancelIfStale, roundOf_withData, ht]
  | some t =>
    by_cases h : ((d.roundOf id).round.isDone || !d.site.affinity.changedFrom t) = true
    · exact (Heedless.refl d).congr fun _ _ => by
        simp only [cancelIfStale, roundOf_withData, ht]
        exact if_pos h
    · exact (Heedless.foldl (fun d node => heedless_cancelNode d id node .topologyChanged)
        (d.roundOf id).round.outstandingNodes.toList d).congr fun _ _ => by
        simp only [cancelIfStale, roundOf_withData, ht]
        exact if_neg h

theorem heedless_nodeLeft (node : NodeId) : Heedless (·.nodeLeft node) d := by
  by_cases h : node ∈ d.currentRound.outstandingNodes
  · exact (heedless_cancelNode d d.current node .nodeLeft).congr fun _ _ => if_pos h
  · exact (Heedless.refl d).congr fun _ _ => if_neg h

theorem heedless_abandonRound : Heedless abandonRound d := by
  by_cases h : (!d.currentRound.isDone && (d.roundOf d.current).inFlight) = true
  · exact ((heedless_setRound d d.current { d.roundOf d.current with inFlight := false }).comp
      (heedless_measure _ Board.roundAbandoned)).congr fun _ _ => if_pos h
  · exact (Heedless.refl d).congr fun _ _ => if_neg h

-- ============================================================================
-- Plans
-- ============================================================================

variable (id : JobId)

theorem heedless_finish (r : Except Fault Unit) : Heedless (·.finish id r) d :=
  .quiet (fun _ _ => rfl) ⟨_, rfl⟩

theorem heedless_park (j : Job) : Heedless (·.park id j) d := .quiet (fun _ _ => rfl) ⟨_, rfl⟩

theorem heedless_endShipment (round : RoundId) (s : Shipment) :
    Heedless (·.endShipment round s) d := by
  cases hf : s.failure with
  | none => exact (Heedless.refl d).congr fun _ _ => by simp only [endShipment, hf]
  | some cause =>
    have hmiss := Heedless.foldl (fun d p => heedless_missOwned d round s.node s.topology p)
      ((d.roundOf round).round.outstandingFrom s.node).toList d
    exact (hmiss.comp (heedless_cancelNode _ round s.node
      (if cause.isNodeLeft then .nodeLeft else .sendFailed))).congr fun _ _ => by
      simp only [endShipment, hf, roundOf_withData]

theorem heedless_dispatch (round : RoundId) (ships : List Shipment) :
    Heedless (·.dispatch id round ships) d := by
  induction ships generalizing d with
  | nil => exact (heedless_finish d id (.ok ())).congr fun _ _ => by rw [dispatch]
  | cons s rest ih =>
    cases hp : s.parts with
    | nil =>
      exact ((heedless_endShipment d round s).comp (ih _)).congr fun _ _ => by rw [dispatch, hp]
    | cons q parts =>
      exact (heedless_park d id (.sending round q { s with parts } rest)).congr fun _ _ => by
        rw [dispatch, hp]

theorem heedless_dispatched (round : RoundId) (s : Shipment) (rest : List Shipment)
    (r : Except Fault Unit) : Heedless (·.dispatched id round s rest r) d := by
  cases r with
  | ok _ =>
    exact (heedless_measure d Board.demandSent).comp (heedless_dispatch _ id round (s :: rest))
  | error cause =>
    exact (heedless_measure d Board.demandNotSent).comp (heedless_dispatch _ id round
      ({ s with failure := some (s.failure.getD cause) } :: rest))

theorem heedless_flag (round : RoundId) (b : Bool) : Heedless (·.flag round b) d :=
  .quiet (fun _ _ => rfl) ⟨_, rfl⟩

/-- A plan becomes the current one, or none is. -/
theorem heedless_install (round : RoundId) (plan : Option Plan) :
    Heedless (fun d => { d with current := round, plan }) d :=
  .quiet (fun _ _ => rfl) ⟨_, rfl⟩

theorem heedless_begin (round : RoundId) (plan : Plan) : Heedless (·.begin round plan) d := by
  have hawait := (heedless_changeRound d round (.attach plan.exchange)).comp
    (.foldl (fun d (e : NodeId × Demand) =>
      heedless_changeRound d round (.append e.1 e.2.partitions)) plan.demands.toList _)
  have hstart := (hawait.comp (heedless_measure _ Board.roundStarted)).comp
    (heedless_flag _ round true)
  exact ((hstart.comp (heedless_whenDone _ round .settle)).comp
    (heedless_install _ round (some plan))).congr fun _ _ => rfl

theorem heedless_pass (round : RoundId) (plan : Plan) : Heedless (·.pass round plan) d := by
  have hattach := (heedless_changeRound d round (.attach plan.exchange)).comp
    (heedless_install _ round none)
  exact (((hattach.comp (heedless_flag _ round false)).comp
    (heedless_changeRound _ round .complete)).comp (heedless_measure _ Board.roundSkipped)).congr
    fun _ _ => rfl

theorem heedless_launch (round : RoundId) (plan : Plan) : Heedless (·.launch id round plan) d := by
  by_cases h : plan.isEmpty = true ∨ Key.below plan.topology d.site.affinity.current = true
  · exact ((heedless_pass d round plan).comp (heedless_finish _ id (.ok ()))).congr fun _ _ =>
      (launch_eq _ id round plan).trans (if_pos h)
  · let stamped := plan.stamp d.settings.timeout d.settings.batchSize
    have hships : ∀ store recorder, (((d.withData store recorder).begin round stamped).shipments
        stamped) = (d.begin round stamped).shipments stamped := fun store recorder => by
      rw [(heedless_begin d round stamped).same store recorder]
      rfl
    refine ((heedless_begin d round stamped).comp (heedless_dispatch _ id round
      ((d.begin round stamped).shipments stamped))).congr fun store recorder => ?_
    refine ((launch_eq (d.withData store recorder) id round plan).trans (if_neg h)).trans ?_
    exact congrArg (Demander.dispatch _ id round) (hships store recorder)

theorem heedless_awaitRound (plan : Plan) (previous : RoundId) (hs : d.stopping = true) :
    Heedless (·.awaitRound id plan previous) d :=
  (heedless_finish d id (.error .cancelled)).congr fun _ _ => if_pos hs

/-- Giving nodes up for a stale round touches nothing beside the round. -/
theorem beside_cancelIfStale (round : RoundId) : Beside d (d.cancelIfStale round) := by
  have hall : ∀ (nodes : List NodeId) (d : Demander),
      Beside d (nodes.foldl (fun d node => d.cancelNode round node .topologyChanged) d) := by
    intro nodes
    induction nodes with
    | nil => exact Beside.refl
    | cons node nodes ih =>
      exact fun d => (beside_cancelNode d round node .topologyChanged).trans (ih _)
  unfold cancelIfStale
  simp only
  split
  · exact .refl d
  · split
    · exact .refl d
    · exact hall _ d

theorem heedless_beginPlan (plan : Plan) (hs : d.stopping = true) :
    Heedless (·.beginPlan id plan) d := by
  have hstale := heedless_cancelIfStale d d.current
  have hs' : (d.cancelIfStale d.current).stopping = true := by
    rw [(beside_cancelIfStale d d.current).stopping]
    exact hs
  have hrest : Heedless (fun e =>
      if (e.roundOf d.current).round.attached then e.awaitRound id plan d.current
      else e.launch id d.current plan) (d.cancelIfStale d.current) := by
    by_cases ha : ((d.cancelIfStale d.current).roundOf d.current).round.attached = true
    · exact (heedless_awaitRound _ id plan d.current hs').congr fun _ _ => if_pos ha
    · exact (heedless_launch _ id d.current plan).congr fun _ _ => if_neg ha
  exact (hstale.comp hrest).congr fun _ _ => rfl

theorem heedless_turn (plan : Plan) (hs : d.stopping = true) : Heedless (·.turn id plan) d := by
  by_cases h : d.hasTurn id = true
  · exact (heedless_beginPlan d id plan hs).congr fun _ _ => if_pos h
  · exact (Heedless.refl d).congr fun _ _ => if_neg h

-- ============================================================================
-- Calls
-- ============================================================================

theorem takeFault_eq (d : Demander) :
    d.takeFault = ({ d with fault := none }, d.fault.elim (.ok ()) .error) := by
  obtain ⟨settings, site, schedule, rounds, current, plan, stopping, topics, fault⟩ := d
  cases fault <;> rfl

theorem returnFault_eq (d : Demander) (id : JobId) :
    d.returnFault id = ({ d with fault := none }).finish id (d.fault.elim (.ok ()) .error) := by
  unfold returnFault
  rw [takeFault_eq]

/-- A call that returns is none of the jobs any more. -/
theorem returnFault_park (d : Demander) (id : JobId) (j : Job) :
    (d.park id j).returnFault id = d.returnFault id := by
  rw [returnFault_eq, returnFault_eq]
  unfold finish
  change ({ d with fault := none, jobs := (d.jobs.insert id j).erase id, returns := _ } : Demander) = _
  rw [SortedMap.erase_insert]
  rfl

/-- A stop that need not wait for pages ends at once. -/
theorem endStop_eq (d : Demander) (id : JobId) :
    d.endStop id =
      if d.isBusy = true then d
      else ({ d with topics := [], schedule := d.schedule.stop, fault := none }).finish id
        (d.fault.elim (.ok ()) .error) := by
  unfold endStop
  rw [returnFault_eq]
  rfl

/-- A demander that is stopping returns at once when a plan is added. -/
theorem add_of_stopping (d : Demander) (plan : Plan) (force : Bool) (hs : d.stopping = true) :
    d.add plan force =
      ({ d.spawn.1 with fault := none }).finish d.nextJob (d.fault.elim (.ok ()) .error) := by
  have hgate : (!d.spawn.1.settings.isActive || d.spawn.1.stopping) = true := by
    rw [show d.spawn.1.stopping = true from hs, Bool.or_true]
  change d.spawn.1.startAdd d.nextJob plan force = _
  have hfault : d.spawn.1.fault = d.fault := rfl
  rw [startAdd_eq, takeFault_eq, hfault]
  cases d.fault with
  | none => exact if_pos hgate
  | some cause => rfl

theorem heedless_raiseFlag : Heedless raiseFlag d := .quiet (fun _ _ => rfl) ⟨_, rfl⟩

theorem heedless_dropTopics : Heedless dropTopics d := .quiet (fun _ _ => rfl) ⟨_, rfl⟩

theorem heedless_stopSchedule : Heedless stopSchedule d := .quiet (fun _ _ => rfl) ⟨_, rfl⟩

theorem heedless_returnFault : Heedless (·.returnFault id) d := by
  have htake : Heedless (fun d => { d with fault := none }) d := .quiet (fun _ _ => rfl) ⟨_, rfl⟩
  exact (htake.comp (heedless_finish _ id (d.fault.elim (.ok ()) .error))).congr fun _ _ =>
    returnFault_eq _ id

theorem heedless_endStop : Heedless (·.endStop id) d := by
  by_cases h : d.isBusy = true
  · exact (Heedless.refl d).congr fun _ _ => if_pos h
  · exact (((heedless_dropTopics d).comp (heedless_stopSchedule _)).comp
      (heedless_returnFault _ id)).congr fun _ _ => if_neg h

theorem heedless_spawn : Heedless (fun d => d.spawn.1) d := .quiet (fun _ _ => rfl) ⟨_, rfl⟩

theorem heedless_stop : Heedless stop d := by
  have hleaving := ((heedless_spawn d).comp (heedless_raiseFlag _)).comp (heedless_abandonRound _)
  exact ((hleaving.comp (heedless_park _ d.nextJob .stopping)).comp
    (heedless_endStop _ d.nextJob)).congr fun _ _ => rfl

theorem heedless_add (plan : Plan) (force : Bool) (hs : d.stopping = true) :
    Heedless (·.add plan force) d := by
  have htake : Heedless (fun d => { d with fault := none }) d.spawn.1 := .quiet (fun _ _ => rfl) ⟨_, rfl⟩
  exact (((heedless_spawn d).comp htake).comp
    (heedless_finish _ d.nextJob (d.fault.elim (.ok ()) .error))).congr fun store recorder =>
    add_of_stopping (d.withData store recorder) plan force hs

theorem heedless_onSchedule (f : Schedule → Schedule × List Exchange) :
    Heedless (·.onSchedule f) d := by
  have hset : Heedless (fun d => { d with schedule := (f d.schedule).1 }) d :=
    .quiet (fun _ _ => rfl) ⟨_, rfl⟩
  exact (hset.comp (.foldl (fun d e => heedless_emit d (e := .preload e) (fun _ _ => rfl) nofun)
    (f d.schedule).2 _)).congr fun _ _ => rfl

theorem heedless_noteAnswer (q : Request) (r : Except Fault Unit) :
    Heedless (·.noteAnswer q r) d := by
  cases r with
  | ok _ => exact heedless_emit d (fun _ _ => rfl) nofun
  | error cause => exact heedless_emit d (fun _ _ => rfl) nofun


-- ============================================================================
-- Every step
-- ============================================================================

/-- A page that arrives while the demander is stopping is dropped. -/
theorem takePage_of_stopping (worker : WorkerId) (sender : NodeId) (page : Supply)
    (hs : d.stopping = true) :
    d.takePage worker sender page = d.spawn.1.finish d.nextJob (.ok ()) := if_pos hs

theorem heedless_resume (hs : d.stopping = true)
    (hn : ∀ j, d.job? id = some j → j.page? = none) : Heedless (·.resume id) d := by
  cases hj : d.job? id with
  | none => exact (Heedless.refl d).congr fun _ _ => by simp only [resume, job?_withData, hj]
  | some j =>
    have hp := hn j hj
    cases j with
    | queued plan =>
      exact (heedless_turn d id plan hs).congr fun _ _ => by simp only [resume, job?_withData, hj]
    | awaiting plan previous =>
      exact (heedless_awaitRound d id plan previous hs).congr fun _ _ => by
        simp only [resume, job?_withData, hj]
    | stopping =>
      exact (heedless_endStop d id).congr fun _ _ => by simp only [resume, job?_withData, hj]
    | sending round q s rest =>
      exact (Heedless.refl d).congr fun _ _ => by simp only [resume, job?_withData, hj]
    | locking => cases hp
    | replying => cases hp

theorem heedless_answer (hn : ∀ j, d.job? id = some j → j.page? = none)
    (r : Except Fault Unit) : Heedless (·.answer id r) d := by
  cases hj : d.job? id with
  | none => exact (Heedless.refl d).congr fun _ _ => by simp only [answer, job?_withData, hj]
  | some j =>
    have hp := hn j hj
    cases j with
    | sending round q s rest =>
      exact ((heedless_noteAnswer d q r).comp (heedless_dispatched _ id round s rest r)).congr
        fun _ _ => by simp only [answer, job?_withData, hj]
    | locking => cases hp
    | replying => cases hp
    | _ => exact (Heedless.refl d).congr fun _ _ => by simp only [answer, job?_withData, hj]

/-- A demander that is stopping pays no heed to its data whatever happens to it, unless a page is at
    work or that is a change to the node. -/
theorem heedless_step (hs : d.stopping = true) {i : Input} (hi : ∀ c, i ≠ .site c)
    (hn : ∀ id job, d.actor i ≠ .page id job) : Heedless (·.step i) d := by
  have hwaits : ∀ id, d.actor i = d.actorOf id → ∀ j, d.job? id = some j → j.page? = none := by
    intro id hw j hj
    cases hp : j.page? with
    | none => rfl
    | some job => exact absurd (hw.trans (actorOf_of_page hj hp)) (hn id job)
  have hset : ∀ f : Schedule → Schedule,
      Heedless (fun d => { d with schedule := f d.schedule }) d :=
    fun f => .quiet (fun _ _ => rfl) ⟨_, rfl⟩
  cases i with
  | add plan force => exact heedless_add d plan force hs
  | page worker sender page =>
    exact ((heedless_spawn d).comp (heedless_finish _ d.nextJob (.ok ()))).congr
      fun store recorder => takePage_of_stopping (d.withData store recorder) worker sender page hs
  | unreadable sender => exact (Heedless.refl d).congr fun _ _ => if_pos hs
  | nodeLeft node => exact heedless_nodeLeft d node
  | topologyChanged => exact (heedless_cancelIfStale d d.current).congr fun _ _ => rfl
  | stop => exact heedless_stop d
  | resume id => exact heedless_resume d id hs (hwaits id rfl)
  | answer id r => exact heedless_answer d id (hwaits id rfl) r
  | watch tag =>
    exact (heedless_whenDone d d.current (.notify tag d.currentRound.attached)).congr fun _ _ => rfl
  | exchange topology e finished => exact hset fun s => (s.enter topology e finished).1
  | exchanged e => exact heedless_onSchedule d fun s => ((s.finish e).1, (s.finish e).2.1)
  | remember e => exact hset (·.remember e)
  | forcePreload => exact heedless_onSchedule d Schedule.forcePreload
  | elapse ms => exact heedless_onSchedule d (·.elapse ms)
  | disarm => exact hset fun s => s.disarm.1
  | site c => exact absurd rfl (hi c)

end Demander
end Rebalance
