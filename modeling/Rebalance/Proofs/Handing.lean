/-
  Rebalance.Proofs.Handing

  What listeners are given over any run of a network: routes come and go,
  senders take turns, listeners take letters and hear them, nodes leave and
  time passes, in any order. `posts` notes every send that is begun, `given`
  and `ended` the calls that begin and end at a listener, all read off the
  states before and after each act.

  `Done` says all that one act can do, and the ledger of the network is carried
  from it over the run.
-/
import Rebalance.Network.Exercise
import Rebalance.Proofs.Lapses
import Rebalance.Proofs.Truncation

namespace Rebalance

namespace SortedMap

variable {κ : Type} {ν : Type} [Key κ] [DecidableEq κ]

theorem get?_of_filter {p : κ → ν → Bool} {m : SortedMap κ ν} {k : κ} {v : ν}
    (h : (m.filter p).get? k = some v) : m.get? k = some v :=
  get?_eq_some_iff.mpr (mem_toList_filter.mp (get?_eq_some_iff.mp h)).1

end SortedMap

namespace Exercise

-- ============================================================================
-- Acts
-- ============================================================================

/-- Something that is done to a network that is put to use, or that someone on it does. -/
inductive Act where
  | register (node : NodeId) (topic : Topic) (name : String) (mode : ListenMode)
  | unregister (node : NodeId) (topic : Topic)
  | depart (node : NodeId)
  | send (number : Nat) (s : Sender)
  | transmit (number : Nat)
  | listen (i : RouteId)
  | turnGate (gate : Bool)
  | elapse (ms : Nat)
  | clear

variable {e : Exercise} {a : Act} {acts : List Act} {i : RouteId}

/-- One act. -/
def act (e : Exercise) : Act → Exercise
  | .register node topic name mode =>
    match e.register node topic { name, mode } with
    | .ok e => e
    | .error _ => e
  | .unregister node topic => { e with network := (e.network.unregister node topic).1 }
  | .depart node => { e with network := e.network.depart node }
  | .send number s => e.send number s
  | .transmit number => (e.transmit number).getD e
  | .listen i => (e.listen i).getD e
  | .turnGate gate => { e with gate }
  | .elapse ms => { e with network := e.network.elapse ms }
  | .clear => e.clear

/-- What has come of an exercise after some acts. -/
def run (e : Exercise) (acts : List Act) : Exercise := acts.foldl act e

/-- The send that an act begins. -/
def begins (e : Exercise) : Act → Option Post
  | .transmit number =>
    (e.senders.get? number).bind fun s =>
      if s.isDone || s.waiting.isSome then none
      else some ⟨s.node, s.target, s.topic, s.message, e.network.routeFor s.target s.topic⟩
  | _ => none

/-- The sends begun in the course of some acts, by number. -/
def posts (e : Exercise) : List Act → List Post
  | [] => []
  | a :: acts => (e.begins a).toList ++ posts (e.act a) acts

/-- The call that the listener of a route is busy with. -/
def busyOn (e : Exercise) (i : RouteId) : Option (NodeId × Message) :=
  (e.listeners[i]?).bind (·.busy)

/-- What is there now and was not there before. -/
def arising {α : Type} : Option α → Option α → List α
  | none, some x => [x]
  | _, _ => []

/-- The letters given to the listener of a route, one call each, in the order of the calls. -/
def given (e : Exercise) (i : RouteId) : List Act → List (NodeId × Message)
  | [] => []
  | a :: acts => arising (e.busyOn i) ((e.act a).busyOn i) ++ given (e.act a) i acts

/-- The letters whose calls are over, in the order in which they ended. -/
def ended (e : Exercise) (i : RouteId) : List Act → List (NodeId × Message)
  | [] => []
  | a :: acts => arising ((e.act a).busyOn i) (e.busyOn i) ++ ended (e.act a) i acts

/-- Whether the listener of a route lives. -/
def isAlive (e : Exercise) (i : RouteId) : Bool := (e.network.routes[i]?).any (·.alive)

-- ============================================================================
-- What an act does
-- ============================================================================

/-- All that an act can do: nothing is accepted and no call begins, a send is begun, or a listener
    takes what comes first on its route. -/
inductive Done (e : Exercise) (a : Act) : Prop where
  | lapses (failed : List (SendId × Except NetworkFault Unit)) (begun : e.begins a = none)
      (network : e.network.Lapsed (e.act a).network failed)
      (busy : ∀ j, (e.act a).busyOn j = e.busyOn j ∨ (e.act a).busyOn j = none)
  | sends (s : Sender) (number : Nat) (sender : e.senders.get? number = some s)
      (begun : e.begins a =
        some ⟨s.node, s.target, s.topic, s.message, e.network.routeFor s.target s.topic⟩)
      (network : (e.act a).network =
        (e.network.send s.node s.target s.topic s.message s.timeout).1)
      (busy : ∀ j, (e.act a).busyOn j = e.busyOn j)
  | takes (i : RouteId) (envelope : Envelope) (begun : e.begins a = none)
      (network : e.network.take i = some (envelope, (e.act a).network)) (idle : e.busyOn i = none)
      (there : i < e.listeners.length)
      (busy : ∀ j, (e.act a).busyOn j =
        if j = i then (Wire.decode envelope.bytes).toOption.map (envelope.sender, ·)
        else e.busyOn j)

/-- What an act of a sender leaves as it is: the listeners and, unless it begins a send, the
    network; and a sender keeps its message. -/
theorem transmit_cases (e : Exercise) (number : Nat) :
    e.begins (.transmit number) = none ∧ e.act (.transmit number) = e ∨
      ∃ s s', e.senders.get? number = some s ∧ s'.message = s.message ∧
        (e.act (.transmit number)).senders = e.senders.insert number s' ∧
        (e.act (.transmit number)).listeners = e.listeners ∧
        (e.begins (.transmit number) = none ∧ (e.act (.transmit number)).network = e.network ∨
          e.begins (.transmit number) =
              some ⟨s.node, s.target, s.topic, s.message, e.network.routeFor s.target s.topic⟩ ∧
            (e.act (.transmit number)).network =
              (e.network.send s.node s.target s.topic s.message s.timeout).1) := by
  have hmessage : ∀ (s : Sender) (r : Except NetworkFault Unit),
      (s.settle r).message = s.message := by
    intro s r
    cases r <;> rfl
  unfold act begins transmit
  dsimp only
  cases hs : e.senders.get? number with
  | none => exact .inl ⟨rfl, rfl⟩
  | some s =>
    dsimp only [Option.bind_some]
    cases hdone : s.isDone with
    | true => exact .inl ⟨rfl, rfl⟩
    | false =>
      cases hwaiting : s.waiting with
      | some id =>
        dsimp only
        cases hr : e.network.result? id with
        | none => exact .inl ⟨rfl, rfl⟩
        | some r => exact .inr ⟨s, s.settle r, rfl, hmessage s r, rfl, rfl, .inl ⟨rfl, rfl⟩⟩
      | none =>
        refine .inr ⟨s, _, rfl, ?_, rfl, rfl, .inr ⟨rfl, rfl⟩⟩
        split
        · exact hmessage s _
        · rfl

theorem busyOn_congr {e' : Exercise} (h : e'.listeners = e.listeners) (j : RouteId) :
    e'.busyOn j = e.busyOn j := by
  rw [busyOn, h, busyOn]

theorem busyOn_set {e' : Exercise} {l : Listener} (hl : e.listeners[i]? = some l) (l' : Listener)
    (h : e'.listeners = e.listeners.set i l') (j : RouteId) :
    e'.busyOn j = if j = i then l'.busy else e.busyOn j := by
  rw [busyOn, h, List.getElem?_set]
  by_cases hj : i = j
  · rw [if_pos hj, if_pos hj.symm, if_pos (List.getElem?_eq_some_iff.mp hl).1]
    rfl
  · rw [if_neg hj, if_neg (Ne.symm hj), busyOn]

theorem done_transmit (ho : e.network.Orderly) (number : Nat) : e.Done (.transmit number) := by
  rcases e.transmit_cases number with ⟨hb, he⟩ | ⟨s, s', hs, -, -, hl, ⟨hb, hn⟩ | ⟨hb, hn⟩⟩
  · refine .lapses [] hb ?_ fun j => .inl (by rw [he])
    rw [he]
    exact Network.lapsed_refl ho
  · refine .lapses [] hb ?_ fun j => .inl (busyOn_congr hl j)
    rw [hn]
    exact Network.lapsed_refl ho
  · exact .sends s number hs hb hn (busyOn_congr hl)

/-- All that a listener can do when it goes on: it takes what comes first on its route, of which a
    call begins if the bytes can be read, or it ends the call it is in, of which it may die. -/
inductive Listens (e : Exercise) (i : RouteId) (e' : Exercise) : Prop where
  | takes (l : Listener) (envelope : Envelope) (there : e.listeners[i]? = some l)
      (idle : l.busy = none) (network : e.network.take i = some (envelope, e'.network))
      (listeners : e'.listeners = e.listeners.set i
        { l with busy := (Wire.decode envelope.bytes).toOption.map (envelope.sender, ·) })
      (senders : e'.senders = e.senders)
  | ends (l : Listener) (there : e.listeners[i]? = some l)
      (network : e'.network = if l.mode = .fatal then e.network.kill i else e.network)
      (listeners : e'.listeners = e.listeners.set i { l with busy := none })
      (senders : e'.senders = e.senders)

theorem listens {e' : Exercise} (h : e.listen i = some e') : e.Listens i e' := by
  unfold listen at h
  split at h
  · cases h
  · next l hl =>
    split at h
    · next hbusy =>
      split at h
      · cases h
      · next envelope network ht =>
        split at h
        · next fault hm =>
          cases h
          -- Nothing is called, and the listener is as it was: idle.
          have hsame : ({ l with busy := none } : Listener) = l := by rw [← hbusy]
          refine .takes l envelope hl hbusy ht ?_ rfl
          obtain ⟨hi, hget⟩ := List.getElem?_eq_some_iff.mp hl
          rw [hm]
          change e.listeners = e.listeners.set i { l with busy := none }
          rw [hsame, ← hget, List.set_getElem_self]
        · next m hm =>
          cases h
          exact .takes l envelope hl hbusy ht (by rw [hm]; rfl) rfl
    · split at h
      · cases h
      · cases h
        exact .ends l hl rfl rfl rfl

theorem done_listen (ho : e.network.Orderly) (i : RouteId) : e.Done (.listen i) := by
  cases he : e.listen i with
  | none =>
    have hstill : e.act (.listen i) = e := by rw [act, he]; rfl
    refine .lapses [] rfl ?_ fun j => .inl (by rw [hstill])
    rw [hstill]
    exact Network.lapsed_refl ho
  | some e' =>
    have hact : e.act (.listen i) = e' := by rw [act, he]; rfl
    rcases listens he with ⟨l, envelope, hl, hidle, hnetwork, hset, -⟩ | ⟨l, hl, hnetwork, hset, -⟩
    · have hnone : e.busyOn i = none := by rw [busyOn, hl]; exact hidle
      refine .takes i envelope rfl (hact ▸ hnetwork) hnone (List.getElem?_eq_some_iff.mp hl).1
        fun j => ?_
      rw [hact, busyOn_set hl _ hset]
    · have hlapsed : ∃ failed, e.network.Lapsed e'.network failed := by
        rw [hnetwork]
        split
        · exact Network.lapsed_kill ho i
        · exact ⟨[], Network.lapsed_refl ho⟩
      obtain ⟨failed, hm⟩ := hlapsed
      refine .lapses failed rfl (hact ▸ hm) fun j => ?_
      rw [hact, busyOn_set hl _ hset]
      by_cases hj : j = i
      · exact .inr (if_pos hj)
      · exact .inl (if_neg hj)

theorem done (ho : e.network.Orderly) (a : Act) : e.Done a := by
  cases a with
  | register node topic name mode =>
    cases hr : e.network.register node topic with
    | error cause =>
      have he : e.act (.register node topic name mode) = e := by
        simp only [act, register, hr]
      refine .lapses [] rfl ?_ fun j => .inl (by rw [he])
      rw [he]
      exact Network.lapsed_refl ho
    | ok new =>
      obtain ⟨network, i⟩ := new
      have he : e.act (.register node topic name mode) =
          { e with network, listeners := e.listeners ++ [{ name, mode }] } := by
        simp only [act, register, hr]
      refine .lapses [] rfl ?_ fun j => ?_
      · rw [he]
        exact Network.lapsed_register ho hr
      · rw [he, busyOn, busyOn]
        by_cases hj : j < e.listeners.length
        · exact .inl (by rw [List.getElem?_append_left hj])
        · refine .inr ?_
          rw [List.getElem?_append_right (Nat.le_of_not_lt hj)]
          cases j - e.listeners.length <;> rfl
  | unregister node topic =>
    exact .lapses [] rfl (Network.lapsed_unregister ho node topic) fun j => .inl rfl
  | depart node => exact .lapses [] rfl (Network.lapsed_depart ho node) fun j => .inl rfl
  | send number s => exact .lapses [] rfl (Network.lapsed_refl ho) fun j => .inl rfl
  | transmit number => exact done_transmit ho number
  | listen i => exact done_listen ho i
  | turnGate gate => exact .lapses [] rfl (Network.lapsed_refl ho) fun j => .inl rfl
  | elapse ms =>
    obtain ⟨failed, hm⟩ := Network.lapsed_elapse ho ms
    exact .lapses failed rfl hm fun j => .inl rfl
  | clear => exact .lapses [] rfl (Network.lapsed_refl ho) fun j => .inl rfl

-- ============================================================================
-- A run
-- ============================================================================

/-- A sender keeps to its message, and a message that is sent has lengths that can be written. -/
def Fitting (e : Exercise) : Prop := ∀ number s, e.senders.get? number = some s → s.message.Fits

/-- The acts put only messages to senders whose lengths can be written. -/
def AllFit (acts : List Act) : Prop := ∀ number s, Act.send number s ∈ acts → s.message.Fits

theorem AllFit.head (h : AllFit (a :: acts)) : ∀ number s, a = .send number s → s.message.Fits :=
  fun number s hs => h number s (hs ▸ List.mem_cons_self)

theorem AllFit.tail (h : AllFit (a :: acts)) : AllFit acts :=
  fun number s hs => h number s (List.mem_cons_of_mem a hs)

/-- What a listener leaves as it is. -/
theorem listen_keeps {e' : Exercise} (ho : e.network.Orderly) (h : e.listen i = some e') :
    e'.senders = e.senders ∧ e'.listeners.length = e.listeners.length ∧
      e'.network.routes.length = e.network.routes.length := by
  rcases listens h with ⟨l, envelope, -, -, ht, hset, hsenders⟩ | ⟨l, -, hnetwork, hset, hsenders⟩
  · obtain ⟨r, r', taken⟩ := Network.taken_of_take ht
    exact ⟨hsenders, by rw [hset, List.length_set], by rw [taken.routes, List.length_set]⟩
  · refine ⟨hsenders, by rw [hset, List.length_set], ?_⟩
    rw [hnetwork]
    split
    · exact (Network.thinned_kill ho i).size
    · rfl

theorem fitting_act (ho : e.network.Orderly) (h : e.Fitting)
    (ha : ∀ number s, a = .send number s → s.message.Fits) : (e.act a).Fitting := by
  have hsame : (e.act a).senders = e.senders → (e.act a).Fitting := by
    intro hs number s hget
    rw [hs] at hget
    exact h number s hget
  cases a with
  | register node topic name mode =>
    refine hsame ?_
    cases hr : e.network.register node topic <;> simp only [act, register, hr]
  | send number s =>
    intro k s' hget
    change (e.senders.insert number s).get? k = some s' at hget
    rcases SortedMap.of_get?_insert hget with ⟨-, rfl⟩ | ⟨-, hget⟩
    · exact ha number s rfl
    · exact h k s' hget
  | transmit number =>
    rcases e.transmit_cases number with ⟨-, he⟩ | ⟨s, s', hs, hmessage, hsenders, -⟩
    · exact hsame (by rw [he])
    · intro k t hget
      rw [hsenders] at hget
      rcases SortedMap.of_get?_insert hget with ⟨-, rfl⟩ | ⟨-, hget⟩
      · rw [hmessage]
        exact h number s hs
      · exact h k t hget
  | listen i =>
    refine hsame ?_
    cases hl : e.listen i with
    | none => rw [act, hl]; rfl
    | some e' =>
      rw [act, hl]
      exact (listen_keeps ho hl).1
  | clear => exact fun number s hget => h number s (SortedMap.get?_of_filter hget)
  | _ => exact hsame rfl

/-- Every route has its listener. -/
theorem sizes_act (ho : e.network.Orderly) (h : e.listeners.length = e.network.routes.length)
    (a : Act) : (e.act a).listeners.length = (e.act a).network.routes.length := by
  cases a with
  | register node topic name mode =>
    cases hr : e.network.register node topic with
    | error cause => simpa only [act, register, hr] using h
    | ok new =>
      obtain ⟨network, i⟩ := new
      simp only [act, register, hr, List.length_append, List.length_singleton]
      unfold Network.register at hr
      split at hr
      · cases hr
      · cases hr
        simp only [List.length_append, List.length_singleton, h]
  | unregister node topic => exact h.trans (Network.thinned_unregister _ node topic).size.symm
  | depart node => exact h.trans (Network.thinned_depart _ node).size.symm
  | transmit number =>
    rcases e.transmit_cases number with ⟨-, he⟩ | ⟨s, s', -, -, -, hl, ⟨-, hn⟩ | ⟨-, hn⟩⟩
    · rw [he, h]
    · rw [hl, hn, h]
    · obtain ⟨-, -, hgiven⟩ :=
        Network.given_of_send e.network s.node s.target s.topic s.message s.timeout
      rw [hl, hn, h]
      cases hgiven with
      | refused hr _ _ => rw [hr]
      | queued _ _ _ _ hr _ => rw [hr, List.length_set]
      | waits _ _ _ _ _ hr _ => rw [hr, List.length_set]
  | listen i =>
    cases hl : e.listen i with
    | none => rw [act, hl]; exact h
    | some e' =>
      obtain ⟨-, hlisteners, hroutes⟩ := listen_keeps ho hl
      rw [act, hl]
      exact hlisteners.trans (h.trans hroutes.symm)
  | elapse ms => exact h.trans (Network.thinned_elapse ho ms).size.symm
  | _ => exact h

/-- What is noted up to some moment, with what was noted before. -/
structure Noted (posts : List Post) (given : RouteId → List (NodeId × Message)) (e : Exercise) :
    Prop where
  ledger : Network.Ledger posts given e.network
  fits : ∀ p ∈ posts, p.message.Fits
  fitting : e.Fitting
  sizes : e.listeners.length = e.network.routes.length

theorem mem_lettersOf {posts : List Post} {ids : List SendId} {x : NodeId × Message}
    (h : x ∈ Network.lettersOf posts ids) : ∃ p ∈ posts, p.letter = x := by
  obtain ⟨id, -, hx⟩ := List.mem_filterMap.mp h
  obtain ⟨p, hp, rfl⟩ := Option.map_eq_some_iff.mp hx
  exact ⟨p, List.mem_of_getElem? hp, rfl⟩

theorem arising_self {α : Type} (x : Option α) : arising x x = [] := by
  cases x <;> rfl

theorem arising_none {α : Type} (x : Option α) : arising x none = [] := by
  cases x <;> rfl

/-- Where no call begins nothing is given. -/
theorem given_arising {e' : Exercise} {given : RouteId → List (NodeId × Message)}
    (h : ∀ j, e'.busyOn j = e.busyOn j ∨ e'.busyOn j = none) :
    (fun i => given i ++ arising (e.busyOn i) (e'.busyOn i)) = given := by
  funext j
  rcases h j with hj | hj
  · rw [hj, arising_self, List.append_nil]
  · rw [hj, arising_none, List.append_nil]

/-- A letter that is given was accepted, so it was sent, and its bytes can be read back. -/
theorem fits_of_given {posts : List Post} {given : RouteId → List (NodeId × Message)} {n : Network}
    {x : NodeId × Message} (h : n.Ledger posts given) (hfits : ∀ p ∈ posts, p.message.Fits)
    (hx : x ∈ given i) : x.2.Fits := by
  cases hr : n.routes[i]? with
  | none =>
    rw [h.unrouted i hr] at hx
    exact absurd hx List.not_mem_nil
  | some r =>
    obtain ⟨p, hp, rfl⟩ := mem_lettersOf ((h.balanced i r hr).prefix_letters.subset hx)
    exact hfits p hp

/-- What a listener takes is a letter that was accepted, and it is all that is given. -/
theorem arising_of_take {posts : List Post} {given : RouteId → List (NodeId × Message)}
    {e' : Exercise} {envelope : Envelope} (h : e.Noted posts given)
    (network : e.network.take i = some (envelope, e'.network)) (idle : e.busyOn i = none)
    (busy : ∀ j, e'.busyOn j =
      if j = i then (Wire.decode envelope.bytes).toOption.map (envelope.sender, ·)
      else e.busyOn j) :
    ∃ x, envelope = wrap x ∧
      e'.network.Ledger posts (fun j => given j ++ if j = i then [x] else []) ∧
      ∀ j, arising (e.busyOn j) (e'.busyOn j) = if j = i then [x] else [] := by
  obtain ⟨x, rfl, hledger⟩ := h.ledger.take network
  have hfits : x.2.Fits := fits_of_given (i := i) hledger h.fits (by simp)
  refine ⟨x, rfl, hledger, fun j => ?_⟩
  rw [busy j]
  by_cases hj : j = i
  · rw [if_pos hj, if_pos hj, hj, idle, wrap, Wire.decode_whole hfits]
    rfl
  · rw [if_neg hj, if_neg hj, arising_self]

theorem noted_act {posts : List Post} {given : RouteId → List (NodeId × Message)}
    (h : e.Noted posts given) (ha : ∀ number s, a = .send number s → s.message.Fits) :
    (e.act a).Noted (posts ++ (e.begins a).toList)
      (fun i => given i ++ arising (e.busyOn i) ((e.act a).busyOn i)) := by
  have hfitting := fitting_act h.ledger.orderly h.fitting ha
  have hsizes := sizes_act h.ledger.orderly h.sizes a
  cases e.done h.ledger.orderly a with
  | lapses failed begun network busy =>
    rw [given_arising busy, begun, Option.toList_none, List.append_nil]
    exact ⟨network.ledger h.ledger, h.fits, hfitting, hsizes⟩
  | sends s number sender begun network busy =>
    rw [given_arising fun j => .inl (busy j), begun, Option.toList_some]
    refine ⟨network ▸ h.ledger.send s.node s.target s.topic s.message s.timeout, fun p hp => ?_,
      hfitting, hsizes⟩
    rcases List.mem_append.mp hp with hp | hp
    · exact h.fits p hp
    · rw [List.mem_singleton.mp hp]
      exact h.fitting number s sender
  | takes i envelope begun network idle there busy =>
    obtain ⟨x, -, hledger, hgiven⟩ := arising_of_take h network idle busy
    simp only [begun, Option.toList_none, List.append_nil, hgiven]
    exact ⟨hledger, h.fits, hfitting, hsizes⟩

/-- What is noted agrees with the network after every run. -/
theorem noted_run {posts : List Post} {given : RouteId → List (NodeId × Message)}
    (h : e.Noted posts given) (ha : AllFit acts) :
    (e.run acts).Noted (posts ++ e.posts acts) (fun i => given i ++ e.given i acts) := by
  induction acts generalizing e posts given with
  | nil =>
    have hsame : (fun i => given i ++ e.given i []) = given := funext fun i => List.append_nil _
    rw [hsame]
    exact (List.append_nil posts).symm ▸ h
  | cons a acts ih =>
    have hrest := ih (noted_act h ha.head) ha.tail
    simp only [List.append_assoc] at hrest
    exact hrest

theorem noted_fresh : Noted [] (fun _ => []) {} where
  ledger := {
    orderly := Network.orderly_of_still rfl fun r hr => absurd hr List.not_mem_nil
    counted := rfl
    once := List.nodup_nil
    found := fun p hp => absurd hp List.not_mem_nil
    waits := fun i r w hr => by cases hr
    alive := fun i r hr => by cases hr
    balanced := fun i r hr => by cases hr
    unrouted := fun i _ => rfl
    excused := fun id p i cause hp => by cases hp }
  fits := fun p hp => absurd hp List.not_mem_nil
  fitting := fun number s hs => by cases hs
  sizes := rfl

theorem noted_of_run (ha : AllFit acts) :
    (run {} acts).Noted (posts {} acts) (fun i => given {} i acts) := by
  have h := noted_run noted_fresh ha
  simpa only [List.nil_append] using h

-- ============================================================================
-- One call at a time
-- ============================================================================

/-- A call does not change while it lasts. -/
theorem busyOn_act (ho : e.network.Orderly) {x y : NodeId × Message} (hx : e.busyOn i = some x)
    (hy : (e.act a).busyOn i = some y) : x = y := by
  cases e.done ho a with
  | lapses failed begun network busy =>
    rcases busy i with hsame | hnone
    · rw [hsame, hx] at hy
      exact Option.some.inj hy
    · rw [hnone] at hy
      cases hy
  | sends s number sender begun network busy =>
    rw [busy i, hx] at hy
    exact Option.some.inj hy
  | takes j envelope begun network idle there busy =>
    rw [busy i, if_neg, hx] at hy
    · exact Option.some.inj hy
    · rintro rfl
      rw [idle] at hx
      cases hx

/-- The calls that were begun are those that have ended and the one that lasts. -/
theorem given_ended {posts : List Post} {given : RouteId → List (NodeId × Message)}
    (h : e.Noted posts given) (ha : AllFit acts) (i : RouteId) :
    (e.busyOn i).toList ++ e.given i acts =
      e.ended i acts ++ ((e.run acts).busyOn i).toList := by
  induction acts generalizing e posts given with
  | nil => exact List.append_nil _
  | cons a acts ih =>
    have hrest := ih (noted_act h ha.head) ha.tail
    have hstep : (e.busyOn i).toList ++ arising (e.busyOn i) ((e.act a).busyOn i) =
        arising ((e.act a).busyOn i) (e.busyOn i) ++ ((e.act a).busyOn i).toList := by
      cases hx : e.busyOn i with
      | none => cases (e.act a).busyOn i <;> rfl
      | some x =>
        cases hy : (e.act a).busyOn i with
        | none => rfl
        | some y => rw [busyOn_act h.ledger.orderly hx hy]; rfl
    rw [Exercise.given, ← List.append_assoc, hstep, List.append_assoc, hrest, ended,
      List.append_assoc]
    rfl

-- ============================================================================
-- Results stay
-- ============================================================================

theorem results_act (ho : e.network.Orderly) (a : Act) :
    e.network.results <:+ (e.act a).network.results := by
  cases e.done ho a with
  | lapses failed begun network busy => exact ⟨failed, network.results.symm⟩
  | sends s number sender begun network busy =>
    obtain ⟨-, -, hgiven⟩ :=
      Network.given_of_send e.network s.node s.target s.topic s.message s.timeout
    rw [network]
    cases hgiven with
    | refused _ cause h => exact ⟨[_], h.symm⟩
    | queued _ _ _ _ _ h => exact ⟨[_], h.symm⟩
    | waits _ _ _ _ _ _ h => exact ⟨[], h.symm⟩
  | takes i envelope begun network idle there busy =>
    obtain ⟨r, r', taken⟩ := Network.taken_of_take network
    rcases taken.gone with ⟨-, -, -, h⟩ | ⟨w, queue, -, -, -, h⟩
    · exact ⟨[], h.symm⟩
    · exact ⟨[_], h.symm⟩

theorem results_run {posts : List Post} {given : RouteId → List (NodeId × Message)}
    (h : e.Noted posts given) (ha : AllFit acts) :
    e.network.results <:+ (e.run acts).network.results := by
  induction acts generalizing e posts given with
  | nil => exact List.suffix_refl _
  | cons a acts ih =>
    exact (results_act h.ledger.orderly a).trans (ih (noted_act h ha.head) ha.tail)

-- ============================================================================
-- What a listener is given
-- ============================================================================

/-- What the send of a number brings to its listener. -/
def letterOf (log : List Post) (id : SendId) : Option (NodeId × Message) :=
  (log[id]?).map Post.letter

theorem map_lettersOf {log : List Post} {ids : List SendId} (h : ∀ id ∈ ids, id < log.length) :
    (Network.lettersOf log ids).map some = ids.map (letterOf log) := by
  induction ids with
  | nil => rfl
  | cons id ids ih =>
    have hid := List.getElem?_eq_getElem (h id List.mem_cons_self)
    have hrest := ih fun k hk => h k (List.mem_cons_of_mem id hk)
    rw [Network.lettersOf, List.filterMap_cons, List.map_cons, letterOf, hid, ← hrest]
    rfl

theorem nodup_acceptedOn {log : List Post} {results : List (SendId × Except NetworkFault Unit)}
    (h : (results.map (·.1)).Nodup) (i : RouteId) : (Network.acceptedOn log results i).Nodup := by
  rw [Network.acceptedOn]
  refine List.Nodup.sublist (List.filter_sublist.map _) ?_
  rw [List.map_reverse, List.nodup_reverse]
  exact h

/-- A listener that is idle and can take nothing has an empty queue. -/
theorem queue_of_idle {log : List Post} {given : RouteId → List (NodeId × Message)}
    (h : e.Noted log given) (hidle : e.busyOn i = none) (hnothing : e.listen i = none) {r : Route}
    (hr : e.network.routes[i]? = some r) : r.queue = [] := by
  have hi : i < e.listeners.length := h.sizes ▸ (List.getElem?_eq_some_iff.mp hr).1
  have hl := List.getElem?_eq_getElem hi
  have hbusy : e.listeners[i].busy = none := by
    rw [busyOn, hl] at hidle
    exact hidle
  cases hq : r.queue with
  | nil => rfl
  | cons x queue =>
    rw [listen, hl] at hnothing
    dsimp only at hnothing
    rw [hbusy] at hnothing
    dsimp only at hnothing
    have htakes : ∃ taken, e.network.take i = some taken := by
      rw [Network.take, hr]
      dsimp only
      rw [hq]
      cases r.waiting <;> exact ⟨_, rfl⟩
    obtain ⟨taken, ht⟩ := htakes
    rw [ht] at hnothing
    dsimp only at hnothing
    split at hnothing <;> cases hnothing

/-- What a listener is given over any run, for every registration. The letters are those of the
    first sends that were accepted on its route, in the order of acceptance, each in one call, and a
    call begins when the one before has ended. A living listener that is idle and finds nothing on
    its route has been given all of them. A send that ever ended in an error is not among those
    accepted, and one that found the route ends well or in time-out, unless the listener has died. -/
theorem letters_given_in_order (ha : AllFit acts) (i : RouteId) :
    let e := run {} acts
    let log := posts {} acts
    let ids := Network.acceptedOn log e.network.results i
    ids.Nodup ∧
      (given {} i acts).map some <+: ids.map (letterOf log) ∧
      given {} i acts = ended {} i acts ++ (e.busyOn i).toList ∧
      (e.isAlive i = true → e.busyOn i = none → e.listen i = none →
        (given {} i acts).map some = ids.map (letterOf log)) ∧
      (∀ before after, acts = before ++ after → ∀ id cause,
        (run {} before).network.result? id = some (.error cause) → id ∉ ids) ∧
      ∀ id p, log[id]? = some p → p.route = some i → ∀ r, e.network.result? id = some r →
        r = .ok () ∨ r = .error (.timeout p.target) ∨
          e.isAlive i = false ∧ (r = .error (.nodeLeft p.target) ∨ r = .error (.sendFailed
            ("route " ++ p.topic.text ++ " on node " ++ toString p.target.toNat ++ " closed"))) := by
  intro e log ids
  have hnoted := noted_of_run ha
  have hledger := hnoted.ledger
  have hids : ∀ id ∈ ids, id < log.length := fun id hid =>
    hledger.begun _ (Network.mem_acceptedOn.mp hid).1
  have hmap := map_lettersOf hids
  refine ⟨nodup_acceptedOn hledger.once i, ?_, ?_, fun halive hidle hnothing => ?_,
    fun before after hacts id cause herror hid => ?_, fun id p hp hi r hr => ?_⟩
  · rw [← hmap]
    cases hr : e.network.routes[i]? with
    | none => rw [hledger.unrouted i hr]; exact List.nil_prefix
    | some r => exact (hledger.balanced i r hr).prefix_letters.map some
  · have hcalls := given_ended noted_fresh ha i
    exact hcalls
  · rw [← hmap]
    obtain ⟨r, hr, hlives⟩ := (Option.any_eq_true _ _).mp halive
    have hempty := queue_of_idle hnoted hidle hnothing hr
    have hb := hledger.balanced i r hr
    rw [hlives, hempty] at hb
    rw [hb.complete]
    rfl
  · subst hacts
    have hbefore := noted_of_run fun number s hs => ha number s (List.mem_append_left after hs)
    have hlater := results_run hbefore fun number s hs => ha number s (List.mem_append_right before hs)
    have hrun : e = (run {} before).run after := List.foldl_append
    rw [← hrun] at hlater
    have hmem := hlater.subset (Network.mem_of_result? herror)
    have hok := Network.result?_of_mem hledger.once (Network.mem_acceptedOn.mp hid).1
    rw [Network.result?_of_mem hledger.once hmem] at hok
    cases hok
  · cases r with
    | ok u => exact .inl rfl
    | error cause =>
      refine .inr ((hledger.excused id p i cause hp hi (Network.mem_of_result? hr)).imp
        (congrArg _) ?_)
      rintro ⟨s, hs, hdead, hcause⟩
      refine ⟨by rw [isAlive, hs]; exact hdead, hcause.imp (congrArg _) (congrArg _)⟩

/-- The topic of a supplier. -/
def supplierTopic : Topic := ⟨.supply, 0, 0⟩

/-- Node 1 sends one demand to the supplier on node 2. -/
def courier (p : PartitionId) : Sender where
  node := 1
  target := 2
  topic := supplierTopic
  message := .demand (Demand.ofList [p] ⟨1, 0⟩)
  timeout := Span.zero
  left := 1

/-- Two demands come to a supplier, which stops to listen before it takes the first one. -/
def twoDemands : List Act :=
  [.register 2 supplierTopic "supplier" .plain, .send 0 (courier 3), .send 1 (courier 4),
    .transmit 0, .transmit 1, .unregister 2 supplierTopic, .listen 0, .listen 0, .listen 0,
    .listen 0]

theorem letters_given_in_order_twoDemands :
    AllFit twoDemands ∧ (run {} twoDemands).isAlive 0 = true ∧
      (run {} twoDemands).busyOn 0 = none ∧ (run {} twoDemands).listen 0 = none ∧
      (given {} 0 twoDemands).map some =
        [some (1, (courier 3).message), some (1, (courier 4).message)] := by
  have hfit : AllFit twoDemands := by
    intro number s hs
    simp only [twoDemands, List.mem_cons, List.not_mem_nil, or_false, reduceCtorEq, false_or,
      Act.send.injEq] at hs
    rcases hs with ⟨-, rfl⟩ | ⟨-, rfl⟩ <;> trivial
  have halive : (run {} twoDemands).isAlive 0 = true := by decide +kernel
  have hidle : (run {} twoDemands).busyOn 0 = none := by decide +kernel
  have hnothing : (run {} twoDemands).listen 0 = none :=
    Option.isNone_iff_eq_none.mp (by decide +kernel)
  exact ⟨hfit, halive, hidle, hnothing,
    ((letters_given_in_order hfit 0).2.2.2.1 halive hidle hnothing).trans (by decide +kernel)⟩

/-- A supplier dies of the first of two demands. -/
def fatalDemand : List Act :=
  [.register 2 supplierTopic "supplier" .fatal, .send 0 (courier 3), .transmit 0, .listen 0,
    .listen 0, .send 1 (courier 4), .transmit 1]

/-- A send that finds the route of a listener that has died is refused, although the node has not
    left and the route is still registered. -/
theorem dead_listener_refuses :
    ((posts {} fatalDemand)[1]?).bind (·.route) = some 0 ∧
      (run {} fatalDemand).network.isRegistered 2 supplierTopic = true ∧
      (run {} fatalDemand).network.hasLeft 2 = false ∧
      (run {} fatalDemand).network.result? 1 =
        some (.error (.sendFailed "route rebalance/supply/0/0 on node 2 closed")) := by
  refine ⟨by decide +kernel, by decide +kernel, by decide +kernel, ?_⟩
  decide +kernel

end Exercise
end Rebalance
