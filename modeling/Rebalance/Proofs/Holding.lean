/-
  Rebalance.Proofs.Holding

  The messages that a demander holds, by stream: the pages that it takes in, and
  the first demands that it is still to send.  Once the network has accepted the
  demand that a job waits for, the job does not hold that message any more.  A
  step adds nothing but the page that it takes up, unless it starts a round.
-/
import Rebalance.Proofs.Continuing

namespace Rebalance

-- ============================================================================
-- Counting
-- ============================================================================

section Counting

variable {α : Type} [BEq α] {f g : Nat → List α} {n i : Nat} {k : α}

theorem count_flatMap_range_le (h : ∀ j < n, (g j).count k ≤ (f j).count k) :
    ((List.range n).flatMap g).count k ≤ ((List.range n).flatMap f).count k := by
  induction n with
  | zero => exact Nat.le_refl _
  | succ n ih =>
    rw [List.range_succ, List.flatMap_append, List.flatMap_append, List.count_append,
      List.count_append, List.flatMap_singleton, List.flatMap_singleton]
    exact Nat.add_le_add (ih fun j hj => h j (Nat.lt_succ_of_lt hj)) (h n (Nat.lt_succ_self n))

/-- Where only one place has gained anything, all places together have gained no more. -/
theorem count_flatMap_range_one (hi : i < n)
    (h : ∀ j < n, j ≠ i → (g j).count k ≤ (f j).count k) :
    ((List.range n).flatMap g).count k + (f i).count k ≤
      ((List.range n).flatMap f).count k + (g i).count k := by
  induction n with
  | zero => exact absurd hi (Nat.not_lt_zero i)
  | succ n ih =>
    rw [List.range_succ, List.flatMap_append, List.flatMap_append, List.count_append,
      List.count_append, List.flatMap_singleton, List.flatMap_singleton]
    by_cases hn : i = n
    · subst hn
      have hrest := count_flatMap_range_le (n := i) (f := f) (g := g) (k := k) fun j hj =>
        h j (Nat.lt_succ_of_lt hj) (Nat.ne_of_lt hj)
      omega
    · have hlast := h n (Nat.lt_succ_self n) (Ne.symm hn)
      have hrest := ih (Nat.lt_of_le_of_ne (Nat.le_of_lt_succ hi) hn) fun j hj =>
        h j (Nat.lt_succ_of_lt hj)
      omega

omit [BEq α] in
/-- Places with nothing in them do not count. -/
theorem flatMap_range_of_nil {m : Nat} (hm : n ≤ m) (h : ∀ j, n ≤ j → f j = []) :
    (List.range m).flatMap f = (List.range n).flatMap f := by
  obtain ⟨t, rfl⟩ := Nat.exists_eq_add_of_le hm
  clear hm
  induction t with
  | zero => rfl
  | succ t ih =>
    rw [← Nat.add_assoc, List.range_succ, List.flatMap_append, List.flatMap_singleton,
      h _ (Nat.le_add_right n t), List.append_nil, ih]

end Counting

-- ============================================================================
-- The streams that jobs are about
-- ============================================================================

/-- The streams of which a job holds a message: that of the page that it takes in, or those of the
    demands that it is still to send. What the network has accepted already is not held any more. -/
def Job.streams (sent : Bool) (j : Job) : List StreamId :=
  match j.page? with
  | some job => if sent then [] else [job.stream]
  | none => (if sent then j.asks.tail else j.asks).map Request.stream

namespace Demander

variable {d e : Demander} {i : Input} {id : JobId} {j : Job} {job : PageJob} {R : RoundId}
  {q : Request}

/-- The streams of which a job, if it is there, holds a message. -/
def heldBy (d : Demander) (id : JobId) (sent : Bool) : List StreamId :=
  ((d.job? id).map (Job.streams sent)).getD []

theorem heldBy_of_none (h : d.job? id = none) (sent : Bool) : d.heldBy id sent = [] := by
  rw [heldBy, h]
  rfl

theorem heldBy_of_some (h : d.job? id = some j) (sent : Bool) : d.heldBy id sent = j.streams sent := by
  rw [heldBy, h]
  rfl

theorem AfterWork.page? {b : Bool} (h : AfterWork job e b (some j)) : j.page? = some job := by
  cases h <;> rfl

/-- Unless something is answered for, a job comes to hold a message only of a page that arrives or
    for a round that is started. -/
theorem heldBy_step (hs : d.Steady) (hi : ∀ r, i ≠ .answer id r) {sent : Bool}
    (hsent : sent = true → ∃ j, d.job? id = some j ∧ j.request?.isSome = true) :
    (∃ R P plan e, Opens d i R P id plan e) ∨
      (∃ worker sender page, i = .page worker sender page ∧ id = d.nextJob ∧
        (d.step i).heldBy id sent = [(sender, worker)]) ∨
      ∀ k, ((d.step i).heldBy id sent).count k ≤ (d.heldBy id sent).count k := by
  cases hj : (d.step i).job? id with
  | none =>
    refine .inr (.inr fun k => ?_)
    rw [heldBy_of_none hj]
    exact Nat.zero_le _
  | some j =>
    -- A job whose demand was accepted waits to be told.
    have hnot : sent = true → (d.step i).job? id = d.job? id := by
      intro h
      obtain ⟨j', hj', hq⟩ := hsent h
      exact job_of_request hs hj' hq hi
    cases sent with
    | true =>
      refine .inr (.inr fun k => ?_)
      rw [heldBy, hnot rfl]
      exact Nat.le_refl _
    | false =>
      cases onto_step hs hj with
      | stays h =>
        refine .inr (.inr fun k => ?_)
        exact Nat.le_of_eq (by rw [heldBy_of_some hj, heldBy_of_some h])
      | @arrives worker sender page job _ hpage hid ha hw =>
        refine .inr (.inl ⟨worker, sender, page, hpage, hid, ?_⟩)
        obtain ⟨-, plan, demand, -, -, -, -, rfl⟩ := accepted_round ha
        rw [heldBy_of_some hj, Job.streams, (hw.left hj).page?]
        rfl
      | goesOn hk hw =>
        refine .inr (.inr fun k => ?_)
        rw [heldBy_of_some hj, heldBy_of_some hk, Job.streams, (hw.left hj).page?]
        exact Nat.le_refl _
      | sends hanswer => exact absurd hanswer (hi _)
      | waits hp hq =>
        refine .inr (.inr fun k => ?_)
        rw [heldBy_of_some hj, Job.streams, hp, hq]
        exact Nat.zero_le _
      | opens h => exact .inl ⟨_, _, _, _, h⟩

/-- A job that is told what became of its demand holds no other message than before. -/
theorem heldBy_answer (hj : d.job? id = some j) (hq : j.request?.isSome = true)
    (r : Except Fault Unit) (sent : Bool) (k : StreamId) :
    ((d.step (.answer id r)).heldBy id false).count k ≤ (d.heldBy id sent).count k := by
  cases j with
  | replying job q =>
    rw [heldBy_of_none (job?_answered hj r)]
    exact Nat.zero_le _
  | sending round q s rest =>
    rw [heldBy_of_some hj]
    cases hafter : (d.step (.answer id r)).job? id with
    | none =>
      rw [heldBy_of_none hafter]
      exact Nat.zero_le _
    | some j =>
      obtain ⟨hp, hasks⟩ := asks_answer hj hafter
      rw [heldBy_of_some hafter, Job.streams, hp, hasks]
      cases sent with
      | true => exact Nat.le_refl _
      | false => exact List.count_le_count_cons
  | _ => cases hq

/-- What a job holds once it has started a round: one message of every stream at most. -/
theorem Opens.heldBy {P plan : Plan} (h : Opens d i R P id plan e) (k : StreamId) :
    ((d.step i).heldBy id false).count k ≤ 1 := by
  cases hj : (d.step i).job? id with
  | none =>
    rw [heldBy_of_none hj]
    exact Nat.zero_le _
  | some j =>
    obtain ⟨hp, -, honce⟩ := h.demands hj
    rw [heldBy_of_some hj, Job.streams, hp]
    exact List.nodup_iff_count_le_one.mp honce k

-- ============================================================================
-- All that a demander holds
-- ============================================================================

theorem nextJob_ticks {who : Actor} (h : Ticks who d e) : e.nextJob = d.nextJob := by
  induction h with
  | refl => rfl
  | head h _ ih => exact ih.trans (nextJob_tick h)

theorem nextJob_step (hs : d.Steady) (i : Input) : (d.step i).nextJob = (d.base i).nextJob := by
  by_cases hi : ∃ c, i = .site c
  · obtain ⟨c, rfl⟩ := hi
    rfl
  · exact nextJob_ticks (step_ticks hs fun c hc => hi ⟨c, hc⟩)

theorem nextJob_le (hs : d.Steady) (i : Input) : d.nextJob ≤ (d.step i).nextJob := by
  rw [nextJob_step hs]
  cases i <;> first | exact Nat.le_refl _ | exact Nat.le_succ _

/-- The streams of all messages that a demander holds, where the network has accepted the demands of
    some jobs. -/
def holds (d : Demander) (sent : JobId → Bool) : List StreamId :=
  (List.range d.nextJob).flatMap fun id : Nat => d.heldBy id (sent id)

variable {sent sent' : JobId → Bool} {k : StreamId}

/-- Jobs that have not begun hold nothing. -/
theorem holds_eq (hs : d.Steady) {n : Nat} (hn : d.nextJob ≤ n) :
    d.holds sent = (List.range n).flatMap fun id : Nat => d.heldBy id (sent id) :=
  (flatMap_range_of_nil hn fun id hid => heldBy_of_none (job?_of_le hs hid) (sent id)).symm

theorem heldBy_sent (hj : d.job? id = some j) (hp : j.Proper) (hq : j.request? = some q)
    (k : StreamId) :
    (d.heldBy id true).count k + [q.stream].count k = (d.heldBy id false).count k := by
  rw [heldBy_of_some hj, heldBy_of_some hj]
  cases j with
  | replying job q' =>
    obtain rfl := Option.some.inj hq
    rw [(hp q' (List.mem_singleton_self q')).2 job rfl]
    exact Nat.zero_add _
  | sending round q' s rest =>
    obtain rfl := Option.some.inj hq
    change ((s.parts ++ rest.flatMap (·.parts)).map Request.stream).count k + _ =
      (q'.stream :: (s.parts ++ rest.flatMap (·.parts)).map Request.stream).count k
    rw [Nat.add_comm, ← List.count_append]
    rfl
  | _ => cases hq

theorem heldBy_le (d : Demander) (id : JobId) {b b' : Bool} (h : b = true → b' = true)
    (k : StreamId) : (d.heldBy id b').count k ≤ (d.heldBy id b).count k := by
  cases hj : d.job? id with
  | none =>
    rw [heldBy_of_none hj]
    exact Nat.zero_le _
  | some j =>
    rw [heldBy_of_some hj, heldBy_of_some hj]
    cases b with
    | true => exact Nat.le_of_eq (by rw [h rfl])
    | false =>
      cases b' with
      | false => exact Nat.le_refl _
      | true =>
        unfold Job.streams
        split
        · exact Nat.zero_le _
        · exact ((List.tail_sublist _).map _).count_le k

/-- The more demands the network has accepted, the less a demander holds. -/
theorem holds_le (d : Demander) (h : ∀ id, sent id = true → sent' id = true) (k : StreamId) :
    (d.holds sent').count k ≤ (d.holds sent).count k :=
  count_flatMap_range_le fun id _ => heldBy_le d id (h id) k

/-- A demand that the network accepts is not held any more. -/
theorem holds_sent (hs : d.Steady) (h : ∀ id, sent id = true → sent' id = true)
    (hj : d.job? id = some j) (hp : j.Proper) (hq : j.request? = some q) (hbefore : sent id = false)
    (hafter : sent' id = true) (k : StreamId) :
    (d.holds sent').count k + [q.stream].count k ≤ (d.holds sent).count k := by
  have hone := count_flatMap_range_one (f := fun id => d.heldBy id (sent id))
    (g := fun id => d.heldBy id (sent' id)) (k := k) (hs.young id j hj)
    fun x _ _ => heldBy_le d x (h x) k
  have hid := heldBy_sent hj hp hq k
  simp only [hbefore, hafter] at hone
  unfold holds
  omega

/-- Unless something is answered for, a demander comes to hold a message only of a page that arrives
    or for a round that is started. -/
theorem holds_step (hs : d.Steady) (hi : ∀ id r, i ≠ .answer id r)
    (hsent : ∀ id, sent id = true → ∃ j, d.job? id = some j ∧ j.request?.isSome = true)
    (hopens : ¬ ∃ R P id plan e, Opens d i R P id plan e) :
    (∃ worker sender page, i = .page worker sender page ∧
        ∀ k, ((d.step i).holds sent).count k ≤ (d.holds sent).count k + [(sender, worker)].count k) ∨
      (∀ worker sender page, i ≠ .page worker sender page) ∧
        ∀ k, ((d.step i).holds sent).count k ≤ (d.holds sent).count k := by
  -- Every job by itself, and then all of them together: only the new one can have gained a message.
  have hone : ∀ id, (∃ worker sender page, i = .page worker sender page ∧ id = d.nextJob ∧
        (d.step i).heldBy id (sent id) = [(sender, worker)]) ∨
      ∀ k, ((d.step i).heldBy id (sent id)).count k ≤ (d.heldBy id (sent id)).count k := by
    intro id
    rcases heldBy_step hs (hi id) (hsent id) with ⟨R, P, plan, e, h⟩ | h
    · exact absurd ⟨R, P, id, plan, e, h⟩ hopens
    · exact h
  rw [holds_eq hs (nextJob_le hs i)]
  by_cases hpage : ∃ worker sender page, i = .page worker sender page
  · obtain ⟨worker, sender, page, rfl⟩ := hpage
    refine .inl ⟨worker, sender, page, rfl, fun k => ?_⟩
    have hnext : (d.step (.page worker sender page)).nextJob = d.nextJob + 1 := nextJob_step hs _
    have hcount := count_flatMap_range_one (f := fun id => d.heldBy id (sent id))
      (g := fun id => (d.step (.page worker sender page)).heldBy id (sent id)) (k := k)
      (show d.nextJob < (d.step (.page worker sender page)).nextJob from
        hnext ▸ Nat.lt_succ_self _)
      fun id _ hne => by
        rcases hone id with ⟨_, _, _, -, hid, -⟩ | h
        · exact absurd hid hne
        · exact h k
    have hnew : ((d.step (.page worker sender page)).heldBy d.nextJob (sent d.nextJob)).count k ≤
        (d.heldBy d.nextJob (sent d.nextJob)).count k + [(sender, worker)].count k := by
      rcases hone d.nextJob with ⟨_, _, _, heq, -, h⟩ | h
      · cases heq
        rw [h]
        exact Nat.le_add_left _ _
      · exact Nat.le_trans (h k) (Nat.le_add_right _ _)
    unfold holds
    omega
  · refine .inr ⟨fun worker sender page h => hpage ⟨worker, sender, page, h⟩, fun k => ?_⟩
    refine count_flatMap_range_le fun id _ => ?_
    rcases hone id with ⟨worker, sender, page, h, -⟩ | h
    · exact absurd ⟨worker, sender, page, h⟩ hpage
    · exact h k

/-- A demander that is told what became of a demand holds no other message than before. -/
theorem holds_answer (hs : d.Steady) (hj : d.job? id = some j) (hq : j.request?.isSome = true)
    (r : Except Fault Unit)
    (hsent : ∀ id, sent id = true → ∃ j, d.job? id = some j ∧ j.request?.isSome = true)
    (hgone : ∀ k, k ≠ id → sent' k = sent k) (hid : sent' id = false) (k : StreamId) :
    ((d.step (.answer id r)).holds sent').count k ≤ (d.holds sent).count k := by
  rw [holds_eq hs (nextJob_le hs (.answer id r))]
  refine count_flatMap_range_le fun x _ => ?_
  by_cases hx : x = id
  · subst hx
    rw [hid]
    exact heldBy_answer hj hq r (sent x) k
  · rw [hgone x hx]
    have hi : ∀ r', Input.answer id r ≠ .answer x r' := by
      rintro r' heq
      cases heq
      exact hx rfl
    rcases heldBy_step hs hi (hsent x) with ⟨R, P, plan, e, h⟩ | ⟨_, _, _, heq, -⟩ | h
    · obtain ⟨previous, hb, -⟩ := h.follows
      cases hb
    · cases heq
    · exact h k

/-- Where nothing is held, a round that is started brings one message of every stream at most. -/
theorem Opens.holds {P plan : Plan} (h : Opens d i R P id plan e) (hs : d.Steady)
    (hsent : ∀ id, sent id = true → ∃ j, d.job? id = some j ∧ j.request?.isSome = true)
    (hnone : (d.holds sent).count k = 0) : ((d.step i).holds sent).count k ≤ 1 := by
  obtain ⟨previous, hb, -⟩ := h.follows
  have hi : ∀ x r, i ≠ .answer x r := by
    rintro x r rfl
    cases hb
  have hyoung : id < (d.step i).nextJob := by
    rw [nextJob_step hs, ← nextJob_ticks h.before.ticks]
    exact h.young
  rw [holds_eq hs (nextJob_le hs i)] at hnone
  have hcount := count_flatMap_range_one (f := fun id => d.heldBy id (sent id))
    (g := fun id => (d.step i).heldBy id (sent id)) (k := k) hyoung
    fun x _ hne => by
      rcases heldBy_step hs (hi x) (hsent x) with ⟨_, _, _, _, h'⟩ | ⟨_, _, _, rfl, -⟩ | h'
      · exact absurd (Actor.call.inj (h'.who.symm.trans h.who)) hne
      · cases hb
      · exact h' k
  have hid : ((d.step i).heldBy id (sent id)).count k ≤ 1 :=
    Nat.le_trans (heldBy_le (d.step i) id (fun hf => absurd hf Bool.false_ne_true) k) (h.heldBy k)
  unfold Demander.holds
  omega

end Demander
end Rebalance
