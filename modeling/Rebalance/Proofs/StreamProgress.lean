/-
  Rebalance.Proofs.StreamProgress

  How far a stream has got.  The pages of one stream come one after
  another, and between two of them store and round of the demander say exactly
  what is still to come: a partition ahead is awaited and holds what was sent
  of it so far, one that was sent whole is owned and not awaited, and one that
  the supplier does not have is awaited until it is noted as missed.  A page
  moves its own stream on and leaves all others where they are.
-/
import Rebalance.Proofs.Calm
import Rebalance.Proofs.Host
import Rebalance.Proofs.Paging

namespace Rebalance

open SortedMap (find)

-- ============================================================================
-- What a page does to store and round
-- ============================================================================

/-- A page from a node that was taken in: from a store and a round to the ones after it, where
    `owned` tells which partitions belong here. -/
structure PageTaken (owned : PartitionId → Bool) (node : NodeId) (page : Supply)
    (st st' : Store) (r r' : Round RoundWait) : Prop where
  others : ∀ q, page.entries.get? q = none → st'.get? q = st.get? q
  state : ∀ q es, page.entries.get? q = some es → owned q = true →
    st.state? q = some .moving →
      st'.state? q = some (if q ∈ page.last then .owning else .moving)
  read : ∀ q es, page.entries.get? q = some es → owned q = true →
    st.state? q = some .moving → ∀ k, st'.read q k = Entry.mergeAll k (st.read q k) es
  outstanding : ∀ m q, q ∈ r'.outstandingFrom m ↔
    q ∈ r.outstandingFrom m ∧ ¬ (m = node ∧ (q ∈ page.missed ∨
      ∃ es, page.entries.get? q = some es ∧
        (owned q = true → st.state? q = some .moving → q ∈ page.last)))
  missed : ∀ q, q ∈ r'.missed → q ∈ r.missed ∨ (q ∈ page.missed ∧ owned q = true)
  keeps : ∀ q, q ∈ r.missed → q ∈ r'.missed
  notes : ∀ q, q ∈ page.missed → owned q = true → q ∈ r.outstandingFrom node →
    page.entries.get? q = none → q ∈ r'.missed
  givenUp : r'.givenUp = r.givenUp

/-- What becomes of a round when some partitions of a node are taken off, what it misses is noted
    and taken off too. -/
theorem Round.Standing.settled_answers {r : Round RoundWait} (hr : r.Standing)
    (ha : r.attached = true) (node : NodeId) (ended noted missing : List PartitionId) :
    (∀ m q, q ∈ (((r.drainAll node ended).missAll node noted).drainAll node
        missing).outstandingFrom m ↔
      q ∈ r.outstandingFrom m ∧ ¬ (m = node ∧ (q ∈ ended ∨ q ∈ missing))) ∧
      (∀ q, q ∈ (((r.drainAll node ended).missAll node noted).drainAll node missing).missed ↔
        q ∈ r.missed ∨ ((r.drainAll node ended).closed = false ∧ q ∈ noted)) ∧
      (∀ q ∈ noted, q ∈ r.outstandingFrom node → q ∉ ended →
        q ∈ (((r.drainAll node ended).missAll node noted).drainAll node missing).missed) ∧
      (((r.drainAll node ended).missAll node noted).drainAll node missing).givenUp =
        r.givenUp := by
  obtain ⟨hst₁, hat₁, hmi₁, hgi₁, hou₁⟩ := Round.drainAll_answers hr node ended
  generalize r.drainAll node ended = r₁ at *
  obtain ⟨hst₂, -, -, hout₂, hgi₂, hmi₂⟩ := Round.missAll_answers hst₁ (hat₁.trans ha) node noted
  generalize r₁.missAll node noted = r₂ at *
  obtain ⟨-, -, hmi₃, hgi₃, hou₃⟩ := Round.drainAll_answers hst₂ node missing
  refine ⟨fun m q => ?_, fun q => ?_, fun q hq hout hend => ?_, ?_⟩
  · rw [hou₃ m q, Round.outstandingFrom_congr hout₂, hou₁ m q, and_assoc, ← not_or, ← and_or_left]
  · rw [hmi₃, hmi₂ q, hmi₁]
  · -- The partition is still awaited when it is noted, so the round is not closed by then.
    have hout₁ : q ∈ r₁.outstandingFrom node := (hou₁ node q).mpr ⟨hout, fun h => hend h.2⟩
    have hopen : r₁.closed = false := hst₁.toSound.isOpen hout₁
    rw [hmi₃, hmi₂ q]
    exact .inr ⟨hopen, hq⟩
  · rw [hgi₃, hgi₂, hgi₁]

namespace Demander

variable {Q : PartitionId → Prop} {job : PageJob}

/-- A calm demander takes a page in at once: it is worked through, and then asked to go on
    unless the round is over. -/
theorem takePage_calm {d : Demander} (hs : d.Steady) (hc : d.Calm Q) {worker : WorkerId}
    {sender : NodeId} {page : Supply} (ha : d.accepted worker sender page = some job)
    (hq : ∀ p es, page.entries.get? p = some es → Q p)
    (hx : ∀ p es, page.entries.get? p = some es → ∀ e ∈ es, e.isExpired d.site.clock = false) :
    ∃ e, Worked job page.entries.toList (d.spawn.1.measure Board.pageReceived) e ∧
      d.takePage worker sender page =
        if ((e.settleMissed job).roundOf job.round).round.isDone then
          (e.settleMissed job).finish d.nextJob (.ok ())
        else
          (e.settleMissed job).park d.nextJob
            (.replying job ((e.settleMissed job).nextRequest job)) := by
  obtain ⟨-, plan, demand, -, -, -, -, hjob⟩ := accepted_round ha
  have hround : job.round = d.current := by rw [hjob]
  have hb : job.round < (d.spawn.1.measure Board.pageReceived).rounds.length := by
    rw [hround]
    exact hs.current
  have hcalm : (d.spawn.1.measure Board.pageReceived).Calm Q := hc.of_store rfl rfl
  obtain ⟨hfin, hworked⟩ := worked_walk hcalm hb (SortedMap.keys_nodup page.entries)
    (fun x hx' => hq x.1 x.2 (SortedMap.get?_eq_some_iff.mpr hx'))
    (fun x hx' => hx x.1 x.2 (SortedMap.get?_eq_some_iff.mpr hx'))
  refine ⟨_, hworked, ?_⟩
  have haccepted : d.spawn.1.accepted worker sender page = some job := ha
  show d.spawn.1.startPage d.nextJob worker sender page = _
  rw [startPage_eq, haccepted]
  show workPage _ d.nextJob job page.entries.toList = _
  rw [workPage_eq]
  generalize walk (d.spawn.1.measure Board.pageReceived) job page.entries.toList = w at hfin
  obtain ⟨e, walked⟩ := w
  subst hfin
  exact endPage_eq e d.nextJob job

/-- The partitions on a page that are not awaited any more once it was worked through: they are
    last on it, or are not filled here. -/
theorem mem_ended {d : Demander} {q : PartitionId} :
    q ∈ (job.page.entries.toList.map Prod.fst).filter (d.ends job) ↔
      ∃ es, job.page.entries.get? q = some es ∧
        (d.owns q job.demand.topology = true → d.site.store.base.state? q = some .moving →
          q ∈ job.page.last) := by
  rw [List.mem_filter, ends, Bool.or_eq_true, Bool.not_eq_true', Bool.eq_false_iff, Ne,
    fills_iff, decide_eq_true_eq]
  constructor
  · rintro ⟨hmem, hq⟩
    obtain ⟨es, hes⟩ := SortedMap.mem_keys_iff_exists.mp (show q ∈ job.page.entries.keys from hmem)
    refine ⟨es, hes, ?_⟩
    intro ho hm
    exact hq.resolve_left fun hn => hn ⟨ho, hm⟩
  · rintro ⟨es, hes, hq⟩
    refine ⟨SortedMap.mem_keys_iff_exists.mpr ⟨es, hes⟩, ?_⟩
    by_cases hf : d.owns q job.demand.topology = true ∧ d.site.store.base.state? q = some .moving
    · exact .inr (hq hf.1 hf.2)
    · exact .inl hf

/-- What a page that was worked through does to store and round, with what its sender does not
    have dealt with. -/
theorem pageTaken {d e : Demander} (hs : d.Steady) (hb : d.Bound job.round)
    (h : Worked job job.page.entries.toList d e) :
    PageTaken (fun p => d.owns p job.demand.topology) job.sender job.page
      d.site.store.base (e.settleMissed job).site.store.base
      (d.roundOf job.round).round ((e.settleMissed job).roundOf job.round).round := by
  have hstore : (e.settleMissed job).site.store = e.site.store := (beside_settleMissed e job).store
  have hwalk := h.round job.round
  rw [if_pos rfl] at hwalk
  have hlen : job.round < e.rounds.length := by
    rw [h.near.rounds]
    exact hb.1
  have hround := round_settleMissed e job hlen job.round
  rw [if_pos rfl, hwalk] at hround
  obtain ⟨hout, hmissed, hnotes, hgiven⟩ := (hs.standing job.round).settled_answers hb.2 job.sender
    ((job.page.entries.toList.map Prod.fst).filter (d.ends job))
    (job.page.missed.toList.filter fun p => e.owns p job.demand.topology) job.page.missed.toList
  have hkeys : ∀ q, q ∉ job.page.entries.toList.map Prod.fst ↔ job.page.entries.get? q = none :=
    fun q => SortedMap.find_eq_none_iff.symm
  have howned : ∀ q, q ∈ job.page.missed.toList.filter (fun p => e.owns p job.demand.topology) ↔
      q ∈ job.page.missed ∧ d.owns q job.demand.topology = true := by
    intro q
    rw [List.mem_filter, h.near.owns]
    rfl
  refine ⟨?_, ?_, ?_, ?_, ?_, ?_, ?_, ?_⟩
  · intro q hq
    rw [hstore, h.others q ((hkeys q).mpr hq)]
  · intro q es hes ho hm
    have hf : d.fills job q = true := (fills_iff d job q).mpr ⟨ho, hm⟩
    rw [hstore, h.state (q, es) (SortedMap.get?_eq_some_iff.mp hes), hf, hm]
    by_cases hlast : q ∈ job.page.last
    · rw [if_pos hlast, if_pos ⟨rfl, hlast⟩]
    · rw [if_neg hlast, if_neg fun h => hlast h.2]
  · intro q es hes ho hm k
    have hf : d.fills job q = true := (fills_iff d job q).mpr ⟨ho, hm⟩
    rw [hstore, h.read (q, es) (SortedMap.get?_eq_some_iff.mp hes) k, hf]
    rfl
  · intro m q
    rw [hround, hout m q, mem_ended, or_comm]
    rfl
  · intro q hq
    rw [hround] at hq
    exact ((hmissed q).mp hq).imp_right fun hq => (howned q).mp hq.2
  · intro q hq
    rw [hround]
    exact (hmissed q).mpr (.inl hq)
  · intro q hq ho hawaited hnone
    rw [hround]
    refine hnotes q ((howned q).mpr ⟨hq, ho⟩) hawaited fun hmem => ?_
    obtain ⟨es, hes, -⟩ := mem_ended.mp hmem
    rw [hes] at hnone
    cases hnone
  · rw [hround, hgiven]

end Demander

-- ============================================================================
-- What is still to come
-- ============================================================================

/-- The stream of a node for the partitions `ps`, supplied from the store `source`, with `left`
    still to come, as the store and the round of the demander show it; `held` is what the
    demander's store held to begin with. -/
structure StreamProgress (owned : PartitionId → Bool) (node : NodeId) (ps : SortedSet PartitionId)
    (source : Store) (held : PartitionId → Bytes → Option (Bytes × Revision))
    (left : SupplyStream) (st : Store) (r : Round RoundWait) : Prop where
  lists : ∀ p es, find p left.pending = some es →
    p ∈ ps ∧ source.state? p = some .owning ∧ es <:+ source.entries p
  lacks : ∀ p, p ∈ left.missed → p ∈ ps ∧ source.state? p ≠ some .owning
  ahead : ∀ p ∈ ps, owned p = true → find p left.pending ≠ none ∨ p ∈ left.missed →
    p ∈ r.outstandingFrom node
  past : ∀ p ∈ ps, find p left.pending = none → p ∉ left.missed → p ∉ r.outstandingFrom node
  state : ∀ p ∈ ps, owned p = true → source.state? p = some .owning →
    st.state? p = some (if (find p left.pending).isSome then .moving else .owning)
  read : ∀ p ∈ ps, owned p = true → source.state? p = some .owning →
    ∃ gone, source.entries p = gone ++ (find p left.pending).getD [] ∧
      ∀ k, st.read p k = Entry.mergeAll k (held p k) gone
  missed : ∀ p ∈ ps, p ∈ r.missed ↔
    owned p = true ∧ source.state? p ≠ some .owning ∧ p ∉ left.missed

namespace StreamProgress

variable {owned : PartitionId → Bool} {node : NodeId} {ps : SortedSet PartitionId} {source : Store}
  {held : PartitionId → Bytes → Option (Bytes × Revision)} {left left' : SupplyStream}
  {st st' : Store} {r r' : Round RoundWait}

/-- A stream that was just opened has everything still to come. -/
theorem opened (s : Supplier) (hout : ∀ p ∈ ps, p ∈ r.outstandingFrom node)
    (hmoving : ∀ p ∈ ps, owned p = true → st.state? p = some .moving)
    (hheld : ∀ p ∈ ps, ∀ k, st.read p k = held p k) (hmissed : r.missed = ∅) :
    StreamProgress owned node ps s.store held (s.openStream ps) st r where
  lists p es hfind := by
    rw [s.find_openStream] at hfind
    by_cases hp : p ∈ ps ∧ s.store.state? p = some .owning
    · rw [if_pos hp, Option.some.injEq] at hfind
      exact ⟨hp.1, hp.2, hfind ▸ List.suffix_refl _⟩
    · rw [if_neg hp] at hfind
      cases hfind
  lacks p hp := (s.mem_missed_openStream ps p).mp hp
  ahead p hp _ _ := hout p hp
  past p hp hfind hm := by
    rw [s.find_openStream] at hfind
    rw [s.mem_missed_openStream] at hm
    by_cases ho : s.store.state? p = some .owning
    · rw [if_pos ⟨hp, ho⟩] at hfind
      cases hfind
    · exact absurd ⟨hp, ho⟩ hm
  state p hp ho hs := by
    have hfind := s.find_openStream ps p
    rw [if_pos ⟨hp, hs⟩] at hfind
    rw [hfind, hmoving p hp ho]
    rfl
  read p hp _ hs := by
    refine ⟨[], ?_, fun k => hheld p hp k⟩
    rw [s.find_openStream, if_pos ⟨hp, hs⟩]
    rfl
  missed p hp := by
    rw [hmissed, s.mem_missed_openStream]
    constructor
    · intro h
      exact absurd h (SortedSet.not_mem_empty p)
    · rintro ⟨-, hs, hm⟩
      exact absurd ⟨hp, hs⟩ hm

/-- What is on a page of a stream belongs to it. -/
theorem mentions (h : StreamProgress owned node ps source held left st r) {worker : WorkerId}
    {page : Supply} (hp : left.Paged left' worker page) {p : PartitionId}
    (hon : page.entries.get? p ≠ none ∨ p ∈ page.missed) : p ∈ ps := by
  rcases hon with hon | hon
  · obtain ⟨taken, ht⟩ := Option.ne_none_iff_exists'.mp hon
    obtain ⟨es, hfind, -⟩ := hp.entries_prefix ht
    exact (h.lists p es hfind).1
  · rw [hp.missed] at hon
    exact (h.lacks p hon).1

/-- Entries on a page of a stream are the supplier's. -/
theorem supplied (h : StreamProgress owned node ps source held left st r) {worker : WorkerId}
    {page : Supply} (hp : left.Paged left' worker page) {p : PartitionId} {es : List Entry}
    (hon : page.entries.get? p = some es) : p ∈ ps ∧ es ⊆ source.entries p := by
  obtain ⟨all, hfind, hfront⟩ := hp.entries_prefix hon
  obtain ⟨hps, -, hsuffix⟩ := h.lists p all hfind
  exact ⟨hps, fun e he => hsuffix.subset (hfront.subset he)⟩

/-- Store and round show the same of a stream if they do so of its partitions. -/
theorem congr (h : StreamProgress owned node ps source held left st r)
    (hget : ∀ p ∈ ps, st'.get? p = st.get? p)
    (hout : ∀ p ∈ ps, p ∈ r'.outstandingFrom node ↔ p ∈ r.outstandingFrom node)
    (hmissed : ∀ p ∈ ps, p ∈ r'.missed ↔ p ∈ r.missed) :
    StreamProgress owned node ps source held left st' r' where
  lists := h.lists
  lacks := h.lacks
  ahead p hp ho hl := (hout p hp).mpr (h.ahead p hp ho hl)
  past p hp hf hm hmem := h.past p hp hf hm ((hout p hp).mp hmem)
  state p hp ho hs := by
    have hst : st'.state? p = st.state? p := congrArg (Option.map Partition.state) (hget p hp)
    rw [hst]
    exact h.state p hp ho hs
  read p hp ho hs := by
    obtain ⟨gone, hgone, hread⟩ := h.read p hp ho hs
    refine ⟨gone, hgone, fun k => ?_⟩
    have hslot : st'.slot? p k = st.slot? p k := by
      rw [Store.slot?, hget p hp]
      rfl
    rw [Store.read_of_slot?_eq hslot]
    exact hread k
  missed p hp := (hmissed p hp).trans (h.missed p hp)

/-- A page that mentions nothing of a stream leaves it where it is. -/
theorem other (h : StreamProgress owned node ps source held left st r) {sender : NodeId}
    {page : Supply} (ht : PageTaken owned sender page st st' r r')
    (hd : ∀ p ∈ ps, page.entries.get? p = none ∧ p ∉ page.missed) :
    StreamProgress owned node ps source held left st' r' := by
  refine h.congr (fun p hp => ht.others p (hd p hp).1) ?_ ?_
  · intro p hp
    rw [ht.outstanding]
    constructor
    · exact And.left
    · intro hmem
      refine ⟨hmem, ?_⟩
      rintro ⟨-, hm | ⟨es, hes, -⟩⟩
      · exact (hd p hp).2 hm
      · rw [(hd p hp).1] at hes
        cases hes
  · intro p hp
    constructor
    · intro hmem
      exact (ht.missed p hmem).resolve_right fun hm => (hd p hp).2 hm.1
    · exact ht.keeps p

section Page

variable {worker : WorkerId} {page : Supply} {p : PartitionId}

/-- What is still to come after a page is still awaited: it was to come before, and is not last
    on the page. -/
theorem page_ahead (h : StreamProgress owned node ps source held left st r)
    (hp : left.Paged left' worker page) (ht : PageTaken owned node page st st' r r')
    (hps : p ∈ ps) (ho : owned p = true) (hl : find p left'.pending ≠ none ∨ p ∈ left'.missed) :
    p ∈ r'.outstandingFrom node := by
  have hfind' : find p left'.pending ≠ none := by
    refine hl.resolve_right fun hm => ?_
    rw [hp.missedLeft] at hm
    exact SortedSet.not_mem_empty p hm
  obtain ⟨rest, hrest⟩ := Option.ne_none_iff_exists'.mp hfind'
  obtain ⟨es, hes, -⟩ := hp.left_suffix hrest
  have hsource := (h.lists p es hes).2.1
  rw [ht.outstanding]
  refine ⟨h.ahead p hps ho (.inl (by rw [hes]; exact nofun)), ?_⟩
  rintro ⟨-, hm | ⟨taken, htaken, hlast⟩⟩
  · rw [hp.missed] at hm
    exact (h.lacks p hm).2 hsource
  · have hmoving : st.state? p = some .moving := by
      rw [h.state p hps ho hsource, hes]
      rfl
    have hend := hlast ho hmoving
    cases hp.sent p es hes with
    | whole _ _ hn => exact hfind' hn
    | part _ _ _ _ hl _ => exact hl hend
    | later _ hl _ => exact hl hend

/-- What is not to come any more after a page is not awaited. -/
theorem page_past (h : StreamProgress owned node ps source held left st r)
    (hp : left.Paged left' worker page) (ht : PageTaken owned node page st st' r r')
    (hps : p ∈ ps) (hn' : find p left'.pending = none) : p ∉ r'.outstandingFrom node := by
  rw [ht.outstanding]
  rintro ⟨hout, hkeep⟩
  cases hfind : find p left.pending with
  | none =>
    by_cases hm : p ∈ left.missed
    · exact hkeep ⟨rfl, .inl (by rw [hp.missed]; exact hm)⟩
    · exact h.past p hps hfind hm hout
  | some es =>
    cases hp.sent p es hfind with
    | whole he hl _ => exact hkeep ⟨rfl, .inr ⟨es, he, fun _ _ => hl⟩⟩
    | part _ _ _ _ _ hn =>
      rw [hn] at hn'
      cases hn'
    | later _ _ hn =>
      rw [hn] at hn'
      cases hn'

/-- A partition is owned after a page exactly if nothing of it is to come any more. -/
theorem page_state (h : StreamProgress owned node ps source held left st r)
    (hp : left.Paged left' worker page) (ht : PageTaken owned node page st st' r r')
    (hps : p ∈ ps) (ho : owned p = true) (hs : source.state? p = some .owning) :
    st'.state? p = some (if (find p left'.pending).isSome then .moving else .owning) := by
  have hbefore := h.state p hps ho hs
  cases hfind : find p left.pending with
  | none =>
    obtain ⟨hnone, -, hleft⟩ := hp.other p hfind
    have hst : st'.state? p = st.state? p :=
      congrArg (Option.map Partition.state) (ht.others p hnone)
    rw [hst, hbefore, hfind, hleft]
  | some es =>
    rw [hfind] at hbefore
    cases hp.sent p es hfind with
    | whole he hl hn => rw [ht.state p es he ho hbefore, if_pos hl, hn]; rfl
    | part taken rest _ he hl hn => rw [ht.state p taken he ho hbefore, if_neg hl, hn]; rfl
    | later he _ hn =>
      have hst : st'.state? p = st.state? p :=
        congrArg (Option.map Partition.state) (ht.others p he)
      rw [hst, hbefore, hn]

/-- A partition holds after a page what has come of it so far. -/
theorem page_read (h : StreamProgress owned node ps source held left st r)
    (hp : left.Paged left' worker page) (ht : PageTaken owned node page st st' r r')
    (hps : p ∈ ps) (ho : owned p = true) (hs : source.state? p = some .owning) :
    ∃ gone, source.entries p = gone ++ (find p left'.pending).getD [] ∧
      ∀ k, st'.read p k = Entry.mergeAll k (held p k) gone := by
  obtain ⟨gone, hgone, hread⟩ := h.read p hps ho hs
  have hbefore := h.state p hps ho hs
  have hsame : page.entries.get? p = none → ∀ k, st'.read p k = st.read p k := by
    intro hnone k
    apply Store.read_of_slot?_eq
    rw [Store.slot?, ht.others p hnone]
    rfl
  have hmerge : ∀ taken, page.entries.get? p = some taken → st.state? p = some .moving →
      ∀ k, st'.read p k = Entry.mergeAll k (held p k) (gone ++ taken) := by
    intro taken htaken hmoving k
    rw [ht.read p taken htaken ho hmoving k, hread k, Entry.mergeAll, Entry.mergeAll,
      ← List.foldl_append]
    rfl
  cases hfind : find p left.pending with
  | none =>
    obtain ⟨hnone, -, hleft⟩ := hp.other p hfind
    rw [hfind] at hgone
    refine ⟨gone, by rw [hleft]; exact hgone, fun k => ?_⟩
    rw [hsame hnone k, hread k]
  | some es =>
    rw [hfind] at hbefore hgone
    cases hp.sent p es hfind with
    | whole he _ hn =>
      refine ⟨gone ++ es, ?_, hmerge es he hbefore⟩
      rw [hn, hgone, Option.getD_some, Option.getD_none, List.append_nil]
    | part taken rest hes he _ hn =>
      refine ⟨gone ++ taken, ?_, hmerge taken he hbefore⟩
      rw [hn, hgone, Option.getD_some, Option.getD_some, hes, List.append_assoc]
    | later he _ hn =>
      refine ⟨gone, by rw [hn]; exact hgone, fun k => ?_⟩
      rw [hsame he k, hread k]

/-- What the supplier does not have is noted with the first page. -/
theorem page_missed (h : StreamProgress owned node ps source held left st r)
    (hp : left.Paged left' worker page) (ht : PageTaken owned node page st st' r r')
    (hps : p ∈ ps) :
    p ∈ r'.missed ↔ owned p = true ∧ source.state? p ≠ some .owning ∧ p ∉ left'.missed := by
  rw [hp.missedLeft]
  have hold := h.missed p hps
  constructor
  · intro hm
    rcases ht.missed p hm with hm | ⟨hm, ho⟩
    · obtain ⟨ho, hs, -⟩ := hold.mp hm
      exact ⟨ho, hs, SortedSet.not_mem_empty p⟩
    · rw [hp.missed] at hm
      exact ⟨ho, (h.lacks p hm).2, SortedSet.not_mem_empty p⟩
  · rintro ⟨ho, hs, -⟩
    by_cases hm : p ∈ left.missed
    · have hfind : find p left.pending = none := by
        cases hfind : find p left.pending with
        | none => rfl
        | some es => exact absurd (h.lists p es hfind).2.1 hs
      apply ht.notes p
      · rw [hp.missed]
        exact hm
      · exact ho
      · exact h.ahead p hps ho (.inr hm)
      · exact (hp.other p hfind).1
    · exact ht.keeps p (hold.mpr ⟨ho, hs, hm⟩)

end Page

/-- A page moves its own stream on. -/
theorem page (h : StreamProgress owned node ps source held left st r) {worker : WorkerId}
    {page : Supply} (hp : left.Paged left' worker page) (ht : PageTaken owned node page st st' r r') :
    StreamProgress owned node ps source held left' st' r' where
  lists p rest hfind := by
    obtain ⟨es, hes, hsuffix⟩ := hp.left_suffix hfind
    obtain ⟨hps, hsource, hentries⟩ := h.lists p es hes
    exact ⟨hps, hsource, hsuffix.trans hentries⟩
  lacks p hm := by
    rw [hp.missedLeft] at hm
    exact absurd hm (SortedSet.not_mem_empty p)
  ahead _ hps ho hl := h.page_ahead hp ht hps ho hl
  past _ hps hn _ := h.page_past hp ht hps hn
  state _ hps ho hs := h.page_state hp ht hps ho hs
  read _ hps ho hs := h.page_read hp ht hps ho hs
  missed _ hps := h.page_missed hp ht hps

/-- Where nothing is awaited any more, nothing that belongs here is still to come. -/
theorem exhausted (h : StreamProgress owned node ps source held left st r)
    (hout : ∀ p, p ∉ r.outstandingFrom node) : StreamProgress owned node ps source held {} st r := by
  have hnone : ∀ p ∈ ps, owned p = true → find p left.pending = none ∧ p ∉ left.missed := by
    intro p hp ho
    constructor
    · cases hfind : find p left.pending with
      | none => rfl
      | some es => exact absurd (h.ahead p hp ho (.inl (by rw [hfind]; exact nofun))) (hout p)
    · intro hm
      exact hout p (h.ahead p hp ho (.inr hm))
  refine ⟨nofun, ?_, ?_, fun p _ _ _ => hout p, ?_, ?_, ?_⟩
  · intro p hm
    exact absurd hm (SortedSet.not_mem_empty p)
  · intro p _ _ hl
    exact absurd (hl.resolve_left fun hn => hn rfl) (SortedSet.not_mem_empty p)
  · intro p hp ho hs
    rw [h.state p hp ho hs, (hnone p hp ho).1]
    rfl
  · intro p hp ho hs
    obtain ⟨gone, hgone, hread⟩ := h.read p hp ho hs
    rw [(hnone p hp ho).1] at hgone
    exact ⟨gone, hgone, hread⟩
  · intro p hp
    rw [h.missed p hp]
    constructor
    · rintro ⟨ho, hs, -⟩
      exact ⟨ho, hs, SortedSet.not_mem_empty p⟩
    · rintro ⟨ho, hs, -⟩
      exact ⟨ho, hs, (hnone p hp ho).2⟩

end StreamProgress
end Rebalance
