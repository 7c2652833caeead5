/-
  Rebalance.Proofs.Paging

  What a page carries. Every partition of a stream is sent whole, sent in part
  or left for later, and only a partition that is sent whole ends with the
  page: nothing is lost between a page and the stream it leaves behind.
-/
import Rebalance.Supplier
import Rebalance.Proofs.Wire

namespace Rebalance

open SortedMap (find)

-- ============================================================================
-- Building a page
-- ============================================================================

namespace Supply

variable (s : Supply) (p q : PartitionId) (es : List Entry)

theorem get?_addEntries :
    (s.addEntries p es).entries.get? q =
      if q = p then some ((s.entries.get? p).getD [] ++ es) else s.entries.get? q :=
  SortedMap.get?_alter

theorem get?_markLast :
    (s.markLast p).entries.get? q =
      if q = p then some ((s.entries.get? p).getD []) else s.entries.get? q := by
  have h := get?_addEntries s p q []
  rwa [List.append_nil] at h

theorem mem_markLast : q ∈ (s.markLast p).last ↔ q = p ∨ q ∈ s.last := SortedSet.mem_insert

end Supply

-- ============================================================================
-- Filling a page
-- ============================================================================

namespace SupplyStream

/-- What becomes of the entries `es` of a partition when a page is filled and `left` is left:
    they are all on the page, which is the last one of the partition, or some are, or none. -/
inductive Sent (p : PartitionId) (es : List Entry) (page : Supply)
    (left : List (PartitionId × List Entry)) : Prop where
  | whole (h : page.entries.get? p = some es) (hl : p ∈ page.last) (hn : find p left = none)
  | part (taken rest : List Entry) (he : es = taken ++ rest)
      (h : page.entries.get? p = some taken) (hl : p ∉ page.last) (hn : find p left = some rest)
  | later (h : page.entries.get? p = none) (hl : p ∉ page.last) (hn : find p left = some es)

theorem cut_append (limit : Nat) (f : Fill) (es : List Entry) :
    (cut limit f es).1 ++ (cut limit f es).2.1 = es := by
  induction es generalizing f with
  | nil => rfl
  | cons e rest ih =>
    rw [cut]
    split
    · rfl
    · exact congrArg (e :: ·) (ih _)

theorem fill_cons (limit : Nat) (f : Fill) (page : Supply) (p : PartitionId) (es : List Entry)
    (rest : List (PartitionId × List Entry)) :
    fill limit f page ((p, es) :: rest) =
      if (cut limit f es).2.1.isEmpty then
        if (cut limit f es).2.2.isFull limit then
          ((page.addEntries p (cut limit f es).1).markLast p, rest)
        else
          fill limit (cut limit f es).2.2 ((page.addEntries p (cut limit f es).1).markLast p) rest
      else (page.addEntries p (cut limit f es).1, (p, (cut limit f es).2.1) :: rest) := rfl

/-- A page as far as it is filled from the pending partitions: the other partitions on it stay as
    they are, and what is left comes from the end of the pending ones. -/
structure Filled (page : Supply) (pending : List (PartitionId × List Entry)) (page' : Supply)
    (left : List (PartitionId × List Entry)) : Prop where
  worker : page'.worker = page.worker
  missed : page'.missed = page.missed
  classFault : page'.classFault = page.classFault
  keys : left.map Prod.fst <:+ pending.map Prod.fst
  entries : ∀ p, p ∉ pending.map Prod.fst → page'.entries.get? p = page.entries.get? p
  last : ∀ p, p ∉ pending.map Prod.fst → (p ∈ page'.last ↔ p ∈ page.last)
  sent : ∀ p es, find p pending = some es → page.entries.get? p = none → p ∉ page.last →
    Sent p es page' left

theorem find_cons_ne {p q : PartitionId} {es : List Entry} {l : List (PartitionId × List Entry)}
    (h : p ≠ q) : find p ((q, es) :: l) = find p l := by
  rw [find, if_neg (Ne.symm h)]

/-- A partition that is exhausted is added to the page and ends with it. -/
theorem filled_whole {page page' : Supply} {q : PartitionId} {es : List Entry}
    {rest left : List (PartitionId × List Entry)} (hq : q ∉ rest.map Prod.fst)
    (h : Filled ((page.addEntries q es).markLast q) rest page' left) :
    Filled page ((q, es) :: rest) page' left := by
  have hother : ∀ p, p ≠ q →
      ((page.addEntries q es).markLast q).entries.get? p = page.entries.get? p := by
    intro p hp
    rw [Supply.get?_markLast, if_neg hp, Supply.get?_addEntries, if_neg hp]
  have hlast : ∀ p, p ≠ q →
      (p ∈ ((page.addEntries q es).markLast q).last ↔ p ∈ page.last) := by
    intro p hp
    rw [Supply.mem_markLast]
    exact or_iff_right hp
  refine ⟨h.worker, h.missed, h.classFault, h.keys.trans (List.suffix_cons _ _), ?_, ?_, ?_⟩
  · intro p hp
    rw [List.map_cons, List.mem_cons, not_or] at hp
    rw [h.entries p hp.2, hother p hp.1]
  · intro p hp
    rw [List.map_cons, List.mem_cons, not_or] at hp
    rw [h.last p hp.2, hlast p hp.1]
  · intro p es' hfind hfresh hnew
    by_cases hp : p = q
    · subst hp
      rw [find, if_pos rfl, Option.some.injEq] at hfind
      subst hfind
      have hon : page'.entries.get? p = some es := by
        rw [h.entries p hq, Supply.get?_markLast, if_pos rfl, Supply.get?_addEntries, if_pos rfl,
          hfresh]
        rfl
      have hend : p ∈ page'.last := (h.last p hq).mpr ((Supply.mem_markLast _ p p).mpr (.inl rfl))
      have hgone : find p left = none :=
        SortedMap.find_eq_none_iff.mpr fun hmem => hq (h.keys.subset hmem)
      exact .whole hon hend hgone
    · rw [find_cons_ne hp] at hfind
      apply h.sent p es' hfind
      · rw [hother p hp, hfresh]
      · rw [hlast p hp]
        exact hnew

theorem filled_fill (limit : Nat) (f : Fill) (page : Supply)
    {pending : List (PartitionId × List Entry)} (hn : (pending.map Prod.fst).Nodup) :
    Filled page pending (fill limit f page pending).1 (fill limit f page pending).2 := by
  induction pending generalizing f page with
  | nil =>
    refine ⟨rfl, rfl, rfl, List.suffix_refl _, fun _ _ => rfl, fun _ _ => Iff.rfl, ?_⟩
    intro p es hfind
    cases hfind
  | cons x rest ih =>
    obtain ⟨q, es⟩ := x
    rw [List.map_cons, List.nodup_cons] at hn
    have happend : (cut limit f es).1 ++ (cut limit f es).2.1 = es := cut_append limit f es
    rw [fill_cons]
    by_cases hall : (cut limit f es).2.1.isEmpty = true
    · -- Nothing is left of the partition, whether or not the page goes on behind it.
      have hes : (cut limit f es).1 = es := by
        rw [List.isEmpty_iff.mp hall, List.append_nil] at happend
        exact happend
      rw [if_pos hall, hes]
      apply filled_whole hn.1
      by_cases hfull : (cut limit f es).2.2.isFull limit = true
      · rw [if_pos hfull]
        refine ⟨rfl, rfl, rfl, List.suffix_refl _, fun _ _ => rfl, fun _ _ => Iff.rfl, ?_⟩
        intro p es' hfind hfresh hnew
        exact .later hfresh hnew hfind
      · rw [if_neg hfull]
        exact ih _ _ hn.2
    · rw [if_neg hall]
      refine ⟨rfl, rfl, rfl, List.suffix_refl _, ?_, fun _ _ => Iff.rfl, ?_⟩
      · intro p hp
        rw [List.map_cons, List.mem_cons, not_or] at hp
        rw [Supply.get?_addEntries, if_neg hp.1]
      · intro p es' hfind hfresh hnew
        by_cases hp : p = q
        · subst hp
          rw [find, if_pos rfl, Option.some.injEq] at hfind
          subst hfind
          refine .part (cut limit f es).1 (cut limit f es).2.1 happend.symm ?_ hnew ?_
          · rw [Supply.get?_addEntries, if_pos rfl, hfresh]
            rfl
          · rw [find, if_pos rfl]
        · rw [find_cons_ne hp] at hfind
          refine .later ?_ hnew ?_
          · rw [Supply.get?_addEntries, if_neg hp, hfresh]
          · rw [find_cons_ne hp, hfind]

-- ============================================================================
-- Streams
-- ============================================================================

/-- A stream lists every partition once, with entries that can be written. -/
structure Sound (s : SupplyStream) : Prop where
  keys : (s.pending.map Prod.fst).Nodup
  fits : ∀ p es, find p s.pending = some es → es.length < UInt64.size ∧ ∀ e ∈ es, e.Fits

/-- A page taken off the stream `s`, which leaves `s'`. -/
structure Paged (s s' : SupplyStream) (worker : WorkerId) (page : Supply) : Prop where
  worker : page.worker = worker
  classFault : page.classFault = none
  missed : page.missed = s.missed
  missedLeft : s'.missed = ∅
  other : ∀ p, find p s.pending = none →
    page.entries.get? p = none ∧ p ∉ page.last ∧ find p s'.pending = none
  sent : ∀ p es, find p s.pending = some es → Sent p es page s'.pending

variable {s s' : SupplyStream} {worker : WorkerId} {page : Supply}

/-- What a page carries of a partition comes from the front of what was pending. -/
theorem Paged.entries_prefix (h : Paged s s' worker page) {p : PartitionId} {taken : List Entry}
    (ht : page.entries.get? p = some taken) :
    ∃ es, find p s.pending = some es ∧ taken <+: es := by
  cases hfind : find p s.pending with
  | none =>
    rw [(h.other p hfind).1] at ht
    cases ht
  | some es =>
    refine ⟨es, rfl, ?_⟩
    cases h.sent p es hfind with
    | whole he _ _ =>
      rw [he, Option.some.injEq] at ht
      exact ht ▸ List.prefix_refl es
    | part taken' rest hes he _ _ =>
      rw [he, Option.some.injEq] at ht
      exact ⟨rest, by rw [hes, ht]⟩
    | later he _ _ =>
      rw [he] at ht
      cases ht

/-- What is left of a partition comes from the end of what was pending. -/
theorem Paged.left_suffix (h : Paged s s' worker page) {p : PartitionId} {rest : List Entry}
    (hr : find p s'.pending = some rest) : ∃ es, find p s.pending = some es ∧ rest <:+ es := by
  cases hfind : find p s.pending with
  | none =>
    rw [(h.other p hfind).2.2] at hr
    cases hr
  | some es =>
    refine ⟨es, rfl, ?_⟩
    cases h.sent p es hfind with
    | whole _ _ hn =>
      rw [hn] at hr
      cases hr
    | part taken rest' hes _ _ hn =>
      rw [hn, Option.some.injEq] at hr
      exact ⟨taken, by rw [hes, hr]⟩
    | later _ _ hn =>
      rw [hn, Option.some.injEq] at hr
      exact hr ▸ List.suffix_refl es

/-- What ends with a page is on it. -/
theorem Paged.mentions (h : Paged s s' worker page) :
    ∀ p ∈ page.last, (page.entries.get? p).isSome = true := by
  intro p hmem
  cases hfind : find p s.pending with
  | none => exact absurd hmem (h.other p hfind).2.1
  | some es =>
    cases h.sent p es hfind with
    | whole he _ _ => exact Option.isSome_of_eq_some he
    | part _ _ _ _ hl _ => exact absurd hmem hl
    | later _ hl _ => exact absurd hmem hl

/-- A page of a stream whose entries can be written can be written itself. -/
theorem Paged.fits (h : Paged s s' worker page) (hs : s.Sound) : page.Fits := by
  intro x hx
  obtain ⟨p, taken⟩ := x
  obtain ⟨es, hfind, hpre⟩ := h.entries_prefix (SortedMap.get?_eq_some_iff.mpr hx)
  obtain ⟨hlen, hfits⟩ := hs.fits p es hfind
  exact ⟨Nat.lt_of_le_of_lt hpre.length_le hlen, fun e he => hfits e (hpre.subset he)⟩

/-- The partitions left are of those that were pending. -/
theorem keys_nextPage (hs : (s.pending.map Prod.fst).Nodup) (worker : WorkerId)
    (pageSize limit : Nat) :
    ((s.nextPage worker pageSize limit).1.pending.map Prod.fst) <:+ s.pending.map Prod.fst :=
  (filled_fill limit ⟨max pageSize 1, 0⟩ { Supply.empty worker with missed := s.missed } hs).keys

theorem paged_of_nodup (hs : (s.pending.map Prod.fst).Nodup) (worker : WorkerId)
    (pageSize limit : Nat) :
    Paged s (s.nextPage worker pageSize limit).1 worker (s.nextPage worker pageSize limit).2 := by
  have hfilled := filled_fill limit ⟨max pageSize 1, 0⟩
    { Supply.empty worker with missed := s.missed } hs
  refine ⟨hfilled.worker, hfilled.classFault, hfilled.missed, rfl, ?_, ?_⟩
  · intro p hp
    have hout : p ∉ s.pending.map Prod.fst := SortedMap.find_eq_none_iff.mp hp
    refine ⟨hfilled.entries p hout, ?_, ?_⟩
    · rw [nextPage, hfilled.last p hout]
      exact SortedSet.not_mem_empty p
    · exact SortedMap.find_eq_none_iff.mpr fun hmem => hout (hfilled.keys.subset hmem)
  · intro p es hfind
    exact hfilled.sent p es hfind rfl (SortedSet.not_mem_empty p)

theorem paged_nextPage (s : SupplyStream) (hs : s.Sound) (worker : WorkerId)
    (pageSize limit : Nat) :
    Paged s (s.nextPage worker pageSize limit).1 worker (s.nextPage worker pageSize limit).2 ∧
      (s.nextPage worker pageSize limit).1.Sound := by
  have hpaged := paged_of_nodup hs.keys worker pageSize limit
  refine ⟨hpaged, (keys_nextPage hs.keys worker pageSize limit).sublist.nodup hs.keys, ?_⟩
  intro p rest hrest
  obtain ⟨es, hfind, hsuf⟩ := hpaged.left_suffix hrest
  obtain ⟨hlen, hfits⟩ := hs.fits p es hfind
  exact ⟨Nat.lt_of_le_of_lt hsuf.length_le hlen, fun e he => hfits e (hsuf.subset he)⟩

/-- A stream with nothing left is the empty one. -/
theorem eq_empty_of_isFinished (h : s.isFinished = true) : s = {} := by
  rw [isFinished, Bool.and_eq_true] at h
  have hpending : s.pending = [] := List.isEmpty_iff.mp h.1
  have hmissed : s.missed = ∅ := SortedSet.isEmpty_iff.mp h.2
  cases s
  rw [mk.injEq]
  exact ⟨hpending, hmissed⟩

end SupplyStream

-- ============================================================================
-- Answering
-- ============================================================================

namespace Supplier

variable (s : Supplier)

/-- The partitions of a store whose entries can be written. -/
def Writable (st : Store) (p : PartitionId) : Prop :=
  (st.entries p).length < UInt64.size ∧ ∀ e ∈ st.entries p, e.Fits

theorem find_pairs {l : List PartitionId} (f : PartitionId → List Entry) (p : PartitionId) :
    find p (l.map fun q => (q, f q)) = if p ∈ l then some (f p) else none := by
  induction l with
  | nil => rfl
  | cons q l ih =>
    rw [List.map_cons, find, ih]
    by_cases hq : q = p
    · rw [if_pos hq, if_pos (List.mem_cons.mpr (.inl hq.symm)), hq]
    · rw [if_neg hq]
      simp only [List.mem_cons, Ne.symm hq, false_or]

theorem find_openStream (ps : SortedSet PartitionId) (p : PartitionId) :
    find p (s.openStream ps).pending =
      if p ∈ ps ∧ s.store.state? p = some .owning then some (s.store.entries p) else none := by
  rw [openStream, find_pairs]
  simp only [List.mem_filter, beq_iff_eq, SortedSet.mem_def]

theorem mem_missed_openStream (ps : SortedSet PartitionId) (p : PartitionId) :
    p ∈ (s.openStream ps).missed ↔ p ∈ ps ∧ s.store.state? p ≠ some .owning := by
  simp only [openStream, SortedSet.mem_filter, bne_iff_ne]

/-- A stream lists the owned partitions of a demand, in order. -/
theorem keys_openStream (ps : SortedSet PartitionId) :
    (s.openStream ps).pending.map Prod.fst =
      ps.toList.filter fun p => s.store.state? p == some .owning := by
  simp [openStream, List.map_map, Function.comp_def]

theorem ascending_openStream (ps : SortedSet PartitionId) :
    ((s.openStream ps).pending.map Prod.fst).Pairwise fun a b => Key.below a b = true := by
  rw [keys_openStream]
  exact ps.ordered.filter _

theorem sound_openStream {ps : SortedSet PartitionId}
    (h : ∀ p ∈ ps, s.store.state? p = some .owning → Writable s.store p) :
    (s.openStream ps).Sound where
  keys := (s.ascending_openStream ps).imp fun hab => Key.ne_of_below hab
  fits p es hfind := by
    rw [find_openStream] at hfind
    by_cases hp : p ∈ ps ∧ s.store.state? p = some .owning
    · rw [if_pos hp, Option.some.injEq] at hfind
      subst hfind
      exact h p hp.1 hp.2
    · rw [if_neg hp] at hfind
      cases hfind

/-- How many bytes a demand allows on a page. -/
def limitOf (d : Demand) : Nat := if d.batchSize = 0 then UInt64.size - 1 else d.batchSize.toNat

/-- The stream from which a demand of a node is answered. -/
def streamFor (sender : NodeId) (worker : WorkerId) (d : Demand) : Option SupplyStream :=
  if d.isContinuation then s.streams.get? (sender, worker) else some (s.openStream d.partitions)

/-- The supplier after a page was taken off a stream. -/
def afterPage (sender : NodeId) (worker : WorkerId) (left : SupplyStream) : Supplier :=
  { s with
    streams :=
      if left.isFinished then s.streams.erase (sender, worker)
      else s.streams.insert (sender, worker) left
    pagesSent := s.pagesSent + 1 }

theorem page_eq (hc : s.classFault = none) (sender : NodeId) (worker : WorkerId) (d : Demand) :
    s.page sender worker d =
      match s.streamFor sender worker d with
      | none => (s, none)
      | some stream =>
        ({ s with
            streams :=
              if (stream.nextPage worker s.pageSize (limitOf d)).1.isFinished then
                s.streams.erase (sender, worker)
              else
                s.streams.insert (sender, worker)
                  (stream.nextPage worker s.pageSize (limitOf d)).1 },
          some (stream.nextPage worker s.pageSize (limitOf d)).2) := by
  unfold page
  split
  · next h =>
    rw [hc] at h
    cases h
  · rfl

/-- A supplier without faults answers from the stream, if there is one. -/
theorem answer_eq (hc : s.classFault = none) (hl : s.leaveOnPage = none) (sender : NodeId)
    {d : Demand} {topic : Topic} (ht : d.reply = some topic) :
    s.answer sender d =
      match s.streamFor sender topic.worker d with
      | none => (s, none)
      | some stream =>
        (s.afterPage sender topic.worker
            (stream.nextPage topic.worker s.pageSize (limitOf d)).1,
          some {
            topic
            page := (stream.nextPage topic.worker s.pageSize (limitOf d)).2
            timeout := d.timeout
            leaves := false }) := by
  simp only [answer, ht, page_eq s hc]
  cases s.streamFor sender topic.worker d with
  | none => rfl
  | some stream =>
    show (s.afterPage sender topic.worker _, some (Answer.mk topic _ d.timeout
      (s.leaveOnPage == some (s.pagesSent + 1)))) = _
    rw [hl]
    rfl

/-- What is left of a stream can be looked up after a page, and is the empty stream if nothing
    is. -/
theorem streams_afterPage (sender : NodeId) (worker : WorkerId) (left : SupplyStream)
    (key : NodeId × WorkerId) :
    ((s.afterPage sender worker left).streams.get? key).getD {} =
      if key = (sender, worker) then left else (s.streams.get? key).getD {} := by
  rw [afterPage]
  by_cases hf : left.isFinished = true
  · simp only [hf, if_true, SortedMap.get?_erase]
    by_cases hk : key = (sender, worker)
    · rw [if_pos hk, if_pos hk, SupplyStream.eq_empty_of_isFinished hf]
      rfl
    · rw [if_neg hk, if_neg hk]
  · simp only [hf, Bool.false_eq_true, if_false, SortedMap.get?_insert]
    by_cases hk : key = (sender, worker)
    · rw [if_pos hk, if_pos hk]
      rfl
    · rw [if_neg hk, if_neg hk]

end Supplier
end Rebalance
