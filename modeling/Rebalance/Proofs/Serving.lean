/-
  Rebalance.Proofs.Serving

  A stream served page by page.  `Spends` is what filling one page comes to:
  it stays within the budget and, but for its final entry, below the byte
  limit, and every page gets on with what is pending.  What becomes of one
  partition on a page (`Sent`) adds up along any number of requests, whose page
  sizes and limits may differ (`SupplyStream.serve`), and so does what holds of
  each page by itself (`forall_serve`).  A supplier that is sent a demand and
  then asked for the next page, again and again, serves one stream
  (`Supplier.serve_demand`).
-/
import Mathlib.Algebra.GroupWithZero.Nat
import Rebalance.Proofs.Paging

namespace Rebalance

open SortedMap (find)

-- ============================================================================
-- Entries of a page
-- ============================================================================

/-- The bytes of key and value that an entry takes. -/
def Entry.size (e : Entry) : Nat := e.key.length + e.value.length

namespace Supply

variable (s : Supply) (p : PartitionId) (es : List Entry)

/-- The entries that a page carries, in the order in which they were added. -/
def carried (s : Supply) : List Entry := s.entries.toList.flatMap Prod.snd

/-- The entries that a page carries for a partition. -/
def entriesOf (s : Supply) (p : PartitionId) : List Entry := (s.entries.get? p).getD []

/-- A partition above all those on the page is added behind them. -/
theorem toList_addEntries (h : ∀ q ∈ s.entries.toList.map Prod.fst, Key.below q p = true) :
    (s.addEntries p es).entries.toList = s.entries.toList ++ [(p, es)] := by
  have hnone : s.entries.get? p = none :=
    SortedMap.find_eq_none_iff.mpr fun hmem => Key.ne_of_below (h p hmem) rfl
  have hplace : (s.addEntries p es).entries.toList =
      SortedMap.place p ((s.entries.get? p).getD [] ++ es) s.entries.toList := rfl
  rw [hplace, SortedMap.place_of_above h, hnone]
  rfl

/-- To end with the page changes nothing about its entries. -/
theorem entries_markLast_addEntries :
    ((s.addEntries p es).markLast p).entries = (s.addEntries p es).entries := by
  apply SortedMap.ext
  intro q
  rw [get?_markLast]
  by_cases hq : q = p
  · rw [if_pos hq, hq, get?_addEntries, if_pos rfl]
    rfl
  · rw [if_neg hq]

theorem entryCount_eq (s : Supply) : s.entryCount = s.carried.length := by
  rw [entryCount, carried, SortedMap.values, List.flatMap_def]

/-- The bounds of a page: it has at most `size` entries, or one, and without its final entry
    fewer than `limit` bytes. -/
structure Within (s : Supply) (size limit : Nat) : Prop where
  entries : s.entryCount ≤ max size 1
  bytes : (s.carried.dropLast.map Entry.size).sum < limit

end Supply

namespace SupplyStream

-- ============================================================================
-- One page
-- ============================================================================

/-- What there is to be done about pending partitions: their entries, and each of them. -/
def load (pending : List (PartitionId × List Entry)) : Nat :=
  (pending.map fun e => e.2.length + 1).sum

/-- The entries taken off a partition, and what is used of the page by them. -/
structure CutOff (limit : Nat) (f : Fill) (es taken left : List Entry) (f' : Fill) : Prop where
  whole : taken ++ left = es
  budget : f'.budget + taken.length = f.budget
  bytes : f'.bytes = f.bytes + (taken.map Entry.size).sum
  below : f.bytes + (taken.dropLast.map Entry.size).sum < limit
  some : es ≠ [] → taken ≠ []

theorem cut_of_full {limit : Nat} {f : Fill} (hf : f.isFull limit = true) (es : List Entry) :
    cut limit f es = ([], es, f) := by
  cases es with
  | nil => rfl
  | cons e rest => rw [cut, if_pos hf]

theorem Fill.not_isFull {limit : Nat} {f : Fill} (hf : f.isFull limit = false) :
    0 < f.budget ∧ f.bytes < limit := by
  simp only [isFull, Bool.or_eq_false_iff, beq_eq_false_iff_ne, decide_eq_false_iff_not] at hf
  omega

/-- Cutting stops once the page is full, so only the final entry may go beyond the limit. -/
theorem cut_cutOff {limit : Nat} {f : Fill} (hf : f.isFull limit = false) (es : List Entry) :
    CutOff limit f es (cut limit f es).1 (cut limit f es).2.1 (cut limit f es).2.2 := by
  induction es generalizing f with
  | nil =>
    have hroom := Fill.not_isFull hf
    exact ⟨rfl, rfl, rfl, hroom.2, fun h => absurd rfl h⟩
  | cons e rest ih =>
    have hroom := Fill.not_isFull hf
    rw [cut, if_neg (by simp [hf])]
    by_cases hfull :
        Fill.isFull ⟨f.budget - 1, f.bytes + e.key.length + e.value.length⟩ limit = true
    · rw [cut_of_full hfull]
      refine ⟨rfl, ?_, ?_, hroom.2, fun _ => List.cons_ne_nil e []⟩
      · change f.budget - 1 + 1 = f.budget
        omega
      · change f.bytes + e.key.length + e.value.length = f.bytes + (e.size + 0)
        rw [Entry.size]
        omega
    · have hrest := ih (Bool.eq_false_iff.mpr hfull)
      generalize cut limit ⟨f.budget - 1, f.bytes + e.key.length + e.value.length⟩ rest = c at hrest
      obtain ⟨taken, left, f'⟩ := c
      obtain ⟨hwhole, hbudget, hbytes, hbelow, -⟩ := hrest
      dsimp only at hbudget hbytes hbelow
      refine ⟨congrArg (e :: ·) hwhole, ?_, ?_, ?_, fun _ => List.cons_ne_nil e taken⟩
      · change f'.budget + (taken.length + 1) = f.budget
        omega
      · rw [hbytes, List.map_cons, List.sum_cons, Entry.size]
        omega
      · cases taken with
        | nil => exact hroom.2
        | cons x xs =>
          change f.bytes + (e.size + ((x :: xs).dropLast.map Entry.size).sum) < limit
          rw [Entry.size]
          omega

/-- What filling a page from pending partitions comes to: the entries it was sent, what is left,
    and the bounds that hold of them. -/
structure Spends (limit : Nat) (f : Fill) (pending sent left : List (PartitionId × List Entry)) :
    Prop where
  budget : (sent.flatMap Prod.snd).length ≤ f.budget
  below : f.bytes + ((sent.flatMap Prod.snd).dropLast.map Entry.size).sum < limit
  fewer : load left + min 1 pending.length ≤ load pending

/-- A partition that is exhausted, and what the page takes behind it. -/
theorem Spends.cons {limit : Nat} {f f' : Fill} {p : PartitionId} {es : List Entry}
    {rest sent left : List (PartitionId × List Entry)} (hc : CutOff limit f es es [] f')
    (h : Spends limit f' rest sent left) :
    Spends limit f ((p, es) :: rest) ((p, es) :: sent) left where
  budget := by
    have hb := h.budget
    have hs := hc.budget
    rw [List.flatMap_cons, List.length_append]
    change es.length + _ ≤ f.budget
    omega
  below := by
    have hb := h.below
    rw [hc.bytes] at hb
    rw [List.flatMap_cons]
    by_cases hnil : sent.flatMap Prod.snd = []
    · rw [hnil, List.append_nil]
      exact hc.below
    · rw [List.dropLast_append_of_ne_nil hnil, List.map_append, List.sum_append_nat]
      change f.bytes + ((es.map Entry.size).sum + _) < limit
      omega
  fewer := by
    have hf := h.fewer
    simp only [load, List.map_cons, List.sum_cons, List.length_cons] at hf ⊢
    omega

/-- A partition that fills the page to the end. -/
theorem CutOff.spends_whole {limit : Nat} {f f' : Fill} {p : PartitionId} {es : List Entry}
    (hc : CutOff limit f es es [] f') (rest : List (PartitionId × List Entry)) :
    Spends limit f ((p, es) :: rest) [(p, es)] rest where
  budget := by
    have hb : f'.budget + es.length = f.budget := hc.budget
    simp only [List.flatMap_cons, List.flatMap_nil, List.append_nil]
    omega
  below := by simpa using hc.below
  fewer := by
    simp only [load, List.map_cons, List.sum_cons, List.length_cons]
    omega

/-- A partition of which the page takes a part. -/
theorem CutOff.spends_part {limit : Nat} {f f' : Fill} {p : PartitionId}
    {es taken remaining : List Entry} (hc : CutOff limit f es taken remaining f')
    (hne : remaining ≠ []) (rest : List (PartitionId × List Entry)) :
    Spends limit f ((p, es) :: rest) [(p, taken)] ((p, remaining) :: rest) where
  budget := by
    have hb : f'.budget + taken.length = f.budget := hc.budget
    simp only [List.flatMap_cons, List.flatMap_nil, List.append_nil]
    omega
  below := by simpa using hc.below
  fewer := by
    have hsome : taken ≠ [] := hc.some fun h => by
      have hwhole := hc.whole
      rw [h, List.append_eq_nil_iff] at hwhole
      exact hne hwhole.2
    have hlen : taken.length + remaining.length = es.length := by
      rw [← List.length_append, hc.whole]
    have hpos := List.length_pos_iff.mpr hsome
    simp only [load, List.map_cons, List.sum_cons, List.length_cons]
    omega

/-- A page that is not full is filled within its bounds, in the order of the partitions. -/
theorem fill_spends {limit : Nat} {f : Fill} (page : Supply)
    {pending : List (PartitionId × List Entry)}
    (ho : ((page.entries.toList ++ pending).map Prod.fst).Pairwise fun a b => Key.below a b = true)
    (hf : f.isFull limit = false) :
    ∃ sent, (fill limit f page pending).1.entries.toList = page.entries.toList ++ sent ∧
      Spends limit f pending sent (fill limit f page pending).2 := by
  induction pending generalizing f page with
  | nil =>
    have hroom := Fill.not_isFull hf
    exact ⟨[], (List.append_nil _).symm, Nat.zero_le _, hroom.2, Nat.le_refl 0⟩
  | cons x rest ih =>
    obtain ⟨p, es⟩ := x
    have hcut := cut_cutOff hf es
    have habove : ∀ q ∈ page.entries.toList.map Prod.fst, Key.below q p = true := by
      intro q hq
      rw [List.map_append, List.pairwise_append] at ho
      exact ho.2.2 q hq p List.mem_cons_self
    rw [fill_cons]
    generalize cut limit f es = c at hcut
    obtain ⟨taken, remaining, f'⟩ := c
    have hadd := page.toList_addEntries p taken habove
    by_cases hall : remaining.isEmpty = true
    · obtain rfl : remaining = [] := List.isEmpty_iff.mp hall
      obtain rfl : taken = es := (List.append_nil taken).symm.trans hcut.whole
      have hmark : ((page.addEntries p taken).markLast p).entries.toList =
          page.entries.toList ++ [(p, taken)] := by
        rw [Supply.entries_markLast_addEntries, hadd]
      simp only [hall, if_true]
      by_cases hfull : f'.isFull limit = true
      · rw [if_pos hfull]
        exact ⟨[(p, taken)], hmark, hcut.spends_whole rest⟩
      · rw [if_neg hfull]
        have ho' : ((((page.addEntries p taken).markLast p).entries.toList ++ rest).map
            Prod.fst).Pairwise fun a b => Key.below a b = true := by
          rw [hmark]
          simpa using ho
        obtain ⟨sent, hsent, hspends⟩ := ih _ ho' (Bool.eq_false_iff.mpr hfull)
        refine ⟨(p, taken) :: sent, ?_, hspends.cons hcut⟩
        rw [hsent, hmark, List.append_assoc]
        rfl
    · simp only [hall, Bool.false_eq_true, if_false]
      have hne : remaining ≠ [] := fun h => hall (List.isEmpty_iff.mpr h)
      exact ⟨[(p, taken)], hadd, hcut.spends_part hne rest⟩

-- ============================================================================
-- One page after the other
-- ============================================================================

variable {s : SupplyStream} (worker : WorkerId) (size : Nat) {limit : Nat}

/-- A stream lists its partitions in order. -/
def Ascending (s : SupplyStream) : Prop :=
  (s.pending.map Prod.fst).Pairwise fun a b => Key.below a b = true

theorem Ascending.nodup (h : s.Ascending) : (s.pending.map Prod.fst).Nodup :=
  h.imp fun hab => Key.ne_of_below hab

theorem Ascending.nextPage (h : s.Ascending) (limit : Nat) :
    (s.nextPage worker size limit).1.Ascending :=
  h.sublist (keys_nextPage h.nodup worker size limit).sublist

theorem Ascending.paged (h : s.Ascending) (limit : Nat) :
    Paged s (s.nextPage worker size limit).1 worker (s.nextPage worker size limit).2 :=
  paged_of_nodup h.nodup worker size limit

/-- A page is within its bounds, and takes something off what is pending. -/
theorem nextPage_spends (h : s.Ascending) (hl : 1 ≤ limit) :
    (s.nextPage worker size limit).2.Within size limit ∧
      load (s.nextPage worker size limit).1.pending + min 1 s.pending.length ≤ load s.pending := by
  have hroom : Fill.isFull ⟨max size 1, 0⟩ limit = false := by
    simp only [Fill.isFull, Bool.or_eq_false_iff, beq_eq_false_iff_ne, decide_eq_false_iff_not]
    omega
  obtain ⟨sent, hsent, hspends⟩ :=
    fill_spends { Supply.empty worker with missed := s.missed } h hroom
  have hcarried : (s.nextPage worker size limit).2.carried = sent.flatMap Prod.snd :=
    congrArg (List.flatMap Prod.snd) hsent
  refine ⟨⟨?_, ?_⟩, hspends.fewer⟩
  · rw [Supply.entryCount_eq, hcarried]
    exact hspends.budget
  · have hbelow := hspends.below
    rw [hcarried]
    omega

/-- The pages that answer some requests, each with its page size and its limit in bytes, as long
    as there is something to be sent. -/
def serve (worker : WorkerId) (s : SupplyStream) : List (Nat × Nat) → SupplyStream × List Supply
  | [] => (s, [])
  | r :: rest =>
    if s.isFinished then (s, [])
    else
      ((serve worker (s.nextPage worker r.1 r.2).1 rest).1,
        (s.nextPage worker r.1 r.2).2 :: (serve worker (s.nextPage worker r.1 r.2).1 rest).2)

variable {worker} in
theorem serve_of_finished (h : s.isFinished = true) (requests : List (Nat × Nat)) :
    s.serve worker requests = (s, []) := by
  cases requests with
  | nil => rfl
  | cons r rest => rw [serve, if_pos h]

variable {worker} in
theorem serve_cons (h : s.isFinished = false) (r : Nat × Nat) (rest : List (Nat × Nat)) :
    s.serve worker (r :: rest) =
      (((s.nextPage worker r.1 r.2).1.serve worker rest).1,
        (s.nextPage worker r.1 r.2).2 :: ((s.nextPage worker r.1 r.2).1.serve worker rest).2) := by
  rw [serve, if_neg (Bool.eq_false_iff.mp h)]

/-- How many pages a stream can still take. -/
def work (s : SupplyStream) : Nat := max (if s.missed.isEmpty then 0 else 1) (load s.pending)

theorem isFinished_of_work (h : s.work = 0) : s.isFinished = true := by
  unfold work at h
  have hload : load s.pending = 0 := by omega
  have hmissed : s.missed.isEmpty = true := by
    cases hm : s.missed.isEmpty with
    | true => rfl
    | false => simp [hm] at h
  have hpending : s.pending = [] := by
    cases hp : s.pending with
    | nil => rfl
    | cons e rest => simp [hp, load] at hload
  rw [isFinished, hmissed, hpending]
  rfl

theorem work_nextPage (h : s.Ascending) (hl : 1 ≤ limit) (hopen : s.isFinished = false) :
    (s.nextPage worker size limit).1.work + 1 ≤ s.work := by
  have hfewer := (nextPage_spends worker size h hl).2
  have hnext : (s.nextPage worker size limit).1.work =
      load (s.nextPage worker size limit).1.pending := Nat.zero_max _
  rw [hnext, work]
  cases hp : s.pending with
  | nil =>
    have hmissed : s.missed.isEmpty = false := by
      rw [isFinished, hp] at hopen
      exact hopen
    rw [hp] at hfewer
    rw [hmissed, if_neg Bool.false_ne_true]
    have hzero : load ([] : List (PartitionId × List Entry)) = 0 := rfl
    omega
  | cons e rest =>
    rw [hp, List.length_cons] at hfewer
    omega

/-- Every page but the first of a stream that was missing something gets on with it. -/
theorem length_serve_le (h : s.Ascending) {requests : List (Nat × Nat)}
    (hl : ∀ r ∈ requests, 1 ≤ r.2) :
    (s.serve worker requests).2.length ≤ s.work ∧
      (s.work ≤ requests.length → (s.serve worker requests).1.isFinished = true) := by
  induction requests generalizing s with
  | nil => exact ⟨Nat.zero_le _, fun hw => isFinished_of_work (Nat.le_zero.mp hw)⟩
  | cons r rest ih =>
    cases hopen : s.isFinished with
    | true =>
      rw [serve_of_finished hopen]
      exact ⟨Nat.zero_le _, fun _ => hopen⟩
    | false =>
      have hless := work_nextPage worker r.1 h (hl r List.mem_cons_self) hopen
      obtain ⟨hlen, hend⟩ := ih (s := (s.nextPage worker r.1 r.2).1) (h.nextPage worker r.1 r.2)
        fun x hx => hl x (List.mem_cons_of_mem r hx)
      rw [serve_cons hopen]
      refine ⟨?_, fun hw => hend ?_⟩
      · rw [List.length_cons]
        omega
      · rw [List.length_cons] at hw
        omega

theorem length_serve_le_requests (requests : List (Nat × Nat)) :
    (s.serve worker requests).2.length ≤ requests.length := by
  induction requests generalizing s with
  | nil => exact Nat.le_refl 0
  | cons r rest ih =>
    cases hopen : s.isFinished with
    | true =>
      rw [serve_of_finished hopen]
      exact Nat.zero_le _
    | false =>
      rw [serve_cons hopen]
      exact Nat.succ_le_succ ih

/-- What holds of every page that is taken off a stream, as long as the stream keeps what is
    needed for it, holds of all pages and the requests that they answer. -/
theorem forall_zip_serve {P : SupplyStream → Prop} {Q : Supply → Nat × Nat → Prop}
    {requests : List (Nat × Nat)}
    (hnext : ∀ s, ∀ r ∈ requests, P s →
      P (s.nextPage worker r.1 r.2).1 ∧ Q (s.nextPage worker r.1 r.2).2 r) (hs : P s) :
    ∀ x ∈ (s.serve worker requests).2.zip requests, Q x.1 x.2 := by
  induction requests generalizing s with
  | nil => exact fun _ hx => absurd (List.of_mem_zip hx).2 List.not_mem_nil
  | cons r rest ih =>
    cases hopen : s.isFinished with
    | true =>
      rw [serve_of_finished hopen]
      exact fun _ hx => absurd (List.of_mem_zip hx).1 List.not_mem_nil
    | false =>
      obtain ⟨hleft, hpage⟩ := hnext s r List.mem_cons_self hs
      rw [serve_cons hopen, List.zip_cons_cons]
      exact List.forall_mem_cons.mpr
        ⟨hpage, ih (fun s' x hx => hnext s' x (List.mem_cons_of_mem r hx)) hleft⟩

theorem forall_serve {P : SupplyStream → Prop} {Q : Supply → Prop} {requests : List (Nat × Nat)}
    (hnext : ∀ s, ∀ r : Nat × Nat, P s →
      P (s.nextPage worker r.1 r.2).1 ∧ Q (s.nextPage worker r.1 r.2).2)
    (hs : P s) : ∀ page ∈ (s.serve worker requests).2, Q page := by
  have hall := forall_zip_serve (Q := fun page _ => Q page) worker
    (fun s' r (_ : r ∈ requests) => hnext s' r) hs
  rw [← List.map_fst_zip (length_serve_le_requests worker requests)]
  intro page hpage
  obtain ⟨x, hx, rfl⟩ := List.mem_map.mp hpage
  exact hall x hx

theorem within_serve (h : s.Ascending) {requests : List (Nat × Nat)}
    (hl : ∀ r ∈ requests, 1 ≤ r.2) :
    ∀ x ∈ (s.serve worker requests).2.zip requests, x.1.Within x.2.1 x.2.2 := by
  refine forall_zip_serve (Q := fun page r => page.Within r.1 r.2) worker (fun s' r hr hs => ?_) h
  exact ⟨hs.nextPage worker r.1 r.2, (nextPage_spends worker r.1 hs (hl r hr)).1⟩

/-- What is not pending is on no page. -/
theorem absent_serve (h : s.Ascending) {p : PartitionId} (hp : find p s.pending = none)
    (requests : List (Nat × Nat)) :
    ∀ page ∈ (s.serve worker requests).2, page.entries.get? p = none ∧ p ∉ page.last := by
  refine forall_serve (P := fun s => s.Ascending ∧ find p s.pending = none) worker ?_ ⟨h, hp⟩
  rintro s' r ⟨hs, hnone⟩
  obtain ⟨he, hl, hgone⟩ := (hs.paged worker r.1 r.2).other p hnone
  exact ⟨⟨hs.nextPage worker r.1 r.2, hgone⟩, he, hl⟩

/-- What ends with a page is on it. -/
theorem mentioned_serve (h : s.Ascending) (requests : List (Nat × Nat)) :
    ∀ page ∈ (s.serve worker requests).2, ∀ p ∈ page.last,
      (page.entries.get? p).isSome = true := by
  refine forall_serve (P := Ascending) worker (fun s' r hs => ?_) h
  exact ⟨hs.nextPage worker r.1 r.2, (hs.paged worker r.1 r.2).mentions⟩

/-- A stream that misses nothing, or has said so, reports nothing as missed. -/
theorem missed_serve (h : s.Ascending) (hm : s.missed = ∅) (requests : List (Nat × Nat)) :
    ∀ page ∈ (s.serve worker requests).2, page.missed = ∅ := by
  refine forall_serve (P := fun s => s.Ascending ∧ s.missed = ∅) worker ?_ ⟨h, hm⟩
  rintro s' r ⟨hs, hnone⟩
  have hpage := hs.paged worker r.1 r.2
  exact ⟨⟨hs.nextPage worker r.1 r.2, hpage.missedLeft⟩, hpage.missed.trans hnone⟩

/-- A partition ends with one page, and nothing of it comes later. -/
def EndsOnce (p : PartitionId) (pages : List Supply) : Prop :=
  ∃ before page after, pages = before ++ page :: after ∧ p ∈ page.last ∧
    (∀ q ∈ before, p ∉ q.last) ∧ ∀ q ∈ after, q.entries.get? p = none ∧ p ∉ q.last

theorem EndsOnce.cons {p : PartitionId} {pages : List Supply} {page : Supply}
    (h : EndsOnce p pages) (hp : p ∉ page.last) : EndsOnce p (page :: pages) := by
  obtain ⟨before, last, after, rfl, hl, hb, ha⟩ := h
  exact ⟨page :: before, last, after, rfl, hl, List.forall_mem_cons.mpr ⟨hp, hb⟩, ha⟩

/-- By the time that a stream is finished, its pages have carried every pending partition from
    its first entry to its last, and it has ended once. -/
theorem serve_carries (h : s.Ascending) {requests : List (Nat × Nat)} {p : PartitionId}
    {es : List Entry} (hfind : find p s.pending = some es)
    (hend : (s.serve worker requests).1.isFinished = true) :
    (s.serve worker requests).2.flatMap (·.entriesOf p) = es ∧
      EndsOnce p (s.serve worker requests).2 := by
  have hopen : s.isFinished = false := by
    cases hs : s.isFinished with
    | false => rfl
    | true =>
      rw [eq_empty_of_isFinished hs] at hfind
      cases hfind
  induction requests generalizing s es with
  | nil =>
    rw [show s.isFinished = true from hend] at hopen
    cases hopen
  | cons r rest ih =>
    rw [serve_cons hopen] at hend ⊢
    rw [List.flatMap_cons]
    have hnext := h.nextPage worker r.1 r.2
    -- What is still pending after the page is carried by the pages behind it.
    have hlater : ∀ {es'}, find p (s.nextPage worker r.1 r.2).1.pending = some es' →
        ((s.nextPage worker r.1 r.2).1.serve worker rest).2.flatMap (·.entriesOf p) = es' ∧
          EndsOnce p ((s.nextPage worker r.1 r.2).1.serve worker rest).2 := by
      intro es' hfind'
      refine ih hnext hfind' hend ?_
      cases hs : (s.nextPage worker r.1 r.2).1.isFinished with
      | false => rfl
      | true =>
        rw [eq_empty_of_isFinished hs] at hfind'
        cases hfind'
    cases (h.paged worker r.1 r.2).sent p es hfind with
    | whole he hl hn =>
      have habsent := absent_serve worker hnext hn rest
      have hnil : ((s.nextPage worker r.1 r.2).1.serve worker rest).2.flatMap (·.entriesOf p) =
          [] := by
        rw [List.flatMap_eq_nil_iff]
        intro page hp
        rw [Supply.entriesOf, (habsent page hp).1]
        rfl
      refine ⟨?_, [], _, _, rfl, hl, fun _ hq => absurd hq List.not_mem_nil, habsent⟩
      rw [hnil, Supply.entriesOf, he]
      exact List.append_nil es
    | part taken rest' hes he hl hn =>
      obtain ⟨hcarried, hends⟩ := hlater hn
      refine ⟨?_, hends.cons hl⟩
      rw [hcarried, Supply.entriesOf, he, hes]
      rfl
    | later he hl hn =>
      obtain ⟨hcarried, hends⟩ := hlater hn
      refine ⟨?_, hends.cons hl⟩
      rw [hcarried, Supply.entriesOf, he]
      rfl

/-- The first page reports what is missed, and no other page does. -/
theorem missed_serve_cons (h : s.Ascending) (hopen : s.isFinished = false) (r : Nat × Nat)
    (rest : List (Nat × Nat)) :
    ∃ first later, (s.serve worker (r :: rest)).2 = first :: later ∧ first.missed = s.missed ∧
      ∀ page ∈ later, page.missed = ∅ := by
  have hpage := h.paged worker r.1 r.2
  rw [serve_cons hopen]
  exact ⟨_, _, rfl, hpage.missed,
    missed_serve worker (h.nextPage worker r.1 r.2) hpage.missedLeft rest⟩

end SupplyStream

-- ============================================================================
-- A supplier that is asked again and again
-- ============================================================================

/-- The entries of a partition are listed in key order. -/
theorem Store.ascending_entries (st : Store) (p : PartitionId) :
    ((st.entries p).map (·.key)).Pairwise fun a b => Key.below a b = true := by
  unfold entries
  cases st.get? p with
  | none => exact .nil
  | some part =>
    have hkeys : ((part.entries).map (·.key)) = part.live.map Prod.fst := by
      rw [Partition.entries, List.map_map]
      rfl
    change ((part.entries).map (·.key)).Pairwise _
    rw [hkeys, List.pairwise_map, Partition.live]
    refine List.Pairwise.filterMap _ ?_ (List.pairwise_map.mp part.slots.ordered)
    rintro ⟨a, x⟩ ⟨b, y⟩ hab u hu v hv
    obtain ⟨_, -, rfl⟩ := Option.map_eq_some_iff.mp hu
    obtain ⟨_, -, rfl⟩ := Option.map_eq_some_iff.mp hv
    exact hab

namespace Supplier

open SupplyStream (EndsOnce load)

variable {s : Supplier} {sender : NodeId} {worker : WorkerId} {d : Demand}

/-- A supplier that is given another page size. -/
def resized (s : Supplier) (size : Nat) : Supplier := { s with pageSize := size }

/-- What a supplier answers to the requests of one node, each made at a page size of its own. -/
def serve (sender : NodeId) (worker : WorkerId) (s : Supplier) :
    List (Nat × Demand) → Supplier × List (Option Supply)
  | [] => (s, [])
  | r :: rest =>
    ((serve sender worker ((s.resized r.1).page sender worker r.2).1 rest).1,
      ((s.resized r.1).page sender worker r.2).2 ::
        (serve sender worker ((s.resized r.1).page sender worker r.2).1 rest).2)

/-- The page size and the limit in bytes of a request. -/
def boundsOf (r : Nat × Demand) : Nat × Nat := (r.1, limitOf r.2)

/-- What is kept of a stream: a finished one is forgotten. -/
def kept (stream : SupplyStream) : Option SupplyStream :=
  if stream.isFinished then none else some stream

theorem get?_kept (streams : SortedMap (NodeId × WorkerId) SupplyStream)
    (key : NodeId × WorkerId) (left : SupplyStream) :
    (if left.isFinished then streams.erase key else streams.insert key left).get? key =
      kept left := by
  unfold kept
  split
  · exact SortedMap.get?_erase.trans (if_pos rfl)
  · exact SortedMap.get?_insert_self

/-- Without a stream there is nothing to answer with. -/
theorem page_of_none (hc : s.classFault = none) (size : Nat)
    (h : s.streamFor sender worker d = none) :
    (s.resized size).page sender worker d = (s.resized size, none) := by
  have hfor : (s.resized size).streamFor sender worker d = none := h
  rw [page_eq (s.resized size) hc, hfor]

/-- A page is taken off the stream, and what is left of the stream is kept. -/
theorem page_of_some (hc : s.classFault = none) (size : Nat) {stream : SupplyStream}
    (h : s.streamFor sender worker d = some stream) :
    ∃ s', (s.resized size).page sender worker d =
        (s', some (stream.nextPage worker size (limitOf d)).2) ∧ s'.classFault = none ∧
      s'.streams.get? (sender, worker) = kept (stream.nextPage worker size (limitOf d)).1 := by
  have hfor : (s.resized size).streamFor sender worker d = some stream := h
  rw [page_eq (s.resized size) hc, hfor]
  exact ⟨_, rfl, hc, get?_kept s.streams (sender, worker) _⟩

/-- A demand that names a size allows for at least one byte. -/
theorem positive_bounds {requests : List (Nat × Demand)}
    (hb : ∀ r ∈ requests, r.2.batchSize ≠ 0) : ∀ r ∈ requests.map boundsOf, 1 ≤ r.2 := by
  intro x hx
  obtain ⟨r, hr, rfl⟩ := List.mem_map.mp hx
  have hlimit : limitOf r.2 = r.2.batchSize.toNat := if_neg (hb r hr)
  have hne : r.2.batchSize.toNat ≠ 0 := fun h => hb r hr (UInt64.toNat_inj.mp h)
  change 1 ≤ limitOf r.2
  omega

/-- Requests for the next page are answered from the stream that is kept, until it is
    finished. -/
theorem serve_continuations (hc : s.classFault = none) {stream : SupplyStream}
    (hopen : s.streams.get? (sender, worker) = kept stream)
    {requests : List (Nat × Demand)} (hr : ∀ r ∈ requests, r.2.isContinuation = true) :
    (s.serve sender worker requests).2 =
        (stream.serve worker (requests.map boundsOf)).2.map some ++
          List.replicate
            (requests.length - (stream.serve worker (requests.map boundsOf)).2.length) none ∧
      (s.serve sender worker requests).1.streams.get? (sender, worker) =
        kept (stream.serve worker (requests.map boundsOf)).1 := by
  induction requests generalizing s stream with
  | nil => exact ⟨rfl, hopen⟩
  | cons r rest ih =>
    have hfor : s.streamFor sender worker r.2 = kept stream := by
      rw [streamFor, if_pos (hr r List.mem_cons_self), hopen]
    have hrest : ∀ x ∈ rest, x.2.isContinuation = true :=
      fun x hx => hr x (List.mem_cons_of_mem r hx)
    rw [serve, List.map_cons]
    cases hs : stream.isFinished with
    | true =>
      rw [kept, if_pos hs] at hfor
      rw [page_of_none hc r.1 hfor]
      obtain ⟨hanswers, hstreams⟩ := ih (s := s.resized r.1) hc hopen hrest
      rw [SupplyStream.serve_of_finished hs] at hanswers hstreams ⊢
      exact ⟨congrArg (none :: ·) hanswers, hstreams⟩
    | false =>
      rw [kept, if_neg (Bool.eq_false_iff.mp hs)] at hfor
      obtain ⟨s', hpage, hc', hleft⟩ := page_of_some hc r.1 hfor
      rw [hpage, SupplyStream.serve_cons hs]
      obtain ⟨hanswers, hstreams⟩ := ih hc' hleft hrest
      refine ⟨?_, hstreams⟩
      rw [hanswers, List.map_cons, List.length_cons, List.length_cons, Nat.add_sub_add_right]
      rfl

/-- The partitions of a demand that the supplier owns. -/
def held (s : Supplier) (d : Demand) : List PartitionId :=
  d.partitions.toList.filter fun p => s.store.state? p == some .owning

/-- How many partitions of a demand the supplier owns, and how many entries they have. -/
def bulk (s : Supplier) (d : Demand) : Nat :=
  ((s.held d).map fun p => (s.store.entries p).length).sum + (s.held d).length

theorem load_openStream (s : Supplier) (d : Demand) :
    load (s.openStream d.partitions).pending = s.bulk d := by
  have hsum : ∀ l : List PartitionId,
      load (l.map fun p => (p, s.store.entries p)) =
        (l.map fun p => (s.store.entries p).length).sum + l.length := by
    intro l
    induction l with
    | nil => rfl
    | cons p l ih =>
      simp only [load, List.map_cons, List.sum_cons, List.length_cons] at ih ⊢
      omega
  exact hsum (s.held d)

theorem work_openStream (s : Supplier) (d : Demand) :
    (s.openStream d.partitions).work ≤ max 1 (s.bulk d) := by
  rw [SupplyStream.work, load_openStream]
  split <;> omega

/-- The stream of a demand that is not for a next page has something to tell. -/
theorem isFinished_openStream (s : Supplier) (hd : d.isContinuation = false) :
    (s.openStream d.partitions).isFinished = false := by
  cases hs : (s.openStream d.partitions).isFinished with
  | false => rfl
  | true =>
    have hempty := SupplyStream.eq_empty_of_isFinished hs
    have hnone : d.partitions = ∅ := by
      apply SortedSet.ext
      intro p
      refine iff_of_false (fun hp => ?_) (SortedSet.not_mem_empty p)
      by_cases ho : s.store.state? p = some .owning
      · have hfind := s.find_openStream d.partitions p
        rw [if_pos ⟨hp, ho⟩, hempty] at hfind
        cases hfind
      · have hmem := (s.mem_missed_openStream d.partitions p).mpr ⟨hp, ho⟩
        rw [hempty] at hmem
        exact SortedSet.not_mem_empty p hmem
    rw [Demand.isContinuation, hnone] at hd
    cases hd

/-- A demand is answered from a new stream, and the requests for the next page from what is kept
    of it. -/
theorem serve_demand (sender : NodeId) (worker : WorkerId) (hc : s.classFault = none)
    (hd : d.isContinuation = false) (size : Nat)
    {more : List (Nat × Demand)} (hm : ∀ r ∈ more, r.2.isContinuation = true) :
    (s.serve sender worker ((size, d) :: more)).2 =
        ((s.openStream d.partitions).serve worker (((size, d) :: more).map boundsOf)).2.map some ++
          List.replicate (((size, d) :: more).length - ((s.openStream d.partitions).serve worker
            (((size, d) :: more).map boundsOf)).2.length) none ∧
      (s.serve sender worker ((size, d) :: more)).1.streams.get? (sender, worker) =
        kept ((s.openStream d.partitions).serve worker
          (((size, d) :: more).map boundsOf)).1 := by
  have hfor : s.streamFor sender worker d = some (s.openStream d.partitions) := by
    rw [streamFor, hd, if_neg Bool.false_ne_true]
  obtain ⟨s', hpage, hc', hleft⟩ := page_of_some hc size hfor
  obtain ⟨hanswers, hstreams⟩ := serve_continuations hc' hleft hm
  rw [List.map_cons, SupplyStream.serve_cons (s.isFinished_openStream hd), serve, hpage]
  refine ⟨?_, hstreams⟩
  rw [hanswers, List.map_cons, List.length_cons, List.length_cons, Nat.add_sub_add_right]
  rfl

theorem kept_eq_none {stream : SupplyStream} : kept stream = none ↔ stream.isFinished = true := by
  unfold kept
  cases stream.isFinished <;> simp

/-- The pages of a stream are within the bounds of the requests that they answer. -/
theorem within_requests (worker : WorkerId) {stream : SupplyStream} (h : stream.Ascending)
    {requests : List (Nat × Demand)} (hb : ∀ r ∈ requests, r.2.batchSize ≠ 0) :
    ∀ x ∈ (stream.serve worker (requests.map boundsOf)).2.zip requests,
      x.1.Within x.2.1 x.2.2.batchSize.toNat := by
  intro x hx
  have hr : x.2 ∈ requests := (List.of_mem_zip hx).2
  have hlimit : limitOf x.2.2 = x.2.2.batchSize.toNat := if_neg (hb x.2 hr)
  rw [← hlimit]
  refine SupplyStream.within_serve worker h (positive_bounds hb) (x.1, boundsOf x.2) ?_
  rw [List.zip_map_right]
  exact List.mem_map_of_mem hx

/-- What a demand and the requests behind it get: pages, and nothing once all is said.  `finished`
    tells whether the stream was served to its end. -/
structure Lossless (s : Supplier) (d : Demand) (requests : List (Nat × Demand))
    (answers : List (Option Supply)) (finished : Prop) (pages : List Supply) : Prop where
  answers : answers = pages.map some ++ List.replicate (requests.length - pages.length) none
  few : pages.length ≤ max 1 (s.bulk d)
  ends : max 1 (s.bulk d) ≤ requests.length → finished
  ordered : ∀ p, ((s.store.entries p).map (·.key)).Pairwise fun a b => Key.below a b = true
  carried : finished → ∀ p ∈ d.partitions, s.store.state? p = some .owning →
    pages.flatMap (·.entriesOf p) = s.store.entries p ∧ EndsOnce p pages
  absent : ∀ p, ¬ (p ∈ d.partitions ∧ s.store.state? p = some .owning) →
    ∀ page ∈ pages, page.entries.get? p = none ∧ p ∉ page.last
  missed : ∃ first later, pages = first :: later ∧
    (∀ p, p ∈ first.missed ↔ p ∈ d.partitions ∧ s.store.state? p ≠ some .owning) ∧
    ∀ page ∈ later, page.missed = ∅
  mentioned : ∀ page ∈ pages, ∀ p ∈ page.last, (page.entries.get? p).isSome = true
  bounded : ∀ x ∈ pages.zip requests, x.1.Within x.2.1 x.2.2.batchSize.toNat

/-- A demand opens a stream, and whatever the sizes of its pages, the pages carry what the
    supplier owns of the demand, without a gap and without a repetition. -/
theorem paging_is_lossless (hc : s.classFault = none) (sender : NodeId) (worker : WorkerId)
    (size : Nat) (hd : d.isContinuation = false) {more : List (Nat × Demand)}
    (hm : ∀ r ∈ more, r.2.isContinuation = true)
    (hb : ∀ r ∈ (size, d) :: more, r.2.batchSize ≠ 0) :
    ∃ pages, s.Lossless d ((size, d) :: more) (s.serve sender worker ((size, d) :: more)).2
      ((s.serve sender worker ((size, d) :: more)).1.streams.get? (sender, worker) = none)
      pages := by
  have hasc : (s.openStream d.partitions).Ascending := s.ascending_openStream d.partitions
  have hopen := s.isFinished_openStream hd
  have hwork : (s.openStream d.partitions).work ≤ max 1 (s.bulk d) := s.work_openStream d
  obtain ⟨hanswers, hstreams⟩ := serve_demand sender worker hc hd size hm
  obtain ⟨hfew, hend⟩ := SupplyStream.length_serve_le worker hasc (positive_bounds hb)
  obtain ⟨first, later, hpages, hfirst, hlater⟩ :=
    SupplyStream.missed_serve_cons worker hasc hopen (size, limitOf d) (more.map boundsOf)
  rw [hstreams, kept_eq_none]
  refine ⟨_, hanswers, Nat.le_trans hfew hwork, ?_, s.store.ascending_entries, ?_, ?_,
    ⟨first, later, hpages, ?_, hlater⟩, ?_, within_requests worker hasc hb⟩
  · intro henough
    rw [← List.length_map (f := boundsOf)] at henough
    exact hend (Nat.le_trans hwork henough)
  · intro hfinished p hp ho
    have hfind := s.find_openStream d.partitions p
    rw [if_pos ⟨hp, ho⟩] at hfind
    exact SupplyStream.serve_carries worker hasc hfind hfinished
  · intro p hp
    have hfind := s.find_openStream d.partitions p
    rw [if_neg hp] at hfind
    exact SupplyStream.absent_serve worker hasc hfind _
  · intro p
    rw [hfirst]
    exact s.mem_missed_openStream d.partitions p
  · exact SupplyStream.mentioned_serve worker hasc _

/-- Partition 1 has two entries, partition 2 has none, partition 3 is handed over and partition 4
    is not there.  Pages of one entry, then of a single byte, then of any size: the third page
    ends the stream, and the request behind it gets nothing. -/
theorem paging_is_lossless_three_pages :
    let parts := ((({} : Store).create 1 .owning).create 2 .owning).create 3 .renting
    let st := (parts.put 1 { key := [7], value := [1, 2], revision := ⟨1, 0⟩ }).put 1
      { key := [8], value := [3], revision := ⟨2, 0⟩ }
    let s : Supplier := { node := 5, pool := WorkerPool.ofSize 0 1, store := st }
    let asks : Demand :=
      { partitions := SortedSet.ofList [1, 2, 3, 4], topology := ⟨1, 0⟩, batchSize := 100 }
    let goesOn (n : UInt64) : Demand := { partitions := ∅, topology := ⟨1, 0⟩, batchSize := n }
    let requests := [(1, asks), (0, goesOn 1), (9, goesOn 100), (9, goesOn 100)]
    s.bulk asks = 4 ∧
      (s.serve 6 0 requests).2.map (·.map (·.carried.length)) = [some 1, some 1, some 0, none] ∧
      ∃ pages, s.Lossless asks requests (s.serve 6 0 requests).2
        ((s.serve 6 0 requests).1.streams.get? (6, 0) = none) pages := by
  intro parts st s asks goesOn requests
  have hasks : asks.isContinuation = false := by decide +kernel
  refine ⟨by decide +kernel, by decide +kernel, paging_is_lossless rfl 6 0 1 hasks ?_ ?_⟩
  · decide +kernel
  · decide +kernel

end Supplier
end Rebalance
