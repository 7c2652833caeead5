/-
  Rebalance.Proofs.Grammar

  What the bytes of a message body may be.  A body is laid out from loose
  values: sets and maps as lists in any order and with repeats, lengths of time
  before anything is carried.  `Body.layout` is the layout and `Body.Means` says
  which message a body stands for.  Readers accept exactly this
  (`accepts_message`), and no bytes are laid out in two ways
  (`unambiguous_body`).
-/
import Rebalance.Proofs.Accept

namespace Rebalance
namespace Wire

-- ============================================================================
-- Loose values
-- ============================================================================

/-- A length of time as it is laid out, with nothing carried yet. -/
structure LooseSpan where
  secs : UInt64
  nanos : UInt32

/-- An entry as it is laid out. -/
structure LooseEntry where
  key : Counted UInt8
  value : Counted UInt8
  revision : Revision
  ttl : Option LooseSpan
  expiresAt : Option Instant
  internal : Bool

/-- A demand as it is laid out, with its partitions in any order and repeated. -/
structure LooseDemand where
  partitions : Counted PartitionId
  topology : Topology
  timeout : LooseSpan
  batchSize : UInt64
  reply : Option Topic

/-- A page as it is laid out, with its partitions in any order and repeated. -/
structure LooseSupply where
  worker : WorkerId
  entries : Counted (PartitionId × Counted LooseEntry)
  last : Counted PartitionId
  missed : Counted PartitionId
  classFault : Option CountedText

/-- What follows the version in a message. -/
inductive Body where
  | demand (d : LooseDemand)
  | supply (s : LooseSupply)

/-! ## Layout -/

def LooseSpan.layout (d : LooseSpan) : Bytes := putU64 d.secs ++ putU32 d.nanos

def LooseEntry.layout (e : LooseEntry) : Bytes :=
  putBytes e.key.val ++ putBytes e.value.val ++ putRevision e.revision ++
    putOption LooseSpan.layout e.ttl ++ putOption putU64 e.expiresAt ++ putFlag e.internal

/-- A partition with its entries. -/
def loosePairLayout (x : PartitionId × Counted LooseEntry) : Bytes :=
  putU32 x.1 ++ putCounted LooseEntry.layout x.2

def LooseDemand.layout (d : LooseDemand) : Bytes :=
  putCounted putU32 d.partitions ++ putTopology d.topology ++ d.timeout.layout ++
    putU64 d.batchSize ++ putOption putTopic d.reply

def LooseSupply.layout (s : LooseSupply) : Bytes :=
  putU64 s.worker ++ putCounted loosePairLayout s.entries ++ putCounted putU32 s.last ++
    putCounted putU32 s.missed ++ putOption (fun t : CountedText => putText t.val) s.classFault

/-- A body is laid out as the index of its kind and its fields in order. -/
def Body.layout : Body → Bytes
  | .demand d => putU32 0 ++ d.layout
  | .supply s => putU32 1 ++ s.layout

/-! ## Meaning -/

/-- The set has the partitions listed, in whatever order and however often. -/
def SetOf (l : List PartitionId) (s : SortedSet PartitionId) : Prop := ∀ p, p ∈ s ↔ p ∈ l

/-- The map has for every key listed the value that is listed with it last. -/
def MapOf {ν : Type} (l : List (PartitionId × ν)) (m : SortedMap PartitionId ν) : Prop :=
  ∀ p v, m.get? p = some v ↔ ∃ before after, l = before ++ (p, v) :: after ∧ p ∉ after.map Prod.fst

/-- Nothing is lost when nanoseconds are carried into seconds. -/
def LooseSpan.Means (d : LooseSpan) (v : Span) : Prop :=
  v.toNanos = d.secs.toNat * 1000000000 + d.nanos.toNat

structure LooseEntry.Means (e : LooseEntry) (v : Entry) : Prop where
  key : e.key.val = v.key
  value : e.value.val = v.value
  revision : e.revision = v.revision
  ttl : Option.Rel LooseSpan.Means e.ttl v.ttl
  expiresAt : e.expiresAt = v.expiresAt
  internal : e.internal = v.internal

/-- The same partition, with entries that mean what is listed. -/
def PairMeans (x : PartitionId × Counted LooseEntry) (y : PartitionId × List Entry) : Prop :=
  x.1 = y.1 ∧ List.Forall₂ LooseEntry.Means x.2.val y.2

structure LooseDemand.Means (d : LooseDemand) (v : Demand) : Prop where
  partitions : SetOf d.partitions.val v.partitions
  topology : d.topology = v.topology
  timeout : d.timeout.Means v.timeout
  batchSize : d.batchSize = v.batchSize
  reply : d.reply = v.reply

structure LooseSupply.Means (s : LooseSupply) (v : Supply) : Prop where
  worker : s.worker = v.worker
  entries : ∃ l, List.Forall₂ PairMeans s.entries.val l ∧ MapOf l v.entries
  last : SetOf s.last.val v.last
  missed : SetOf s.missed.val v.missed
  classFault : Option.Rel (fun t u => t.val = u) s.classFault v.classFault

/-- The message that a body stands for. -/
inductive Body.Means : Body → Message → Prop where
  | demand {d : LooseDemand} {v : Demand} (h : d.Means v) : Means (.demand d) (.demand v)
  | supply {s : LooseSupply} {v : Supply} (h : s.Means v) : Means (.supply s) (.supply v)

theorem optionRel_eq_iff {α : Type} {x y : Option α} : Option.Rel Eq x y ↔ x = y := by
  constructor
  · rintro (⟨rfl⟩ | _)
    · rfl
    · rfl
  · rintro rfl
    cases x with
    | none => exact .none
    | some a => exact .some rfl

theorem setOf_iff {l : List PartitionId} {s : SortedSet PartitionId} :
    SetOf l s ↔ SortedSet.ofList l = s := by
  constructor
  · intro h
    apply SortedSet.ext
    intro p
    rw [SortedSet.mem_ofList]
    exact (h p).symm
  · rintro rfl p
    exact SortedSet.mem_ofList

/-- Where the pairs of a list are put into a map one after another, a key has the last value that is
    listed for it, and what it had before if there is none. -/
theorem get?_foldl_insert {ν : Type} {l : List (PartitionId × ν)} {m : SortedMap PartitionId ν}
    {p : PartitionId} {v : ν} :
    (l.foldl (fun (m : SortedMap PartitionId ν) x => m.insert x.1 x.2) m).get? p = some v ↔
      (∃ before after, l = before ++ (p, v) :: after ∧ p ∉ after.map Prod.fst) ∨
      (p ∉ l.map Prod.fst ∧ m.get? p = some v) := by
  induction l generalizing m with
  | nil => simp
  | cons x l ih =>
    rw [List.foldl_cons, ih, SortedMap.get?_insert, List.map_cons, List.mem_cons, not_or]
    constructor
    · rintro (⟨before, after, rfl, hafter⟩ | ⟨hl, hm⟩)
      · exact .inl ⟨x :: before, after, rfl, hafter⟩
      · by_cases hp : p = x.1
        · rw [if_pos hp, Option.some.injEq] at hm
          exact .inl ⟨[], l, by rw [List.nil_append, hp, ← hm], hl⟩
        · rw [if_neg hp] at hm
          exact .inr ⟨⟨hp, hl⟩, hm⟩
    · rintro (⟨before, after, heq, hafter⟩ | ⟨⟨hp, hl⟩, hm⟩)
      · cases before with
        | nil =>
          obtain ⟨rfl, rfl⟩ := List.cons.inj heq
          exact .inr ⟨hafter, if_pos rfl⟩
        | cons y before =>
          obtain ⟨rfl, rfl⟩ := List.cons.inj heq
          exact .inl ⟨before, after, rfl, hafter⟩
      · exact .inr ⟨hl, (if_neg hp).trans hm⟩

/-- Gathering a list lets the last value of a key count. -/
theorem mapOf_ofList {ν : Type} (l : List (PartitionId × ν)) : MapOf l (SortedMap.ofList l) := by
  intro p v
  rw [SortedMap.ofList, get?_foldl_insert, SortedMap.get?_empty]
  simp

theorem mapOf_iff {ν : Type} {l : List (PartitionId × ν)} {m : SortedMap PartitionId ν} :
    MapOf l m ↔ SortedMap.ofList l = m := by
  constructor
  · intro h
    apply SortedMap.ext
    intro p
    apply Option.ext
    intro v
    rw [h p v]
    exact mapOf_ofList l p v
  · rintro rfl
    exact mapOf_ofList l

/-- Two parts make a length of time exactly if there is one as long. -/
theorem ofParts?_eq_some_iff {secs : UInt64} {nanos : UInt32} {v : Span} :
    Span.ofParts? secs nanos = some v ↔ (LooseSpan.mk secs nanos).Means v := by
  have hsize : UInt64.size = 18446744073709551616 := rfl
  have hv := v.nanos_lt
  have hsecs : v.secs.toNat < UInt64.size := v.secs.toNat_lt
  have hmod : nanos.toNat % 1000000000 < UInt32.size :=
    Nat.lt_of_le_of_lt (Nat.mod_le _ _) nanos.toNat_lt
  unfold LooseSpan.Means Span.toNanos Span.ofParts?
  constructor
  · intro h
    simp only at h
    split at h
    · next hlt =>
      obtain rfl := Option.some.inj h
      simp only [UInt64.toNat_ofNat_of_lt' hlt, UInt32.toNat_ofNat_of_lt' hmod]
      omega
    · cases h
  · intro h
    simp only at h
    have htotal : v.secs.toNat = secs.toNat + nanos.toNat / 1000000000 := by omega
    have hrest : v.nanos.toNat = nanos.toNat % 1000000000 := by omega
    simp only [← htotal, if_pos hsecs, ← hrest, UInt64.ofNat_toNat, UInt32.ofNat_toNat]

-- ============================================================================
-- The readers accept the layout
-- ============================================================================

theorem accepts_span : Accepts getSpan LooseSpan.layout LooseSpan.Means := by
  intro bs v rest
  unfold getSpan
  rw [bind_eq_ok_iff]
  constructor
  · rintro ⟨secs, mid, hsecs, hmore⟩
    obtain ⟨nanos, mid', hnanos, hv⟩ := bind_eq_ok_iff.mp hmore
    obtain ⟨secs, rfl, rfl⟩ := (accepts_u64 _ _ _).mp hsecs
    obtain ⟨nanos, rfl, rfl⟩ := (accepts_u32 _ _ _).mp hnanos
    cases hparts : Span.ofParts? secs nanos with
    | none =>
      simp only [hparts] at hv
      exact absurd hv fail_ne_ok
    | some d =>
      simp only [hparts] at hv
      obtain ⟨rfl, rfl⟩ := pure_eq_ok_iff.mp hv
      exact ⟨⟨secs, nanos⟩, ofParts?_eq_some_iff.mp hparts, (List.append_assoc _ _ _).symm⟩
  · rintro ⟨⟨secs, nanos⟩, hmeans, rfl⟩
    refine ⟨secs, putU32 nanos ++ rest, (accepts_u64 _ _ _).mpr ⟨secs, rfl, List.append_assoc _ _ _⟩,
      bind_eq_ok_iff.mpr ⟨nanos, rest, (accepts_u32 _ _ _).mpr ⟨nanos, rfl, rfl⟩, ?_⟩⟩
    simp only [ofParts?_eq_some_iff.mpr hmeans]
    rfl

theorem accepts_topology : Accepts getTopology putTopology Eq := by
  refine (accepts_u64.seq fun major => accepts_u32.map (Topology.mk major)).of_parts
    (fun t : Topology => (t.major, t.minor)) (fun x => ⟨⟨x.1, x.2⟩, rfl⟩) (fun _ => rfl) ?_
  rintro ⟨major, minor⟩ t
  simp

theorem accepts_revision : Accepts getRevision putRevision Eq := by
  refine (accepts_u64.seq fun order => accepts_u32.map (Revision.mk order)).of_parts
    (fun r : Revision => (r.order, r.origin)) (fun x => ⟨⟨x.1, x.2⟩, rfl⟩) (fun _ => rfl) ?_
  rintro ⟨order, origin⟩ r
  simp

theorem accepts_role : Accepts getRole putRole Eq := by
  intro bs r rest
  refine ⟨fun h => ?_, fun ⟨x, hx, h⟩ => hx ▸ h ▸ reads_role x rest⟩
  obtain ⟨i, mid, hi, hr⟩ := bind_eq_ok_iff.mp h
  obtain ⟨i, rfl, rfl⟩ := (accepts_u32 _ _ _).mp hi
  split at hr
  · next hzero =>
    obtain ⟨rfl, rfl⟩ := pure_eq_ok_iff.mp hr
    exact ⟨.demand, rfl, by rw [hzero]; rfl⟩
  · split at hr
    · next hone =>
      obtain ⟨rfl, rfl⟩ := pure_eq_ok_iff.mp hr
      exact ⟨.supply, rfl, by rw [hone]; rfl⟩
    · exact absurd hr fail_ne_ok

theorem accepts_topic : Accepts getTopic putTopic Eq := by
  refine (accepts_role.seq fun role => accepts_u32.seq fun dataset =>
      accepts_u64.map (Topic.mk role dataset)).of_parts
    (fun t : Topic => (t.role, t.dataset, t.worker)) (fun x => ⟨⟨x.1, x.2.1, x.2.2⟩, rfl⟩)
    (fun t => List.append_assoc _ _ _) ?_
  rintro ⟨role, dataset, worker⟩ t
  simp

theorem accepts_partitions :
    Accepts getPartitions (putCounted putU32) fun l s => SetOf l.val s := by
  refine ((accepts_counted accepts_u32).map SortedSet.ofList).of_parts id (fun x => ⟨x, rfl⟩)
    (fun _ => rfl) ?_
  intro l s
  simp [setOf_iff, List.forall₂_eq_eq_eq]

theorem accepts_entry : Accepts getEntry LooseEntry.layout LooseEntry.Means := by
  refine (accepts_bytes.seq fun key => accepts_bytes.seq fun value =>
      accepts_revision.seq fun revision => (accepts_option accepts_span).seq fun ttl =>
      (accepts_option accepts_u64).seq fun expiresAt =>
      accepts_flag.map (Entry.mk key value revision ttl expiresAt)).of_parts
    (fun e : LooseEntry => (e.key, e.value, e.revision, e.ttl, e.expiresAt, e.internal))
    (fun x => ⟨⟨x.1, x.2.1, x.2.2.1, x.2.2.2.1, x.2.2.2.2.1, x.2.2.2.2.2⟩, rfl⟩)
    (fun e => by simp only [LooseEntry.layout, pairLayout, List.append_assoc]) ?_
  rintro ⟨key, value, revision, ttl, expiresAt, internal⟩ v
  simp only [optionRel_eq_iff]
  constructor
  · intro h
    exact ⟨_, h.key, _, h.value, _, h.revision, _, h.ttl, _, h.expiresAt, _, h.internal, rfl⟩
  · rintro ⟨_, rfl, _, rfl, _, rfl, ttl', httl, _, rfl, _, rfl, rfl⟩
    exact ⟨rfl, rfl, rfl, httl, rfl, rfl⟩

theorem accepts_pair : Accepts getPartitionEntries loosePairLayout PairMeans := by
  refine (accepts_u32.seq fun p => (accepts_counted accepts_entry).map (Prod.mk p)).of_parts id
    (fun x => ⟨x, rfl⟩) (fun _ => rfl) ?_
  rintro ⟨p, l⟩ ⟨q, es⟩
  simp [PairMeans, and_comm]

theorem accepts_entries :
    Accepts getEntries (putCounted loosePairLayout) fun x m =>
      ∃ l, List.Forall₂ PairMeans x.val l ∧ MapOf l m := by
  refine ((accepts_counted accepts_pair).map SortedMap.ofList).of_parts id (fun x => ⟨x, rfl⟩)
    (fun _ => rfl) ?_
  intro x m
  simp only [mapOf_iff]
  rfl

theorem accepts_demand : Accepts getDemand LooseDemand.layout LooseDemand.Means := by
  refine (accepts_partitions.seq fun partitions => accepts_topology.seq fun topology =>
      accepts_span.seq fun timeout => accepts_u64.seq fun batchSize =>
      (accepts_option accepts_topic).map (Demand.mk partitions topology timeout batchSize)).of_parts
    (fun d : LooseDemand => (d.partitions, d.topology, d.timeout, d.batchSize, d.reply))
    (fun x => ⟨⟨x.1, x.2.1, x.2.2.1, x.2.2.2.1, x.2.2.2.2⟩, rfl⟩)
    (fun d => by simp only [LooseDemand.layout, pairLayout, List.append_assoc]) ?_
  rintro ⟨partitions, topology, timeout, batchSize, reply⟩ v
  simp only [optionRel_eq_iff]
  constructor
  · intro h
    exact ⟨_, h.partitions, _, h.topology, _, h.timeout, _, h.batchSize, _, h.reply, rfl⟩
  · rintro ⟨_, hpartitions, _, rfl, _, htimeout, _, rfl, _, rfl, rfl⟩
    exact ⟨hpartitions, rfl, htimeout, rfl, rfl⟩

theorem accepts_supply : Accepts getSupply LooseSupply.layout LooseSupply.Means := by
  refine (accepts_u64.seq fun worker => accepts_entries.seq fun entries =>
      accepts_partitions.seq fun last => accepts_partitions.seq fun missed =>
      (accepts_option accepts_text).map (Supply.mk worker entries last missed)).of_parts
    (fun s : LooseSupply => (s.worker, s.entries, s.last, s.missed, s.classFault))
    (fun x => ⟨⟨x.1, x.2.1, x.2.2.1, x.2.2.2.1, x.2.2.2.2⟩, rfl⟩)
    (fun s => by simp only [LooseSupply.layout, pairLayout, List.append_assoc]) ?_
  rintro ⟨worker, entries, last, missed, classFault⟩ v
  constructor
  · intro h
    exact ⟨_, h.worker, _, h.entries, _, h.last, _, h.missed, _, h.classFault, rfl⟩
  · rintro ⟨_, rfl, _, hentries, _, hlast, _, hmissed, _, hfault, rfl⟩
    exact ⟨rfl, hentries, hlast, hmissed, hfault⟩

theorem accepts_message : Accepts getMessage Body.layout Body.Means := by
  intro bs m rest
  unfold getMessage
  rw [bind_eq_ok_iff]
  constructor
  · rintro ⟨i, mid, hi, hm⟩
    obtain ⟨i, rfl, rfl⟩ := (accepts_u32 _ _ _).mp hi
    split at hm
    · next hzero =>
      subst hzero
      obtain ⟨x, ⟨d, hd, rfl⟩, rfl⟩ := (accepts_demand.map Message.demand _ _ _).mp hm
      exact ⟨.demand x, .demand hd, (List.append_assoc _ _ _).symm⟩
    · split at hm
      · next hone =>
        subst hone
        obtain ⟨x, ⟨s, hs, rfl⟩, rfl⟩ := (accepts_supply.map Message.supply _ _ _).mp hm
        exact ⟨.supply x, .supply hs, (List.append_assoc _ _ _).symm⟩
      · exact absurd hm fail_ne_ok
  · rintro ⟨x, hx, rfl⟩
    cases hx with
    | @demand x d hd =>
      refine ⟨0, x.layout ++ rest, (accepts_u32 _ _ _).mpr ⟨0, rfl, List.append_assoc _ _ _⟩, ?_⟩
      rw [if_pos rfl]
      exact (accepts_demand.map Message.demand _ _ _).mpr ⟨x, ⟨d, hd, rfl⟩, rfl⟩
    | @supply x s hs =>
      refine ⟨1, x.layout ++ rest, (accepts_u32 _ _ _).mpr ⟨1, rfl, List.append_assoc _ _ _⟩, ?_⟩
      rw [if_neg (show ¬ (1 : UInt32) = 0 by decide), if_pos rfl]
      exact (accepts_supply.map Message.supply _ _ _).mpr ⟨x, ⟨s, hs, rfl⟩, rfl⟩

-- ============================================================================
-- No bytes are laid out in two ways
-- ============================================================================

theorem unambiguous_span : Unambiguous LooseSpan.layout := by
  refine (accepts_u64.unambiguous.pair accepts_u32.unambiguous).of_parts
    (fun d : LooseSpan => (d.secs, d.nanos)) ?_ fun _ => rfl
  rintro ⟨⟩ ⟨⟩ h
  cases h
  rfl

theorem unambiguous_entry : Unambiguous LooseEntry.layout := by
  refine (unambiguous_bytes.pair (unambiguous_bytes.pair (accepts_revision.unambiguous.pair
      ((unambiguous_option unambiguous_span).pair
        ((unambiguous_option accepts_u64.unambiguous).pair accepts_flag.unambiguous))))).of_parts
    (fun e : LooseEntry => (e.key, e.value, e.revision, e.ttl, e.expiresAt, e.internal)) ?_
    fun e => by simp only [LooseEntry.layout, pairLayout, List.append_assoc]
  rintro ⟨⟩ ⟨⟩ h
  cases h
  rfl

theorem unambiguous_loosePair : Unambiguous loosePairLayout :=
  accepts_u32.unambiguous.pair (unambiguous_counted unambiguous_entry)

theorem unambiguous_demand : Unambiguous LooseDemand.layout := by
  refine ((unambiguous_counted accepts_u32.unambiguous).pair
      (accepts_topology.unambiguous.pair (unambiguous_span.pair (accepts_u64.unambiguous.pair
        (unambiguous_option accepts_topic.unambiguous))))).of_parts
    (fun d : LooseDemand => (d.partitions, d.topology, d.timeout, d.batchSize, d.reply)) ?_
    fun d => by simp only [LooseDemand.layout, pairLayout, List.append_assoc]
  rintro ⟨⟩ ⟨⟩ h
  cases h
  rfl

theorem unambiguous_supply : Unambiguous LooseSupply.layout := by
  have hpartitions := unambiguous_counted accepts_u32.unambiguous
  refine (accepts_u64.unambiguous.pair ((unambiguous_counted unambiguous_loosePair).pair
      (hpartitions.pair (hpartitions.pair (unambiguous_option unambiguous_text))))).of_parts
    (fun s : LooseSupply => (s.worker, s.entries, s.last, s.missed, s.classFault)) ?_
    fun s => by simp only [LooseSupply.layout, pairLayout, List.append_assoc]
  rintro ⟨⟩ ⟨⟩ h
  cases h
  rfl

theorem unambiguous_body : Unambiguous Body.layout := by
  intro x y rest rest' heq
  cases x with
  | demand d =>
    cases y with
    | demand d' =>
      rw [Body.layout, Body.layout, List.append_assoc, List.append_assoc] at heq
      obtain ⟨rfl, hrest⟩ := unambiguous_demand _ _ _ _ (List.append_cancel_left heq)
      exact ⟨rfl, hrest⟩
    | supply s => exact absurd (List.cons.inj heq).1 (by decide)
  | supply s =>
    cases y with
    | demand d => exact absurd (List.cons.inj heq).1 (by decide)
    | supply s' =>
      rw [Body.layout, Body.layout, List.append_assoc, List.append_assoc] at heq
      obtain ⟨rfl, hrest⟩ := unambiguous_supply _ _ _ _ (List.append_cancel_left heq)
      exact ⟨rfl, hrest⟩

end Wire
end Rebalance
