/-
  Rebalance.Proofs.RoundTrip

  Messages and their bytes.  A body is canonical if its sets and map keys ascend
  and nothing is left to carry; every message that 64-bit counts can hold is
  written as the one canonical body that stands for it (`canonical_layout`,
  `exists_canonical`).  Hence what is written is read back, whatever follows
  (`decode_encode_append`), and `decode_accepts_bodies` says for all bytes what
  becomes of them.
-/
import Rebalance.Proofs.Grammar

namespace Rebalance

/-- The lengths within a message are written under counts of 64 bits. -/
def Message.Fits : Message → Prop
  | .demand _ => True
  | .supply s => s.Fits ∧ ∀ t, s.classFault = some t → (Utf8.encode t).length < UInt64.size

namespace Wire

-- ============================================================================
-- Canonical bodies
-- ============================================================================

/-- Partitions listed in order, without repeats. -/
def Ascending (l : List PartitionId) : Prop := l.Pairwise (· < ·)

/-- Nothing is left to carry. -/
def LooseSpan.Canonical (d : LooseSpan) : Prop := d.nanos.toNat < 1000000000

def LooseEntry.Canonical (e : LooseEntry) : Prop := ∀ d, e.ttl = some d → d.Canonical

structure LooseDemand.Canonical (d : LooseDemand) : Prop where
  partitions : Ascending d.partitions.val
  timeout : d.timeout.Canonical

structure LooseSupply.Canonical (s : LooseSupply) : Prop where
  keys : Ascending (s.entries.val.map Prod.fst)
  entries : ∀ x ∈ s.entries.val, ∀ e ∈ x.2.val, e.Canonical
  last : Ascending s.last.val
  missed : Ascending s.missed.val

def Body.Canonical : Body → Prop
  | .demand d => d.Canonical
  | .supply s => s.Canonical

/-! ## The canonical body is the written form -/

theorem canonical_span {d : LooseSpan} {v : Span} (hc : d.Canonical) (hm : d.Means v) :
    d.layout = putSpan v := by
  have hv := v.nanos_lt
  unfold LooseSpan.Canonical at hc
  unfold LooseSpan.Means Span.toNanos at hm
  have hsecs : d.secs = v.secs := UInt64.toNat_inj.mp (by omega)
  have hnanos : d.nanos = v.nanos := UInt32.toNat_inj.mp (by omega)
  rw [LooseSpan.layout, putSpan, hsecs, hnanos]

theorem canonical_set {l : List PartitionId} {s : SortedSet PartitionId} (hc : Ascending l)
    (hm : SetOf l s) : l = s.toList := by
  have hl : l.Pairwise fun a b => Key.below a b = true :=
    hc.imp fun h => decide_eq_true (UInt32.lt_iff_toNat_lt.mp h)
  exact SortedSet.eq_of_mem_iff hl s.ordered fun p => (hm p).symm

theorem canonical_map {ν : Type} {l : List (PartitionId × ν)} {m : SortedMap PartitionId ν}
    (hc : Ascending (l.map Prod.fst)) (hm : MapOf l m) : l = m.toList := by
  have hl : (l.map Prod.fst).Pairwise fun a b => Key.below a b = true :=
    hc.imp fun h => decide_eq_true (UInt32.lt_iff_toNat_lt.mp h)
  -- A list with ascending keys is a map itself, which has what is listed.
  have hself : MapOf l (⟨l, hl⟩ : SortedMap PartitionId ν) := by
    intro p v
    rw [SortedMap.get?_eq_some_iff]
    constructor
    · intro hmem
      obtain ⟨before, after, hsplit⟩ := List.append_of_mem hmem
      refine ⟨before, after, hsplit, fun hp => ?_⟩
      change l = before ++ (p, v) :: after at hsplit
      rw [hsplit, List.map_append, List.map_cons, List.pairwise_append, List.pairwise_cons] at hl
      exact Key.ne_of_below (hl.2.1.1 p hp) rfl
    · rintro ⟨before, after, hsplit, -⟩
      change (p, v) ∈ l
      rw [hsplit]
      exact List.mem_append_right _ List.mem_cons_self
  rw [← mapOf_iff.mp hm, mapOf_iff.mp hself]

theorem canonical_option {ρ α : Type} {layout : ρ → Bytes} {put : α → Bytes}
    {means : ρ → α → Prop} {x : Option ρ} {a : Option α} (hm : Option.Rel means x a)
    (h : ∀ y b, x = some y → means y b → layout y = put b) :
    putOption layout x = putOption put a := by
  cases hm with
  | none => rfl
  | some hm => exact congrArg (1 :: ·) (h _ _ rfl hm)

theorem canonical_list {ρ α : Type} {layout : ρ → Bytes} {put : α → Bytes} {means : ρ → α → Prop}
    {l : List ρ} {as : List α} (hm : List.Forall₂ means l as)
    (h : ∀ x ∈ l, ∀ a, means x a → layout x = put a) : putList layout l = putList put as := by
  have hitems : l.flatMap layout = as.flatMap put := by
    induction hm with
    | nil => rfl
    | cons hx _ ih =>
      rw [List.flatMap_cons, List.flatMap_cons, h _ List.mem_cons_self _ hx,
        ih fun y hy => h y (List.mem_cons_of_mem _ hy)]
  rw [putList, putList, hitems, hm.length_eq]

theorem keys_of_pairs {l : List (PartitionId × Counted LooseEntry)}
    {l' : List (PartitionId × List Entry)} (h : List.Forall₂ PairMeans l l') :
    l.map Prod.fst = l'.map Prod.fst := by
  induction h with
  | nil => rfl
  | cons hx _ ih => rw [List.map_cons, List.map_cons, ih, hx.1]

theorem canonical_entry {e : LooseEntry} {v : Entry} (hc : e.Canonical) (hm : e.Means v) :
    e.layout = putEntry v := by
  have httl : putOption LooseSpan.layout e.ttl = putOption putSpan v.ttl :=
    canonical_option hm.ttl fun d s hd hs => canonical_span (hc d hd) hs
  rw [LooseEntry.layout, putEntry, hm.key, hm.value, hm.revision, httl, hm.expiresAt, hm.internal]

theorem canonical_demand {d : LooseDemand} {v : Demand} (hc : d.Canonical) (hm : d.Means v) :
    d.layout = putDemand v := by
  have hpartitions : putCounted putU32 d.partitions = putPartitions v.partitions := by
    rw [putCounted, canonical_set hc.partitions hm.partitions, putPartitions]
  rw [LooseDemand.layout, putDemand, hpartitions, hm.topology,
    canonical_span hc.timeout hm.timeout, hm.batchSize, hm.reply]

theorem canonical_supply {s : LooseSupply} {v : Supply} (hc : s.Canonical) (hm : s.Means v) :
    s.layout = putSupply v := by
  obtain ⟨l, hall, hmap⟩ := hm.entries
  have hl : l = v.entries.toList := canonical_map (keys_of_pairs hall ▸ hc.keys) hmap
  have hentries : putCounted loosePairLayout s.entries = putEntries v.entries := by
    rw [putCounted, putEntries, ← hl]
    refine canonical_list hall fun x hx y hy => ?_
    have hlist : putCounted LooseEntry.layout x.2 = putList putEntry y.2 :=
      canonical_list hy.2 fun e he w hw => canonical_entry (hc.entries x hx e he) hw
    rw [loosePairLayout, hy.1, hlist]
  have hlast : putCounted putU32 s.last = putPartitions v.last := by
    rw [putCounted, canonical_set hc.last hm.last, putPartitions]
  have hmissed : putCounted putU32 s.missed = putPartitions v.missed := by
    rw [putCounted, canonical_set hc.missed hm.missed, putPartitions]
  have hfault : putOption (fun t : CountedText => putText t.val) s.classFault =
      putOption putText v.classFault :=
    canonical_option hm.classFault fun t u _ h => congrArg putText h
  rw [LooseSupply.layout, putSupply, hm.worker, hentries, hlast, hmissed, hfault]

/-- A canonical body is laid out as the message that it stands for is written. -/
theorem canonical_layout {x : Body} {m : Message} (hc : x.Canonical) (hm : x.Means m) :
    x.layout = putMessage m := by
  cases hm with
  | demand h => exact congrArg (putU32 0 ++ ·) (canonical_demand hc h)
  | supply h => exact congrArg (putU32 1 ++ ·) (canonical_supply hc h)

/-! ## Every message has one -/

theorem exists_list {ρ α : Type} {good : ρ → Prop} {means : ρ → α → Prop} {as : List α}
    (h : ∀ a ∈ as, ∃ x, good x ∧ means x a) : ∃ l, (∀ x ∈ l, good x) ∧ List.Forall₂ means l as := by
  induction as with
  | nil => exact ⟨[], fun x hx => absurd hx List.not_mem_nil, .nil⟩
  | cons a as ih =>
    obtain ⟨x, hx, hxa⟩ := h a List.mem_cons_self
    obtain ⟨l, hl, hall⟩ := ih fun b hb => h b (List.mem_cons_of_mem a hb)
    refine ⟨x :: l, fun y hy => ?_, .cons hxa hall⟩
    rcases List.mem_cons.mp hy with rfl | hy
    · exact hx
    · exact hl y hy

theorem exists_option {ρ α : Type} {good : ρ → Prop} {means : ρ → α → Prop} {o : Option α}
    (h : ∀ a, o = some a → ∃ x, good x ∧ means x a) :
    ∃ x, (∀ y, x = some y → good y) ∧ Option.Rel means x o := by
  cases o with
  | none => exact ⟨none, by rintro y ⟨⟩, .none⟩
  | some a =>
    obtain ⟨x, hx, hxa⟩ := h a rfl
    exact ⟨some x, fun y hy => Option.some.inj hy ▸ hx, .some hxa⟩

theorem ascending_toList (s : SortedSet PartitionId) : Ascending s.toList :=
  s.ordered.imp fun h => UInt32.lt_iff_toNat_lt.mpr (of_decide_eq_true h)

theorem exists_span (v : Span) : ∃ d : LooseSpan, d.Canonical ∧ d.Means v :=
  ⟨⟨v.secs, v.nanos⟩, v.nanos_lt, rfl⟩

theorem exists_entry {v : Entry} (h : v.Fits) : ∃ e : LooseEntry, e.Canonical ∧ e.Means v := by
  obtain ⟨ttl, hc, hm⟩ := exists_option fun d (_ : v.ttl = some d) => exists_span d
  exact ⟨⟨⟨v.key, h.1⟩, ⟨v.value, h.2⟩, v.revision, ttl, v.expiresAt, v.internal⟩, hc,
    rfl, rfl, rfl, hm, rfl, rfl⟩

theorem exists_demand (v : Demand) : ∃ d : LooseDemand, d.Canonical ∧ d.Means v := by
  obtain ⟨timeout, hc, hm⟩ := exists_span v.timeout
  exact ⟨⟨⟨v.partitions.toList, v.partitions.length_lt⟩, v.topology, timeout, v.batchSize, v.reply⟩,
    ⟨ascending_toList _, hc⟩, fun _ => Iff.rfl, rfl, hm, rfl, rfl⟩

theorem exists_supply {v : Supply} (h : (Message.supply v).Fits) :
    ∃ s : LooseSupply, s.Canonical ∧ s.Means v := by
  obtain ⟨hentries, htext⟩ := h
  obtain ⟨l, hgood, hall⟩ := exists_list fun y (hy : y ∈ v.entries.toList) =>
    show ∃ x : PartitionId × Counted LooseEntry,
        (∀ e ∈ x.2.val, e.Canonical) ∧ PairMeans x y from by
      obtain ⟨hlen, hfits⟩ := hentries y hy
      obtain ⟨es, hc, hm⟩ := exists_list fun e he => exists_entry (hfits e he)
      exact ⟨(y.1, ⟨es, hm.length_eq ▸ hlen⟩), hc, rfl, hm⟩
  have hkeys : l.map Prod.fst = v.entries.toList.map Prod.fst := keys_of_pairs hall
  have hlen : l.length < UInt64.size := by
    have hset : (v.entries.toList.map Prod.fst).length < UInt64.size := v.entries.keys.length_lt
    rwa [← hkeys, List.length_map] at hset
  obtain ⟨fault, -, hfault⟩ := exists_option fun t (ht : v.classFault = some t) =>
    show ∃ x : CountedText, True ∧ x.val = t from ⟨⟨t, htext t ht⟩, trivial, rfl⟩
  refine ⟨⟨v.worker, ⟨l, hlen⟩, ⟨v.last.toList, v.last.length_lt⟩,
    ⟨v.missed.toList, v.missed.length_lt⟩, fault⟩,
    ⟨?_, hgood, ascending_toList _, ascending_toList _⟩, rfl,
    ⟨v.entries.toList, hall, mapOf_iff.mpr (SortedMap.ofList_toList _)⟩, fun _ => Iff.rfl,
    fun _ => Iff.rfl, hfault⟩
  change Ascending (l.map Prod.fst)
  rw [hkeys]
  exact ascending_toList v.entries.keys

/-- Every message that counts of 64 bits can hold has a canonical body. -/
theorem exists_canonical {m : Message} (h : m.Fits) : ∃ x : Body, x.Canonical ∧ x.Means m := by
  cases m with
  | demand d =>
    obtain ⟨x, hc, hm⟩ := exists_demand d
    exact ⟨.demand x, hc, .demand hm⟩
  | supply s =>
    obtain ⟨x, hc, hm⟩ := exists_supply h
    exact ⟨.supply x, hc, .supply hm⟩

theorem exists_of_mem {ρ α : Type} {means : ρ → α → Prop} {l : List ρ} {as : List α}
    (h : List.Forall₂ means l as) {a : α} (ha : a ∈ as) : ∃ x, means x a := by
  induction h with
  | nil => exact absurd ha List.not_mem_nil
  | cons hx _ ih =>
    rcases List.mem_cons.mp ha with rfl | ha
    · exact ⟨_, hx⟩
    · exact ih ha

/-- Whatever a body stands for is a message that counts of 64 bits can hold. -/
theorem Body.Means.fits {x : Body} {m : Message} (h : x.Means m) : m.Fits := by
  cases h with
  | demand => trivial
  | @supply s v h =>
    obtain ⟨l, hall, hmap⟩ := h.entries
    refine ⟨fun y hy => ?_, fun t ht => ?_⟩
    · -- What the map holds was listed, and so it was counted.
      obtain ⟨before, after, rfl, -⟩ := (hmap y.1 y.2).mp (SortedMap.get?_eq_some_iff.mpr hy)
      obtain ⟨x, hx⟩ := exists_of_mem hall (List.mem_append_right before List.mem_cons_self)
      refine ⟨hx.2.length_eq ▸ x.2.property, fun e he => ?_⟩
      obtain ⟨w, hw⟩ := exists_of_mem hx.2 he
      exact ⟨hw.key ▸ w.key.property, hw.value ▸ w.value.property⟩
    · have hfault := h.classFault
      rw [ht] at hfault
      cases hx : s.classFault with
      | none =>
        rw [hx] at hfault
        cases hfault
      | some u =>
        rw [hx] at hfault
        cases hfault with
        | some hu => exact hu ▸ u.property

-- ============================================================================
-- Decoding
-- ============================================================================

theorem encode_eq (m : Message) : encode m = 1 :: 0 :: putMessage m := rfl

theorem getU16_cons (b c : UInt8) (rest : Bytes) :
    ∃ v : UInt16, v.toNat = b.toNat + 256 * c.toNat ∧ getU16 (b :: c :: rest) = .ok (v, rest) := by
  have hb : b.toNat < 256 := b.toNat_lt
  have hc : c.toNat < 256 := c.toNat_lt
  have hlt : b.toNat + 256 * c.toNat < 256 ^ 2 := by omega
  refine ⟨UInt16.ofNat (b.toNat + 256 * c.toNat), UInt16.toNat_ofNat_of_lt' hlt, ?_⟩
  have hput : b :: c :: rest = putWord 2 (b.toNat + 256 * c.toNat) ++ rest := by
    have hlow : (b.toNat + 256 * c.toNat) % 256 = b.toNat := by omega
    have hhigh : (b.toNat + 256 * c.toNat) / 256 = c.toNat := by omega
    simp only [putWord, hlow, hhigh, Nat.mod_eq_of_lt hc, UInt8.ofNat_toNat, List.cons_append,
      List.nil_append]
  exact bind_eq_ok_iff.mpr ⟨_, rest, getWord_eq_ok_iff.mpr ⟨hlt, hput⟩, rfl⟩

/-- Bytes are decoded as a message exactly if they begin with a body that stands for it. -/
theorem decode_eq_ok_iff {data : Bytes} {m : Message} :
    decode data = .ok m ↔
      ∃ x rest, Body.Means x m ∧ data = 1 :: 0 :: (x.layout ++ rest) := by
  constructor
  · intro h
    unfold decode at h
    split at h
    · cases h
    · next v rest hv =>
      split at h
      · next hversion =>
        split at h
        · cases h
        · next m' rest' hm =>
          obtain rfl := Except.ok.inj h
          obtain ⟨x, hx, rfl⟩ := (accepts_message _ _ _).mp hm
          obtain ⟨_, rfl, rfl⟩ := (accepts_u16 _ _ _).mp hv
          exact ⟨x, rest', hx, by rw [hversion]; rfl⟩
      · cases h
  · rintro ⟨x, rest, hx, rfl⟩
    have hversion : getU16 (1 :: 0 :: (x.layout ++ rest)) = .ok (version, x.layout ++ rest) :=
      (accepts_u16 _ _ _).mpr ⟨version, rfl, rfl⟩
    have hbody : getMessage (x.layout ++ rest) = .ok (m, rest) :=
      (accepts_message _ _ _).mpr ⟨x, hx, rfl⟩
    simp only [decode, hversion, hbody, if_pos]

/-- What is written for a message is the layout of a canonical body that stands for it. -/
theorem exists_written {m : Message} (h : m.Fits) :
    ∃ x : Body, x.Canonical ∧ x.Means m ∧ encode m = 1 :: 0 :: x.layout := by
  obtain ⟨x, hc, hm⟩ := exists_canonical h
  exact ⟨x, hc, hm, by rw [encode_eq, canonical_layout hc hm]⟩

/-- The bytes of a number of 16 bits. -/
theorem exists_putU16 (v : UInt16) :
    ∃ b c : UInt8, putU16 v = [b, c] ∧ v.toNat = b.toNat + 256 * c.toNat := by
  have hv : v.toNat < 256 * 256 := v.toNat_lt
  refine ⟨UInt8.ofNat (v.toNat % 256), UInt8.ofNat (v.toNat / 256 % 256), rfl, ?_⟩
  rw [UInt8.toNat_ofNat_of_lt' (Nat.mod_lt _ (by decide)),
    UInt8.toNat_ofNat_of_lt' (Nat.mod_lt _ (by decide))]
  show v.toNat = v.toNat % 256 + 256 * (v.toNat / 256 % 256)
  omega

/-- Bytes are refused for their version exactly if they begin with another one, whatever
    follows it. -/
theorem decode_eq_unsupportedVersion_iff {data : Bytes} {v : UInt16} :
    decode data = .error (.unsupportedVersion v) ↔
      ∃ b c rest, data = b :: c :: rest ∧ v.toNat = b.toNat + 256 * c.toNat ∧ v ≠ 1 := by
  constructor
  · intro h
    unfold decode at h
    split at h
    · cases h
    · next w rest hw =>
      split at h
      · split at h <;> cases h
      · next hne =>
        obtain rfl : w = v := NetworkFault.unsupportedVersion.inj (Except.error.inj h)
        obtain ⟨w, rfl, rfl⟩ := (accepts_u16 _ _ _).mp hw
        obtain ⟨b, c, hput, hval⟩ := exists_putU16 w
        exact ⟨b, c, rest, by rw [hput]; rfl, hval, hne⟩
  · rintro ⟨b, c, rest, rfl, hv, hne⟩
    obtain ⟨w, hw, hget⟩ := getU16_cons b c rest
    obtain rfl : w = v := UInt16.toNat_inj.mp (hw.trans hv.symm)
    simp only [decode, hget]
    exact if_neg hne

/-- Bytes are refused for their version or as malformed, and for nothing else. -/
theorem decode_fault {data : Bytes} {cause : NetworkFault} (h : decode data = .error cause) :
    (∃ v, cause = .unsupportedVersion v) ∨ ∃ text, cause = .deserialization text := by
  unfold decode at h
  split at h
  · exact .inr ⟨_, (Except.error.inj h).symm⟩
  · split at h
    · split at h
      · exact .inr ⟨_, (Except.error.inj h).symm⟩
      · cases h
    · exact .inl ⟨_, (Except.error.inj h).symm⟩

/-- The same bytes begin with one body only. -/
theorem body_unique {x y : Body} {rest rest' : Bytes}
    (h : (1 :: 0 :: (x.layout ++ rest) : Bytes) = 1 :: 0 :: (y.layout ++ rest')) :
    y = x ∧ rest' = rest := by
  obtain ⟨hbody, hrest⟩ := unambiguous_body x y rest rest' (List.cons.inj (List.cons.inj h).2).2
  exact ⟨hbody.symm, hrest.symm⟩

/-- The bytes of a message come first exactly where its body is canonical. -/
theorem encode_prefix_iff {x : Body} {m : Message} (hm : x.Means m) (rest : Bytes) :
    encode m <+: 1 :: 0 :: (x.layout ++ rest) ↔ x.Canonical := by
  constructor
  · rintro ⟨rest', heq⟩
    obtain ⟨y, hc, hy, hput⟩ := exists_written hm.fits
    rw [hput] at heq
    exact (body_unique heq.symm).1 ▸ hc
  · intro hc
    exact ⟨rest, by rw [encode_eq, canonical_layout hc hm]; rfl⟩

/-- A message that counts of 64 bits can hold is read back, whatever follows it. -/
theorem decode_encode_append {m : Message} (h : m.Fits) (rest : Bytes) :
    decode (encode m ++ rest) = .ok m := by
  obtain ⟨x, -, hm, hput⟩ := exists_written h
  rw [hput]
  exact decode_eq_ok_iff.mpr ⟨x, rest, hm, rfl⟩

/-- A page with an entry that lives for a while, a missed partition and a reason beyond ASCII. -/
def mixedPage : Supply where
  worker := 7
  entries := SortedMap.ofList
    [(3, [{ key := [107], value := [0, 255], revision := ⟨5, 2⟩, ttl := some ⟨1, 999999999, by decide⟩,
            expiresAt := some 18446744073709551615, internal := true }]), (1, [])]
  last := SortedSet.ofList [3]
  missed := SortedSet.ofList [4294967295]
  classFault := some "größer ✓"

theorem mixed_page_is_read_back :
    (Message.supply mixedPage).Fits ∧
      decode (encode (.supply mixedPage) ++ [0, 1, 2]) = .ok (.supply mixedPage) := by
  have hfits : (Message.supply mixedPage).Fits := by
    refine ⟨?_, fun t ht => ?_⟩
    · rw [Supply.Fits, show mixedPage.entries.toList = [(1, []), (3, _)] from rfl]
      simp only [List.forall_mem_cons, Entry.Fits]
      decide
    · obtain rfl := Option.some.inj ht
      decide
  exact ⟨hfits, decode_encode_append hfits [0, 1, 2]⟩

/-- What becomes of any bytes: they are read as a message exactly if the version 1 and a body that
    stands for it come first, refused for their version exactly if there is another one, and
    malformed in every other case. A message that was read is read back from its own bytes, and
    these come first exactly if the body, of which there is only one, is canonical. -/
theorem decode_accepts_bodies :
    (∀ data m, decode data = .ok m ↔
      ∃ x rest, Body.Means x m ∧ data = 1 :: 0 :: (x.layout ++ rest)) ∧
    (∀ data v, decode data = .error (.unsupportedVersion v) ↔
      ∃ b c rest, data = b :: c :: rest ∧ v.toNat = b.toNat + 256 * c.toNat ∧ v ≠ 1) ∧
    (∀ data cause, decode data = .error cause →
      (∃ v, cause = .unsupportedVersion v) ∨ ∃ text, cause = .deserialization text) ∧
    ∀ x rest m, Body.Means x m →
      decode (encode m) = .ok m ∧
      (encode m <+: 1 :: 0 :: (x.layout ++ rest) ↔ x.Canonical) ∧
      ∀ y rest', 1 :: 0 :: (x.layout ++ rest) = 1 :: 0 :: (Body.layout y ++ rest') →
        y = x ∧ rest' = rest := by
  refine ⟨fun data m => decode_eq_ok_iff, fun data v => decode_eq_unsupportedVersion_iff,
    fun data cause h => decode_fault h, fun x rest m hx => ?_⟩
  obtain ⟨y, -, hy, hput⟩ := exists_written hx.fits
  have hread : decode (encode m) = .ok m :=
    decode_eq_ok_iff.mpr ⟨y, [], hy, by rw [hput, List.append_nil]⟩
  exact ⟨hread, encode_prefix_iff hx rest, fun z rest' heq => body_unique heq⟩

/-- A demand with a repeated partition, and with two seconds left among its nanoseconds. -/
def looseDemand : LooseDemand where
  partitions := ⟨[5, 3, 5], by decide⟩
  topology := ⟨8, 1⟩
  timeout := ⟨1, 2000000007⟩
  batchSize := 16
  reply := none

/-- The demand that it stands for. -/
def tidyDemand : Demand where
  partitions := SortedSet.ofList [3, 5]
  topology := ⟨8, 1⟩
  timeout := ⟨3, 7, by decide⟩
  batchSize := 16
  reply := none

theorem loose_demand_is_tidied :
    Body.Means (.demand looseDemand) (.demand tidyDemand) ∧
      decode (1 :: 0 :: ((Body.demand looseDemand).layout ++ [9])) = .ok (.demand tidyDemand) ∧
      decode (encode (.demand tidyDemand)) = .ok (.demand tidyDemand) ∧
      ¬ encode (.demand tidyDemand) <+: 1 :: 0 :: ((Body.demand looseDemand).layout ++ [9]) ∧
      decode [2, 0, 9] = .error (.unsupportedVersion 2) ∧
      ∃ cause, decode [1, 0, 0] = .error cause ∧
        ((∃ v, cause = .unsupportedVersion v) ∨ ∃ text, cause = .deserialization text) := by
  obtain ⟨hread, hversion, hfault, hbody⟩ := decode_accepts_bodies
  have hpartitions : SetOf looseDemand.partitions.val tidyDemand.partitions := by
    intro p
    rw [tidyDemand, SortedSet.mem_ofList]
    simp only [looseDemand, List.mem_cons, List.not_mem_nil, or_false]
    tauto
  have hmeans : Body.Means (.demand looseDemand) (.demand tidyDemand) :=
    .demand ⟨hpartitions, rfl, rfl, rfl, rfl⟩
  have hloose : ¬ (Body.demand looseDemand).Canonical :=
    fun h => absurd (show 2000000007 < 1000000000 from h.timeout) (by decide)
  obtain ⟨hback, hprefix, -⟩ := hbody _ [9] _ hmeans
  refine ⟨hmeans, (hread _ _).mpr ⟨_, [9], hmeans, rfl⟩, hback, mt hprefix.mp hloose,
    (hversion _ _).mpr ⟨2, 0, [9], rfl, rfl, by decide⟩, ?_⟩
  have hcut : decode [1, 0, 0] = .error (.deserialization Malformed.endOfInput.message) := rfl
  exact ⟨_, hcut, hfault _ _ hcut⟩

end Wire
end Rebalance
