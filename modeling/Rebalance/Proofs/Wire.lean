/-
  Rebalance.Proofs.Wire

  What is written is read back. A reader reads bytes as a value if it does so
  whatever follows them, and leaves what follows. The readers are composed as
  the writers are, so each shape has its law from those of its parts. The only
  condition is on counts: the 64 bits in which a length is written have to
  hold it.
-/
import Mathlib.Algebra.Group.Nat.Defs
import Rebalance.Wire.Codec

namespace Rebalance
namespace Wire

/-- The reader takes exactly the bytes off the front, as the value. -/
def Reads {α : Type} (get : Reader α) (bs : Bytes) (a : α) : Prop :=
  ∀ rest, get (bs ++ rest) = .ok (a, rest)

-- ============================================================================
-- Composition
-- ============================================================================

theorem reads_pure {α : Type} (a : α) : Reads (pure a) [] a := fun _ => rfl

theorem bind_apply {α β : Type} (get : Reader α) (f : α → Reader β) (bs : Bytes) :
    (get >>= f) bs =
      match get bs with
      | .error e => .error e
      | .ok (a, rest) => f a rest := rfl

/-- One reader after another reads what the two read. -/
theorem Reads.bind {α β : Type} {get : Reader α} {f : α → Reader β} {bs cs : Bytes} {a : α} {b : β}
    (h : Reads get bs a) (hf : Reads (f a) cs b) : Reads (get >>= f) (bs ++ cs) b := by
  intro rest
  have hfirst : get (bs ++ (cs ++ rest)) = .ok (a, cs ++ rest) := h (cs ++ rest)
  rw [List.append_assoc, bind_apply, hfirst]
  exact hf rest

/-- The value that was read is turned into another. -/
theorem Reads.map {α β : Type} {get : Reader α} {bs : Bytes} {a : α} (h : Reads get bs a)
    (f : α → β) : Reads (get >>= fun a => pure (f a)) bs (f a) := by
  have hb : Reads (get >>= fun a => pure (f a)) (bs ++ []) (f a) :=
    h.bind (f := fun a => pure (f a)) (reads_pure (f a))
  rwa [List.append_nil] at hb

theorem reads_many {α : Type} {get : Reader α} {put : α → Bytes} {l : List α}
    (h : ∀ a ∈ l, Reads get (put a) a) : Reads (Reader.many get l.length) (l.flatMap put) l := by
  induction l with
  | nil => exact reads_pure []
  | cons a l ih =>
    have hrest : Reads (Reader.many get l.length) (l.flatMap put) l :=
      ih fun b hb => h b (List.mem_cons_of_mem a hb)
    exact (h a List.mem_cons_self).bind (hrest.map (a :: ·))

-- ============================================================================
-- Numbers
-- ============================================================================

theorem reads_word {n v : Nat} (h : v < 256 ^ n) : Reads (getWord n) (putWord n v) v := by
  induction n generalizing v with
  | zero =>
    have hv : v = 0 := by simpa using h
    rw [hv]
    exact reads_pure 0
  | succ n ih =>
    intro rest
    have hlow : (UInt8.ofNat (v % 256)).toNat = v % 256 :=
      UInt8.toNat_ofNat_of_lt' (Nat.mod_lt v (by decide))
    have hhigh : v / 256 < 256 ^ n := by
      apply Nat.div_lt_of_lt_mul
      rwa [Nat.pow_succ, Nat.mul_comm] at h
    have hsum : v % 256 + 256 * (v / 256) = v := Nat.mod_add_div v 256
    simp only [putWord, List.cons_append, getWord, ih hhigh rest, hlow, hsum]

theorem reads_u32 (v : UInt32) : Reads getU32 (putU32 v) v := by
  have h := (reads_word (n := 4) v.toNat_lt).map UInt32.ofNat
  rwa [UInt32.ofNat_toNat] at h

theorem reads_u64 (v : UInt64) : Reads getU64 (putU64 v) v := by
  have h := (reads_word (n := 8) v.toNat_lt).map UInt64.ofNat
  rwa [UInt64.ofNat_toNat] at h

theorem reads_u16 (v : UInt16) : Reads getU16 (putU16 v) v := by
  have h := (reads_word (n := 2) v.toNat_lt).map UInt16.ofNat
  rwa [UInt16.ofNat_toNat] at h

theorem reads_byte (b : UInt8) : Reads getByte [b] b := by
  have h := (reads_word (n := 1) b.toNat_lt).map UInt8.ofNat
  have hput : putWord 1 b.toNat = [b] := by
    show [UInt8.ofNat (b.toNat % 256)] = [b]
    rw [Nat.mod_eq_of_lt b.toNat_lt, UInt8.ofNat_toNat]
  rwa [UInt8.ofNat_toNat, hput] at h

-- ============================================================================
-- Flags, options, strings, lists
-- ============================================================================

theorem reads_flag (b : Bool) : Reads getFlag (putFlag b) b := by
  cases b with
  | false => exact (reads_byte 0).bind (reads_pure false)
  | true => exact (reads_byte 1).bind (reads_pure true)

theorem reads_option {α : Type} {get : Reader α} {put : α → Bytes} {o : Option α}
    (h : ∀ a, o = some a → Reads get (put a) a) : Reads (getOption get) (putOption put o) o := by
  cases o with
  | none => exact (reads_byte 0).bind (reads_pure none)
  | some a => exact (reads_byte 1).bind ((h a rfl).map some)

theorem reads_list {α : Type} {get : Reader α} {put : α → Bytes} {l : List α}
    (hl : l.length < UInt64.size) (h : ∀ a ∈ l, Reads get (put a) a) :
    Reads (getList get) (putList put l) l :=
  (reads_word hl).bind (reads_many h)

theorem reads_take (bs : Bytes) : Reads (takeBytes bs.length) bs bs := by
  intro rest
  have hle : bs.length ≤ (bs ++ rest).length := by
    rw [List.length_append]
    exact Nat.le_add_right _ _
  simp only [takeBytes, if_pos hle, List.take_left, List.drop_left]

theorem reads_bytes {bs : Bytes} (h : bs.length < UInt64.size) :
    Reads getBytes (putBytes bs) bs :=
  (reads_word h).bind (reads_take bs)

/-- The nanoseconds of a length of time stay below a second, so nothing is carried. -/
theorem reads_span (d : Span) : Reads getSpan (putSpan d) d := by
  have hparts : Span.ofParts? d.secs d.nanos = some d := by
    have hzero : d.nanos.toNat / 1000000000 = 0 := Nat.div_eq_of_lt d.nanos_lt
    have hmod : d.nanos.toNat % 1000000000 = d.nanos.toNat := Nat.mod_eq_of_lt d.nanos_lt
    have hlt : d.secs.toNat < UInt64.size := d.secs.toNat_lt
    simp only [Span.ofParts?, hzero, Nat.add_zero, hmod, if_pos hlt, UInt64.ofNat_toNat,
      UInt32.ofNat_toNat]
  refine (reads_u64 d.secs).bind ?_
  rw [← List.append_nil (putU32 d.nanos)]
  refine (reads_u32 d.nanos).bind ?_
  rw [hparts]
  exact reads_pure d

end Wire

-- ============================================================================
-- Sets and maps
-- ============================================================================

/-- Numbers in ascending order between two bounds are not more than there are between them. -/
theorem length_le_of_ascending {l : List Nat} {a b : Nat} (hl : l.Pairwise (· < ·))
    (hb : ∀ x ∈ l, a ≤ x ∧ x < b) : l.length ≤ b - a := by
  induction l generalizing a with
  | nil => exact Nat.zero_le _
  | cons x l ih =>
    rw [List.pairwise_cons] at hl
    have hx : a ≤ x ∧ x < b := hb x List.mem_cons_self
    have hrest : l.length ≤ b - (x + 1) :=
      ih hl.2 fun y hy => ⟨hl.1 y hy, (hb y (List.mem_cons_of_mem x hy)).2⟩
    rw [List.length_cons]
    omega

namespace SortedSet

/-- A set of partitions is written under a count of 64 bits. -/
theorem length_lt (s : SortedSet PartitionId) : s.toList.length < UInt64.size := by
  have hasc : (s.toList.map UInt32.toNat).Pairwise (· < ·) := by
    rw [List.pairwise_map]
    apply s.ordered.imp
    intro a b hab
    exact of_decide_eq_true hab
  have hlen := length_le_of_ascending (a := 0) (b := UInt32.size) hasc (by
    intro x hx
    obtain ⟨p, -, rfl⟩ := List.mem_map.mp hx
    exact ⟨Nat.zero_le _, p.toNat_lt⟩)
  rw [List.length_map] at hlen
  exact Nat.lt_of_le_of_lt hlen (by decide)

end SortedSet

namespace SortedMap

variable {κ ν : Type} [Key κ] [DecidableEq κ]

theorem get?_gather {l : List (κ × ν)} (hl : (l.map Prod.fst).Nodup) (m : SortedMap κ ν) (k : κ) :
    (l.foldl (fun (m : SortedMap κ ν) p => m.insert p.1 p.2) m).get? k = (find k l).or (m.get? k) := by
  induction l generalizing m with
  | nil => rfl
  | cons e l ih =>
    obtain ⟨k', v⟩ := e
    rw [List.map_cons, List.nodup_cons] at hl
    rw [List.foldl_cons, ih hl.2, get?_insert, find]
    by_cases hk : k' = k
    · have hnone : find k l = none := find_eq_none_iff.mpr (hk ▸ hl.1)
      rw [hnone, if_pos hk, if_pos hk.symm]
      rfl
    · rw [if_neg hk, if_neg (Ne.symm hk)]

/-- Listing a map and gathering the list gives the map back. -/
@[simp] theorem ofList_toList (m : SortedMap κ ν) : ofList m.toList = m := by
  apply ext
  intro k
  have hnodup : (m.toList.map Prod.fst).Nodup := m.ordered.imp fun h => Key.ne_of_below h
  rw [ofList, get?_gather hnodup, get?_empty, Option.or_none]
  rfl

end SortedMap

/-- The lengths within an entry are written under counts of 64 bits. -/
def Entry.Fits (e : Entry) : Prop :=
  e.key.length < UInt64.size ∧ e.value.length < UInt64.size

/-- The lengths within a page are written under counts of 64 bits. -/
def Supply.Fits (s : Supply) : Prop :=
  ∀ x ∈ s.entries.toList, x.2.length < UInt64.size ∧ ∀ e ∈ x.2, e.Fits

namespace Wire

theorem reads_partitions (ps : SortedSet PartitionId) : Reads getPartitions (putPartitions ps) ps := by
  have h := (reads_list ps.length_lt fun p _ => reads_u32 p).map SortedSet.ofList
  rwa [SortedSet.ofList_toList] at h

-- ============================================================================
-- Messages
-- ============================================================================

theorem reads_role (r : Role) : Reads getRole (putRole r) r := by
  cases r with
  | demand => exact (reads_u32 0).bind (reads_pure Role.demand)
  | supply => exact (reads_u32 1).bind (reads_pure Role.supply)

theorem reads_topic (t : Topic) : Reads getTopic (putTopic t) t := by
  rw [putTopic, List.append_assoc]
  exact (reads_role _).bind ((reads_u32 _).bind ((reads_u64 _).map (Topic.mk t.role t.dataset)))

theorem reads_topology (t : Topology) : Reads getTopology (putTopology t) t :=
  (reads_u64 _).bind ((reads_u32 _).map (Topology.mk t.major))

theorem reads_revision (r : Revision) : Reads getRevision (putRevision r) r :=
  (reads_u64 _).bind ((reads_u32 _).map (Revision.mk r.order))

theorem reads_entry {e : Entry} (h : e.Fits) : Reads getEntry (putEntry e) e := by
  simp only [putEntry, List.append_assoc]
  exact (reads_bytes h.1).bind ((reads_bytes h.2).bind ((reads_revision _).bind
    ((reads_option fun d _ => reads_span d).bind ((reads_option fun t _ => reads_u64 t).bind
      ((reads_flag _).map (Entry.mk e.key e.value e.revision e.ttl e.expiresAt))))))

theorem reads_partitionEntries {x : PartitionId × List Entry} (hl : x.2.length < UInt64.size)
    (h : ∀ e ∈ x.2, e.Fits) :
    Reads getPartitionEntries (putU32 x.1 ++ putList putEntry x.2) x :=
  (reads_u32 _).bind ((reads_list hl fun e he => reads_entry (h e he)).map (Prod.mk x.1))

theorem reads_entries {s : Supply} (h : s.Fits) :
    Reads getEntries (putEntries s.entries) s.entries := by
  have hlen : s.entries.toList.length < UInt64.size := by
    have hkeys := s.entries.keys.length_lt
    rwa [SortedMap.keys, List.length_map] at hkeys
  have hl := reads_list hlen fun x hx => reads_partitionEntries (h x hx).1 (h x hx).2
  have hm := hl.map SortedMap.ofList
  rwa [SortedMap.ofList_toList] at hm

theorem reads_demand (d : Demand) : Reads getDemand (putDemand d) d := by
  simp only [putDemand, List.append_assoc]
  exact (reads_partitions _).bind ((reads_topology _).bind ((reads_span _).bind
    ((reads_u64 _).bind ((reads_option fun t _ => reads_topic t).map
      (Demand.mk d.partitions d.topology d.timeout d.batchSize)))))

/-- A page is read back if its text, where it has one, is. -/
theorem reads_supply {s : Supply} (h : s.Fits)
    (ht : ∀ t, s.classFault = some t → Reads getText (putText t) t) :
    Reads getSupply (putSupply s) s := by
  simp only [putSupply, List.append_assoc]
  exact (reads_u64 _).bind ((reads_entries h).bind ((reads_partitions _).bind
    ((reads_partitions _).bind ((reads_option ht).map (Supply.mk s.worker s.entries s.last s.missed)))))

theorem decode_encode {m : Message} (h : Reads getMessage (putMessage m) m) :
    decode (encode m) = .ok m := by
  have hversion : getU16 (encode m) = .ok (version, putMessage m) :=
    reads_u16 version (putMessage m)
  have hbody : getMessage (putMessage m) = .ok (m, []) := by
    have hm := h []
    rwa [List.append_nil] at hm
  simp only [decode, hversion, if_pos, hbody]

/-- A demand that was sent arrives as it was. -/
theorem decode_encode_demand (d : Demand) : decode (encode (.demand d)) = .ok (.demand d) :=
  decode_encode ((reads_u32 0).bind ((reads_demand d).map Message.demand))

/-- A page without a text arrives as it was. -/
theorem decode_encode_supply {s : Supply} (h : s.Fits) (hc : s.classFault = none) :
    decode (encode (.supply s)) = .ok (.supply s) := by
  have hs : Reads getSupply (putSupply s) s := reads_supply h fun t ht => by
    rw [hc] at ht
    cases ht
  exact decode_encode ((reads_u32 1).bind (hs.map Message.supply))

end Wire
end Rebalance
