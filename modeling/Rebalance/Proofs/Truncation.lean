/-
  Rebalance.Proofs.Truncation

  What becomes of a message that is cut short.  A reader is patient if what it
  makes of some bytes stands whatever comes after them, unless it ran out of
  bytes; readers made of patient ones are patient.  So a decoder that is given
  less than a whole message says that the bytes ended, or has read a message
  already; and the latter cannot be, as the bytes of a message are laid out in
  one way.
-/
import Rebalance.Proofs.RoundTrip

namespace Rebalance
namespace Wire

/-- The bytes ended before what was to be read did. -/
def Malformed.RanOut (e : Malformed) : Prop := e = .endOfInput ∨ e = .shortPayload

/-- What the reader makes of some bytes stands whatever comes after them, unless it ran out of
    bytes. -/
structure Patient {α : Type} (get : Reader α) : Prop where
  ok {bs rest : Bytes} {a : α} (h : get bs = .ok (a, rest)) (more : Bytes) :
    get (bs ++ more) = .ok (a, rest ++ more)
  error {bs : Bytes} {e : Malformed} (h : get bs = .error e) (more : Bytes) :
    e.RanOut ∨ get (bs ++ more) = .error e

-- ============================================================================
-- Composition
-- ============================================================================

section Generic

variable {α β : Type} {get : Reader α}

theorem patient_pure (a : α) : Patient (pure a : Reader α) where
  ok h more := by
    obtain ⟨rfl, rfl⟩ := pure_eq_ok_iff.mp h
    rfl
  error := by rintro bs e ⟨⟩

theorem patient_fail (e : Malformed) : Patient (Reader.fail e : Reader α) where
  ok h := absurd h fail_ne_ok
  error h _ := .inr h

theorem Patient.bind {f : α → Reader β} (h : Patient get) (hf : ∀ a, Patient (f a)) :
    Patient (get >>= f) where
  ok := by
    intro bs rest b hb more
    obtain ⟨a, mid, ha, hrest⟩ := bind_eq_ok_iff.mp hb
    exact bind_eq_ok_iff.mpr ⟨a, mid ++ more, h.ok ha more, (hf a).ok hrest more⟩
  error := by
    intro bs e he more
    rw [bind_apply] at he ⊢
    cases hget : get bs with
    | error e' =>
      rw [hget] at he
      obtain rfl := Except.error.inj he
      exact (h.error hget more).imp_right fun hmore => by rw [hmore]
    | ok x =>
      obtain ⟨a, mid⟩ := x
      rw [hget] at he
      rw [h.ok hget more]
      exact (hf a).error he more

theorem Patient.map (h : Patient get) (f : α → β) : Patient (get >>= fun a => pure (f a)) :=
  h.bind fun a => patient_pure (f a)

theorem Patient.ite {c : Prop} [Decidable c] {other : Reader α} (h : Patient get)
    (h' : Patient other) : Patient (if c then get else other) := by
  split
  · exact h
  · exact h'

theorem patient_many (h : Patient get) (n : Nat) : Patient (Reader.many get n) := by
  induction n with
  | zero => exact patient_pure []
  | succ n ih => exact h.bind fun a => ih.map (a :: ·)

end Generic

-- ============================================================================
-- Readers
-- ============================================================================

theorem patient_word (n : Nat) : Patient (getWord n) := by
  induction n with
  | zero => exact patient_pure 0
  | succ n ih =>
    constructor
    · intro bs rest v h more
      cases bs with
      | nil => cases h
      | cons b bs =>
        rw [List.cons_append, getWord]
        rw [getWord] at h
        cases hget : getWord n bs with
        | error e =>
          simp only [hget] at h
          cases h
        | ok x =>
          simp only [hget, Except.ok.injEq, Prod.mk.injEq] at h
          simp only [ih.ok hget more, h.1, h.2]
    · intro bs e h more
      cases bs with
      | nil => exact .inl (.inl (Except.error.inj h).symm)
      | cons b bs =>
        rw [List.cons_append, getWord]
        rw [getWord] at h
        cases hget : getWord n bs with
        | error e' =>
          simp only [hget, Except.error.injEq] at h
          exact (h ▸ ih.error hget more).imp_right fun hmore => by simp only [hmore]
        | ok x =>
          simp only [hget] at h
          cases h

theorem patient_take (n : Nat) : Patient (takeBytes n) where
  ok := by
    intro bs rest v h more
    unfold takeBytes at h ⊢
    split at h
    · next hle =>
      rw [Except.ok.injEq, Prod.mk.injEq] at h
      obtain ⟨rfl, rfl⟩ := h
      have hmore : n ≤ (bs ++ more).length := by
        rw [List.length_append]
        exact Nat.le_add_right_of_le hle
      rw [if_pos hmore, List.take_append_of_le_length hle, List.drop_append_of_le_length hle]
    · cases h
  error := by
    intro bs e h _
    unfold takeBytes at h
    split at h
    · cases h
    · exact .inl (.inr (Except.error.inj h).symm)

theorem patient_u16 : Patient getU16 := (patient_word 2).map UInt16.ofNat

theorem patient_u32 : Patient getU32 := (patient_word 4).map UInt32.ofNat

theorem patient_u64 : Patient getU64 := (patient_word 8).map UInt64.ofNat

theorem patient_byte : Patient getByte := (patient_word 1).map UInt8.ofNat

theorem patient_flag : Patient getFlag :=
  patient_byte.bind fun _ => (patient_pure false).ite ((patient_pure true).ite (patient_fail _))

theorem patient_option {α : Type} {get : Reader α} (h : Patient get) : Patient (getOption get) :=
  patient_byte.bind fun _ => (patient_pure none).ite ((h.map some).ite (patient_fail _))

theorem patient_list {α : Type} {get : Reader α} (h : Patient get) : Patient (getList get) :=
  (patient_word 8).bind (patient_many h)

theorem patient_bytes : Patient getBytes := (patient_word 8).bind patient_take

theorem patient_text : Patient getText := patient_bytes.bind fun bs => by
  split
  · exact patient_pure _
  · exact patient_fail _

theorem patient_span : Patient getSpan :=
  patient_u64.bind fun secs => patient_u32.bind fun nanos => by
    split
    · exact patient_pure _
    · exact patient_fail _

theorem patient_role : Patient getRole :=
  patient_u32.bind fun _ => (patient_pure _).ite ((patient_pure _).ite (patient_fail _))

theorem patient_topic : Patient getTopic :=
  patient_role.bind fun _ => patient_u32.bind fun _ => patient_u64.map _

theorem patient_topology : Patient getTopology := patient_u64.bind fun _ => patient_u32.map _

theorem patient_revision : Patient getRevision := patient_u64.bind fun _ => patient_u32.map _

theorem patient_partitions : Patient getPartitions := (patient_list patient_u32).map _

theorem patient_entry : Patient getEntry :=
  patient_bytes.bind fun _ => patient_bytes.bind fun _ => patient_revision.bind fun _ =>
    (patient_option patient_span).bind fun _ => (patient_option patient_u64).bind fun _ =>
      patient_flag.map _

theorem patient_entries : Patient getEntries :=
  (patient_list (patient_u32.bind fun _ => (patient_list patient_entry).map _)).map _

theorem patient_demand : Patient getDemand :=
  patient_partitions.bind fun _ => patient_topology.bind fun _ => patient_span.bind fun _ =>
    patient_u64.bind fun _ => (patient_option patient_topic).map _

theorem patient_supply : Patient getSupply :=
  patient_u64.bind fun _ => patient_entries.bind fun _ => patient_partitions.bind fun _ =>
    patient_partitions.bind fun _ => (patient_option patient_text).map _

theorem patient_message : Patient getMessage :=
  patient_u32.bind fun _ =>
    (patient_demand.map _).ite ((patient_supply.map _).ite (patient_fail _))

-- ============================================================================
-- Messages
-- ============================================================================

/-- The decoder says that the bytes ended. -/
def SaysCut (bs : Bytes) : Prop :=
  ∃ e : Malformed, e.RanOut ∧ decode bs = .error (.deserialization e.message)

/-- What is made of bytes stands whatever comes after them, unless they ended too soon. -/
theorem decode_append (bs more : Bytes) : SaysCut bs ∨ decode (bs ++ more) = decode bs := by
  cases hversion : getU16 bs with
  | error e =>
    refine (patient_u16.error hversion more).imp (fun hout => ⟨e, hout, ?_⟩) fun hmore => ?_
    · simp only [decode, hversion]
    · simp only [decode, hversion, hmore]
  | ok x =>
    obtain ⟨v, rest⟩ := x
    have hversion' := patient_u16.ok hversion more
    by_cases hv : v = version
    · cases hbody : getMessage rest with
      | error e =>
        refine (patient_message.error hbody more).imp (fun hout => ⟨e, hout, ?_⟩) fun hmore => ?_
        · simp only [decode, hversion, if_pos hv, hbody]
        · simp only [decode, hversion, hversion', if_pos hv, hbody, hmore]
      | ok y =>
        refine .inr ?_
        simp only [decode, hversion, hversion', if_pos hv, hbody, patient_message.ok hbody more]
    · refine .inr ?_
      simp only [decode, hversion, hversion', if_neg hv]

/-- Bytes that are read as a message do not come first in its encoding, unless they are all of it. -/
theorem rest_of_read {m : Message} {bs rest : Bytes} (h : decode bs = .ok m)
    (hcut : bs ++ rest = encode m) (hfits : m.Fits) : rest = [] := by
  obtain ⟨x, tail, -, rfl⟩ := decode_eq_ok_iff.mp h
  obtain ⟨y, -, -, hput⟩ := exists_written hfits
  have heq : (1 :: 0 :: (x.layout ++ (tail ++ rest)) : Bytes) = 1 :: 0 :: (y.layout ++ []) := by
    rw [List.append_nil, ← hput, ← hcut, List.cons_append, List.cons_append, List.append_assoc]
  exact (List.append_eq_nil_iff.mp (body_unique heq).2.symm).2

theorem decode_whole {m : Message} (h : m.Fits) : decode (encode m) = .ok m := by
  obtain ⟨x, -, hx, hput⟩ := exists_written h
  exact decode_eq_ok_iff.mpr ⟨x, [], hx, by rw [hput, List.append_nil]⟩

theorem not_saysCut_of_ok {m : Message} {bs : Bytes} (h : decode bs = .ok m) : ¬ SaysCut bs := by
  rintro ⟨e, -, herror⟩
  rw [h] at herror
  cases herror

/-- A message that is cut short anywhere is refused as bytes that ended too soon, and the bytes of a
    message come first in those of another one only if the two are the same. -/
theorem truncated_is_refused {m : Message} (h : m.Fits) :
    (∀ k < (encode m).length, SaysCut ((encode m).take k)) ∧
    ∀ (m' : Message) (rest : Bytes), m'.Fits → encode m ++ rest = encode m' → m = m' ∧ rest = [] := by
  have hm : decode (encode m) = .ok m := decode_whole h
  constructor
  · intro k hk
    refine (decode_append ((encode m).take k) ((encode m).drop k)).resolve_right fun hsame => ?_
    rw [List.take_append_drop, hm] at hsame
    have hdrop := rest_of_read hsame.symm (List.take_append_drop k (encode m)) h
    exact absurd (List.drop_eq_nil_iff.mp hdrop) (Nat.not_le_of_lt hk)
  · intro m' rest h' heq
    have hsame : decode (encode m') = decode (encode m) :=
      heq ▸ (decode_append (encode m) rest).resolve_left (not_saysCut_of_ok hm)
    rw [decode_whole h', hm] at hsame
    obtain rfl : m' = m := Except.ok.inj hsame
    exact ⟨rfl, rest_of_read hm heq h⟩

/-- A page with a partition that has no entries, and a reason. -/
def shortPage : Supply where
  worker := 1
  entries := SortedMap.ofList [(3, [])]
  missed := SortedSet.ofList [4]
  classFault := some "é"

/-- Cut after the count of no entries, within the two bytes of the reason, and before the version. -/
theorem short_page_is_refused :
    (Message.supply shortPage).Fits ∧ (encode (.supply shortPage)).length = 65 ∧
      SaysCut ((encode (.supply shortPage)).take 34) ∧
      SaysCut ((encode (.supply shortPage)).take 64) ∧ SaysCut [] ∧
      encode (.supply shortPage) ++ [] = encode (.supply shortPage) ∧
      Message.supply shortPage = .supply shortPage ∧ ([] : Bytes) = [] := by
  have hfits : (Message.supply shortPage).Fits := by
    refine ⟨?_, fun t ht => ?_⟩
    · rw [Supply.Fits, show shortPage.entries.toList = [(3, [])] from rfl]
      simp only [List.forall_mem_singleton, List.length_nil]
      exact ⟨by decide, fun e he => absurd he List.not_mem_nil⟩
    · obtain rfl := Option.some.inj ht
      decide
  obtain ⟨hcut, hsame⟩ := truncated_is_refused hfits
  have hlen : (encode (.supply shortPage)).length = 65 := by decide
  refine ⟨hfits, hlen, hcut 34 ?_, hcut 64 ?_, hcut 0 ?_, List.append_nil _,
    hsame _ [] hfits (List.append_nil _)⟩
  all_goals
    rw [hlen]
    decide

end Wire
end Rebalance
