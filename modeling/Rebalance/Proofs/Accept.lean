/-
  Rebalance.Proofs.Accept

  Which bytes a reader accepts.  A layout turns values into bytes; `Accepts`
  says that a reader reads exactly the bytes that begin with the layout of some
  value, and what it makes of that value, and `Unambiguous` that no bytes begin
  with the layouts of two values.  Both are composed as readers are: one after
  another (`Accepts.seq`), by taking values apart (`of_parts`), under a count, as
  an option.
-/
import Mathlib.Data.List.Forall2
import Rebalance.Proofs.Utf8
import Rebalance.Proofs.Wire

namespace Rebalance
namespace Wire

-- ============================================================================
-- Layouts and the readers that accept them
-- ============================================================================

/-- The reader reads exactly the bytes that begin with the layout of some value, as what that
    value means. -/
def Accepts {ρ α : Type} (get : Reader α) (layout : ρ → Bytes) (means : ρ → α → Prop) : Prop :=
  ∀ bs a rest, get bs = .ok (a, rest) ↔ ∃ x, means x a ∧ bs = layout x ++ rest

/-- No bytes begin with the layouts of two values. -/
def Unambiguous {ρ : Type} (layout : ρ → Bytes) : Prop :=
  ∀ x y rest rest', layout x ++ rest = layout y ++ rest' → x = y ∧ rest = rest'

section Generic

variable {ρ α β : Type} {get : Reader α} {layout : ρ → Bytes} {means : ρ → α → Prop}
  {bs rest : Bytes} {a b : α} {c : β}

theorem bind_eq_ok_iff {f : α → Reader β} :
    (get >>= f) bs = .ok (c, rest) ↔ ∃ a mid, get bs = .ok (a, mid) ∧ f a mid = .ok (c, rest) := by
  rw [bind_apply]
  cases get bs with
  | error e => simp
  | ok x =>
    obtain ⟨a, mid⟩ := x
    simp

theorem pure_eq_ok_iff : (pure a : Reader α) bs = .ok (b, rest) ↔ a = b ∧ bs = rest := by
  change (Except.ok (a, bs) : Except Malformed (α × Bytes)) = .ok (b, rest) ↔ _
  rw [Except.ok.injEq, Prod.mk.injEq]

theorem fail_ne_ok {e : Malformed} : (Reader.fail e : Reader α) bs ≠ .ok (a, rest) := nofun

/-- A reader reads one thing, so what it accepts as itself is laid out in one way. -/
theorem Accepts.unambiguous {layout : α → Bytes} (h : Accepts get layout Eq) :
    Unambiguous layout := by
  intro x y rest rest' heq
  have hx : get (layout x ++ rest) = .ok (x, rest) := (h _ _ _).mpr ⟨x, rfl, rfl⟩
  have hy : get (layout x ++ rest) = .ok (y, rest') := (h _ _ _).mpr ⟨y, rfl, heq⟩
  rw [hx, Except.ok.injEq, Prod.mk.injEq] at hy
  exact hy

/-- What is read is turned into another value. -/
theorem Accepts.map (h : Accepts get layout means) (f : α → β) :
    Accepts (get >>= fun a => pure (f a)) layout fun x b => ∃ a, means x a ∧ f a = b := by
  intro bs b rest
  rw [bind_eq_ok_iff]
  simp only [pure_eq_ok_iff, h bs]
  constructor
  · rintro ⟨a, mid, ⟨x, hx, rfl⟩, rfl, rfl⟩
    exact ⟨x, ⟨a, hx, rfl⟩, rfl⟩
  · rintro ⟨x, ⟨a, hx, rfl⟩, rfl⟩
    exact ⟨a, rest, ⟨x, hx, rfl⟩, rfl, rfl⟩

variable {σ : Type} {layout' : σ → Bytes}

/-- Two values laid out one after the other. -/
def pairLayout (layout : ρ → Bytes) (layout' : σ → Bytes) (x : ρ × σ) : Bytes :=
  layout x.1 ++ layout' x.2

/-- One reader after another accepts the two layouts one after the other. -/
theorem Accepts.seq {f : α → Reader β} {means' : α → σ → β → Prop} (h : Accepts get layout means)
    (hf : ∀ a, Accepts (f a) layout' (means' a)) :
    Accepts (get >>= f) (pairLayout layout layout') fun x b => ∃ a, means x.1 a ∧ means' a x.2 b := by
  intro bs b rest
  rw [bind_eq_ok_iff]
  simp only [h bs, fun a mid => hf a mid b rest]
  constructor
  · rintro ⟨a, mid, ⟨x, hx, rfl⟩, y, hy, rfl⟩
    exact ⟨(x, y), ⟨a, hx, hy⟩, (List.append_assoc _ _ _).symm⟩
  · rintro ⟨⟨x, y⟩, ⟨a, hx, hy⟩, rfl⟩
    exact ⟨a, layout' y ++ rest, ⟨x, hx, List.append_assoc _ _ _⟩, y, hy, rfl⟩

/-- The values laid out may be taken apart in another way. -/
theorem Accepts.of_parts {means' : σ → α → Prop} (h : Accepts get layout means) (parts : σ → ρ)
    (hsurj : ∀ x, ∃ y, parts y = x) (hlayout : ∀ y, layout' y = layout (parts y))
    (hmeans : ∀ y a, means' y a ↔ means (parts y) a) : Accepts get layout' means' := by
  intro bs a rest
  rw [h bs a rest]
  constructor
  · rintro ⟨x, hx, rfl⟩
    obtain ⟨y, rfl⟩ := hsurj x
    exact ⟨y, (hmeans y a).mpr hx, by rw [hlayout]⟩
  · rintro ⟨y, hy, rfl⟩
    exact ⟨parts y, (hmeans y a).mp hy, by rw [hlayout]⟩

theorem Unambiguous.pair (h : Unambiguous layout) (h' : Unambiguous layout') :
    Unambiguous (pairLayout layout layout') := by
  rintro ⟨x, x'⟩ ⟨y, y'⟩ rest rest' heq
  rw [pairLayout, pairLayout, List.append_assoc, List.append_assoc] at heq
  obtain ⟨rfl, hmore⟩ := h _ _ _ _ heq
  obtain ⟨rfl, hrest⟩ := h' _ _ _ _ hmore
  exact ⟨rfl, hrest⟩

theorem Unambiguous.of_parts (h : Unambiguous layout) (parts : σ → ρ)
    (hinj : ∀ x y, parts x = parts y → x = y) (hlayout : ∀ y, layout' y = layout (parts y)) :
    Unambiguous layout' := by
  intro x y rest rest' heq
  rw [hlayout, hlayout] at heq
  obtain ⟨hparts, hrest⟩ := h _ _ _ _ heq
  exact ⟨hinj x y hparts, hrest⟩

end Generic

-- ============================================================================
-- Numbers
-- ============================================================================

theorem getWord_eq_ok_iff {n v : Nat} {bs rest : Bytes} :
    getWord n bs = .ok (v, rest) ↔ v < 256 ^ n ∧ bs = putWord n v ++ rest := by
  refine ⟨fun h => ?_, fun h => h.2 ▸ reads_word h.1 rest⟩
  induction n generalizing v bs with
  | zero =>
    obtain ⟨rfl, rfl⟩ := pure_eq_ok_iff.mp h
    exact ⟨Nat.one_pos, rfl⟩
  | succ n ih =>
    cases bs with
    | nil => cases h
    | cons b bs =>
      rw [getWord] at h
      cases hrest : getWord n bs with
      | error e =>
        simp only [hrest] at h
        cases h
      | ok x =>
        obtain ⟨high, rest'⟩ := x
        simp only [hrest, Except.ok.injEq, Prod.mk.injEq] at h
        obtain ⟨rfl, rfl⟩ := h
        obtain ⟨hlt, rfl⟩ := ih hrest
        have hb : b.toNat < 256 := b.toNat_lt
        have hlow : (b.toNat + 256 * high) % 256 = b.toNat := by omega
        have hhigh : (b.toNat + 256 * high) / 256 = high := by omega
        refine ⟨?_, ?_⟩
        · rw [Nat.pow_succ]
          omega
        · rw [putWord, hlow, hhigh, UInt8.ofNat_toNat]
          rfl

/-- A number that is written as a word of so many bytes, which hold it. -/
theorem accepts_number {α : Type} {n : Nat} {ofNat : Nat → α} {toNat : α → Nat}
    (hlt : ∀ x, toNat x < 256 ^ n) (hof : ∀ x, ofNat (toNat x) = x)
    (hto : ∀ v, v < 256 ^ n → toNat (ofNat v) = v) :
    Accepts (getWord n >>= fun v => pure (ofNat v)) (fun x => putWord n (toNat x)) Eq := by
  intro bs x rest
  rw [bind_eq_ok_iff]
  constructor
  · rintro ⟨v, mid, hv, hx⟩
    obtain ⟨rfl, rfl⟩ := pure_eq_ok_iff.mp hx
    obtain ⟨hword, rfl⟩ := getWord_eq_ok_iff.mp hv
    refine ⟨_, rfl, ?_⟩
    change _ = putWord n (toNat (ofNat v)) ++ _
    rw [hto v hword]
  · rintro ⟨_, rfl, rfl⟩
    exact ⟨_, rest, getWord_eq_ok_iff.mpr ⟨hlt _, rfl⟩, pure_eq_ok_iff.mpr ⟨hof _, rfl⟩⟩

theorem accepts_u16 : Accepts getU16 putU16 Eq :=
  accepts_number UInt16.toNat_lt (fun _ => UInt16.ofNat_toNat) fun _ => UInt16.toNat_ofNat_of_lt'

theorem accepts_u32 : Accepts getU32 putU32 Eq :=
  accepts_number UInt32.toNat_lt (fun _ => UInt32.ofNat_toNat) fun _ => UInt32.toNat_ofNat_of_lt'

theorem accepts_u64 : Accepts getU64 putU64 Eq :=
  accepts_number UInt64.toNat_lt (fun _ => UInt64.ofNat_toNat) fun _ => UInt64.toNat_ofNat_of_lt'

theorem getByte_eq_ok_iff {b : UInt8} {bs rest : Bytes} :
    getByte bs = .ok (b, rest) ↔ bs = b :: rest := by
  refine ⟨fun h => ?_, fun h => h ▸ reads_byte b rest⟩
  cases bs with
  | nil => cases h
  | cons x xs =>
    have hx : getByte (x :: xs) = .ok (x, xs) := reads_byte x xs
    rw [hx, Except.ok.injEq, Prod.mk.injEq] at h
    rw [h.1, h.2]

-- ============================================================================
-- Flags, options, lists and texts
-- ============================================================================

theorem accepts_flag : Accepts getFlag putFlag Eq := by
  intro bs f rest
  refine ⟨fun h => ?_, fun ⟨x, hx, h⟩ => hx ▸ h ▸ reads_flag x rest⟩
  obtain ⟨b, mid, hb, hf⟩ := bind_eq_ok_iff.mp h
  obtain rfl := getByte_eq_ok_iff.mp hb
  split at hf
  · next hzero =>
    obtain ⟨rfl, rfl⟩ := pure_eq_ok_iff.mp hf
    exact ⟨false, rfl, hzero ▸ rfl⟩
  · split at hf
    · next hone =>
      obtain ⟨rfl, rfl⟩ := pure_eq_ok_iff.mp hf
      exact ⟨true, rfl, hone ▸ rfl⟩
    · exact absurd hf fail_ne_ok

/-- A list that is no longer than its count, of 64 bits, can say. -/
abbrev Counted (α : Type) := { l : List α // l.length < UInt64.size }

/-- A text whose bytes are no more than their count can say. -/
abbrev CountedText := { s : String // (Utf8.encode s).length < UInt64.size }

section Generic

variable {ρ α : Type} {get : Reader α} {layout : ρ → Bytes} {means : ρ → α → Prop}

theorem accepts_option (h : Accepts get layout means) :
    Accepts (getOption get) (putOption layout) (Option.Rel means) := by
  intro bs o rest
  unfold getOption
  rw [bind_eq_ok_iff]
  constructor
  · rintro ⟨b, mid, hb, ho⟩
    obtain rfl := getByte_eq_ok_iff.mp hb
    split at ho
    · next hzero =>
      obtain ⟨rfl, rfl⟩ := pure_eq_ok_iff.mp ho
      exact ⟨none, .none, hzero ▸ rfl⟩
    · split at ho
      · next hone =>
        obtain ⟨a, mid', ha, hsome⟩ := bind_eq_ok_iff.mp ho
        obtain ⟨rfl, rfl⟩ := pure_eq_ok_iff.mp hsome
        obtain ⟨x, hx, rfl⟩ := (h _ _ _).mp ha
        exact ⟨some x, .some hx, hone ▸ rfl⟩
      · exact absurd ho fail_ne_ok
  · rintro ⟨x, hx, rfl⟩
    cases hx with
    | none => exact ⟨0, rest, getByte_eq_ok_iff.mpr rfl, rfl⟩
    | @some x a hx =>
      have ha : get (layout x ++ rest) = .ok (a, rest) := (h _ _ _).mpr ⟨x, hx, rfl⟩
      exact ⟨1, layout x ++ rest, getByte_eq_ok_iff.mpr rfl,
        bind_eq_ok_iff.mpr ⟨a, rest, ha, rfl⟩⟩

theorem many_eq_ok_iff (h : Accepts get layout means) {n : Nat} {as : List α} {bs rest : Bytes} :
    Reader.many get n bs = .ok (as, rest) ↔
      ∃ l : List ρ, l.length = n ∧ List.Forall₂ means l as ∧ bs = l.flatMap layout ++ rest := by
  induction n generalizing as bs with
  | zero =>
    constructor
    · intro hm
      obtain ⟨rfl, rfl⟩ := pure_eq_ok_iff.mp hm
      exact ⟨[], rfl, .nil, rfl⟩
    · rintro ⟨l, hl, hall, rfl⟩
      obtain rfl := List.length_eq_zero_iff.mp hl
      cases hall
      rfl
  | succ n ih =>
    rw [Reader.many, bind_eq_ok_iff]
    constructor
    · rintro ⟨a, mid, ha, hrest⟩
      obtain ⟨as', mid', hm, hcons⟩ := bind_eq_ok_iff.mp hrest
      obtain ⟨rfl, rfl⟩ := pure_eq_ok_iff.mp hcons
      obtain ⟨x, hx, rfl⟩ := (h _ _ _).mp ha
      obtain ⟨l, rfl, hall, rfl⟩ := ih.mp hm
      exact ⟨x :: l, rfl, .cons hx hall, by rw [List.flatMap_cons, List.append_assoc]⟩
    · rintro ⟨l, hl, hall, rfl⟩
      cases hall with
      | nil => cases hl
      | @cons x a l as hx hall =>
        rw [List.flatMap_cons, List.append_assoc]
        refine ⟨a, _, (h _ _ _).mpr ⟨x, hx, rfl⟩, bind_eq_ok_iff.mpr ⟨as, rest, ih.mpr ?_, rfl⟩⟩
        exact ⟨l, Nat.succ.inj hl, hall, rfl⟩

/-- A counted list as its count and its items. -/
def putCounted (layout : ρ → Bytes) (l : Counted ρ) : Bytes := putList layout l.val

theorem accepts_counted (h : Accepts get layout means) :
    Accepts (getList get) (putCounted layout) fun l as => List.Forall₂ means l.val as := by
  intro bs as rest
  unfold getList
  rw [bind_eq_ok_iff]
  constructor
  · rintro ⟨n, mid, hn, hm⟩
    obtain ⟨hlt, rfl⟩ := getWord_eq_ok_iff.mp hn
    obtain ⟨l, rfl, hall, rfl⟩ := (many_eq_ok_iff h).mp hm
    exact ⟨⟨l, hlt⟩, hall, (List.append_assoc _ _ _).symm⟩
  · rintro ⟨⟨l, hlt⟩, hall, rfl⟩
    refine ⟨l.length, l.flatMap layout ++ rest, getWord_eq_ok_iff.mpr ⟨hlt, ?_⟩,
      (many_eq_ok_iff h).mpr ⟨l, rfl, hall, rfl⟩⟩
    rw [putCounted, putList, List.append_assoc]

/-- A number of 64 bits and what follows it can be told apart. -/
theorem word_inj {m n : Nat} (hm : m < UInt64.size) (hn : n < UInt64.size) {rest rest' : Bytes}
    (h : putWord 8 m ++ rest = putWord 8 n ++ rest') : m = n ∧ rest = rest' := by
  have hread : getWord 8 (putWord 8 m ++ rest) = .ok (m, rest) := reads_word hm rest
  have hread' : getWord 8 (putWord 8 m ++ rest) = .ok (n, rest') := h ▸ reads_word hn rest'
  rw [hread, Except.ok.injEq, Prod.mk.injEq] at hread'
  exact hread'

/-- As many items laid out one after another can be told apart. -/
theorem items_inj (h : Unambiguous layout) {l m : List ρ} {rest rest' : Bytes}
    (hlen : l.length = m.length) (heq : l.flatMap layout ++ rest = m.flatMap layout ++ rest') :
    l = m ∧ rest = rest' := by
  induction l generalizing m with
  | nil =>
    obtain rfl := List.length_eq_zero_iff.mp hlen.symm
    exact ⟨rfl, heq⟩
  | cons x l ih =>
    cases m with
    | nil => cases hlen
    | cons y m =>
      rw [List.flatMap_cons, List.flatMap_cons, List.append_assoc, List.append_assoc] at heq
      obtain ⟨rfl, hmore⟩ := h _ _ _ _ heq
      obtain ⟨rfl, hrest⟩ := ih (Nat.succ.inj hlen) hmore
      exact ⟨rfl, hrest⟩

theorem unambiguous_counted (h : Unambiguous layout) : Unambiguous (putCounted layout) := by
  rintro ⟨l, hl⟩ ⟨m, hm⟩ rest rest' heq
  rw [putCounted, putCounted, putList, putList, List.append_assoc, List.append_assoc] at heq
  obtain ⟨hlen, heq⟩ := word_inj hl hm heq
  obtain ⟨rfl, hrest⟩ := items_inj h hlen heq
  exact ⟨rfl, hrest⟩

theorem unambiguous_option (h : Unambiguous layout) : Unambiguous (putOption layout) := by
  intro x y rest rest' heq
  cases x with
  | none =>
    cases y with
    | none => exact ⟨rfl, (List.cons.inj heq).2⟩
    | some y => exact absurd (List.cons.inj heq).1 (by decide)
  | some x =>
    cases y with
    | none => exact absurd (List.cons.inj heq).1 (by decide)
    | some y =>
      obtain ⟨rfl, hrest⟩ := h x y rest rest' (List.cons.inj heq).2
      exact ⟨rfl, hrest⟩

end Generic

theorem getBytes_eq_ok_iff {bs v rest : Bytes} :
    getBytes bs = .ok (v, rest) ↔ v.length < UInt64.size ∧ bs = putBytes v ++ rest := by
  refine ⟨fun h => ?_, fun h => h.2 ▸ reads_bytes h.1 rest⟩
  obtain ⟨n, mid, hn, ht⟩ := bind_eq_ok_iff.mp h
  obtain ⟨hlt, rfl⟩ := getWord_eq_ok_iff.mp hn
  unfold takeBytes at ht
  split at ht
  · next hle =>
    rw [Except.ok.injEq, Prod.mk.injEq] at ht
    obtain ⟨rfl, rfl⟩ := ht
    have hlen : (mid.take n).length = n := List.length_take_of_le hle
    refine ⟨hlen.symm ▸ hlt, ?_⟩
    rw [putBytes, hlen, List.append_assoc, List.take_append_drop]
  · cases ht

theorem accepts_bytes : Accepts getBytes (fun l : Counted UInt8 => putBytes l.val) fun l v => l.val = v := by
  intro bs v rest
  rw [getBytes_eq_ok_iff]
  constructor
  · rintro ⟨hlt, rfl⟩
    exact ⟨⟨v, hlt⟩, rfl, rfl⟩
  · rintro ⟨⟨l, hlt⟩, rfl, rfl⟩
    exact ⟨hlt, rfl⟩

theorem accepts_text : Accepts getText (fun t : CountedText => putText t.val) fun t s => t.val = s := by
  intro bs s rest
  unfold getText
  rw [bind_eq_ok_iff]
  constructor
  · rintro ⟨v, mid, hv, hs⟩
    obtain ⟨hlt, rfl⟩ := getBytes_eq_ok_iff.mp hv
    cases hd : Utf8.decode v with
    | error e =>
      simp only [hd] at hs
      exact absurd hs fail_ne_ok
    | ok t =>
      simp only [hd] at hs
      obtain ⟨rfl, rfl⟩ := pure_eq_ok_iff.mp hs
      obtain rfl := Utf8.decode_eq_ok_iff.mp hd
      exact ⟨⟨t, hlt⟩, rfl, rfl⟩
  · rintro ⟨⟨t, hlt⟩, rfl, rfl⟩
    refine ⟨Utf8.encode t, rest, getBytes_eq_ok_iff.mpr ⟨hlt, rfl⟩, ?_⟩
    simp only [Utf8.decode_eq_ok_iff.mpr rfl]
    rfl

theorem unambiguous_bytes : Unambiguous fun l : Counted UInt8 => putBytes l.val := by
  rintro ⟨l, hl⟩ ⟨m, hm⟩ rest rest' heq
  have hread : getBytes (putBytes l ++ rest) = .ok (l, rest) := reads_bytes hl rest
  have hread' : getBytes (putBytes l ++ rest) = .ok (m, rest') := heq ▸ reads_bytes hm rest'
  rw [hread, Except.ok.injEq, Prod.mk.injEq] at hread'
  obtain ⟨rfl, hrest⟩ := hread'
  exact ⟨rfl, hrest⟩

theorem unambiguous_text : Unambiguous fun t : CountedText => putText t.val := by
  rintro ⟨t, ht⟩ ⟨u, hu⟩ rest rest' heq
  obtain ⟨hbytes, hrest⟩ := unambiguous_bytes ⟨_, ht⟩ ⟨_, hu⟩ rest rest' heq
  -- Texts with the same bytes are both read from them.
  have hsame : Utf8.encode t = Utf8.encode u := congrArg Subtype.val hbytes
  have htext := (Utf8.decode_eq_ok_iff.mpr hsame).symm.trans (Utf8.decode_eq_ok_iff.mpr rfl)
  exact ⟨Subtype.ext (Except.ok.inj htext).symm, hrest⟩

end Wire
end Rebalance
