/-
  Rebalance.Proofs.Utf8

  Reading text undoes writing it, and nothing but written text is read.
  `Completes` says which bytes a lead still asks for and which number they make
  of it; a scan takes one such group of bytes after another (`scan_between`),
  and the groups are exactly the written characters
  (`utf8EncodeChar_eq_iff`).
-/
import Rebalance.Wire.Utf8

namespace Rebalance
namespace Utf8

-- ============================================================================
-- What a scan takes for a character
-- ============================================================================

/-- The bytes that a lead still asks for, and the number that they complete it to. -/
inductive Completes : Lead → Bytes → Nat → Prop where
  | done {l : Lead} (h : l.owed = 0) : Completes l [] l.bits
  | next {l : Lead} {b : UInt8} {bs : Bytes} {v : Nat} (h : l.owed ≠ 0)
      (hb : l.low.toNat ≤ b.toNat ∧ b.toNat ≤ l.high.toNat)
      (t : Completes ⟨l.owed - 1, 0x80, 0xBF, l.bits * 64 + b.toNat % 64⟩ bs v) :
      Completes l (b :: bs) v

theorem completes_of_done {l : Lead} {bs : Bytes} {v : Nat} (h : l.owed = 0) :
    Completes l bs v ↔ bs = [] ∧ v = l.bits := by
  constructor
  · intro hc
    cases hc with
    | done => exact ⟨rfl, rfl⟩
    | next hmore => exact absurd h hmore
  · rintro ⟨rfl, rfl⟩
    exact .done h

theorem completes_of_owed {l : Lead} {bs : Bytes} {v : Nat} (h : l.owed ≠ 0) :
    Completes l bs v ↔
      ∃ b rest, bs = b :: rest ∧ (l.low.toNat ≤ b.toNat ∧ b.toNat ≤ l.high.toNat) ∧
        Completes ⟨l.owed - 1, 0x80, 0xBF, l.bits * 64 + b.toNat % 64⟩ rest v := by
  constructor
  · intro hc
    cases hc with
    | done hzero => exact absurd hzero h
    | next _ hb t => exact ⟨_, _, rfl, hb, t⟩
  · rintro ⟨b, rest, rfl, hb, t⟩
    exact .next h hb t

theorem map_eq_ok_iff {α β ε : Type} {f : α → β} {x : Except ε α} {b : β} :
    x.map f = .ok b ↔ ∃ a, x = .ok a ∧ f a = b := by
  cases x with
  | error e => simp [Except.map]
  | ok a => simp [Except.map]

/-- What completes a character that owes a byte begins with the next byte. -/
theorem Completes.uncons {s : State} {b : UInt8} {bs front rest : Bytes} {v : Nat}
    (hc : Completes s.lead front v) (h : s.lead.owed ≠ 0) (hbs : b :: bs = front ++ rest) :
    ∃ more, front = b :: more ∧ bs = more ++ rest ∧
      (s.lead.low.toNat ≤ b.toNat ∧ b.toNat ≤ s.lead.high.toNat) ∧
      Completes (s.extend b).lead more v := by
  obtain ⟨b', more, rfl, hb, t⟩ := (completes_of_owed h).mp hc
  obtain ⟨rfl, rfl⟩ := List.cons.inj hbs
  exact ⟨more, rfl, rfl, hb, t⟩

/-- Within a character a scan takes the bytes that complete it, and then the next character. -/
theorem scan_within {s : State} {bs : Bytes} {cs : List Char} (h : s.lead.owed ≠ 0) :
    scan s bs = .ok cs ↔ ∃ front rest v cs', bs = front ++ rest ∧ Completes s.lead front v ∧
      cs = Char.ofNat v :: cs' ∧
      scan (State.between (s.start + s.seen + front.length)) rest = .ok cs' := by
  induction bs generalizing s cs with
  | nil =>
    rw [scan, if_neg h]
    constructor
    · intro hscan
      cases hscan
    · rintro ⟨front, rest, v, cs', hbs, hc, -⟩
      obtain ⟨rfl, -⟩ := List.nil_eq_append_iff.mp hbs
      obtain ⟨b, more, hnil, -⟩ := (completes_of_owed h).mp hc
      cases hnil
  | cons b bs ih =>
    rw [scan, if_neg h]
    by_cases hb : s.lead.low.toNat ≤ b.toNat ∧ b.toNat ≤ s.lead.high.toNat
    · rw [if_pos hb]
      by_cases hlast : (s.extend b).lead.owed = 0
      · -- The byte is the last one of the character.
        simp only [if_pos hlast, map_eq_ok_iff]
        constructor
        · rintro ⟨cs', hscan, rfl⟩
          exact ⟨[b], bs, _, cs', rfl, .next h hb (.done hlast), rfl, hscan⟩
        · rintro ⟨front, rest, v, cs', hbs, hc, rfl, hscan⟩
          obtain ⟨more, rfl, rfl, -, t⟩ := hc.uncons h hbs
          obtain ⟨rfl, rfl⟩ := (completes_of_done hlast).mp t
          exact ⟨cs', hscan, rfl⟩
      · simp only [if_neg hlast, ih hlast]
        have hpos : ∀ n, (s.extend b).start + (s.extend b).seen + n = s.start + s.seen + (n + 1) := by
          intro n
          simp only [State.extend]
          omega
        constructor
        · rintro ⟨front, rest, v, cs', rfl, hc, rfl, hscan⟩
          rw [hpos] at hscan
          exact ⟨b :: front, rest, v, cs', rfl, .next h hb hc, rfl, hscan⟩
        · rintro ⟨front, rest, v, cs', hbs, hc, rfl, hscan⟩
          obtain ⟨more, rfl, rfl, -, t⟩ := hc.uncons h hbs
          rw [List.length_cons, ← hpos] at hscan
          exact ⟨more, rest, v, cs', rfl, t, rfl, hscan⟩
    · rw [if_neg hb]
      constructor
      · intro hscan
        cases hscan
      · rintro ⟨front, rest, v, cs', hbs, hc, -⟩
        obtain ⟨-, -, -, hb', -⟩ := hc.uncons h hbs
        exact absurd hb' hb

/-- Between characters a scan is at the end, or takes a lead and what completes it. -/
theorem scan_between {i : Nat} {bs : Bytes} {cs : List Char} :
    scan (State.between i) bs = .ok cs ↔ (bs = [] ∧ cs = []) ∨
      ∃ b l front rest v cs', bs = b :: (front ++ rest) ∧ lead? b = some l ∧
        Completes l front v ∧ cs = Char.ofNat v :: cs' ∧
        scan (State.between (i + 1 + front.length)) rest = .ok cs' := by
  have howed : (State.between i).lead.owed = 0 := rfl
  cases bs with
  | nil =>
    rw [scan, if_pos howed]
    simp [eq_comm]
  | cons b bs =>
    rw [scan, if_pos howed]
    cases hl : lead? b with
    | none =>
      constructor
      · intro hscan
        cases hscan
      · rintro (⟨hbs, -⟩ | ⟨b', l, front, rest, v, cs', hbs, hl', -⟩)
        · cases hbs
        · obtain ⟨rfl, -⟩ := List.cons.inj hbs
          cases hl.symm.trans hl'
    | some l =>
      simp only [reduceCtorEq, false_and, false_or]
      have honly : ∀ {b' l' front rest}, b :: bs = b' :: (front ++ rest) → lead? b' = some l' →
          b' = b ∧ l' = l ∧ bs = front ++ rest := by
        rintro b' l' front rest hbs hl'
        obtain ⟨rfl, rfl⟩ := List.cons.inj hbs
        exact ⟨rfl, Option.some.inj (hl'.symm.trans hl), rfl⟩
      by_cases hzero : l.owed = 0
      · simp only [if_pos hzero, map_eq_ok_iff]
        constructor
        · rintro ⟨cs', hscan, rfl⟩
          exact ⟨b, l, [], bs, l.bits, cs', rfl, hl, .done hzero, rfl, hscan⟩
        · rintro ⟨b', l', front, rest, v, cs', hbs, hl', hc, rfl, hscan⟩
          obtain ⟨rfl, rfl, rfl⟩ := honly hbs hl'
          obtain ⟨rfl, rfl⟩ := (completes_of_done hzero).mp hc
          exact ⟨cs', hscan, rfl⟩
      · simp only [if_neg hzero]
        rw [scan_within (s := { State.between i with seen := 1, lead := l }) hzero]
        constructor
        · rintro ⟨front, rest, v, cs', rfl, hc, rfl, hscan⟩
          exact ⟨b, l, front, rest, v, cs', rfl, hl, hc, rfl, hscan⟩
        · rintro ⟨b', l', front, rest, v, cs', hbs, hl', hc, rfl, hscan⟩
          obtain ⟨rfl, rfl, rfl⟩ := honly hbs hl'
          exact ⟨front, rest, v, cs', rfl, hc, rfl, hscan⟩

-- ============================================================================
-- Written characters
-- ============================================================================

/-- The written form of the character with a number. -/
def charBytes (v : Nat) : List Nat :=
  if v ≤ 0x7F then [v]
  else if v ≤ 0x7FF then [v / 64 % 32 + 192, v % 64 + 128]
  else if v ≤ 0xFFFF then [v / 4096 % 16 + 224, v / 64 % 64 + 128, v % 64 + 128]
  else [v / 262144 % 8 + 240, v / 4096 % 64 + 128, v / 64 % 64 + 128, v % 64 + 128]

theorem charBytes_ne_nil (v : Nat) : charBytes v ≠ [] := by
  unfold charBytes
  repeat' split
  all_goals exact List.cons_ne_nil _ _

theorem toNat_utf8EncodeChar (c : Char) :
    (String.utf8EncodeChar c).map UInt8.toNat = charBytes c.toNat := by
  have hvalid : c.toNat < 0x110000 := by
    rcases c.valid with h | ⟨-, h⟩
    · exact Nat.lt_trans h (by decide)
    · exact h
  have hbyte : ∀ n, n < 256 → (UInt8.ofNat n).toNat = n := fun n h => UInt8.toNat_ofNat_of_lt' h
  unfold String.utf8EncodeChar charBytes
  rw [show c.val.toNat = c.toNat from rfl]
  by_cases h₁ : c.toNat ≤ 0x7F
  · simp only [if_pos h₁, List.map_cons, List.map_nil]
    rw [hbyte _ (by omega)]
  · by_cases h₂ : c.toNat ≤ 0x7FF
    · simp only [if_neg h₁, if_pos h₂, List.map_cons, List.map_nil]
      rw [hbyte _ (by omega), hbyte _ (by omega)]
    · by_cases h₃ : c.toNat ≤ 0xFFFF
      · simp only [if_neg h₁, if_neg h₂, if_pos h₃, List.map_cons, List.map_nil]
        rw [hbyte _ (by omega), hbyte _ (by omega), hbyte _ (by omega)]
      · simp only [if_neg h₁, if_neg h₂, if_neg h₃, List.map_cons, List.map_nil]
        rw [hbyte _ (by omega), hbyte _ (by omega), hbyte _ (by omega), hbyte _ (by omega)]

/-- The first bytes of characters, with what they ask for. -/
theorem lead?_eq_some_iff {b : UInt8} {l : Lead} :
    lead? b = some l ↔
      (b.toNat ≤ 0x7F ∧ l = ⟨0, 0x80, 0xBF, b.toNat⟩) ∨
      ((0xC2 ≤ b.toNat ∧ b.toNat ≤ 0xDF) ∧ l = ⟨1, 0x80, 0xBF, b.toNat % 32⟩) ∨
      (b.toNat = 0xE0 ∧ l = ⟨2, 0xA0, 0xBF, 0⟩) ∨
      ((0xE1 ≤ b.toNat ∧ b.toNat ≤ 0xEF ∧ b.toNat ≠ 0xED) ∧ l = ⟨2, 0x80, 0xBF, b.toNat % 16⟩) ∨
      (b.toNat = 0xED ∧ l = ⟨2, 0x80, 0x9F, 13⟩) ∨
      (b.toNat = 0xF0 ∧ l = ⟨3, 0x90, 0xBF, 0⟩) ∨
      ((0xF1 ≤ b.toNat ∧ b.toNat ≤ 0xF3) ∧ l = ⟨3, 0x80, 0xBF, b.toNat % 8⟩) ∨
      (b.toNat = 0xF4 ∧ l = ⟨3, 0x80, 0x8F, 4⟩) := by
  unfold lead?
  grind

theorem completes_one {low high : UInt8} {bits v : Nat} {bs : Bytes} :
    Completes ⟨1, low, high, bits⟩ bs v ↔
      ∃ x, bs = [x] ∧ (low.toNat ≤ x.toNat ∧ x.toNat ≤ high.toNat) ∧
        v = bits * 64 + x.toNat % 64 := by
  rw [completes_of_owed (show 1 ≠ 0 by decide)]
  constructor
  · rintro ⟨x, rest, rfl, hx, t⟩
    obtain ⟨rfl, rfl⟩ := (completes_of_done rfl).mp t
    exact ⟨x, rfl, hx, rfl⟩
  · rintro ⟨x, rfl, hx, rfl⟩
    exact ⟨x, [], rfl, hx, .done rfl⟩

/-- A byte that is not the first one of its character. -/
def Trails (x : UInt8) : Prop := 0x80 ≤ x.toNat ∧ x.toNat ≤ 0xBF

theorem completes_two {low high : UInt8} {bits v : Nat} {bs : Bytes} :
    Completes ⟨2, low, high, bits⟩ bs v ↔
      ∃ x y, bs = [x, y] ∧ (low.toNat ≤ x.toNat ∧ x.toNat ≤ high.toNat) ∧ Trails y ∧
        v = (bits * 64 + x.toNat % 64) * 64 + y.toNat % 64 := by
  rw [completes_of_owed (show 2 ≠ 0 by decide)]
  simp only [Nat.add_one_sub_one, completes_one]
  constructor
  · rintro ⟨x, rest, rfl, hx, y, rfl, hy, rfl⟩
    exact ⟨x, y, rfl, hx, hy, rfl⟩
  · rintro ⟨x, y, rfl, hx, hy, rfl⟩
    exact ⟨x, [y], rfl, hx, y, rfl, hy, rfl⟩

theorem completes_three {low high : UInt8} {bits v : Nat} {bs : Bytes} :
    Completes ⟨3, low, high, bits⟩ bs v ↔
      ∃ x y z, bs = [x, y, z] ∧ (low.toNat ≤ x.toNat ∧ x.toNat ≤ high.toNat) ∧ Trails y ∧
        Trails z ∧
        v = ((bits * 64 + x.toNat % 64) * 64 + y.toNat % 64) * 64 + z.toNat % 64 := by
  rw [completes_of_owed (show 3 ≠ 0 by decide)]
  simp only [Nat.add_one_sub_one, completes_two]
  constructor
  · rintro ⟨x, rest, rfl, hx, y, z, rfl, hy, hz, rfl⟩
    exact ⟨x, y, z, rfl, hx, hy, hz, rfl⟩
  · rintro ⟨x, y, z, rfl, hx, hy, hz, rfl⟩
    exact ⟨x, [y, z], rfl, hx, y, z, rfl, hy, hz, rfl⟩

theorem charBytes_two {v : Nat} (h : 0x7F < v ∧ v ≤ 0x7FF) :
    charBytes v = [v / 64 % 32 + 192, v % 64 + 128] := by
  rw [charBytes, if_neg (by omega), if_pos h.2]

theorem charBytes_three {v : Nat} (h : 0x7FF < v ∧ v ≤ 0xFFFF) :
    charBytes v = [v / 4096 % 16 + 224, v / 64 % 64 + 128, v % 64 + 128] := by
  rw [charBytes, if_neg (by omega), if_neg (by omega), if_pos h.2]

theorem charBytes_four {v : Nat} (h : 0xFFFF < v) :
    charBytes v = [v / 262144 % 8 + 240, v / 4096 % 64 + 128, v / 64 % 64 + 128, v % 64 + 128] := by
  rw [charBytes, if_neg (by omega), if_neg (by omega), if_neg (by omega)]

/-- The bounds of the bytes that follow a lead. -/
theorem toNat_bounds : (0x80 : UInt8).toNat = 0x80 ∧ (0xA0 : UInt8).toNat = 0xA0 ∧
    (0x90 : UInt8).toNat = 0x90 ∧ (0xBF : UInt8).toNat = 0xBF ∧ (0x9F : UInt8).toNat = 0x9F ∧
    (0x8F : UInt8).toNat = 0x8F := ⟨rfl, rfl, rfl, rfl, rfl, rfl⟩

/-- Three bytes that are written: overlong forms and surrogates are ruled out by what may follow
    the lead. -/
theorem lead_of_three {v : Nat} (hv : v.isValidChar) (h : 0x7FF < v ∧ v ≤ 0xFFFF) {b x y : UInt8}
    (hb : v / 4096 % 16 + 224 = b.toNat) (hx : x.toNat = v / 64 % 64 + 128)
    (hy : y.toNat = v % 64 + 128) : ∃ l, lead? b = some l ∧ Completes l [x, y] v := by
  have hbounds := toNat_bounds
  have htrail : Trails y := ⟨by omega, by omega⟩
  unfold Nat.isValidChar at hv
  by_cases he0 : b.toNat = 0xE0
  · exact ⟨_, lead?_eq_some_iff.mpr (.inr (.inr (.inl ⟨he0, rfl⟩))),
      completes_two.mpr ⟨x, y, rfl, by omega, htrail, by omega⟩⟩
  · by_cases hed : b.toNat = 0xED
    · exact ⟨_, lead?_eq_some_iff.mpr (.inr (.inr (.inr (.inr (.inl ⟨hed, rfl⟩))))),
        completes_two.mpr ⟨x, y, rfl, by omega, htrail, by omega⟩⟩
    · exact ⟨_, lead?_eq_some_iff.mpr (.inr (.inr (.inr (.inl ⟨by omega, rfl⟩)))),
        completes_two.mpr ⟨x, y, rfl, by omega, htrail, by omega⟩⟩

/-- Four bytes that are written: overlong forms and numbers that are too large are ruled out. -/
theorem lead_of_four {v : Nat} (hv : v.isValidChar) (h : 0xFFFF < v) {b x y z : UInt8}
    (hb : v / 262144 % 8 + 240 = b.toNat) (hx : x.toNat = v / 4096 % 64 + 128)
    (hy : y.toNat = v / 64 % 64 + 128) (hz : z.toNat = v % 64 + 128) :
    ∃ l, lead? b = some l ∧ Completes l [x, y, z] v := by
  have hbounds := toNat_bounds
  have htrail : Trails y ∧ Trails z := ⟨⟨by omega, by omega⟩, ⟨by omega, by omega⟩⟩
  unfold Nat.isValidChar at hv
  by_cases hf0 : b.toNat = 0xF0
  · exact ⟨_, lead?_eq_some_iff.mpr (.inr (.inr (.inr (.inr (.inr (.inl ⟨hf0, rfl⟩)))))),
      completes_three.mpr ⟨x, y, z, rfl, by omega, htrail.1, htrail.2, by omega⟩⟩
  · by_cases hf4 : b.toNat = 0xF4
    · exact ⟨_, lead?_eq_some_iff.mpr (.inr (.inr (.inr (.inr (.inr (.inr (.inr ⟨hf4, rfl⟩))))))),
        completes_three.mpr ⟨x, y, z, rfl, by omega, htrail.1, htrail.2, by omega⟩⟩
    · exact ⟨_, lead?_eq_some_iff.mpr
        (.inr (.inr (.inr (.inr (.inr (.inr (.inl ⟨by omega, rfl⟩))))))),
        completes_three.mpr ⟨x, y, z, rfl, by omega, htrail.1, htrail.2, by omega⟩⟩

/-- Every written character is a lead with what completes it. -/
theorem lead_of_charBytes {v : Nat} (hv : v.isValidChar) {b : UInt8} {front : Bytes}
    (h : charBytes v = b.toNat :: front.map UInt8.toNat) :
    ∃ l, lead? b = some l ∧ Completes l front v := by
  have hbounds := toNat_bounds
  by_cases h₁ : v ≤ 0x7F
  · rw [charBytes, if_pos h₁] at h
    obtain ⟨hb, hfront⟩ := List.cons.inj h
    have hnil : front = [] := List.map_eq_nil_iff.mp hfront.symm
    exact ⟨_, lead?_eq_some_iff.mpr (.inl ⟨by omega, rfl⟩), (completes_of_done rfl).mpr ⟨hnil, hb⟩⟩
  by_cases h₂ : v ≤ 0x7FF
  · rw [charBytes_two ⟨by omega, h₂⟩] at h
    obtain ⟨hb, hfront⟩ := List.cons.inj h
    obtain ⟨x, xs, rfl, hx, hnil⟩ := List.map_eq_cons_iff.mp hfront.symm
    obtain rfl : xs = [] := List.map_eq_nil_iff.mp hnil
    exact ⟨_, lead?_eq_some_iff.mpr (.inr (.inl ⟨by omega, rfl⟩)),
      completes_one.mpr ⟨x, rfl, by omega, by omega⟩⟩
  by_cases h₃ : v ≤ 0xFFFF
  · rw [charBytes_three ⟨by omega, h₃⟩] at h
    obtain ⟨hb, hfront⟩ := List.cons.inj h
    obtain ⟨x, xs, rfl, hx, hmore⟩ := List.map_eq_cons_iff.mp hfront.symm
    obtain ⟨y, ys, rfl, hy, hnil⟩ := List.map_eq_cons_iff.mp hmore
    obtain rfl : ys = [] := List.map_eq_nil_iff.mp hnil
    exact lead_of_three hv ⟨by omega, h₃⟩ hb hx hy
  · rw [charBytes_four (by omega)] at h
    obtain ⟨hb, hfront⟩ := List.cons.inj h
    obtain ⟨x, xs, rfl, hx, hmore⟩ := List.map_eq_cons_iff.mp hfront.symm
    obtain ⟨y, ys, rfl, hy, hmore'⟩ := List.map_eq_cons_iff.mp hmore
    obtain ⟨z, zs, rfl, hz, hnil⟩ := List.map_eq_cons_iff.mp hmore'
    obtain rfl : zs = [] := List.map_eq_nil_iff.mp hnil
    exact lead_of_four hv (by omega) hb hx hy hz

/-- A lead that owes two bytes, with bounds for the first of them that rule out overlong forms and
    surrogates. -/
theorem charBytes_of_two {low high b : UInt8} {bits v : Nat} {front : Bytes}
    (hc : Completes ⟨2, low, high, bits⟩ front v)
    (hbounds : ∀ x : UInt8, low.toNat ≤ x.toNat ∧ x.toNat ≤ high.toNat →
      Trails x ∧ b.toNat = bits + 224 ∧ 0x20 ≤ bits * 64 + x.toNat % 64 ∧
        bits * 64 + x.toNat % 64 < 0x400 ∧
        (bits * 64 + x.toNat % 64 < 0x360 ∨ 0x380 ≤ bits * 64 + x.toNat % 64)) :
    v.isValidChar ∧ charBytes v = b.toNat :: front.map UInt8.toNat := by
  obtain ⟨x, y, rfl, hx, ⟨hy₁, hy₂⟩, rfl⟩ := completes_two.mp hc
  obtain ⟨⟨hx₁, hx₂⟩, hb, hlong, hless, hgap⟩ := hbounds x hx
  refine ⟨by unfold Nat.isValidChar; omega, ?_⟩
  rw [charBytes_three (by omega)]
  simp only [List.map_cons, List.map_nil, List.cons.injEq, and_true]
  refine ⟨by omega, by omega, by omega⟩

/-- A lead that owes three bytes, with bounds for the first of them that rule out overlong forms and
    numbers that are too large. -/
theorem charBytes_of_three {low high b : UInt8} {bits v : Nat} {front : Bytes}
    (hc : Completes ⟨3, low, high, bits⟩ front v)
    (hbounds : ∀ x : UInt8, low.toNat ≤ x.toNat ∧ x.toNat ≤ high.toNat →
      Trails x ∧ b.toNat = bits + 240 ∧ 0x10 ≤ bits * 64 + x.toNat % 64 ∧
        bits * 64 + x.toNat % 64 < 0x110) :
    v.isValidChar ∧ charBytes v = b.toNat :: front.map UInt8.toNat := by
  obtain ⟨x, y, z, rfl, hx, ⟨hy₁, hy₂⟩, ⟨hz₁, hz₂⟩, rfl⟩ := completes_three.mp hc
  obtain ⟨⟨hx₁, hx₂⟩, hb, hlong, hless⟩ := hbounds x hx
  refine ⟨by unfold Nat.isValidChar; omega, ?_⟩
  rw [charBytes_four (by omega)]
  simp only [List.map_cons, List.map_nil, List.cons.injEq, and_true]
  refine ⟨by omega, by omega, by omega, by omega⟩

/-- A lead with what completes it is a written character. -/
theorem charBytes_of_lead {b : UInt8} {l : Lead} {front : Bytes} {v : Nat}
    (hl : lead? b = some l) (hc : Completes l front v) :
    v.isValidChar ∧ charBytes v = b.toNat :: front.map UInt8.toNat := by
  have hbounds := toNat_bounds
  rcases lead?_eq_some_iff.mp hl with ⟨hb, rfl⟩ | ⟨hb, rfl⟩ | ⟨hb, rfl⟩ | ⟨hb, rfl⟩ | ⟨hb, rfl⟩ |
    ⟨hb, rfl⟩ | ⟨hb, rfl⟩ | ⟨hb, rfl⟩
  · obtain ⟨rfl, rfl⟩ := (completes_of_done rfl).mp hc
    exact ⟨by dsimp only [Nat.isValidChar]; omega, by rw [charBytes, if_pos hb]; rfl⟩
  · obtain ⟨x, rfl, hx, rfl⟩ := completes_one.mp hc
    refine ⟨by unfold Nat.isValidChar; omega, ?_⟩
    rw [charBytes_two (by omega)]
    simp only [List.map_cons, List.map_nil, List.cons.injEq, and_true]
    refine ⟨by omega, by omega⟩
  · exact charBytes_of_two hc fun x hx => by unfold Trails; omega
  · exact charBytes_of_two hc fun x hx => by unfold Trails; omega
  · exact charBytes_of_two hc fun x hx => by unfold Trails; omega
  · exact charBytes_of_three hc fun x hx => by unfold Trails; omega
  · exact charBytes_of_three hc fun x hx => by unfold Trails; omega
  · exact charBytes_of_three hc fun x hx => by unfold Trails; omega

/-- The written characters are exactly what a scan takes for them. -/
theorem utf8EncodeChar_eq_iff {c : Char} {b : UInt8} {front : Bytes} :
    String.utf8EncodeChar c = b :: front ↔
      ∃ l v, lead? b = some l ∧ Completes l front v ∧ c = Char.ofNat v := by
  have hinj : String.utf8EncodeChar c = b :: front ↔
      charBytes c.toNat = b.toNat :: front.map UInt8.toNat := by
    rw [← toNat_utf8EncodeChar, ← List.map_cons]
    exact (List.map_inj_right fun x y => UInt8.toNat_inj.mp).symm
  rw [hinj]
  constructor
  · intro h
    obtain ⟨l, hl, hc⟩ := lead_of_charBytes c.valid h
    exact ⟨l, c.toNat, hl, hc, (Char.ofNat_toNat c).symm⟩
  · rintro ⟨l, v, hl, hc, rfl⟩
    obtain ⟨hv, hbytes⟩ := charBytes_of_lead hl hc
    have hnat : (Char.ofNat v).toNat = v := by
      rw [Char.ofNat, dif_pos hv]
      rfl
    rw [hnat]
    exact hbytes

-- ============================================================================
-- Texts
-- ============================================================================

/-- What is read between characters is what was written. -/
theorem scan_eq_ok_iff {i : Nat} {bs : Bytes} {cs : List Char} :
    scan (State.between i) bs = .ok cs ↔ bs = cs.flatMap String.utf8EncodeChar := by
  induction cs generalizing i bs with
  | nil =>
    rw [scan_between]
    simp
  | cons c cs ih =>
    rw [scan_between, List.flatMap_cons]
    simp only [reduceCtorEq, and_false, false_or]
    constructor
    · rintro ⟨b, l, front, rest, v, cs', rfl, hl, hc, hcs, hscan⟩
      obtain ⟨rfl, rfl⟩ := List.cons.inj hcs
      rw [ih.mp hscan, utf8EncodeChar_eq_iff.mpr ⟨l, v, hl, hc, rfl⟩]
      rfl
    · rintro rfl
      cases hbytes : String.utf8EncodeChar c with
      | nil =>
        have hnil := toNat_utf8EncodeChar c
        rw [hbytes] at hnil
        exact absurd hnil.symm (charBytes_ne_nil _)
      | cons b front =>
        obtain ⟨l, v, hl, hc, rfl⟩ := utf8EncodeChar_eq_iff.mp hbytes
        exact ⟨b, l, front, _, v, cs, rfl, hl, hc, rfl, ih.mpr rfl⟩

/-- Bytes are read as a text exactly if they are its written form. -/
theorem decode_eq_ok_iff {bs : Bytes} {s : String} : decode bs = .ok s ↔ bs = encode s := by
  rw [decode, map_eq_ok_iff, encode]
  constructor
  · rintro ⟨cs, hscan, rfl⟩
    rw [String.toList_ofList]
    exact scan_eq_ok_iff.mp hscan
  · rintro rfl
    exact ⟨s.toList, scan_eq_ok_iff.mpr rfl, String.ofList_toList⟩

end Utf8
end Rebalance
