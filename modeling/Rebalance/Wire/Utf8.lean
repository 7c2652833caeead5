/-
  Rebalance.Wire.Utf8

  UTF-8 text as bytes, read one byte at a time. A first byte fixes how many
  bytes its character still owes and the bounds of the next one; the bounds
  are narrower than 80 to BF exactly where they rule out overlong forms,
  surrogates and values above 10FFFF. A fault names the first byte of the
  character it is in.
-/
import Rebalance.Ident

namespace Rebalance
namespace Utf8

/-- Why bytes are not text. -/
inductive Fault where
  /-- The `length` bytes from `start` on begin no character. -/
  | invalid (length start : Nat)
  /-- The bytes end within the character that begins at `start`. -/
  | incomplete (start : Nat)
deriving DecidableEq

namespace Fault

/-- The wording of a fault. -/
def message : Fault → String
  | invalid n i =>
    "invalid utf-8 sequence of " ++ toString n ++ " bytes from index " ++ toString i
  | incomplete i => "incomplete utf-8 byte sequence from index " ++ toString i

end Fault

/-! ## Writing -/

/-- The bytes of a text. -/
def encode (s : String) : Bytes := s.toList.flatMap String.utf8EncodeChar

/-! ## Reading -/

/-- What the first byte of a character says: bytes still owed, bounds of the next byte, and
    the leading bits of the character. -/
structure Lead where
  owed : Nat
  low : UInt8
  high : UInt8
  bits : Nat
deriving DecidableEq

/-- The first byte of a character, or none where no character begins. -/
def lead? (b : UInt8) : Option Lead :=
  let n := b.toNat
  if n ≤ 0x7F then some ⟨0, 0x80, 0xBF, n⟩
  else if n < 0xC2 then none
  else if n ≤ 0xDF then some ⟨1, 0x80, 0xBF, n % 32⟩
  else if n = 0xE0 then some ⟨2, 0xA0, 0xBF, 0⟩
  else if n = 0xED then some ⟨2, 0x80, 0x9F, 13⟩
  else if n ≤ 0xEF then some ⟨2, 0x80, 0xBF, n % 16⟩
  else if n = 0xF0 then some ⟨3, 0x90, 0xBF, 0⟩
  else if n ≤ 0xF3 then some ⟨3, 0x80, 0xBF, n % 8⟩
  else if n = 0xF4 then some ⟨3, 0x80, 0x8F, 4⟩
  else none

/-- Where reading stands: the current character begins at `start`, `seen` of its bytes are
    read, and `lead` holds what it still owes and its bits so far. -/
structure State where
  start : Nat := 0
  seen : Nat := 0
  lead : Lead := ⟨0, 0x80, 0xBF, 0⟩

namespace State

/-- Between characters, at byte `i`. -/
def between (i : Nat) : State := { start := i }

/-- One more byte `b` of the current character, which still owes some. -/
def extend (s : State) (b : UInt8) : State :=
  { s with
    seen := s.seen + 1
    lead := ⟨s.lead.owed - 1, 0x80, 0xBF, s.lead.bits * 64 + b.toNat % 64⟩ }

end State

/-- Read characters from a state on, up to the end of the bytes or the first fault. -/
def scan (s : State) : Bytes → Except Fault (List Char)
  | [] => if s.lead.owed = 0 then .ok [] else .error (.incomplete s.start)
  | b :: bs =>
    if s.lead.owed = 0 then
      match lead? b with
      | none => .error (.invalid 1 s.start)
      | some l =>
        if l.owed = 0 then (scan (State.between (s.start + 1)) bs).map (Char.ofNat l.bits :: ·)
        else scan { s with seen := 1, lead := l } bs
    else if s.lead.low.toNat ≤ b.toNat ∧ b.toNat ≤ s.lead.high.toNat then
      let s' := s.extend b
      if s'.lead.owed = 0 then
        (scan (State.between (s.start + s'.seen)) bs).map (Char.ofNat s'.lead.bits :: ·)
      else scan s' bs
    else .error (.invalid s.seen s.start)

/-- The text of bytes. -/
def decode (bs : Bytes) : Except Fault String :=
  (scan (State.between 0) bs).map String.ofList

end Utf8
end Rebalance
