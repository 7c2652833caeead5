/-
  Rebalance.Ident

  Identifiers of the cluster and the bytes that keys and values are made of,
  with the lower-case hexadecimal text of bytes.
-/
import Rebalance.Sorted.Map

namespace Rebalance

/-- A node of the cluster. -/
abbrev NodeId := UInt64

/-- A partition of a dataset. -/
abbrev PartitionId := UInt32

/-- A partitioned dataset. -/
abbrev DatasetId := UInt32

/-- One worker of a dataset's pool. -/
abbrev WorkerId := UInt64

/-- Uninterpreted bytes: keys, values, encoded messages. -/
abbrev Bytes := List UInt8

/-! ## Hexadecimal text -/

namespace Hex

/-- The digit of a value below sixteen. -/
def digit (n : Nat) : Char :=
  if n < 10 then Char.ofNat (48 + n) else Char.ofNat (87 + n)

/-- The value of a digit of either case. -/
def value? (c : Char) : Option Nat :=
  let n := c.toNat
  if 48 ≤ n ∧ n ≤ 57 then some (n - 48)
  else if 97 ≤ n ∧ n ≤ 102 then some (n - 87)
  else if 65 ≤ n ∧ n ≤ 70 then some (n - 55)
  else none

/-- Two digits per byte, the high half first. -/
def chars : Bytes → List Char
  | [] => []
  | b :: bs => digit (b.toNat / 16) :: digit (b.toNat % 16) :: chars bs

/-- Bytes as lower-case hexadecimal text. -/
def text (bs : Bytes) : String := String.ofList (chars bs)

/-- Reads pairs of digits; an odd digit or another character is refused. -/
def readChars? : List Char → Option Bytes
  | [] => some []
  | [_] => none
  | hi :: lo :: rest =>
    match value? hi, value? lo, readChars? rest with
    | some h, some l, some bs => some (UInt8.ofNat (16 * h + l) :: bs)
    | _, _, _ => none

/-- The bytes that a hexadecimal text stands for. -/
def read? (s : String) : Option Bytes := readChars? s.toList

end Hex

end Rebalance
