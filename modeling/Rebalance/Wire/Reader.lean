/-
  Rebalance.Wire.Reader

  The shapes that a message body is laid out in, each with its writer and its
  reader: little-endian numbers of fixed width, flags and optional values
  under one byte, byte strings and lists under a 64-bit count. A reader takes
  what it needs from the front of the bytes and returns the rest.
-/
import Rebalance.Wire.Utf8
import Rebalance.Span

namespace Rebalance
namespace Wire

-- ============================================================================
-- What can be wrong with a body
-- ============================================================================

/-- Why bytes are not a message body. -/
inductive Malformed where
  /-- The bytes end within a number or tag. -/
  | endOfInput
  /-- A byte string is announced longer than what is left. -/
  | shortPayload
  | badVariant (index : UInt32)
  | badFlag (byte : UInt8)
  | badTag (byte : UInt8)
  | longSpan
  | badText (cause : Utf8.Fault)
deriving DecidableEq

namespace Malformed

/-- The wording of a malformed body. -/
def message : Malformed → String
  | endOfInput => "io error: unexpected end of file"
  | shortPayload => "io error: "
  | badVariant i =>
    "invalid value: integer \x60" ++ toString i.toNat ++
      "\x60, expected variant index 0 <= i < 2"
  | badFlag b => "invalid u8 while decoding bool, expected 0 or 1, found " ++ toString b.toNat
  | badTag b => "tag for enum is not valid, found " ++ toString b.toNat
  | longSpan => "overflow deserializing Duration"
  | badText cause => "string is not valid utf8: " ++ cause.message

end Malformed

-- ============================================================================
-- Readers
-- ============================================================================

/-- Takes a value off the front of the bytes. -/
def Reader (α : Type) := Bytes → Except Malformed (α × Bytes)

namespace Reader

instance : Monad Reader where
  pure a := fun bs => .ok (a, bs)
  bind r f := fun bs =>
    match r bs with
    | .error e => .error e
    | .ok (a, rest) => f a rest

/-- Reads nothing and fails. -/
def fail {α : Type} (e : Malformed) : Reader α := fun _ => .error e

/-- `n` values, one after another. -/
def many {α : Type} (r : Reader α) : Nat → Reader (List α)
  | 0 => pure []
  | n + 1 => do
    let a ← r
    let rest ← many r n
    pure (a :: rest)

end Reader

-- ============================================================================
-- Numbers
-- ============================================================================

/-- The `n` low bytes of a number, the lowest first. -/
def putWord : Nat → Nat → Bytes
  | 0, _ => []
  | n + 1, v => UInt8.ofNat (v % 256) :: putWord n (v / 256)

/-- The number whose `n` bytes come next, the lowest first. -/
def getWord : Nat → Reader Nat
  | 0 => pure 0
  | n + 1 => fun bs =>
    match bs with
    | [] => .error .endOfInput
    | b :: rest =>
      match getWord n rest with
      | .error e => .error e
      | .ok (v, rest) => .ok (b.toNat + 256 * v, rest)

def putU16 (v : UInt16) : Bytes := putWord 2 v.toNat

def getU16 : Reader UInt16 := do pure (UInt16.ofNat (← getWord 2))

def putU32 (v : UInt32) : Bytes := putWord 4 v.toNat

def getU32 : Reader UInt32 := do pure (UInt32.ofNat (← getWord 4))

def putU64 (v : UInt64) : Bytes := putWord 8 v.toNat

def getU64 : Reader UInt64 := do pure (UInt64.ofNat (← getWord 8))

/-- The byte that comes next. -/
def getByte : Reader UInt8 := do pure (UInt8.ofNat (← getWord 1))

-- ============================================================================
-- Flags, options, strings, lists
-- ============================================================================

def putFlag (b : Bool) : Bytes := [if b then 1 else 0]

/-- A flag is one byte, 0 or 1. -/
def getFlag : Reader Bool := do
  let b ← getByte
  if b = 0 then pure false else if b = 1 then pure true else Reader.fail (.badFlag b)

def putOption {α : Type} (put : α → Bytes) : Option α → Bytes
  | none => [0]
  | some a => 1 :: put a

/-- An optional value is the byte 0, or the byte 1 and the value. -/
def getOption {α : Type} (get : Reader α) : Reader (Option α) := do
  let b ← getByte
  if b = 0 then pure none
  else if b = 1 then do
    let a ← get
    pure (some a)
  else Reader.fail (.badTag b)

def putList {α : Type} (put : α → Bytes) (l : List α) : Bytes :=
  putWord 8 l.length ++ l.flatMap put

/-- A list is its count and then its items. -/
def getList {α : Type} (get : Reader α) : Reader (List α) := do
  let n ← getWord 8
  Reader.many get n

def putBytes (bs : Bytes) : Bytes := putWord 8 bs.length ++ bs

/-- The next `n` bytes as they are. -/
def takeBytes (n : Nat) : Reader Bytes := fun bs =>
  if n ≤ bs.length then .ok (bs.take n, bs.drop n) else .error .shortPayload

/-- A byte string is its length and then its bytes. -/
def getBytes : Reader Bytes := do
  let n ← getWord 8
  takeBytes n

def putText (s : String) : Bytes := putBytes (Utf8.encode s)

/-- A text is the byte string of its UTF-8 form. -/
def getText : Reader String := do
  let bs ← getBytes
  match Utf8.decode bs with
  | .ok s => pure s
  | .error e => Reader.fail (.badText e)

def putSpan (d : Span) : Bytes := putU64 d.secs ++ putU32 d.nanos

/-- A length of time is its seconds and its nanoseconds, whole seconds among the latter
    carried over. -/
def getSpan : Reader Span := do
  let secs ← getU64
  let nanos ← getU32
  match Span.ofParts? secs nanos with
  | some d => pure d
  | none => Reader.fail .longSpan

end Wire
end Rebalance
