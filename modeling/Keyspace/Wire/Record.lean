import Keyspace.Wire.Varint

namespace Keyspace.Wire

def nestingLimit : Nat := 100

namespace Key

def encode (tag : Nat) (w : WireType) : Bytes :=
  Varint.encode (tag * 8 + w.code)

def size (tag : Nat) : Nat :=
  Varint.size (tag * 8)

/-- The wire type is checked before the tag. -/
def decode (s : Bytes) : Read (Nat × WireType) :=
  match Varint.decode s with
  | .error fault => .error fault
  | .ok (key, rest) =>
      if UInt32.size ≤ key then .error (.invalidKey key)
      else match WireType.ofCode? (key % 8) with
        | none => .error (.invalidWireType (key % 8))
        | some w => if key / 8 = 0 then .error .invalidTag else .ok ((key / 8, w), rest)

end Key

def advance (n : Nat) (s : Bytes) : Except Fault Bytes :=
  if s.length < n then .error .bufferUnderflow else .ok (s.drop n)

/-- Skips records up to the end of the group `tag`, with `skip` for the records inside. The
number `room` bounds how many records there are: no more than the bytes of the input. -/
def skipGroup (skip : WireType → Nat → Bytes → Except Fault Bytes) (tag : Nat) :
    (room : Nat) → Bytes → Except Fault Bytes
  | 0, _ => .error .invalidVarint
  | room + 1, s =>
      match Key.decode s with
      | .error fault => .error fault
      | .ok ((inner, .endGroup), rest) =>
          if inner = tag then .ok rest else .error .unexpectedEndGroup
      | .ok ((inner, w), rest) =>
          match skip w inner rest with
          | .error fault => .error fault
          | .ok rest => skipGroup skip tag room rest

/-- Skips the payload of a record. Every group takes one from the levels that are left for the
records inside it, and nothing can be skipped when none is left. -/
def skipPayload : (levels : Nat) → WireType → (tag : Nat) → Bytes → Except Fault Bytes
  | 0, _, _, _ => .error .recursionLimit
  | levels + 1, w, tag, s =>
      match w with
      | .varint => (Varint.decode s).map Prod.snd
      | .thirtyTwoBit => advance 4 s
      | .sixtyFourBit => advance 8 s
      | .lengthDelimited =>
          match Varint.decode s with
          | .error fault => .error fault
          | .ok (n, rest) => advance n rest
      | .startGroup => skipGroup (skipPayload levels) tag (s.length + 1) s
      | .endGroup => .error .unexpectedEndGroup

end Keyspace.Wire
