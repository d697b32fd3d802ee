import Keyspace.Wire.Fault

namespace Keyspace.Wire.Varint

def encode (n : Nat) : Bytes :=
  if n < 128 then [n.toUInt8] else (n % 128 + 128).toUInt8 :: encode (n / 128)
termination_by n

/-- The number of bytes of `encode n`: one for every seven bits of `n`, and one for zero. -/
def size (n : Nat) : Nat :=
  n.log2 / 7 + 1

/-- Reads a number from at most `room` bytes. The last byte that `room` allows may hold a
single bit, which is the sixty-fourth when `room` is ten. -/
def decodeWithin : (room : Nat) → Bytes → Option (Nat × Bytes)
  | 0, _ => none
  | _ + 1, [] => none
  | room + 1, b :: rest =>
      if b.toNat < 128 then
        if room = 0 ∧ 1 < b.toNat then none else some (b.toNat, rest)
      else
        (decodeWithin room rest).map fun (high, rest) => (b.toNat - 128 + 128 * high, rest)

def decode (s : Bytes) : Read Nat :=
  match decodeWithin 10 s with
  | some found => .ok found
  | none => .error .invalidVarint

end Keyspace.Wire.Varint
