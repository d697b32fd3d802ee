import Keyspace.Wire.Record

namespace Keyspace.Wire

/-- How values of one kind are written as the payload of a record and read back. -/
structure Scalar (α : Type) where
  wireType : WireType
  /-- The value of a field that was never set. It is not written. -/
  default : α
  isDefault : α → Bool
  write : α → Bytes
  /-- The number of bytes that `write` gives. -/
  size : α → Nat
  read : Bytes → Read α
  /-- What a failed reading leaves of the value before it. -/
  spoil : α → α

namespace Scalar

/-- Reads a payload of the given wire type over the value before it. -/
def merge (kind : Scalar α) (w : WireType) (old : α) (s : Bytes) : Merged α :=
  if w = kind.wireType then
    match kind.read s with
    | .ok (new, rest) => ⟨new, .ok rest⟩
    | .error fault => ⟨kind.spoil old, .error fault⟩
  else
    ⟨kind.spoil old, .error (.wrongWireType w kind.wireType)⟩

/-- A kind of number, through its image in the numbers below `2 ^ 64`. -/
def number [DecidableEq α] (zero : α) (toNat : α → Nat) (ofNat : Nat → α) : Scalar α where
  wireType := .varint
  default := zero
  isDefault v := v = zero
  write v := Varint.encode (toNat v)
  size v := Varint.size (toNat v)
  read s := (Varint.decode s).map fun (n, rest) => (ofNat n, rest)
  spoil v := v

def uint64 : Scalar UInt64 :=
  number 0 UInt64.toNat UInt64.ofNat

/-- Negative numbers are written in two's complement of sixty-four bits. -/
def int64 : Scalar Int64 :=
  number 0 (fun v => v.toUInt64.toNat) (fun n => (UInt64.ofNat n).toInt64)

/-- Negative numbers are written in sixty-four bits; reading keeps the low thirty-two. -/
def int32 : Scalar Int32 :=
  number 0 (fun v => v.toInt64.toUInt64.toNat) (fun n => (UInt32.ofNat n).toInt32)

/-- Any number but zero is read as true. -/
def bool : Scalar Bool :=
  number false Bool.toNat (fun n => n != 0)

def readSized (s : Bytes) : Read Bytes :=
  match Varint.decode s with
  | .error fault => .error fault
  | .ok (n, rest) =>
      if rest.length < n then .error .bufferUnderflow else .ok (rest.take n, rest.drop n)

def bytes : Scalar Bytes where
  wireType := .lengthDelimited
  default := []
  isDefault v := v.isEmpty
  write v := Varint.encode v.length ++ v
  size v := Varint.size v.length + v.length
  read := readSized
  spoil v := v

/-- A text in UTF-8. A failed reading leaves the empty text. -/
def text : Scalar String where
  wireType := .lengthDelimited
  default := ""
  isDefault v := v.isEmpty
  write v := Varint.encode v.utf8ByteSize ++ Bytes.ofText v
  size v := Varint.size v.utf8ByteSize + v.utf8ByteSize
  read s :=
    match readSized s with
    | .error fault => .error fault
    | .ok (payload, rest) =>
        match payload.text? with
        | none => .error .invalidText
        | some v => .ok (v, rest)
  spoil _ := ""

end Scalar

end Keyspace.Wire
