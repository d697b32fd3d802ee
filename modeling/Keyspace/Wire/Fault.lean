import Keyspace.Bytes

/-!
Wire types and the faults that stop the reading of a message.
-/

namespace Keyspace.Wire

/-- How the payload of a record is delimited. -/
inductive WireType
  | varint
  | sixtyFourBit
  | lengthDelimited
  | startGroup
  | endGroup
  | thirtyTwoBit
  deriving DecidableEq, Repr

namespace WireType

/-- The three bits that stand for the wire type in the key of a record. -/
def code : WireType → Nat
  | varint => 0
  | sixtyFourBit => 1
  | lengthDelimited => 2
  | startGroup => 3
  | endGroup => 4
  | thirtyTwoBit => 5

def ofCode? : Nat → Option WireType
  | 0 => some varint
  | 1 => some sixtyFourBit
  | 2 => some lengthDelimited
  | 3 => some startGroup
  | 4 => some endGroup
  | 5 => some thirtyTwoBit
  | _ => none

def name : WireType → String
  | varint => "Varint"
  | sixtyFourBit => "SixtyFourBit"
  | lengthDelimited => "LengthDelimited"
  | startGroup => "StartGroup"
  | endGroup => "EndGroup"
  | thirtyTwoBit => "ThirtyTwoBit"

@[simp] theorem ofCode?_code (w : WireType) : ofCode? w.code = some w := by
  cases w <;> rfl

theorem code_lt (w : WireType) : w.code < 8 := by
  cases w <;> decide

end WireType

/-- Why a string of bytes is not a message. -/
inductive Fault
  | invalidVarint
  | invalidKey (key : Nat)
  | invalidWireType (code : Nat)
  | invalidTag
  | wrongWireType (actual expected : WireType)
  | bufferUnderflow
  | lengthExceeded
  | unexpectedEndGroup
  | recursionLimit
  | invalidText
  deriving DecidableEq, Repr

namespace Fault

def reason : Fault → String
  | invalidVarint => "invalid varint"
  | invalidKey key => s!"invalid key value: {key}"
  | invalidWireType code => s!"invalid wire type value: {code}"
  | invalidTag => "invalid tag value: 0"
  | wrongWireType actual expected =>
      s!"invalid wire type: {actual.name} (expected {expected.name})"
  | bufferUnderflow => "buffer underflow"
  | lengthExceeded => "delimited length exceeded"
  | unexpectedEndGroup => "unexpected end group tag"
  | recursionLimit => "recursion limit reached"
  | invalidText => "invalid string value: data is not UTF-8 encoded"

def message (f : Fault) : String :=
  "failed to decode Protobuf message: " ++ f.reason

end Fault

/-- What a reader makes of the input: a value and the bytes it left, or a fault. -/
abbrev Read (α : Type) := Except Fault (α × Bytes)

/-- What reading over an old value makes of it, and the bytes that were left or the fault that
stopped the reading. There is a value in both cases: a fault may come halfway. -/
structure Merged (α : Type) where
  value : α
  rest : Except Fault Bytes

end Keyspace.Wire
