import Keyspace.Part
import Keyspace.Wire.Scalar

namespace Keyspace.Wire

/-- One field of a message. -/
structure Field (M : Type) where
  Value : Type
  part : Part M Value
  tags : List Nat
  write : Value → Bytes
  /-- The number of bytes that `write` gives. -/
  size : Value → Nat
  /-- Reads the payload of a record with one of the tags, with so many levels of nesting left. -/
  merge : (tag : Nat) → WireType → (levels : Nat) → Value → Bytes → Merged Value

/-- A kind of message: the message without any records, and the fields in the order in which
they are written. -/
structure Codec (M : Type) where
  empty : M
  fields : List (Field M)

namespace Codec

def encode (c : Codec M) (m : M) : Bytes :=
  c.fields.flatMap fun field => field.write (field.part.get m)

/-- The number of bytes of `encode`, found without writing them. -/
def size (c : Codec M) (m : M) : Nat :=
  c.fields.foldr (fun field n => field.size (field.part.get m) + n) 0

def field? (c : Codec M) (tag : Nat) : Option (Field M) :=
  c.fields.find? fun field => field.tags.contains tag

/-- Reads one record into the field that its tag addresses, or skips it. -/
def mergeRecord (c : Codec M) (levels : Nat) (m : M) (s : Bytes) : Merged M :=
  match Key.decode s with
  | .error fault => ⟨m, .error fault⟩
  | .ok ((tag, w), payload) =>
      match c.field? tag with
      | some field =>
          let merged := field.merge tag w levels (field.part.get m) payload
          ⟨field.part.set merged.value m, merged.rest⟩
      | none => ⟨m, skipPayload levels w tag payload⟩

/-- Reads records until no more than `limit` bytes are left, which must then be exactly `limit`.
The number `room` bounds how many records there are: no more than the bytes of the input. -/
def mergeRecords (c : Codec M) (levels limit : Nat) : (room : Nat) → M → Bytes → Merged M
  | 0, m, _ => ⟨m, .error .invalidVarint⟩
  | room + 1, m, s =>
      if s.length ≤ limit then
        ⟨m, if s.length = limit then .ok s else .error .lengthExceeded⟩
      else
        match c.mergeRecord levels m s with
        | ⟨m, .ok rest⟩ => c.mergeRecords levels limit room m rest
        | ⟨m, .error fault⟩ => ⟨m, .error fault⟩

/-- Reads a message whose length stands before it. The length is checked against all that is
left of the input, and its fields must end exactly where the length says. -/
def mergeDelimited (c : Codec M) (levels : Nat) (m : M) (s : Bytes) : Merged M :=
  match levels with
  | 0 => ⟨m, .error .recursionLimit⟩
  | levels + 1 =>
      match Varint.decode s with
      | .error fault => ⟨m, .error fault⟩
      | .ok (n, s) =>
          if s.length < n then ⟨m, .error .bufferUnderflow⟩
          else c.mergeRecords levels (s.length - n) (s.length + 1) m s

def mergePayload (c : Codec M) (w : WireType) (levels : Nat) (m : M) (s : Bytes) : Merged M :=
  if w = .lengthDelimited then c.mergeDelimited levels m s
  else ⟨m, .error (.wrongWireType w .lengthDelimited)⟩

def merge (c : Codec M) (m : M) (s : Bytes) : Merged M :=
  c.mergeRecords nestingLimit 0 (s.length + 1) m s

/-- Reads a message whose length stands before it, with all levels of nesting left. -/
def mergeLengthDelimited (c : Codec M) (m : M) (s : Bytes) : Merged M :=
  c.mergeDelimited nestingLimit m s

def decode (c : Codec M) (s : Bytes) : Except Fault M :=
  match c.merge c.empty s with
  | ⟨m, .ok _⟩ => .ok m
  | ⟨_, .error fault⟩ => .error fault

def encodeDelimited (c : Codec M) (m : M) : Bytes :=
  Varint.encode (c.size m) ++ c.encode m

def sizeDelimited (c : Codec M) (m : M) : Nat :=
  Varint.size (c.size m) + c.size m

end Codec

namespace Field

/-- A value that is left out when it is the default. -/
def scalar (tag : Nat) (kind : Scalar α) (part : Part M α) : Field M where
  Value := α
  part := part
  tags := [tag]
  write v := if kind.isDefault v then [] else Key.encode tag kind.wireType ++ kind.write v
  size v := if kind.isDefault v then 0 else Key.size tag + kind.size v
  merge _ w _ old s := kind.merge w old s

/-- A message that may be absent, and that is merged with the one before it. A fault while
reading it leaves the field absent. -/
def optional (tag : Nat) (sub : Codec S) (part : Part M (Option S)) : Field M where
  Value := Option S
  part := part
  tags := [tag]
  write
    | none => []
    | some v => Key.encode tag .lengthDelimited ++ sub.encodeDelimited v
  size
    | none => 0
    | some v => Key.size tag + sub.sizeDelimited v
  merge _ w levels old s :=
    match sub.mergePayload w levels (old.getD sub.empty) s with
    | ⟨v, .ok rest⟩ => ⟨some v, .ok rest⟩
    | ⟨_, .error fault⟩ => ⟨none, .error fault⟩

/-- Any number of messages, each in a record of its own. -/
def repeated (tag : Nat) (sub : Codec S) (part : Part M (List S)) : Field M where
  Value := List S
  part := part
  tags := [tag]
  write vs := vs.flatMap fun v => Key.encode tag .lengthDelimited ++ sub.encodeDelimited v
  size vs := vs.foldr (fun v n => Key.size tag + sub.sizeDelimited v + n) 0
  merge _ w levels old s :=
    match sub.mergePayload w levels sub.empty s with
    | ⟨v, .ok rest⟩ => ⟨old ++ [v], .ok rest⟩
    | ⟨_, .error fault⟩ => ⟨old, .error fault⟩

end Field

/-- One of the values that a choice may hold. -/
structure Member (U : Type) where
  tag : Nat
  /-- Writes a value of this member, and nothing for a value of another. -/
  write : U → Bytes
  size : U → Nat
  merge : WireType → (levels : Nat) → Option U → Bytes → Merged (Option U)

namespace Member

/-- A member that holds a single value. It is written even when it is the default, so that it
stays the one that is set. -/
def scalar (tag : Nat) (kind : Scalar α) (wrap : α → U) (view : U → Option α) : Member U where
  tag := tag
  write u :=
    match view u with
    | none => []
    | some v => Key.encode tag kind.wireType ++ kind.write v
  size u :=
    match view u with
    | none => 0
    | some v => Key.size tag + kind.size v
  merge w _ old s :=
    match kind.merge w kind.default s with
    | ⟨v, .ok rest⟩ => ⟨some (wrap v), .ok rest⟩
    | ⟨_, .error fault⟩ => ⟨old, .error fault⟩

/-- A member that holds a message, which is merged with the one before it when that is of the
same member. A fault leaves what was read before it. -/
def message (tag : Nat) (sub : Codec S) (wrap : S → U) (view : U → Option S) : Member U where
  tag := tag
  write u :=
    match view u with
    | none => []
    | some v => Key.encode tag .lengthDelimited ++ sub.encodeDelimited v
  size u :=
    match view u with
    | none => 0
    | some v => Key.size tag + sub.sizeDelimited v
  merge w levels old s :=
    let merged := sub.mergePayload w levels ((old.bind view).getD sub.empty) s
    ⟨some (wrap merged.value), merged.rest⟩

end Member

/-- At most one of the members, the one read last. A record whose tag is among `dropped` belongs
to a member that is not kept: it is skipped, and the choice holds nothing after it. -/
def Field.choice (members : List (Member U)) (dropped : List Nat) (part : Part M (Option U)) :
    Field M where
  Value := Option U
  part := part
  tags := members.map Member.tag ++ dropped
  write
    | none => []
    | some u => members.flatMap fun member => member.write u
  size
    | none => 0
    | some u => members.foldr (fun member n => member.size u + n) 0
  merge tag w levels old s :=
    match members.find? fun member => member.tag == tag with
    | some member => member.merge w levels old s
    | none => ⟨none, skipPayload levels w tag s⟩

end Keyspace.Wire
