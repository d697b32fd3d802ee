import Keyspace.Message.Length
import Keyspace.Proofs.MessageOverlay
import Keyspace.Proofs.UnknownRecords

namespace Keyspace

namespace Wire

section

variable {M S : Type} {sub : Codec S} {tag : Nat}

@[simp]
theorem Field.size_scalar {kind : Scalar α} {part : Part M α} (m : M) :
    (scalar tag kind part).size ((scalar tag kind part).part.get m) =
      if kind.isDefault (part.get m) then 0 else kind.recordLength tag (part.get m) :=
  rfl

@[simp]
theorem Field.size_optional {part : Part M (Option S)} (m : M) :
    (optional tag sub part).size ((optional tag sub part).part.get m) =
      optionalLength tag sub.size (part.get m) := by
  change (optional tag sub part).size (part.get m) = _
  cases part.get m with
  | none => rfl
  | some v => exact (Nat.add_assoc ..).symm

@[simp]
theorem Field.size_repeated {part : Part M (List S)} (m : M) :
    (repeated tag sub part).size ((repeated tag sub part).part.get m) =
      messagesLength tag sub.size (part.get m) := by
  change (part.get m).foldr (fun v n => Key.size tag + sub.sizeDelimited v + n) 0 = _
  induction part.get m with
  | nil => rfl
  | cons v vs ih =>
      rw [List.foldr_cons, ih, messagesLength, messagesLength, List.length_cons, List.foldr_cons,
        Codec.sizeDelimited, Nat.mul_add_one]
      omega

@[simp]
theorem Field.size_choice {U : Type} {members : List (Member U)} {dropped : List Nat}
    {part : Part M (Option U)} (m : M) :
    (choice members dropped part).size ((choice members dropped part).part.get m) =
      (part.get m).elim 0 fun u => members.foldr (fun member n => member.size u + n) 0 := by
  change (choice members dropped part).size (part.get m) = _
  cases part.get m <;> rfl

end

namespace Scalar

@[simp]
theorem isDefault_uint64 (v : UInt64) : uint64.isDefault v = decide (v = 0) :=
  rfl

@[simp]
theorem isDefault_int64 (v : Int64) : int64.isDefault v = decide (v = 0) :=
  rfl

@[simp]
theorem isDefault_int32 (v : Int32) : int32.isDefault v = decide (v = 0) :=
  rfl

@[simp]
theorem isDefault_bytes (v : Bytes) : bytes.isDefault v = decide (v = []) := by
  cases v <;> rfl

@[simp]
theorem isDefault_text (v : String) : text.isDefault v = decide (v = "") :=
  Bool.eq_iff_iff.mpr (by simp [text])

@[simp]
theorem if_isDefault_bool (v : Bool) (n : Nat) :
    (if bool.isDefault v = true then 0 else n) = if v = true then n else 0 := by
  cases v <;> rfl

end Scalar

end Wire

open Wire

theorem Header.encodedLength_eq : encodedLength = codec.size := by
  funext m
  simp +arith [encodedLength, codec, Codec.size]

theorem KeyValue.encodedLength_eq : encodedLength = codec.size := by
  funext m
  simp +arith [encodedLength, codec, Codec.size, numbersLength]

theorem RangeRequest.encodedLength_eq : encodedLength = codec.size := by
  funext m
  simp +arith [encodedLength, codec, Codec.size, numbersLength, flagsLength]

theorem RangeResponse.encodedLength_eq : encodedLength = codec.size := by
  funext m
  simp +arith [encodedLength, codec, Codec.size, Header.encodedLength_eq,
    KeyValue.encodedLength_eq]

theorem PutRequest.encodedLength_eq : encodedLength = codec.size := by
  funext m
  simp +arith [encodedLength, codec, Codec.size, flagsLength]

theorem PutResponse.encodedLength_eq : encodedLength = codec.size := by
  funext m
  simp +arith [encodedLength, codec, Codec.size, Header.encodedLength_eq,
    KeyValue.encodedLength_eq]

theorem DeleteRangeRequest.encodedLength_eq : encodedLength = codec.size := by
  funext m
  simp +arith [encodedLength, codec, Codec.size]

theorem DeleteRangeResponse.encodedLength_eq : encodedLength = codec.size := by
  funext m
  simp +arith [encodedLength, codec, Codec.size, Header.encodedLength_eq,
    KeyValue.encodedLength_eq]

theorem CompactionRequest.encodedLength_eq : encodedLength = codec.size := by
  funext m
  simp +arith [encodedLength, codec, Codec.size]

theorem CompactionResponse.encodedLength_eq : encodedLength = codec.size := by
  funext m
  simp +arith [encodedLength, codec, Codec.size, Header.encodedLength_eq]

theorem Compare.encodedLength_eq : encodedLength = codec.size := by
  funext m
  obtain ⟨result, target, key, operand, rangeEnd⟩ := m
  rcases operand with _ | operand
  · simp +arith [encodedLength, codec, Codec.size]
  · cases operand <;>
      simp +arith [encodedLength, codec, Codec.size, Operand.members, Member.scalar,
        Scalar.recordLength, Operand.version?, Operand.createRevision?, Operand.modRevision?,
        Operand.value?, Operand.lease?]

theorem RequestOp.encodedLength_eq : encodedLength = codec.size := by
  funext m
  obtain ⟨_ | request⟩ := m
  · rfl
  · cases request <;>
      simp +arith [encodedLength, codec, Codec.size, OpRequest.members, Member.message,
        Codec.sizeDelimited, messageLength, OpRequest.range?, OpRequest.put?,
        OpRequest.deleteRange?, RangeRequest.encodedLength_eq, PutRequest.encodedLength_eq,
        DeleteRangeRequest.encodedLength_eq]

theorem ResponseOp.encodedLength_eq : encodedLength = codec.size := by
  funext m
  obtain ⟨_ | response⟩ := m
  · rfl
  · cases response <;>
      simp +arith [encodedLength, codec, Codec.size, OpResponse.members, Member.message,
        Codec.sizeDelimited, messageLength, OpResponse.range?, OpResponse.put?,
        OpResponse.deleteRange?, RangeResponse.encodedLength_eq, PutResponse.encodedLength_eq,
        DeleteRangeResponse.encodedLength_eq]

theorem TxnRequest.encodedLength_eq : encodedLength = codec.size := by
  funext m
  simp +arith [encodedLength, codec, Codec.size, Compare.encodedLength_eq,
    RequestOp.encodedLength_eq]

theorem TxnResponse.encodedLength_eq : encodedLength = codec.size := by
  funext m
  simp +arith [encodedLength, codec, Codec.size, Header.encodedLength_eq,
    ResponseOp.encodedLength_eq]

theorem AlarmRequest.encodedLength_eq : encodedLength = codec.size := by
  funext m
  simp +arith [encodedLength, codec, Codec.size]

theorem AlarmMember.encodedLength_eq : encodedLength = codec.size := by
  funext m
  simp +arith [encodedLength, codec, Codec.size]

theorem AlarmResponse.encodedLength_eq : encodedLength = codec.size := by
  funext m
  simp +arith [encodedLength, codec, Codec.size, Header.encodedLength_eq,
    AlarmMember.encodedLength_eq]

theorem StatusResponse.encodedLength_eq : encodedLength = codec.size := by
  funext m
  simp +arith [encodedLength, codec, Codec.size, numbersLength, Header.encodedLength_eq]

theorem DefragmentResponse.encodedLength_eq : encodedLength = codec.size := by
  funext m
  simp +arith [encodedLength, codec, Codec.size, Header.encodedLength_eq]

theorem SnapshotResponse.encodedLength_eq : encodedLength = codec.size := by
  funext m
  simp +arith [encodedLength, codec, Codec.size, Header.encodedLength_eq]

namespace Wire

namespace Codec

/-- The records with a tag hold single values of a kind. -/
inductive Plain (c : Codec M) (tag : Nat) (kind : Scalar α) : Prop
  | field {part : Part M α} (own : .scalar tag kind part ∈ c.fields)
  | member {U : Type} {members : List (Member U)} {dropped : List Nat} {part : Part M (Option U)}
      {wrap : α → U} {view : U → Option α} (own : .choice members dropped part ∈ c.fields)
      (holds : .scalar tag kind wrap view ∈ members)

/-- Records of a message, of which each that holds a message has the number of its bytes before
it, and these are framed likewise. -/
inductive Framed : {M : Type} → Codec M → Bytes → Prop
  | nil {M : Type} {c : Codec M} : Framed c []
  | value {M α : Type} {c : Codec M} {tag : Nat} {kind : Scalar α} {v : α} {rest : Bytes}
      (plain : c.Plain tag kind) (more : Framed c rest) :
      Framed c (Key.encode tag kind.wireType ++ kind.write v ++ rest)
  | message {M S : Type} {c : Codec M} {sub : Codec S} {tag : Nat} {v : S} {rest : Bytes}
      (nests : c.Nests sub tag) (inner : Framed sub (sub.encode v)) (more : Framed c rest) :
      Framed c (Key.encode tag .lengthDelimited ++
        (Varint.encode (sub.encode v).length ++ sub.encode v) ++ rest)

/-- What is written of a message is framed, and as long as is said. -/
structure Framing (c : Codec M) : Prop where
  length_encode : ∀ m, (c.encode m).length = c.size m
  framed : ∀ m, c.Framed (c.encode m)

section

variable {M S : Type} {c : Codec M} {sub : Codec S} {tag : Nat} {s t : Bytes}

theorem Framed.append (hs : c.Framed s) (ht : c.Framed t) : c.Framed (s ++ t) := by
  induction hs with
  | nil => exact ht
  | value plain _ ih =>
      rw [List.append_assoc]
      exact .value plain (ih ht)
  | message nests inner _ _ ih =>
      rw [List.append_assoc]
      exact .message nests inner (ih ht)

theorem Framed.flatMap {vs : List V} {write : V → Bytes} (h : ∀ v ∈ vs, c.Framed (write v)) :
    c.Framed (vs.flatMap write) := by
  induction vs with
  | nil => exact .nil
  | cons v vs ih =>
      obtain ⟨hv, hvs⟩ := List.forall_mem_cons.mp h
      rw [List.flatMap_cons]
      exact hv.append (ih hvs)

theorem Plain.framed {kind : Scalar α} (h : c.Plain tag kind) (v : α) :
    c.Framed (Key.encode tag kind.wireType ++ kind.write v) := by
  have hrecord := Framed.value (v := v) h .nil
  rwa [List.append_nil] at hrecord

theorem Nests.framed (h : c.Nests sub tag) (hsub : sub.Framing) (v : S) :
    c.Framed (Key.encode tag .lengthDelimited ++ sub.encodeDelimited v) := by
  have hrecord := Framed.message (v := v) h (hsub.framed v) .nil
  rwa [List.append_nil, hsub.length_encode] at hrecord

end

end Codec

/-- A member that holds a single value, or a message that is framed. -/
inductive Member.Shaped {U : Type} : Member U → Prop
  | scalar {α : Type} {tag : Nat} {kind : Scalar α} {wrap : α → U} {view : U → Option α} :
      Shaped (.scalar tag kind wrap view)
  | message {S : Type} {sub : Codec S} {tag : Nat} {wrap : S → U} {view : U → Option S}
      (sub_framing : sub.Framing) : Shaped (.message tag sub wrap view)

/-- A field that holds single values, or messages that are framed. -/
inductive Field.Shaped {M : Type} : Field M → Prop
  | scalar {α : Type} {tag : Nat} {kind : Scalar α} {part : Part M α} :
      Shaped (.scalar tag kind part)
  | optional {S : Type} {sub : Codec S} {tag : Nat} {part : Part M (Option S)}
      (sub_framing : sub.Framing) : Shaped (.optional tag sub part)
  | repeated {S : Type} {sub : Codec S} {tag : Nat} {part : Part M (List S)}
      (sub_framing : sub.Framing) : Shaped (.repeated tag sub part)
  | choice {U : Type} {members : List (Member U)} {dropped : List Nat} {part : Part M (Option U)}
      (members_shaped : ∀ member ∈ members, member.Shaped) :
      Shaped (.choice members dropped part)

section

variable {M U : Type} {c : Codec M}

theorem Member.Shaped.framed {members : List (Member U)} {dropped : List Nat}
    {part : Part M (Option U)} (hown : .choice members dropped part ∈ c.fields)
    {member : Member U} (hmember : member ∈ members) (h : member.Shaped) (u : U) :
    c.Framed (member.write u) := by
  cases h with
  | @scalar _ _ _ _ view =>
      simp only [Member.scalar]
      cases view u with
      | none => exact .nil
      | some v => exact (Codec.Plain.member hown hmember).framed v
  | @message _ _ _ _ view sub_framing =>
      simp only [Member.message]
      cases view u with
      | none => exact .nil
      | some v => exact (Codec.Nests.member hown hmember).framed sub_framing v

theorem Field.Shaped.framed {f : Field M} (hf : f ∈ c.fields) (h : f.Shaped) (v : f.Value) :
    c.Framed (f.write v) := by
  cases h with
  | @scalar _ _ kind _ =>
      simp only [Field.scalar]
      split
      · exact .nil
      · exact (Codec.Plain.field hf).framed _
  | optional sub_framing =>
      cases v with
      | none => exact .nil
      | some v => exact (Codec.Nests.optional hf).framed sub_framing v
  | repeated sub_framing =>
      exact Codec.Framed.flatMap fun v _ => (Codec.Nests.repeated hf).framed sub_framing v
  | choice members_shaped =>
      cases v with
      | none => exact .nil
      | some u =>
          exact Codec.Framed.flatMap fun member hmember =>
            (members_shaped member hmember).framed hf hmember u

theorem Codec.Framing.of_shaped {levels : Nat} {overlay : M → M → M}
    (hc : c.Lawful levels overlay) (h : ∀ f ∈ c.fields, f.Shaped) : c.Framing where
  length_encode := hc.length_encode
  framed m := Framed.flatMap fun f hf => (h f hf).framed hf (f.part.get m)

end

end Wire

theorem Header.framing : codec.Framing :=
  .of_shaped (lawful_codec 0) (by simp [codec, Field.Shaped.scalar])

theorem KeyValue.framing : codec.Framing :=
  .of_shaped (lawful_codec 0) (by simp [codec, Field.Shaped.scalar])

theorem RangeRequest.framing : codec.Framing :=
  .of_shaped (lawful_codec 0) (by simp [codec, Field.Shaped.scalar])

theorem RangeResponse.framing : codec.Framing := by
  refine .of_shaped (lawful_codec 0) ?_
  simp only [codec, List.forall_mem_cons]
  exact ⟨.optional Header.framing, .repeated KeyValue.framing, .scalar, .scalar,
    List.forall_mem_nil _⟩

theorem PutRequest.framing : codec.Framing :=
  .of_shaped (lawful_codec 0) (by simp [codec, Field.Shaped.scalar])

theorem PutResponse.framing : codec.Framing := by
  refine .of_shaped (lawful_codec 0) ?_
  simp only [codec, List.forall_mem_cons]
  exact ⟨.optional Header.framing, .optional KeyValue.framing, List.forall_mem_nil _⟩

theorem DeleteRangeRequest.framing : codec.Framing :=
  .of_shaped (lawful_codec 0) (by simp [codec, Field.Shaped.scalar])

theorem DeleteRangeResponse.framing : codec.Framing := by
  refine .of_shaped (lawful_codec 0) ?_
  simp only [codec, List.forall_mem_cons]
  exact ⟨.optional Header.framing, .scalar, .repeated KeyValue.framing, List.forall_mem_nil _⟩

theorem CompactionRequest.framing : codec.Framing :=
  .of_shaped (lawful_codec 0) (by simp [codec, Field.Shaped.scalar])

theorem CompactionResponse.framing : codec.Framing := by
  refine .of_shaped (lawful_codec 0) ?_
  simp only [codec, List.forall_mem_cons]
  exact ⟨.optional Header.framing, List.forall_mem_nil _⟩

theorem Compare.framing : codec.Framing := by
  have hoperand : ∀ member ∈ Operand.members, member.Shaped := by
    simp [Operand.members, Member.Shaped.scalar]
  refine .of_shaped (lawful_codec 0) ?_
  simp only [codec, List.forall_mem_cons]
  exact ⟨.scalar, .scalar, .scalar, .choice hoperand, .scalar, List.forall_mem_nil _⟩

theorem RequestOp.framing : codec.Framing := by
  have hmembers : ∀ member ∈ OpRequest.members, member.Shaped := by
    simp only [OpRequest.members, List.forall_mem_cons]
    exact ⟨.message RangeRequest.framing, .message PutRequest.framing,
      .message DeleteRangeRequest.framing, List.forall_mem_nil _⟩
  refine .of_shaped (lawful_codec 0) ?_
  simp only [codec, List.forall_mem_cons]
  exact ⟨.choice hmembers, List.forall_mem_nil _⟩

theorem ResponseOp.framing : codec.Framing := by
  have hmembers : ∀ member ∈ OpResponse.members, member.Shaped := by
    simp only [OpResponse.members, List.forall_mem_cons]
    exact ⟨.message RangeResponse.framing, .message PutResponse.framing,
      .message DeleteRangeResponse.framing, List.forall_mem_nil _⟩
  refine .of_shaped (lawful_codec 0) ?_
  simp only [codec, List.forall_mem_cons]
  exact ⟨.choice hmembers, List.forall_mem_nil _⟩

theorem TxnRequest.framing : codec.Framing := by
  refine .of_shaped (lawful_codec 0) ?_
  simp only [codec, List.forall_mem_cons]
  exact ⟨.repeated Compare.framing, .repeated RequestOp.framing, .repeated RequestOp.framing,
    List.forall_mem_nil _⟩

theorem TxnResponse.framing : codec.Framing := by
  refine .of_shaped (lawful_codec 0) ?_
  simp only [codec, List.forall_mem_cons]
  exact ⟨.optional Header.framing, .scalar, .repeated ResponseOp.framing, List.forall_mem_nil _⟩

theorem AlarmRequest.framing : codec.Framing :=
  .of_shaped (lawful_codec 0) (by simp [codec, Field.Shaped.scalar])

theorem AlarmMember.framing : codec.Framing :=
  .of_shaped (lawful_codec 0) (by simp [codec, Field.Shaped.scalar])

theorem AlarmResponse.framing : codec.Framing := by
  refine .of_shaped (lawful_codec 0) ?_
  simp only [codec, List.forall_mem_cons]
  exact ⟨.optional Header.framing, .repeated AlarmMember.framing, List.forall_mem_nil _⟩

theorem StatusResponse.framing : codec.Framing := by
  refine .of_shaped (lawful_codec 0) ?_
  simp only [codec, List.forall_mem_cons]
  exact ⟨.optional Header.framing, .scalar, .scalar, .scalar, .scalar, .scalar,
    List.forall_mem_nil _⟩

theorem DefragmentResponse.framing : codec.Framing := by
  refine .of_shaped (lawful_codec 0) ?_
  simp only [codec, List.forall_mem_cons]
  exact ⟨.optional Header.framing, List.forall_mem_nil _⟩

theorem SnapshotResponse.framing : codec.Framing := by
  refine .of_shaped (lawful_codec 0) ?_
  simp only [codec, List.forall_mem_cons]
  exact ⟨.optional Header.framing, .scalar, .scalar, List.forall_mem_nil _⟩

namespace MessageKind

/-- The bytes that are counted are those that are written. -/
theorem encodedLength_eq (kind : MessageKind) (m : kind.Carrier) :
    kind.encodedLength m = kind.codec.size m := by
  cases kind with
  | responseHeader => exact congrFun Header.encodedLength_eq m
  | keyValue => exact congrFun KeyValue.encodedLength_eq m
  | rangeRequest => exact congrFun RangeRequest.encodedLength_eq m
  | rangeResponse => exact congrFun RangeResponse.encodedLength_eq m
  | putRequest => exact congrFun PutRequest.encodedLength_eq m
  | putResponse => exact congrFun PutResponse.encodedLength_eq m
  | deleteRangeRequest => exact congrFun DeleteRangeRequest.encodedLength_eq m
  | deleteRangeResponse => exact congrFun DeleteRangeResponse.encodedLength_eq m
  | compactionRequest => exact congrFun CompactionRequest.encodedLength_eq m
  | compactionResponse => exact congrFun CompactionResponse.encodedLength_eq m
  | compare => exact congrFun Compare.encodedLength_eq m
  | requestOp => exact congrFun RequestOp.encodedLength_eq m
  | responseOp => exact congrFun ResponseOp.encodedLength_eq m
  | txnRequest => exact congrFun TxnRequest.encodedLength_eq m
  | txnResponse => exact congrFun TxnResponse.encodedLength_eq m
  | alarmRequest => exact congrFun AlarmRequest.encodedLength_eq m
  | alarmMember => exact congrFun AlarmMember.encodedLength_eq m
  | alarmResponse => exact congrFun AlarmResponse.encodedLength_eq m
  | statusResponse => exact congrFun StatusResponse.encodedLength_eq m
  | defragmentResponse => exact congrFun DefragmentResponse.encodedLength_eq m
  | snapshotResponse => exact congrFun SnapshotResponse.encodedLength_eq m
  | statusRequest | defragmentRequest | snapshotRequest => rfl

theorem framing_codec (kind : MessageKind) : kind.codec.Framing := by
  cases kind with
  | responseHeader => exact Header.framing
  | keyValue => exact KeyValue.framing
  | rangeRequest => exact RangeRequest.framing
  | rangeResponse => exact RangeResponse.framing
  | putRequest => exact PutRequest.framing
  | putResponse => exact PutResponse.framing
  | deleteRangeRequest => exact DeleteRangeRequest.framing
  | deleteRangeResponse => exact DeleteRangeResponse.framing
  | compactionRequest => exact CompactionRequest.framing
  | compactionResponse => exact CompactionResponse.framing
  | compare => exact Compare.framing
  | requestOp => exact RequestOp.framing
  | responseOp => exact ResponseOp.framing
  | txnRequest => exact TxnRequest.framing
  | txnResponse => exact TxnResponse.framing
  | alarmRequest => exact AlarmRequest.framing
  | alarmMember => exact AlarmMember.framing
  | alarmResponse => exact AlarmResponse.framing
  | statusResponse => exact StatusResponse.framing
  | defragmentResponse => exact DefragmentResponse.framing
  | snapshotResponse => exact SnapshotResponse.framing
  | statusRequest | defragmentRequest | snapshotRequest =>
      exact .of_shaped (lawful_codec _ 0) (List.forall_mem_nil _)

/-- A message is as long as is counted, and so is every message in it, at any depth: each length
that is written is the number of bytes of the message that follows it. -/
theorem length_prefixes (kind : MessageKind) (m : kind.Carrier) :
    (kind.codec.encode m).length = kind.encodedLength m ∧
      kind.codec.Framed (kind.codec.encode m) ∧
      kind.codec.encodeDelimited m =
        Varint.encode (kind.encodedLength m) ++ kind.codec.encode m := by
  have hframing := kind.framing_codec
  rw [kind.encodedLength_eq]
  exact ⟨hframing.length_encode m, hframing.framed m, rfl⟩

end MessageKind

end Keyspace
