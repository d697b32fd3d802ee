import Keyspace.Proofs.RecordLaws
import Keyspace.Message.Kind

namespace Keyspace

open Wire

def Header.overlay (a b : Header) : Header where
  clusterId := Overlay.value a.clusterId b.clusterId
  memberId := Overlay.value a.memberId b.memberId
  revision := Overlay.value a.revision b.revision
  raftTerm := Overlay.value a.raftTerm b.raftTerm

theorem Header.lawful_codec (levels : Nat) : codec.Lawful levels overlay := by
  refine .of_fields (by decide) ?_ (fun _ _ => rfl) fun b => ?_
  · refine .cons (Field.lawful_scalar Scalar.lawful_uint64 ?_) <|
      .cons (Field.lawful_scalar Scalar.lawful_uint64 ?_) <|
      .cons (Field.lawful_scalar Scalar.lawful_int64 ?_) <|
      .cons (Field.lawful_scalar Scalar.lawful_uint64 ?_) .nil
    all_goals exact ⟨fun _ _ => rfl, fun _ => rfl, fun _ _ _ => rfl⟩
  · simp (disch := decide) only [overlay, codec, Overlay.value_of_eq_default]

def KeyValue.overlay (a b : KeyValue) : KeyValue where
  key := Overlay.value a.key b.key
  createRevision := Overlay.value a.createRevision b.createRevision
  modRevision := Overlay.value a.modRevision b.modRevision
  version := Overlay.value a.version b.version
  value := Overlay.value a.value b.value
  lease := Overlay.value a.lease b.lease

theorem KeyValue.lawful_codec (levels : Nat) : codec.Lawful levels overlay := by
  refine .of_fields (by decide) ?_ (fun _ _ => rfl) fun b => ?_
  · refine .cons (Field.lawful_scalar Scalar.lawful_bytes ?_) <|
      .cons (Field.lawful_scalar Scalar.lawful_int64 ?_) <|
      .cons (Field.lawful_scalar Scalar.lawful_int64 ?_) <|
      .cons (Field.lawful_scalar Scalar.lawful_int64 ?_) <|
      .cons (Field.lawful_scalar Scalar.lawful_bytes ?_) <|
      .cons (Field.lawful_scalar Scalar.lawful_int64 ?_) .nil
    all_goals exact ⟨fun _ _ => rfl, fun _ => rfl, fun _ _ _ => rfl⟩
  · simp (disch := decide) only [overlay, codec, Overlay.value_of_eq_default]

def RangeRequest.overlay (a b : RangeRequest) : RangeRequest where
  key := Overlay.value a.key b.key
  rangeEnd := Overlay.value a.rangeEnd b.rangeEnd
  limit := Overlay.value a.limit b.limit
  revision := Overlay.value a.revision b.revision
  sortOrder := Overlay.value a.sortOrder b.sortOrder
  sortTarget := Overlay.value a.sortTarget b.sortTarget
  serializable := Overlay.value a.serializable b.serializable
  keysOnly := Overlay.value a.keysOnly b.keysOnly
  countOnly := Overlay.value a.countOnly b.countOnly
  minModRevision := Overlay.value a.minModRevision b.minModRevision
  maxModRevision := Overlay.value a.maxModRevision b.maxModRevision
  minCreateRevision := Overlay.value a.minCreateRevision b.minCreateRevision
  maxCreateRevision := Overlay.value a.maxCreateRevision b.maxCreateRevision

theorem RangeRequest.lawful_codec (levels : Nat) : codec.Lawful levels overlay := by
  refine .of_fields (by decide) ?_ (fun _ _ => rfl) fun b => ?_
  · refine .cons (Field.lawful_scalar Scalar.lawful_bytes ?_) <|
      .cons (Field.lawful_scalar Scalar.lawful_bytes ?_) <|
      .cons (Field.lawful_scalar Scalar.lawful_int32 ?_) <|
      .cons (Field.lawful_scalar Scalar.lawful_int32 ?_) <|
      .cons (Field.lawful_scalar Scalar.lawful_bool ?_) <|
      .cons (Field.lawful_scalar Scalar.lawful_bool ?_) <|
      .cons (Field.lawful_scalar Scalar.lawful_bool ?_) <|
      .cons (Field.lawful_scalar Scalar.lawful_int64 ?_) <|
      .cons (Field.lawful_scalar Scalar.lawful_int64 ?_) <|
      .cons (Field.lawful_scalar Scalar.lawful_int64 ?_) <|
      .cons (Field.lawful_scalar Scalar.lawful_int64 ?_) <|
      .cons (Field.lawful_scalar Scalar.lawful_int64 ?_) <|
      .cons (Field.lawful_scalar Scalar.lawful_int64 ?_) .nil
    all_goals exact ⟨fun _ _ => rfl, fun _ => rfl, fun _ _ _ => rfl⟩
  · simp (disch := decide) only [overlay, codec, Overlay.value_of_eq_default]

def RangeResponse.overlay (a b : RangeResponse) : RangeResponse where
  header := Overlay.optional Header.overlay a.header b.header
  kvs := a.kvs ++ b.kvs
  more := Overlay.value a.more b.more
  count := Overlay.value a.count b.count

theorem RangeResponse.lawful_codec (levels : Nat) : codec.Lawful (levels + 1) overlay := by
  refine .of_fields (by decide) ?_ (fun _ _ => rfl) fun b => ?_
  · refine .cons (Field.lawful_optional (Header.lawful_codec levels) ?_) <|
      .cons (Field.lawful_repeated (KeyValue.lawful_codec levels) ?_) <|
      .cons (Field.lawful_scalar Scalar.lawful_bool ?_) <|
      .cons (Field.lawful_scalar Scalar.lawful_int64 ?_) .nil
    all_goals exact ⟨fun _ _ => rfl, fun _ => rfl, fun _ _ _ => rfl⟩
  · simp (disch := decide) only [overlay, codec, Overlay.value_of_eq_default,
      Overlay.optional_none, List.nil_append]

def PutRequest.overlay (a b : PutRequest) : PutRequest where
  key := Overlay.value a.key b.key
  value := Overlay.value a.value b.value
  lease := Overlay.value a.lease b.lease
  prevKv := Overlay.value a.prevKv b.prevKv
  ignoreValue := Overlay.value a.ignoreValue b.ignoreValue
  ignoreLease := Overlay.value a.ignoreLease b.ignoreLease

theorem PutRequest.lawful_codec (levels : Nat) : codec.Lawful levels overlay := by
  refine .of_fields (by decide) ?_ (fun _ _ => rfl) fun b => ?_
  · refine .cons (Field.lawful_scalar Scalar.lawful_bytes ?_) <|
      .cons (Field.lawful_scalar Scalar.lawful_bytes ?_) <|
      .cons (Field.lawful_scalar Scalar.lawful_int64 ?_) <|
      .cons (Field.lawful_scalar Scalar.lawful_bool ?_) <|
      .cons (Field.lawful_scalar Scalar.lawful_bool ?_) <|
      .cons (Field.lawful_scalar Scalar.lawful_bool ?_) .nil
    all_goals exact ⟨fun _ _ => rfl, fun _ => rfl, fun _ _ _ => rfl⟩
  · simp (disch := decide) only [overlay, codec, Overlay.value_of_eq_default]

def PutResponse.overlay (a b : PutResponse) : PutResponse where
  header := Overlay.optional Header.overlay a.header b.header
  prevKv := Overlay.optional KeyValue.overlay a.prevKv b.prevKv

theorem PutResponse.lawful_codec (levels : Nat) : codec.Lawful (levels + 1) overlay := by
  refine .of_fields (by decide) ?_ (fun _ _ => rfl) fun b => ?_
  · refine .cons (Field.lawful_optional (Header.lawful_codec levels) ?_) <|
      .cons (Field.lawful_optional (KeyValue.lawful_codec levels) ?_) .nil
    all_goals exact ⟨fun _ _ => rfl, fun _ => rfl, fun _ _ _ => rfl⟩
  · simp only [overlay, codec, Overlay.optional_none]

def DeleteRangeRequest.overlay (a b : DeleteRangeRequest) : DeleteRangeRequest where
  key := Overlay.value a.key b.key
  rangeEnd := Overlay.value a.rangeEnd b.rangeEnd
  prevKv := Overlay.value a.prevKv b.prevKv

theorem DeleteRangeRequest.lawful_codec (levels : Nat) : codec.Lawful levels overlay := by
  refine .of_fields (by decide) ?_ (fun _ _ => rfl) fun b => ?_
  · refine .cons (Field.lawful_scalar Scalar.lawful_bytes ?_) <|
      .cons (Field.lawful_scalar Scalar.lawful_bytes ?_) <|
      .cons (Field.lawful_scalar Scalar.lawful_bool ?_) .nil
    all_goals exact ⟨fun _ _ => rfl, fun _ => rfl, fun _ _ _ => rfl⟩
  · simp (disch := decide) only [overlay, codec, Overlay.value_of_eq_default]

def DeleteRangeResponse.overlay (a b : DeleteRangeResponse) : DeleteRangeResponse where
  header := Overlay.optional Header.overlay a.header b.header
  deleted := Overlay.value a.deleted b.deleted
  prevKvs := a.prevKvs ++ b.prevKvs

theorem DeleteRangeResponse.lawful_codec (levels : Nat) : codec.Lawful (levels + 1) overlay := by
  refine .of_fields (by decide) ?_ (fun _ _ => rfl) fun b => ?_
  · refine .cons (Field.lawful_optional (Header.lawful_codec levels) ?_) <|
      .cons (Field.lawful_scalar Scalar.lawful_int64 ?_) <|
      .cons (Field.lawful_repeated (KeyValue.lawful_codec levels) ?_) .nil
    all_goals exact ⟨fun _ _ => rfl, fun _ => rfl, fun _ _ _ => rfl⟩
  · simp (disch := decide) only [overlay, codec, Overlay.value_of_eq_default,
      Overlay.optional_none, List.nil_append]

def CompactionRequest.overlay (a b : CompactionRequest) : CompactionRequest where
  revision := Overlay.value a.revision b.revision
  physical := Overlay.value a.physical b.physical

theorem CompactionRequest.lawful_codec (levels : Nat) : codec.Lawful levels overlay := by
  refine .of_fields (by decide) ?_ (fun _ _ => rfl) fun b => ?_
  · refine .cons (Field.lawful_scalar Scalar.lawful_int64 ?_) <|
      .cons (Field.lawful_scalar Scalar.lawful_bool ?_) .nil
    all_goals exact ⟨fun _ _ => rfl, fun _ => rfl, fun _ _ _ => rfl⟩
  · simp (disch := decide) only [overlay, codec, Overlay.value_of_eq_default]

def CompactionResponse.overlay (a b : CompactionResponse) : CompactionResponse where
  header := Overlay.optional Header.overlay a.header b.header

theorem CompactionResponse.lawful_codec (levels : Nat) : codec.Lawful (levels + 1) overlay := by
  refine .of_fields (by decide) ?_ (fun _ _ => rfl) fun b => ?_
  · refine .cons (Field.lawful_optional (Header.lawful_codec levels) ?_) .nil
    all_goals exact ⟨fun _ _ => rfl, fun _ => rfl, fun _ _ _ => rfl⟩
  · simp only [overlay, codec, Overlay.optional_none]

theorem Operand.lawful_members (levels : Nat) :
    LawfulMembers levels (fun _ new => new) members := by
  rintro (n | n | n | bytes | n)
  · refine ⟨[], _, _, rfl, Member.lawful_scalar Scalar.lawful_int64 rfl fun _ => rfl, ?_, ?_⟩
    · decide
    · simp [Member.scalar, createRevision?, modRevision?, value?, lease?]
  · refine ⟨[_], _, _, rfl, Member.lawful_scalar Scalar.lawful_int64 rfl fun _ => rfl, ?_, ?_⟩
    · simp [Member.scalar]
    · simp [Member.scalar, version?, modRevision?, value?, lease?]
  · refine ⟨[_, _], _, _, rfl, Member.lawful_scalar Scalar.lawful_int64 rfl fun _ => rfl, ?_, ?_⟩
    · simp [Member.scalar]
    · simp [Member.scalar, version?, createRevision?, value?, lease?]
  · refine ⟨[_, _, _], _, _, rfl, Member.lawful_scalar Scalar.lawful_bytes rfl fun _ => rfl,
      ?_, ?_⟩
    · simp [Member.scalar]
    · simp [Member.scalar, version?, createRevision?, modRevision?, lease?]
  · refine ⟨[_, _, _, _], _, _, rfl, Member.lawful_scalar Scalar.lawful_int64 rfl fun _ => rfl,
      ?_, ?_⟩
    · simp [Member.scalar]
    · simp [Member.scalar, version?, createRevision?, modRevision?, value?]

def Compare.overlay (a b : Compare) : Compare where
  result := Overlay.value a.result b.result
  target := Overlay.value a.target b.target
  key := Overlay.value a.key b.key
  operand := Overlay.optional (fun _ new => new) a.operand b.operand
  rangeEnd := Overlay.value a.rangeEnd b.rangeEnd

theorem Compare.lawful_codec (levels : Nat) : codec.Lawful levels overlay := by
  refine .of_fields (by decide) ?_ (fun _ _ => rfl) fun b => ?_
  · refine .cons (Field.lawful_scalar Scalar.lawful_int32 ?_) <|
      .cons (Field.lawful_scalar Scalar.lawful_int32 ?_) <|
      .cons (Field.lawful_scalar Scalar.lawful_bytes ?_) <|
      .cons (Field.lawful_choice (Operand.lawful_members levels) ?_) <|
      .cons (Field.lawful_scalar Scalar.lawful_bytes ?_) .nil
    all_goals exact ⟨fun _ _ => rfl, fun _ => rfl, fun _ _ _ => rfl⟩
  · simp (disch := decide) only [overlay, codec, Overlay.value_of_eq_default,
      Overlay.optional_none]

/-- Requests for the same operation are laid over each other, and a request for another one takes
the place of the old one. -/
def OpRequest.overlay : OpRequest → OpRequest → OpRequest
  | range a, range b => range (a.overlay b)
  | put a, put b => put (a.overlay b)
  | deleteRange a, deleteRange b => deleteRange (a.overlay b)
  | _, b => b

theorem OpRequest.lawful_members (levels : Nat) : LawfulMembers (levels + 1) overlay members := by
  rintro (b | b | b)
  · refine ⟨[], _, _, rfl, Member.lawful_message (RangeRequest.lawful_codec levels) rfl ?_, ?_, ?_⟩
    · rintro (a | a | a) <;> rfl
    · simp
    · simp [Member.message, put?, deleteRange?]
  · refine ⟨[_], _, _, rfl, Member.lawful_message (PutRequest.lawful_codec levels) rfl ?_, ?_, ?_⟩
    · rintro (a | a | a) <;> rfl
    · simp [Member.message]
    · simp [Member.message, range?, deleteRange?]
  · refine ⟨[_, _], _, _, rfl,
      Member.lawful_message (DeleteRangeRequest.lawful_codec levels) rfl ?_, ?_, ?_⟩
    · rintro (a | a | a) <;> rfl
    · simp [Member.message]
    · simp [Member.message, range?, put?]

def RequestOp.overlay (a b : RequestOp) : RequestOp where
  request := Overlay.optional OpRequest.overlay a.request b.request

theorem RequestOp.lawful_codec (levels : Nat) : codec.Lawful (levels + 1) overlay := by
  refine .of_fields (by decide) ?_ (fun _ _ => rfl) fun b => ?_
  · refine .cons (Field.lawful_choice (OpRequest.lawful_members levels) ?_) .nil
    all_goals exact ⟨fun _ _ => rfl, fun _ => rfl, fun _ _ _ => rfl⟩
  · simp only [overlay, codec, Overlay.optional_none]

def OpResponse.overlay : OpResponse → OpResponse → OpResponse
  | range a, range b => range (a.overlay b)
  | put a, put b => put (a.overlay b)
  | deleteRange a, deleteRange b => deleteRange (a.overlay b)
  | _, b => b

theorem OpResponse.lawful_members (levels : Nat) :
    LawfulMembers (levels + 2) overlay members := by
  rintro (b | b | b)
  · refine ⟨[], _, _, rfl, Member.lawful_message (RangeResponse.lawful_codec levels) rfl ?_, ?_, ?_⟩
    · rintro (a | a | a) <;> rfl
    · simp
    · simp [Member.message, put?, deleteRange?]
  · refine ⟨[_], _, _, rfl, Member.lawful_message (PutResponse.lawful_codec levels) rfl ?_, ?_, ?_⟩
    · rintro (a | a | a) <;> rfl
    · simp [Member.message]
    · simp [Member.message, range?, deleteRange?]
  · refine ⟨[_, _], _, _, rfl,
      Member.lawful_message (DeleteRangeResponse.lawful_codec levels) rfl ?_, ?_, ?_⟩
    · rintro (a | a | a) <;> rfl
    · simp [Member.message]
    · simp [Member.message, range?, put?]

def ResponseOp.overlay (a b : ResponseOp) : ResponseOp where
  response := Overlay.optional OpResponse.overlay a.response b.response

theorem ResponseOp.lawful_codec (levels : Nat) : codec.Lawful (levels + 2) overlay := by
  refine .of_fields (by decide) ?_ (fun _ _ => rfl) fun b => ?_
  · refine .cons (Field.lawful_choice (OpResponse.lawful_members levels) ?_) .nil
    all_goals exact ⟨fun _ _ => rfl, fun _ => rfl, fun _ _ _ => rfl⟩
  · simp only [overlay, codec, Overlay.optional_none]

def TxnRequest.overlay (a b : TxnRequest) : TxnRequest where
  compare := a.compare ++ b.compare
  success := a.success ++ b.success
  failure := a.failure ++ b.failure

theorem TxnRequest.lawful_codec (levels : Nat) : codec.Lawful (levels + 2) overlay := by
  refine .of_fields (by decide) ?_ (fun _ _ => rfl) fun b => ?_
  · refine .cons (Field.lawful_repeated (Compare.lawful_codec (levels + 1)) ?_) <|
      .cons (Field.lawful_repeated (RequestOp.lawful_codec levels) ?_) <|
      .cons (Field.lawful_repeated (RequestOp.lawful_codec levels) ?_) .nil
    all_goals exact ⟨fun _ _ => rfl, fun _ => rfl, fun _ _ _ => rfl⟩
  · simp only [overlay, codec, List.nil_append]

def TxnResponse.overlay (a b : TxnResponse) : TxnResponse where
  header := Overlay.optional Header.overlay a.header b.header
  succeeded := Overlay.value a.succeeded b.succeeded
  responses := a.responses ++ b.responses

theorem TxnResponse.lawful_codec (levels : Nat) : codec.Lawful (levels + 3) overlay := by
  refine .of_fields (by decide) ?_ (fun _ _ => rfl) fun b => ?_
  · refine .cons (Field.lawful_optional (Header.lawful_codec (levels + 2)) ?_) <|
      .cons (Field.lawful_scalar Scalar.lawful_bool ?_) <|
      .cons (Field.lawful_repeated (ResponseOp.lawful_codec levels) ?_) .nil
    all_goals exact ⟨fun _ _ => rfl, fun _ => rfl, fun _ _ _ => rfl⟩
  · simp (disch := decide) only [overlay, codec, Overlay.value_of_eq_default,
      Overlay.optional_none, List.nil_append]

def AlarmRequest.overlay (a b : AlarmRequest) : AlarmRequest where
  action := Overlay.value a.action b.action
  memberId := Overlay.value a.memberId b.memberId
  alarm := Overlay.value a.alarm b.alarm

theorem AlarmRequest.lawful_codec (levels : Nat) : codec.Lawful levels overlay := by
  refine .of_fields (by decide) ?_ (fun _ _ => rfl) fun b => ?_
  · refine .cons (Field.lawful_scalar Scalar.lawful_int32 ?_) <|
      .cons (Field.lawful_scalar Scalar.lawful_uint64 ?_) <|
      .cons (Field.lawful_scalar Scalar.lawful_int32 ?_) .nil
    all_goals exact ⟨fun _ _ => rfl, fun _ => rfl, fun _ _ _ => rfl⟩
  · simp (disch := decide) only [overlay, codec, Overlay.value_of_eq_default]

def AlarmMember.overlay (a b : AlarmMember) : AlarmMember where
  memberId := Overlay.value a.memberId b.memberId
  alarm := Overlay.value a.alarm b.alarm

theorem AlarmMember.lawful_codec (levels : Nat) : codec.Lawful levels overlay := by
  refine .of_fields (by decide) ?_ (fun _ _ => rfl) fun b => ?_
  · refine .cons (Field.lawful_scalar Scalar.lawful_uint64 ?_) <|
      .cons (Field.lawful_scalar Scalar.lawful_int32 ?_) .nil
    all_goals exact ⟨fun _ _ => rfl, fun _ => rfl, fun _ _ _ => rfl⟩
  · simp (disch := decide) only [overlay, codec, Overlay.value_of_eq_default]

def AlarmResponse.overlay (a b : AlarmResponse) : AlarmResponse where
  header := Overlay.optional Header.overlay a.header b.header
  alarms := a.alarms ++ b.alarms

theorem AlarmResponse.lawful_codec (levels : Nat) : codec.Lawful (levels + 1) overlay := by
  refine .of_fields (by decide) ?_ (fun _ _ => rfl) fun b => ?_
  · refine .cons (Field.lawful_optional (Header.lawful_codec levels) ?_) <|
      .cons (Field.lawful_repeated (AlarmMember.lawful_codec levels) ?_) .nil
    all_goals exact ⟨fun _ _ => rfl, fun _ => rfl, fun _ _ _ => rfl⟩
  · simp only [overlay, codec, Overlay.optional_none, List.nil_append]

def StatusResponse.overlay (a b : StatusResponse) : StatusResponse where
  header := Overlay.optional Header.overlay a.header b.header
  version := Overlay.value a.version b.version
  dbSize := Overlay.value a.dbSize b.dbSize
  leader := Overlay.value a.leader b.leader
  raftIndex := Overlay.value a.raftIndex b.raftIndex
  raftTerm := Overlay.value a.raftTerm b.raftTerm

theorem StatusResponse.lawful_codec (levels : Nat) : codec.Lawful (levels + 1) overlay := by
  refine .of_fields (by decide) ?_ (fun _ _ => rfl) fun b => ?_
  · refine .cons (Field.lawful_optional (Header.lawful_codec levels) ?_) <|
      .cons (Field.lawful_scalar Scalar.lawful_text ?_) <|
      .cons (Field.lawful_scalar Scalar.lawful_int64 ?_) <|
      .cons (Field.lawful_scalar Scalar.lawful_uint64 ?_) <|
      .cons (Field.lawful_scalar Scalar.lawful_uint64 ?_) <|
      .cons (Field.lawful_scalar Scalar.lawful_uint64 ?_) .nil
    all_goals exact ⟨fun _ _ => rfl, fun _ => rfl, fun _ _ _ => rfl⟩
  · simp (disch := decide) only [overlay, codec, Overlay.value_of_eq_default,
      Overlay.optional_none]

def DefragmentResponse.overlay (a b : DefragmentResponse) : DefragmentResponse where
  header := Overlay.optional Header.overlay a.header b.header

theorem DefragmentResponse.lawful_codec (levels : Nat) : codec.Lawful (levels + 1) overlay := by
  refine .of_fields (by decide) ?_ (fun _ _ => rfl) fun b => ?_
  · refine .cons (Field.lawful_optional (Header.lawful_codec levels) ?_) .nil
    all_goals exact ⟨fun _ _ => rfl, fun _ => rfl, fun _ _ _ => rfl⟩
  · simp only [overlay, codec, Overlay.optional_none]

def SnapshotResponse.overlay (a b : SnapshotResponse) : SnapshotResponse where
  header := Overlay.optional Header.overlay a.header b.header
  remainingBytes := Overlay.value a.remainingBytes b.remainingBytes
  blob := Overlay.value a.blob b.blob

theorem SnapshotResponse.lawful_codec (levels : Nat) : codec.Lawful (levels + 1) overlay := by
  refine .of_fields (by decide) ?_ (fun _ _ => rfl) fun b => ?_
  · refine .cons (Field.lawful_optional (Header.lawful_codec levels) ?_) <|
      .cons (Field.lawful_scalar Scalar.lawful_uint64 ?_) <|
      .cons (Field.lawful_scalar Scalar.lawful_bytes ?_) .nil
    all_goals exact ⟨fun _ _ => rfl, fun _ => rfl, fun _ _ _ => rfl⟩
  · simp (disch := decide) only [overlay, codec, Overlay.value_of_eq_default,
      Overlay.optional_none]

namespace MessageKind

/-- What a message makes of one of its kind that is read over it. The messages without fields are
all the same one. -/
def overlay : (kind : MessageKind) → kind.Carrier → kind.Carrier → kind.Carrier
  | responseHeader => Header.overlay
  | keyValue => KeyValue.overlay
  | rangeRequest => RangeRequest.overlay
  | rangeResponse => RangeResponse.overlay
  | putRequest => PutRequest.overlay
  | putResponse => PutResponse.overlay
  | deleteRangeRequest => DeleteRangeRequest.overlay
  | deleteRangeResponse => DeleteRangeResponse.overlay
  | compactionRequest => CompactionRequest.overlay
  | compactionResponse => CompactionResponse.overlay
  | compare => Compare.overlay
  | requestOp => RequestOp.overlay
  | responseOp => ResponseOp.overlay
  | txnRequest => TxnRequest.overlay
  | txnResponse => TxnResponse.overlay
  | alarmRequest => AlarmRequest.overlay
  | alarmMember => AlarmMember.overlay
  | alarmResponse => AlarmResponse.overlay
  | statusRequest => fun a _ => a
  | statusResponse => StatusResponse.overlay
  | defragmentRequest => fun a _ => a
  | defragmentResponse => DefragmentResponse.overlay
  | snapshotRequest => fun a _ => a
  | snapshotResponse => SnapshotResponse.overlay

theorem lawful_codec (kind : MessageKind) (levels : Nat) :
    kind.codec.Lawful (levels + 3) kind.overlay := by
  cases kind with
  | responseHeader => exact Header.lawful_codec _
  | keyValue => exact KeyValue.lawful_codec _
  | rangeRequest => exact RangeRequest.lawful_codec _
  | rangeResponse => exact RangeResponse.lawful_codec _
  | putRequest => exact PutRequest.lawful_codec _
  | putResponse => exact PutResponse.lawful_codec _
  | deleteRangeRequest => exact DeleteRangeRequest.lawful_codec _
  | deleteRangeResponse => exact DeleteRangeResponse.lawful_codec _
  | compactionRequest => exact CompactionRequest.lawful_codec _
  | compactionResponse => exact CompactionResponse.lawful_codec _
  | compare => exact Compare.lawful_codec _
  | requestOp => exact RequestOp.lawful_codec _
  | responseOp => exact ResponseOp.lawful_codec _
  | txnRequest => exact TxnRequest.lawful_codec _
  | txnResponse => exact TxnResponse.lawful_codec _
  | alarmRequest => exact AlarmRequest.lawful_codec _
  | alarmMember => exact AlarmMember.lawful_codec _
  | alarmResponse => exact AlarmResponse.lawful_codec _
  | statusRequest => exact .of_fields (by decide) .nil (fun _ _ => rfl) fun _ => rfl
  | statusResponse => exact StatusResponse.lawful_codec _
  | defragmentRequest => exact .of_fields (by decide) .nil (fun _ _ => rfl) fun _ => rfl
  | defragmentResponse => exact DefragmentResponse.lawful_codec _
  | snapshotRequest => exact .of_fields (by decide) .nil (fun _ _ => rfl) fun _ => rfl
  | snapshotResponse => exact SnapshotResponse.lawful_codec _

/-- What was written is read over any message as the protocol says, with its length before it and
anything behind it too, and over the empty message it is read back as it was. -/
theorem merge_encode (kind : MessageKind) (a b : kind.Carrier)
    (hb : (kind.codec.encode b).length < UInt64.size) :
    kind.codec.merge a (kind.codec.encode b) = ⟨kind.overlay a b, .ok []⟩ ∧
      kind.codec.decode (kind.codec.encode b) = .ok b ∧
      ∀ rest,
        kind.codec.mergeLengthDelimited a (kind.codec.encodeDelimited b ++ rest) =
          ⟨kind.overlay a b, .ok rest⟩ ∧
        kind.codec.mergeLengthDelimited kind.codec.empty (kind.codec.encodeDelimited b ++ rest) =
          ⟨b, .ok rest⟩ := by
  have hplain := kind.lawful_codec 97
  have hnested := kind.lawful_codec 96
  rw [hplain.length_encode] at hb
  have hmerge : ∀ m, kind.codec.merge m (kind.codec.encode b) = ⟨kind.overlay m b, .ok []⟩ := by
    intro m
    have hrecords := hplain.mergeRecords_encode (a := m) (s := []) hb
    rwa [List.append_nil] at hrecords
  have hdelimited : ∀ m rest,
      kind.codec.mergeLengthDelimited m (kind.codec.encodeDelimited b ++ rest) =
        ⟨kind.overlay m b, .ok rest⟩ :=
    fun m rest => hnested.mergeDelimited_encodeDelimited hb
  refine ⟨hmerge a, ?_, fun rest => ⟨hdelimited a rest, ?_⟩⟩
  · rw [Codec.decode, hmerge, hplain.overlay_empty]
  · rw [hdelimited, hnested.overlay_empty]

/-- Negative numbers, a comparison with the version zero and a request with nothing in it are
all read back, behind what the transaction held before. -/
theorem merge_encode_of_empty_members :
    let a : TxnRequest := { success := [{}] }
    let b : TxnRequest := {
      compare := [{ result := -1, operand := some (.version 0) }]
      success := [{ request := some (.range { limit := -1 }) }, { request := some (.put {}) }] }
    (TxnRequest.codec.encode b).length < UInt64.size ∧
      TxnRequest.codec.merge a (TxnRequest.codec.encode b) =
        ⟨{ b with success := a.success ++ b.success }, .ok []⟩ ∧
      TxnRequest.codec.decode (TxnRequest.codec.encode b) = .ok b := by
  intro a b
  have hb : (TxnRequest.codec.encode b).length < UInt64.size := by
    rw [(TxnRequest.lawful_codec 0).length_encode]
    decide
  obtain ⟨hmerge, hdecode, -⟩ := merge_encode .txnRequest a b hb
  exact ⟨hb, hmerge, hdecode⟩

end MessageKind

end Keyspace
