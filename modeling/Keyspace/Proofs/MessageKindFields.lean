import Keyspace.Message.Kind
import Keyspace.Proofs.ReceivedTxnResult

namespace Keyspace

open Wire

theorem RangeRequest.steady_codec : codec.Steady := by
  simp only [Codec.Steady, codec, List.forall_mem_cons]
  exact ⟨Field.steady_scalar Scalar.steady_bytes, Field.steady_scalar Scalar.steady_bytes,
    Field.steady_scalar Scalar.steady_number, Field.steady_scalar Scalar.steady_number,
    Field.steady_scalar Scalar.steady_number, Field.steady_scalar Scalar.steady_number,
    Field.steady_scalar Scalar.steady_number, Field.steady_scalar Scalar.steady_number,
    Field.steady_scalar Scalar.steady_number, Field.steady_scalar Scalar.steady_number,
    Field.steady_scalar Scalar.steady_number, Field.steady_scalar Scalar.steady_number,
    Field.steady_scalar Scalar.steady_number, List.forall_mem_nil _⟩

theorem PutRequest.steady_codec : codec.Steady := by
  simp only [Codec.Steady, codec, List.forall_mem_cons]
  exact ⟨Field.steady_scalar Scalar.steady_bytes, Field.steady_scalar Scalar.steady_bytes,
    Field.steady_scalar Scalar.steady_number, Field.steady_scalar Scalar.steady_number,
    Field.steady_scalar Scalar.steady_number, Field.steady_scalar Scalar.steady_number,
    List.forall_mem_nil _⟩

theorem DeleteRangeRequest.steady_codec : codec.Steady := by
  simp only [Codec.Steady, codec, List.forall_mem_cons]
  exact ⟨Field.steady_scalar Scalar.steady_bytes, Field.steady_scalar Scalar.steady_bytes,
    Field.steady_scalar Scalar.steady_number, List.forall_mem_nil _⟩

theorem CompactionRequest.steady_codec : codec.Steady := by
  simp only [Codec.Steady, codec, List.forall_mem_cons]
  exact ⟨Field.steady_scalar Scalar.steady_number, Field.steady_scalar Scalar.steady_number,
    List.forall_mem_nil _⟩

theorem CompactionResponse.steady_codec : codec.Steady := by
  simp only [Codec.Steady, codec, List.forall_mem_cons]
  exact ⟨Field.steady_optional Header.steady_codec, List.forall_mem_nil _⟩

theorem Compare.steady_codec : codec.Steady := by
  have hoperand : ∀ member ∈ Operand.members, SteadyMerge fun _ => member.merge := by
    simp only [Operand.members, List.forall_mem_cons]
    exact ⟨Member.steady_scalar Scalar.steady_number, Member.steady_scalar Scalar.steady_number,
      Member.steady_scalar Scalar.steady_number, Member.steady_scalar Scalar.steady_bytes,
      Member.steady_scalar Scalar.steady_number, List.forall_mem_nil _⟩
  simp only [Codec.Steady, codec, List.forall_mem_cons]
  exact ⟨Field.steady_scalar Scalar.steady_number, Field.steady_scalar Scalar.steady_number,
    Field.steady_scalar Scalar.steady_bytes, Field.steady_choice hoperand,
    Field.steady_scalar Scalar.steady_bytes, List.forall_mem_nil _⟩

def RequestOp.member : Wire.Field RequestOp :=
  .choice OpRequest.members [] ⟨request, fun v m => { m with request := v }⟩

theorem RequestOp.steady_member : SteadyMerge member.merge := by
  apply Field.steady_choice
  simp only [OpRequest.members, List.forall_mem_cons]
  exact ⟨Member.steady_message RangeRequest.steady_codec,
    Member.steady_message PutRequest.steady_codec,
    Member.steady_message DeleteRangeRequest.steady_codec, List.forall_mem_nil _⟩

theorem RequestOp.steady_codec : codec.Steady := by
  simp only [Codec.Steady, codec, List.forall_mem_cons]
  exact ⟨steady_member, List.forall_mem_nil _⟩

theorem TxnRequest.steady_codec : codec.Steady := by
  simp only [Codec.Steady, codec, List.forall_mem_cons]
  exact ⟨Field.steady_repeated Compare.steady_codec, Field.steady_repeated RequestOp.steady_codec,
    Field.steady_repeated RequestOp.steady_codec, List.forall_mem_nil _⟩

theorem AlarmRequest.steady_codec : codec.Steady := by
  simp only [Codec.Steady, codec, List.forall_mem_cons]
  exact ⟨Field.steady_scalar Scalar.steady_number, Field.steady_scalar Scalar.steady_number,
    Field.steady_scalar Scalar.steady_number, List.forall_mem_nil _⟩

theorem AlarmMember.steady_codec : codec.Steady := by
  simp only [Codec.Steady, codec, List.forall_mem_cons]
  exact ⟨Field.steady_scalar Scalar.steady_number, Field.steady_scalar Scalar.steady_number,
    List.forall_mem_nil _⟩

theorem AlarmResponse.steady_codec : codec.Steady := by
  simp only [Codec.Steady, codec, List.forall_mem_cons]
  exact ⟨Field.steady_optional Header.steady_codec, Field.steady_repeated AlarmMember.steady_codec,
    List.forall_mem_nil _⟩

theorem StatusResponse.steady_codec : codec.Steady := by
  simp only [Codec.Steady, codec, List.forall_mem_cons]
  exact ⟨Field.steady_optional Header.steady_codec, Field.steady_scalar Scalar.steady_text,
    Field.steady_scalar Scalar.steady_number, Field.steady_scalar Scalar.steady_number,
    Field.steady_scalar Scalar.steady_number, Field.steady_scalar Scalar.steady_number,
    List.forall_mem_nil _⟩

theorem DefragmentResponse.steady_codec : codec.Steady := by
  simp only [Codec.Steady, codec, List.forall_mem_cons]
  exact ⟨Field.steady_optional Header.steady_codec, List.forall_mem_nil _⟩

theorem SnapshotResponse.steady_codec : codec.Steady := by
  simp only [Codec.Steady, codec, List.forall_mem_cons]
  exact ⟨Field.steady_optional Header.steady_codec, Field.steady_scalar Scalar.steady_number,
    Field.steady_scalar Scalar.steady_bytes, List.forall_mem_nil _⟩

namespace MessageKind

theorem steady_codec (kind : MessageKind) : kind.codec.Steady := by
  cases kind with
  | responseHeader => exact Header.steady_codec
  | keyValue => exact KeyValue.steady_codec
  | rangeRequest => exact RangeRequest.steady_codec
  | rangeResponse => exact RangeResponse.steady_codec
  | putRequest => exact PutRequest.steady_codec
  | putResponse => exact PutResponse.steady_codec
  | deleteRangeRequest => exact DeleteRangeRequest.steady_codec
  | deleteRangeResponse => exact DeleteRangeResponse.steady_codec
  | compactionRequest => exact CompactionRequest.steady_codec
  | compactionResponse => exact CompactionResponse.steady_codec
  | compare => exact Compare.steady_codec
  | requestOp => exact RequestOp.steady_codec
  | responseOp => exact ResponseOp.steady_codec
  | txnRequest => exact TxnRequest.steady_codec
  | txnResponse => exact TxnResponse.steady_codec
  | alarmRequest => exact AlarmRequest.steady_codec
  | alarmMember => exact AlarmMember.steady_codec
  | alarmResponse => exact AlarmResponse.steady_codec
  | statusResponse => exact StatusResponse.steady_codec
  | defragmentResponse => exact DefragmentResponse.steady_codec
  | snapshotResponse => exact SnapshotResponse.steady_codec
  | statusRequest | defragmentRequest | snapshotRequest => exact List.forall_mem_nil _

theorem tagged_codec (kind : MessageKind) : kind.codec.Tagged := by
  cases kind <;> decide

end MessageKind

end Keyspace
