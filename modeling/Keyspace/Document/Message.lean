import Keyspace.Document.Form
import Keyspace.Message.Kind

namespace Keyspace

def Header.plain : Form Header :=
  .record {} [
    .free "cluster_id" .uint64 ⟨clusterId, fun a m => { m with clusterId := a }⟩,
    .free "member_id" .uint64 ⟨memberId, fun a m => { m with memberId := a }⟩,
    .free "revision" .int64 ⟨revision, fun a m => { m with revision := a }⟩,
    .free "raft_term" .uint64 ⟨raftTerm, fun a m => { m with raftTerm := a }⟩]

def Form.Member.header (part : Part σ (Option Header)) : Form.Member σ :=
  .free "header" Header.plain.option part

def KeyValue.plain : Form KeyValue :=
  .record {} [
    .free "key" .hex ⟨key, fun a m => { m with key := a }⟩,
    .free "create_revision" .int64 ⟨createRevision, fun a m => { m with createRevision := a }⟩,
    .free "mod_revision" .int64 ⟨modRevision, fun a m => { m with modRevision := a }⟩,
    .free "version" .int64 ⟨version, fun a m => { m with version := a }⟩,
    .free "value" .hex ⟨value, fun a m => { m with value := a }⟩,
    .free "lease" .int64 ⟨lease, fun a m => { m with lease := a }⟩]

def RangeRequest.plain : Form RangeRequest :=
  .record {} [
    .free "key" .hex ⟨key, fun a m => { m with key := a }⟩,
    .free "range_end" .hex ⟨rangeEnd, fun a m => { m with rangeEnd := a }⟩,
    .free "limit" .int64 ⟨limit, fun a m => { m with limit := a }⟩,
    .free "revision" .int64 ⟨revision, fun a m => { m with revision := a }⟩,
    .free "sort_order" .int32 ⟨sortOrder, fun a m => { m with sortOrder := a }⟩,
    .free "sort_target" .int32 ⟨sortTarget, fun a m => { m with sortTarget := a }⟩,
    .free "serializable" .bool ⟨serializable, fun a m => { m with serializable := a }⟩,
    .free "keys_only" .bool ⟨keysOnly, fun a m => { m with keysOnly := a }⟩,
    .free "count_only" .bool ⟨countOnly, fun a m => { m with countOnly := a }⟩,
    .free "min_mod_revision" .int64 ⟨minModRevision, fun a m => { m with minModRevision := a }⟩,
    .free "max_mod_revision" .int64 ⟨maxModRevision, fun a m => { m with maxModRevision := a }⟩,
    .free "min_create_revision" .int64
      ⟨minCreateRevision, fun a m => { m with minCreateRevision := a }⟩,
    .free "max_create_revision" .int64
      ⟨maxCreateRevision, fun a m => { m with maxCreateRevision := a }⟩]

def RangeResponse.plain : Form RangeResponse :=
  .record {} [
    .header ⟨header, fun a m => { m with header := a }⟩,
    .free "kvs" KeyValue.plain.list ⟨kvs, fun a m => { m with kvs := a }⟩,
    .free "more" .bool ⟨more, fun a m => { m with more := a }⟩,
    .free "count" .int64 ⟨count, fun a m => { m with count := a }⟩]

def PutRequest.plain : Form PutRequest :=
  .record {} [
    .free "key" .hex ⟨key, fun a m => { m with key := a }⟩,
    .free "value" .hex ⟨value, fun a m => { m with value := a }⟩,
    .free "lease" .int64 ⟨lease, fun a m => { m with lease := a }⟩,
    .free "prev_kv" .bool ⟨prevKv, fun a m => { m with prevKv := a }⟩,
    .free "ignore_value" .bool ⟨ignoreValue, fun a m => { m with ignoreValue := a }⟩,
    .free "ignore_lease" .bool ⟨ignoreLease, fun a m => { m with ignoreLease := a }⟩]

def PutResponse.plain : Form PutResponse :=
  .record {} [
    .header ⟨header, fun a m => { m with header := a }⟩,
    .free "prev_kv" KeyValue.plain.option ⟨prevKv, fun a m => { m with prevKv := a }⟩]

def DeleteRangeRequest.plain : Form DeleteRangeRequest :=
  .record {} [
    .free "key" .hex ⟨key, fun a m => { m with key := a }⟩,
    .free "range_end" .hex ⟨rangeEnd, fun a m => { m with rangeEnd := a }⟩,
    .free "prev_kv" .bool ⟨prevKv, fun a m => { m with prevKv := a }⟩]

def DeleteRangeResponse.plain : Form DeleteRangeResponse :=
  .record {} [
    .header ⟨header, fun a m => { m with header := a }⟩,
    .free "deleted" .int64 ⟨deleted, fun a m => { m with deleted := a }⟩,
    .free "prev_kvs" KeyValue.plain.list ⟨prevKvs, fun a m => { m with prevKvs := a }⟩]

def CompactionRequest.plain : Form CompactionRequest :=
  .record {} [
    .free "revision" .int64 ⟨revision, fun a m => { m with revision := a }⟩,
    .free "physical" .bool ⟨physical, fun a m => { m with physical := a }⟩]

def CompactionResponse.plain : Form CompactionResponse :=
  .record {} [.header ⟨header, fun a m => { m with header := a }⟩]

def Operand.plain : Form Operand :=
  let write : Operand → String × Document
    | .version n => ("version", Form.int64.write n)
    | .createRevision n => ("create_revision", Form.int64.write n)
    | .modRevision n => ("mod_revision", Form.int64.write n)
    | .value bytes => ("value", Form.hex.write bytes)
    | .lease n => ("lease", Form.int64.write n)
  .choice write [
    Form.kind "version" .int64 .version,
    Form.kind "create_revision" .int64 .createRevision,
    Form.kind "mod_revision" .int64 .modRevision,
    Form.kind "value" .hex .value,
    Form.kind "lease" .int64 .lease]

def Compare.plain : Form Compare :=
  .record {} [
    .free "result" .int32 ⟨result, fun a m => { m with result := a }⟩,
    .free "target" .int32 ⟨target, fun a m => { m with target := a }⟩,
    .free "key" .hex ⟨key, fun a m => { m with key := a }⟩,
    .free "target_union" Operand.plain.option ⟨operand, fun a m => { m with operand := a }⟩,
    .free "range_end" .hex ⟨rangeEnd, fun a m => { m with rangeEnd := a }⟩]

def OpRequest.plain : Form OpRequest :=
  let write : OpRequest → String × Document
    | .range r => ("range", RangeRequest.plain.write r)
    | .put r => ("put", PutRequest.plain.write r)
    | .deleteRange r => ("delete_range", DeleteRangeRequest.plain.write r)
  .choice write [
    Form.kind "range" RangeRequest.plain .range,
    Form.kind "put" PutRequest.plain .put,
    Form.kind "delete_range" DeleteRangeRequest.plain .deleteRange]

def RequestOp.plain : Form RequestOp :=
  .record {} [.free "request" OpRequest.plain.option ⟨request, fun a m => { m with request := a }⟩]

def OpResponse.plain : Form OpResponse :=
  let write : OpResponse → String × Document
    | .range r => ("range", RangeResponse.plain.write r)
    | .put r => ("put", PutResponse.plain.write r)
    | .deleteRange r => ("delete_range", DeleteRangeResponse.plain.write r)
  .choice write [
    Form.kind "range" RangeResponse.plain .range,
    Form.kind "put" PutResponse.plain .put,
    Form.kind "delete_range" DeleteRangeResponse.plain .deleteRange]

def ResponseOp.plain : Form ResponseOp :=
  .record {} [
    .free "response" OpResponse.plain.option ⟨response, fun a m => { m with response := a }⟩]

def TxnRequest.plain : Form TxnRequest :=
  .record {} [
    .free "compare" Compare.plain.list ⟨compare, fun a m => { m with compare := a }⟩,
    .free "success" RequestOp.plain.list ⟨success, fun a m => { m with success := a }⟩,
    .free "failure" RequestOp.plain.list ⟨failure, fun a m => { m with failure := a }⟩]

def TxnResponse.plain : Form TxnResponse :=
  .record {} [
    .header ⟨header, fun a m => { m with header := a }⟩,
    .free "succeeded" .bool ⟨succeeded, fun a m => { m with succeeded := a }⟩,
    .free "responses" ResponseOp.plain.list ⟨responses, fun a m => { m with responses := a }⟩]

def AlarmRequest.plain : Form AlarmRequest :=
  .record {} [
    .free "action" .int32 ⟨action, fun a m => { m with action := a }⟩,
    .free "member_id" .uint64 ⟨memberId, fun a m => { m with memberId := a }⟩,
    .free "alarm" .int32 ⟨alarm, fun a m => { m with alarm := a }⟩]

def AlarmMember.plain : Form AlarmMember :=
  .record {} [
    .free "member_id" .uint64 ⟨memberId, fun a m => { m with memberId := a }⟩,
    .free "alarm" .int32 ⟨alarm, fun a m => { m with alarm := a }⟩]

def AlarmResponse.plain : Form AlarmResponse :=
  .record {} [
    .header ⟨header, fun a m => { m with header := a }⟩,
    .free "alarms" AlarmMember.plain.list ⟨alarms, fun a m => { m with alarms := a }⟩]

def StatusRequest.plain : Form StatusRequest :=
  .record {} []

def StatusResponse.plain : Form StatusResponse :=
  .record {} [
    .header ⟨header, fun a m => { m with header := a }⟩,
    .free "version" .text ⟨version, fun a m => { m with version := a }⟩,
    .free "db_size" .int64 ⟨dbSize, fun a m => { m with dbSize := a }⟩,
    .free "leader" .uint64 ⟨leader, fun a m => { m with leader := a }⟩,
    .free "raft_index" .uint64 ⟨raftIndex, fun a m => { m with raftIndex := a }⟩,
    .free "raft_term" .uint64 ⟨raftTerm, fun a m => { m with raftTerm := a }⟩]

def DefragmentRequest.plain : Form DefragmentRequest :=
  .record {} []

def DefragmentResponse.plain : Form DefragmentResponse :=
  .record {} [.header ⟨header, fun a m => { m with header := a }⟩]

def SnapshotRequest.plain : Form SnapshotRequest :=
  .record {} []

def SnapshotResponse.plain : Form SnapshotResponse :=
  .record {} [
    .header ⟨header, fun a m => { m with header := a }⟩,
    .free "remaining_bytes" .uint64 ⟨remainingBytes, fun a m => { m with remainingBytes := a }⟩,
    .free "blob" .hex ⟨blob, fun a m => { m with blob := a }⟩]

def MessageKind.plain : (kind : MessageKind) → Form kind.Carrier
  | responseHeader => Header.plain
  | keyValue => KeyValue.plain
  | rangeRequest => RangeRequest.plain
  | rangeResponse => RangeResponse.plain
  | putRequest => PutRequest.plain
  | putResponse => PutResponse.plain
  | deleteRangeRequest => DeleteRangeRequest.plain
  | deleteRangeResponse => DeleteRangeResponse.plain
  | compactionRequest => CompactionRequest.plain
  | compactionResponse => CompactionResponse.plain
  | compare => Compare.plain
  | requestOp => RequestOp.plain
  | responseOp => ResponseOp.plain
  | txnRequest => TxnRequest.plain
  | txnResponse => TxnResponse.plain
  | alarmRequest => AlarmRequest.plain
  | alarmMember => AlarmMember.plain
  | alarmResponse => AlarmResponse.plain
  | statusRequest => StatusRequest.plain
  | statusResponse => StatusResponse.plain
  | defragmentRequest => DefragmentRequest.plain
  | defragmentResponse => DefragmentResponse.plain
  | snapshotRequest => SnapshotRequest.plain
  | snapshotResponse => SnapshotResponse.plain

end Keyspace
