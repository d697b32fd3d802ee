import Keyspace.Document.Form
import Keyspace.Result

namespace Keyspace

def Header.form : Form Header :=
  .record {} [
    .of "cluster_id" .uint64 ⟨clusterId, fun a v => { v with clusterId := a }⟩,
    .of "member_id" .uint64 ⟨memberId, fun a v => { v with memberId := a }⟩,
    .of "revision" .int64 ⟨revision, fun a v => { v with revision := a }⟩,
    .of "raft_term" .uint64 ⟨raftTerm, fun a v => { v with raftTerm := a }⟩]

def KeyValue.form : Form KeyValue :=
  .record {} [
    .of "key" .bytes ⟨key, fun a v => { v with key := a }⟩,
    .of "value" .bytes ⟨value, fun a v => { v with value := a }⟩,
    .of "create_revision" .int64 ⟨createRevision, fun a v => { v with createRevision := a }⟩,
    .of "mod_revision" .int64 ⟨modRevision, fun a v => { v with modRevision := a }⟩,
    .of "version" .int64 ⟨version, fun a v => { v with version := a }⟩,
    .of "lease" .int64 ⟨lease, fun a v => { v with lease := a }⟩]

def PutResult.form : Form PutResult :=
  .record ⟨{}, none⟩ [
    .of "header" Header.form ⟨header, fun a v => { v with header := a }⟩,
    .option "prev_kv" KeyValue.form ⟨prevKv, fun a v => { v with prevKv := a }⟩]

def RangeResult.form : Form RangeResult :=
  .record ⟨{}, [], false, 0⟩ [
    .of "header" Header.form ⟨header, fun a v => { v with header := a }⟩,
    .of "kvs" KeyValue.form.list ⟨kvs, fun a v => { v with kvs := a }⟩,
    .of "more" .bool ⟨more, fun a v => { v with more := a }⟩,
    .of "count" .int64 ⟨count, fun a v => { v with count := a }⟩]

def DeleteResult.form : Form DeleteResult :=
  .record ⟨{}, 0, []⟩ [
    .of "header" Header.form ⟨header, fun a v => { v with header := a }⟩,
    .of "deleted" .int64 ⟨deleted, fun a v => { v with deleted := a }⟩,
    .of "prev_kvs" KeyValue.form.list ⟨prevKvs, fun a v => { v with prevKvs := a }⟩]

def MemberStatus.form : Form MemberStatus :=
  .record ⟨{}, "", 0, 0, 0, 0⟩ [
    .of "header" Header.form ⟨header, fun a v => { v with header := a }⟩,
    .of "version" .text ⟨version, fun a v => { v with version := a }⟩,
    .of "db_size" .int64 ⟨dbSize, fun a v => { v with dbSize := a }⟩,
    .of "leader" .uint64 ⟨leader, fun a v => { v with leader := a }⟩,
    .of "raft_index" .uint64 ⟨raftIndex, fun a v => { v with raftIndex := a }⟩,
    .of "raft_term" .uint64 ⟨raftTerm, fun a v => { v with raftTerm := a }⟩]

def AlarmAction.form : Form AlarmAction :=
  .name all name

def AlarmType.form : Form AlarmType :=
  .name all name

def RaisedAlarm.form : Form RaisedAlarm :=
  .record ⟨0, .none⟩ [
    .of "member_id" .uint64 ⟨memberId, fun a v => { v with memberId := a }⟩,
    .of "alarm" AlarmType.form ⟨alarm, fun a v => { v with alarm := a }⟩]

def AlarmList.form : Form AlarmList :=
  .record ⟨{}, []⟩ [
    .of "header" Header.form ⟨header, fun a v => { v with header := a }⟩,
    .of "alarms" RaisedAlarm.form.list ⟨alarms, fun a v => { v with alarms := a }⟩]

def SnapshotResult.form : Form SnapshotResult :=
  .record ⟨{}, 0, []⟩ [
    .of "header" Header.form ⟨header, fun a v => { v with header := a }⟩,
    .of "remaining_bytes" .uint64 ⟨remainingBytes, fun a v => { v with remainingBytes := a }⟩,
    .of "blob" .blob ⟨blob, fun a v => { v with blob := a }⟩]

end Keyspace
