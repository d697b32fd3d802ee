import Keyspace.Message.Transaction
import Keyspace.Message.Maintenance

namespace Keyspace

open Wire

inductive MessageKind
  | responseHeader
  | keyValue
  | rangeRequest
  | rangeResponse
  | putRequest
  | putResponse
  | deleteRangeRequest
  | deleteRangeResponse
  | compactionRequest
  | compactionResponse
  | compare
  | requestOp
  | responseOp
  | txnRequest
  | txnResponse
  | alarmRequest
  | alarmMember
  | alarmResponse
  | statusRequest
  | statusResponse
  | defragmentRequest
  | defragmentResponse
  | snapshotRequest
  | snapshotResponse
  deriving DecidableEq, Repr

namespace MessageKind

def all : List MessageKind := [
  responseHeader, keyValue, rangeRequest, rangeResponse, putRequest, putResponse,
  deleteRangeRequest, deleteRangeResponse, compactionRequest, compactionResponse, compare,
  requestOp, responseOp, txnRequest, txnResponse, alarmRequest, alarmMember, alarmResponse,
  statusRequest, statusResponse, defragmentRequest, defragmentResponse, snapshotRequest,
  snapshotResponse]

def name : MessageKind → String
  | responseHeader => "ResponseHeader"
  | keyValue => "KeyValue"
  | rangeRequest => "RangeRequest"
  | rangeResponse => "RangeResponse"
  | putRequest => "PutRequest"
  | putResponse => "PutResponse"
  | deleteRangeRequest => "DeleteRangeRequest"
  | deleteRangeResponse => "DeleteRangeResponse"
  | compactionRequest => "CompactionRequest"
  | compactionResponse => "CompactionResponse"
  | compare => "Compare"
  | requestOp => "RequestOp"
  | responseOp => "ResponseOp"
  | txnRequest => "TxnRequest"
  | txnResponse => "TxnResponse"
  | alarmRequest => "AlarmRequest"
  | alarmMember => "AlarmMember"
  | alarmResponse => "AlarmResponse"
  | statusRequest => "StatusRequest"
  | statusResponse => "StatusResponse"
  | defragmentRequest => "DefragmentRequest"
  | defragmentResponse => "DefragmentResponse"
  | snapshotRequest => "SnapshotRequest"
  | snapshotResponse => "SnapshotResponse"

def ofName? (s : String) : Option MessageKind :=
  all.find? fun kind => kind.name = s

abbrev Carrier : MessageKind → Type
  | responseHeader => Header
  | keyValue => KeyValue
  | rangeRequest => RangeRequest
  | rangeResponse => RangeResponse
  | putRequest => PutRequest
  | putResponse => PutResponse
  | deleteRangeRequest => DeleteRangeRequest
  | deleteRangeResponse => DeleteRangeResponse
  | compactionRequest => CompactionRequest
  | compactionResponse => CompactionResponse
  | compare => Compare
  | requestOp => RequestOp
  | responseOp => ResponseOp
  | txnRequest => TxnRequest
  | txnResponse => TxnResponse
  | alarmRequest => AlarmRequest
  | alarmMember => AlarmMember
  | alarmResponse => AlarmResponse
  | statusRequest => StatusRequest
  | statusResponse => StatusResponse
  | defragmentRequest => DefragmentRequest
  | defragmentResponse => DefragmentResponse
  | snapshotRequest => SnapshotRequest
  | snapshotResponse => SnapshotResponse

def codec : (kind : MessageKind) → Codec kind.Carrier
  | responseHeader => Header.codec
  | keyValue => KeyValue.codec
  | rangeRequest => RangeRequest.codec
  | rangeResponse => RangeResponse.codec
  | putRequest => PutRequest.codec
  | putResponse => PutResponse.codec
  | deleteRangeRequest => DeleteRangeRequest.codec
  | deleteRangeResponse => DeleteRangeResponse.codec
  | compactionRequest => CompactionRequest.codec
  | compactionResponse => CompactionResponse.codec
  | compare => Compare.codec
  | requestOp => RequestOp.codec
  | responseOp => ResponseOp.codec
  | txnRequest => TxnRequest.codec
  | txnResponse => TxnResponse.codec
  | alarmRequest => AlarmRequest.codec
  | alarmMember => AlarmMember.codec
  | alarmResponse => AlarmResponse.codec
  | statusRequest => StatusRequest.codec
  | statusResponse => StatusResponse.codec
  | defragmentRequest => DefragmentRequest.codec
  | defragmentResponse => DefragmentResponse.codec
  | snapshotRequest => SnapshotRequest.codec
  | snapshotResponse => SnapshotResponse.codec

end MessageKind

end Keyspace
