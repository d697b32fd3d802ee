import Keyspace.Client.Command
import Keyspace.Document.Message
import Keyspace.Document.Transaction

namespace Keyspace

/-- The plain form of the message that carries a request. -/
def Request.toPlain : Request → Document
  | range r => RangeRequest.plain.write r
  | put r => PutRequest.plain.write r
  | deleteRange r => DeleteRangeRequest.plain.write r
  | txn r => TxnRequest.plain.write r
  | compact r => CompactionRequest.plain.write r
  | status r => StatusRequest.plain.write r
  | defragment r => DefragmentRequest.plain.write r
  | alarm r => AlarmRequest.plain.write r

/-- The request that a message in its plain form carries, by the method that it is sent to. -/
def Request.ofPlain? (method : String) (d : Document) : Option Request :=
  match method with
  | "range" => (RangeRequest.plain.read? .refused d).map .range
  | "put" => (PutRequest.plain.read? .refused d).map .put
  | "delete_range" => (DeleteRangeRequest.plain.read? .refused d).map .deleteRange
  | "txn" => (TxnRequest.plain.read? .refused d).map .txn
  | "compact" => (CompactionRequest.plain.read? .refused d).map .compact
  | "status" => (StatusRequest.plain.read? .refused d).map .status
  | "defragment" => (DefragmentRequest.plain.read? .refused d).map .defragment
  | "alarm" => (AlarmRequest.plain.read? .refused d).map .alarm
  | _ => none

/-- The plain form of the message that carries a response. -/
def Response.toPlain : Response → Document
  | range r => RangeResponse.plain.write r
  | put r => PutResponse.plain.write r
  | deleteRange r => DeleteRangeResponse.plain.write r
  | txn r => TxnResponse.plain.write r
  | compact r => CompactionResponse.plain.write r
  | status r => StatusResponse.plain.write r
  | defragment r => DefragmentResponse.plain.write r
  | alarm r => AlarmResponse.plain.write r

/-- The response to a request that a message in its plain form carries. -/
def Response.ofPlain? (request : Request) (d : Document) : Option Response :=
  match request with
  | .range _ => (RangeResponse.plain.read? .refused d).map .range
  | .put _ => (PutResponse.plain.read? .refused d).map .put
  | .deleteRange _ => (DeleteRangeResponse.plain.read? .refused d).map .deleteRange
  | .txn _ => (TxnResponse.plain.read? .refused d).map .txn
  | .compact _ => (CompactionResponse.plain.read? .refused d).map .compact
  | .status _ => (StatusResponse.plain.read? .refused d).map .status
  | .defragment _ => (DefragmentResponse.plain.read? .refused d).map .defragment
  | .alarm _ => (AlarmResponse.plain.read? .refused d).map .alarm

def Reply.toDocument : Reply → Document
  | put r => PutResult.form.write r
  | range r => RangeResult.form.write r
  | delete r => DeleteResult.form.write r
  | header r => Header.form.write r
  | txn r => TxnResult.form.write r
  | status r => MemberStatus.form.write r
  | alarms r => AlarmList.form.write r

end Keyspace
