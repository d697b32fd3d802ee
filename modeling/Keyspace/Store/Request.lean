import Keyspace.Store.Txn
import Keyspace.Store.Upkeep

namespace Keyspace

inductive Request
  | range (request : RangeRequest)
  | put (request : PutRequest)
  | deleteRange (request : DeleteRangeRequest)
  | txn (request : TxnRequest)
  | compact (request : CompactionRequest)
  | status (request : StatusRequest)
  | defragment (request : DefragmentRequest)
  | alarm (request : AlarmRequest)
  deriving DecidableEq, Inhabited, Repr

def Request.method : Request → String
  | range _ => "range"
  | put _ => "put"
  | deleteRange _ => "delete_range"
  | txn _ => "txn"
  | compact _ => "compact"
  | status _ => "status"
  | defragment _ => "defragment"
  | alarm _ => "alarm"

def Request.encode : Request → Bytes
  | range r => RangeRequest.codec.encode r
  | put r => PutRequest.codec.encode r
  | deleteRange r => DeleteRangeRequest.codec.encode r
  | txn r => TxnRequest.codec.encode r
  | compact r => CompactionRequest.codec.encode r
  | status r => StatusRequest.codec.encode r
  | defragment r => DefragmentRequest.codec.encode r
  | alarm r => AlarmRequest.codec.encode r

inductive Response
  | range (response : RangeResponse)
  | put (response : PutResponse)
  | deleteRange (response : DeleteRangeResponse)
  | txn (response : TxnResponse)
  | compact (response : CompactionResponse)
  | status (response : StatusResponse)
  | defragment (response : DefragmentResponse)
  | alarm (response : AlarmResponse)
  deriving DecidableEq, Inhabited, Repr

namespace Store

def serve (s : Store) : Request → Step Response
  | .range r => (s, (s.range r).map .range)
  | .put r => let (s', answer) := s.put r; (s', answer.map .put)
  | .deleteRange r => let (s', answer) := s.deleteRange r; (s', answer.map .deleteRange)
  | .txn r => let (s', answer) := s.txn r; (s', answer.map .txn)
  | .compact r => let (s', answer) := s.compact r; (s', answer.map .compact)
  | .status _ => (s, .ok (.status s.status))
  | .defragment _ => let (s', response) := s.defragment; (s', .ok (.defragment response))
  | .alarm r => let (s', answer) := s.alarm r; (s', answer.map .alarm)

def run (s : Store) (requests : List Request) : Store :=
  requests.foldl (fun s r => (s.serve r).1) s

end Store

end Keyspace
