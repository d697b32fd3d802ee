import Keyspace.Store.Request
import Keyspace.Transaction

namespace Keyspace

/-- Where calls are made: at one of the two parts of a client, or at one that was started beside
them. Each has a context of its own. -/
inductive Side
  | kv
  | maintenance
  | further (client : Nat)
  deriving DecidableEq, Inhabited, Repr

inductive Command
  | put (key value : Bytes) (options : PutOptions)
  | get (key : Bytes) (options : GetOptions)
  | delete (key : Bytes) (options : DeleteOptions)
  | compact (options : CompactOptions)
  | commit (transaction : Transaction)
  | status
  | defragment
  | listAlarms
  | alarm (member : UInt64) (alarm : AlarmType) (action : AlarmAction)
  deriving DecidableEq, Inhabited, Repr

/-- What a command gives its caller. -/
inductive Reply
  | put (result : PutResult)
  | range (result : RangeResult)
  | delete (result : DeleteResult)
  | header (result : Header)
  | txn (result : TxnResult)
  | status (result : MemberStatus)
  | alarms (result : AlarmList)
  deriving DecidableEq, Inhabited, Repr

namespace Command

def disarm (member : UInt64) (type : AlarmType) : Command :=
  alarm member type .deactivate

def side : Command → Side
  | put .. => .kv
  | get .. => .kv
  | delete .. => .kv
  | compact _ => .kv
  | commit _ => .kv
  | status => .maintenance
  | defragment => .maintenance
  | listAlarms => .maintenance
  | alarm .. => .maintenance

def alarmsRequest : AlarmRequest where
  action := AlarmAction.get.wire
  memberId := 0
  alarm := AlarmType.none.wire

/-- The request that the command sends, or why it sends none. -/
def request : Command → Outcome Request
  | put key value options => .ok (.put (options.toRequest key value))
  | get key options => .ok (.range (options.toRequest key))
  | delete key options => .ok (.deleteRange (options.toRequest key))
  | compact options => .ok (.compact options.toRequest)
  | commit transaction =>
      match transaction.toRequest with
      | .ok request => .ok (.txn request)
      | .error failure => .error failure
  | status => .ok (.status {})
  | defragment => .ok (.defragment {})
  | listAlarms => .ok (.alarm alarmsRequest)
  | alarm member type action =>
      if member = 0 then .error (.invalidArgument "member id must not be 0")
      else .ok (.alarm { action := action.wire, memberId := member, alarm := type.wire })

end Command

def Response.reply : Response → Outcome Reply
  | range r => .ok (.range (.ofResponse r))
  | put r => .ok (.put (.ofResponse r))
  | deleteRange r => .ok (.delete (.ofResponse r))
  | txn r => (TxnResult.ofResponse r).map .txn
  | compact r => .ok (.header r.result)
  | status r => .ok (.status (.ofResponse r))
  | defragment r => .ok (.header r.result)
  | alarm r => (AlarmList.ofResponse r).map .alarms

end Keyspace
