import Keyspace.Failure
import Keyspace.Message.Maintenance
import Keyspace.Message.Range
import Keyspace.Message.Write

namespace Keyspace

structure PutResult where
  header : Header
  prevKv : Option KeyValue
  deriving DecidableEq, Inhabited, Repr

def PutResult.ofResponse (r : PutResponse) : PutResult :=
  { header := r.header.getD {}, prevKv := r.prevKv }

/-- The count is that of all keys in the range, also of those that a limit left out. -/
structure RangeResult where
  header : Header
  kvs : List KeyValue
  more : Bool
  count : Int64
  deriving DecidableEq, Inhabited, Repr

def RangeResult.ofResponse (r : RangeResponse) : RangeResult :=
  { header := r.header.getD {}, kvs := r.kvs, more := r.more, count := r.count }

structure DeleteResult where
  header : Header
  deleted : Int64
  prevKvs : List KeyValue
  deriving DecidableEq, Inhabited, Repr

def DeleteResult.ofResponse (r : DeleteRangeResponse) : DeleteResult :=
  { header := r.header.getD {}, deleted := r.deleted, prevKvs := r.prevKvs }

def CompactionResponse.result (r : CompactionResponse) : Header :=
  r.header.getD {}

def DefragmentResponse.result (r : DefragmentResponse) : Header :=
  r.header.getD {}

structure MemberStatus where
  header : Header
  version : String
  dbSize : Int64
  leader : UInt64
  raftIndex : UInt64
  raftTerm : UInt64
  deriving DecidableEq, Inhabited, Repr

def MemberStatus.ofResponse (r : StatusResponse) : MemberStatus :=
  { header := r.header.getD {}, version := r.version, dbSize := r.dbSize, leader := r.leader,
    raftIndex := r.raftIndex, raftTerm := r.raftTerm }

structure RaisedAlarm where
  memberId : UInt64
  alarm : AlarmType
  deriving DecidableEq, Inhabited, Repr

def RaisedAlarm.ofMember (m : AlarmMember) : Outcome RaisedAlarm :=
  match AlarmType.ofWire? m.alarm with
  | some alarm => .ok { memberId := m.memberId, alarm }
  | none => .error (.protocolViolation s!"unrecognized alarm type {m.alarm.toInt}")

structure AlarmList where
  header : Header
  alarms : List RaisedAlarm
  deriving DecidableEq, Inhabited, Repr

/-- The first alarm of an unknown type is the one that is reported. -/
def AlarmList.ofResponse (r : AlarmResponse) : Outcome AlarmList :=
  match r.alarms.mapM RaisedAlarm.ofMember with
  | .ok alarms => .ok { header := r.header.getD {}, alarms }
  | .error failure => .error failure

/-- One piece of a snapshot, with the number of bytes that come after it. -/
structure SnapshotResult where
  header : Header
  remainingBytes : UInt64
  blob : Bytes
  deriving DecidableEq, Inhabited, Repr

def SnapshotResult.ofResponse (r : SnapshotResponse) : SnapshotResult :=
  { header := r.header.getD {}, remainingBytes := r.remainingBytes, blob := r.blob }

end Keyspace
