import Keyspace.Message.KeyValue

namespace Keyspace

open Wire

/-- What to do with alarms. -/
inductive AlarmAction
  | get
  | activate
  | deactivate
  deriving DecidableEq, Inhabited, Repr

namespace AlarmAction

def all : List AlarmAction := [get, activate, deactivate]

def wire : AlarmAction → Int32
  | get => 0
  | activate => 1
  | deactivate => 2

def ofWire? (n : Int32) : Option AlarmAction :=
  all.find? (wire · = n)

def name : AlarmAction → String
  | get => "Get"
  | activate => "Activate"
  | deactivate => "Deactivate"

end AlarmAction

/-- What an alarm is about. -/
inductive AlarmType
  | none
  | noSpace
  | corrupt
  deriving DecidableEq, Inhabited, Repr

namespace AlarmType

def all : List AlarmType := [none, noSpace, corrupt]

def wire : AlarmType → Int32
  | none => 0
  | noSpace => 1
  | corrupt => 2

def ofWire? (n : Int32) : Option AlarmType :=
  all.find? (wire · = n)

def name : AlarmType → String
  | none => "None"
  | noSpace => "NoSpace"
  | corrupt => "Corrupt"

def wireName : AlarmType → String
  | none => "None"
  | noSpace => "Nospace"
  | corrupt => "Corrupt"

end AlarmType

structure AlarmRequest where
  action : Int32 := 0
  memberId : UInt64 := 0
  alarm : Int32 := 0
  deriving DecidableEq, Inhabited, Repr

def AlarmRequest.codec : Codec AlarmRequest where
  empty := {}
  fields := [
    .scalar 1 .int32 ⟨action, fun v m => { m with action := v }⟩,
    .scalar 2 .uint64 ⟨memberId, fun v m => { m with memberId := v }⟩,
    .scalar 3 .int32 ⟨alarm, fun v m => { m with alarm := v }⟩]

structure AlarmMember where
  memberId : UInt64 := 0
  alarm : Int32 := 0
  deriving DecidableEq, Inhabited, Repr

def AlarmMember.codec : Codec AlarmMember where
  empty := {}
  fields := [
    .scalar 1 .uint64 ⟨memberId, fun v m => { m with memberId := v }⟩,
    .scalar 2 .int32 ⟨alarm, fun v m => { m with alarm := v }⟩]

structure AlarmResponse where
  header : Option Header := none
  alarms : List AlarmMember := []
  deriving DecidableEq, Inhabited, Repr

def AlarmResponse.codec : Codec AlarmResponse where
  empty := {}
  fields := [
    .optional 1 Header.codec ⟨header, fun v m => { m with header := v }⟩,
    .repeated 2 AlarmMember.codec ⟨alarms, fun v m => { m with alarms := v }⟩]

structure StatusRequest where
  deriving DecidableEq, Inhabited, Repr

def StatusRequest.codec : Codec StatusRequest where
  empty := {}
  fields := []

structure StatusResponse where
  header : Option Header := none
  version : String := ""
  dbSize : Int64 := 0
  leader : UInt64 := 0
  raftIndex : UInt64 := 0
  raftTerm : UInt64 := 0
  deriving DecidableEq, Inhabited, Repr

def StatusResponse.codec : Codec StatusResponse where
  empty := {}
  fields := [
    .optional 1 Header.codec ⟨header, fun v m => { m with header := v }⟩,
    .scalar 2 .text ⟨version, fun v m => { m with version := v }⟩,
    .scalar 3 .int64 ⟨dbSize, fun v m => { m with dbSize := v }⟩,
    .scalar 4 .uint64 ⟨leader, fun v m => { m with leader := v }⟩,
    .scalar 5 .uint64 ⟨raftIndex, fun v m => { m with raftIndex := v }⟩,
    .scalar 6 .uint64 ⟨raftTerm, fun v m => { m with raftTerm := v }⟩]

structure DefragmentRequest where
  deriving DecidableEq, Inhabited, Repr

def DefragmentRequest.codec : Codec DefragmentRequest where
  empty := {}
  fields := []

structure DefragmentResponse where
  header : Option Header := none
  deriving DecidableEq, Inhabited, Repr

def DefragmentResponse.codec : Codec DefragmentResponse where
  empty := {}
  fields := [.optional 1 Header.codec ⟨header, fun v m => { m with header := v }⟩]

structure SnapshotRequest where
  deriving DecidableEq, Inhabited, Repr

def SnapshotRequest.codec : Codec SnapshotRequest where
  empty := {}
  fields := []

structure SnapshotResponse where
  header : Option Header := none
  remainingBytes : UInt64 := 0
  blob : Bytes := []
  deriving DecidableEq, Inhabited, Repr

def SnapshotResponse.codec : Codec SnapshotResponse where
  empty := {}
  fields := [
    .optional 1 Header.codec ⟨header, fun v m => { m with header := v }⟩,
    .scalar 2 .uint64 ⟨remainingBytes, fun v m => { m with remainingBytes := v }⟩,
    .scalar 3 .bytes ⟨blob, fun v m => { m with blob := v }⟩]

end Keyspace
