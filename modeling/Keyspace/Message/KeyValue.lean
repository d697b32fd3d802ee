import Keyspace.Wire.Codec

namespace Keyspace

open Wire

/-- Who answered, and at which revision. -/
structure Header where
  clusterId : UInt64 := 0
  memberId : UInt64 := 0
  revision : Int64 := 0
  raftTerm : UInt64 := 0
  deriving DecidableEq, Inhabited, Repr

def Header.codec : Codec Header where
  empty := {}
  fields := [
    .scalar 1 .uint64 ⟨clusterId, fun v m => { m with clusterId := v }⟩,
    .scalar 2 .uint64 ⟨memberId, fun v m => { m with memberId := v }⟩,
    .scalar 3 .int64 ⟨revision, fun v m => { m with revision := v }⟩,
    .scalar 4 .uint64 ⟨raftTerm, fun v m => { m with raftTerm := v }⟩]

/-- A live key. The version counts the writes since the key was created. -/
structure KeyValue where
  key : Bytes := []
  createRevision : Int64 := 0
  modRevision : Int64 := 0
  version : Int64 := 0
  value : Bytes := []
  lease : Int64 := 0
  deriving DecidableEq, Inhabited, Repr

namespace KeyValue

def codec : Codec KeyValue where
  empty := {}
  fields := [
    .scalar 1 .bytes ⟨key, fun v m => { m with key := v }⟩,
    .scalar 2 .int64 ⟨createRevision, fun v m => { m with createRevision := v }⟩,
    .scalar 3 .int64 ⟨modRevision, fun v m => { m with modRevision := v }⟩,
    .scalar 4 .int64 ⟨version, fun v m => { m with version := v }⟩,
    .scalar 5 .bytes ⟨value, fun v m => { m with value := v }⟩,
    .scalar 6 .int64 ⟨lease, fun v m => { m with lease := v }⟩]

def valueText? (kv : KeyValue) : Option String :=
  kv.value.text?

end KeyValue

end Keyspace
