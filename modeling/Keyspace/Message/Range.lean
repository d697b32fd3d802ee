import Keyspace.Message.KeyValue

namespace Keyspace

open Wire

structure RangeRequest where
  key : Bytes := []
  rangeEnd : Bytes := []
  limit : Int64 := 0
  revision : Int64 := 0
  sortOrder : Int32 := 0
  sortTarget : Int32 := 0
  serializable : Bool := false
  keysOnly : Bool := false
  countOnly : Bool := false
  minModRevision : Int64 := 0
  maxModRevision : Int64 := 0
  minCreateRevision : Int64 := 0
  maxCreateRevision : Int64 := 0
  deriving DecidableEq, Inhabited, Repr

/-- The limit and the revision are written after the flags. -/
def RangeRequest.codec : Codec RangeRequest where
  empty := {}
  fields := [
    .scalar 1 .bytes ⟨key, fun v m => { m with key := v }⟩,
    .scalar 2 .bytes ⟨rangeEnd, fun v m => { m with rangeEnd := v }⟩,
    .scalar 5 .int32 ⟨sortOrder, fun v m => { m with sortOrder := v }⟩,
    .scalar 6 .int32 ⟨sortTarget, fun v m => { m with sortTarget := v }⟩,
    .scalar 7 .bool ⟨serializable, fun v m => { m with serializable := v }⟩,
    .scalar 8 .bool ⟨keysOnly, fun v m => { m with keysOnly := v }⟩,
    .scalar 9 .bool ⟨countOnly, fun v m => { m with countOnly := v }⟩,
    .scalar 3 .int64 ⟨limit, fun v m => { m with limit := v }⟩,
    .scalar 4 .int64 ⟨revision, fun v m => { m with revision := v }⟩,
    .scalar 10 .int64 ⟨minModRevision, fun v m => { m with minModRevision := v }⟩,
    .scalar 11 .int64 ⟨maxModRevision, fun v m => { m with maxModRevision := v }⟩,
    .scalar 12 .int64 ⟨minCreateRevision, fun v m => { m with minCreateRevision := v }⟩,
    .scalar 13 .int64 ⟨maxCreateRevision, fun v m => { m with maxCreateRevision := v }⟩]

structure RangeResponse where
  header : Option Header := none
  kvs : List KeyValue := []
  more : Bool := false
  count : Int64 := 0
  deriving DecidableEq, Inhabited, Repr

def RangeResponse.codec : Codec RangeResponse where
  empty := {}
  fields := [
    .optional 1 Header.codec ⟨header, fun v m => { m with header := v }⟩,
    .repeated 2 KeyValue.codec ⟨kvs, fun v m => { m with kvs := v }⟩,
    .scalar 3 .bool ⟨more, fun v m => { m with more := v }⟩,
    .scalar 4 .int64 ⟨count, fun v m => { m with count := v }⟩]

end Keyspace
