import Keyspace.Message.Range
import Keyspace.Message.Write
import Keyspace.PrefixRange

namespace Keyspace

inductive SortOrder
  | none
  | ascend
  | descend
  deriving DecidableEq, Inhabited, Repr

namespace SortOrder

def all : List SortOrder := [none, ascend, descend]

def wire : SortOrder → Int32
  | none => 0
  | ascend => 1
  | descend => 2

def ofWire? (n : Int32) : Option SortOrder :=
  all.find? (wire · = n)

def name : SortOrder → String
  | none => "None"
  | ascend => "Ascend"
  | descend => "Descend"

end SortOrder

inductive SortTarget
  | key
  | version
  | createRevision
  | modRevision
  | value
  deriving DecidableEq, Inhabited, Repr

namespace SortTarget

def all : List SortTarget := [key, version, createRevision, modRevision, value]

def wire : SortTarget → Int32
  | key => 0
  | version => 1
  | createRevision => 2
  | modRevision => 3
  | value => 4

def ofWire? (n : Int32) : Option SortTarget :=
  all.find? (wire · = n)

def name : SortTarget → String
  | key => "Key"
  | version => "Version"
  | createRevision => "Create"
  | modRevision => "Mod"
  | value => "Value"

end SortTarget

structure PutOptions where
  lease : Int64 := 0
  /-- Answer with the key as it was before. -/
  prevKv : Bool := false
  deriving DecidableEq, Inhabited, Repr

def PutOptions.toRequest (o : PutOptions) (key value : Bytes) : PutRequest :=
  { key, value, lease := o.lease, prevKv := o.prevKv }

structure GetOptions where
  /-- The end of the range, which is not in it. Without one a single key is read. -/
  endKey : Option Bytes := none
  /-- At most so many keys are returned. Zero sets no limit. -/
  limit : Int64 := 0
  /-- The revision to read at, or zero for the latest. -/
  revision : Int64 := 0
  sortOrder : SortOrder := .none
  sortTarget : SortTarget := .key
  serializable : Bool := false
  keysOnly : Bool := false
  countOnly : Bool := false
  deriving DecidableEq, Inhabited, Repr

namespace GetOptions

/-- Reads up to the end of the keys that start with `start`. -/
def withPrefix (o : GetOptions) (start : Bytes) : GetOptions :=
  { o with endKey := some start.prefixEnd }

def toRequest (o : GetOptions) (key : Bytes) : RangeRequest :=
  { key, rangeEnd := o.endKey.getD [], limit := o.limit, revision := o.revision,
    sortOrder := o.sortOrder.wire, sortTarget := o.sortTarget.wire,
    serializable := o.serializable, keysOnly := o.keysOnly, countOnly := o.countOnly }

end GetOptions

structure DeleteOptions where
  /-- The end of the range, which is not in it. Without one a single key is deleted. -/
  endKey : Option Bytes := none
  /-- Answer with the keys as they were before. -/
  prevKv : Bool := false
  deriving DecidableEq, Inhabited, Repr

namespace DeleteOptions

/-- Deletes up to the end of the keys that start with `start`. -/
def withPrefix (o : DeleteOptions) (start : Bytes) : DeleteOptions :=
  { o with endKey := some start.prefixEnd }

def toRequest (o : DeleteOptions) (key : Bytes) : DeleteRangeRequest :=
  { key, rangeEnd := o.endKey.getD [], prevKv := o.prevKv }

end DeleteOptions

structure CompactOptions where
  revision : Int64 := 0
  /-- Wait until the compaction has been carried out. -/
  physical : Bool := false
  deriving DecidableEq, Inhabited, Repr

def CompactOptions.toRequest (o : CompactOptions) : CompactionRequest :=
  { revision := o.revision, physical := o.physical }

end Keyspace
