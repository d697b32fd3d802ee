import Keyspace.Message.Maintenance
import Keyspace.Store.Refusal
import Keyspace.Store.Table

namespace Keyspace

structure Store where
  /-- Every request that writes makes a new revision. -/
  revision : Nat := 1
  /-- The revision of the last compaction, and zero before the first. -/
  compacted : Int := 0
  table : Table := []
  /-- The alarms that are raised, in the order in which they were raised. -/
  alarms : List AlarmMember := []
  deriving DecidableEq, Inhabited, Repr

namespace Store

def empty : Store := {}

def clusterId : UInt64 := 0x6c617474

/-- The one member of the cluster, which is also its leader. -/
def memberId : UInt64 := 1

def header (s : Store) : Header where
  clusterId := clusterId
  memberId := memberId
  revision := Int64.ofNat s.revision
  raftTerm := 1

/-- The keys that were there at a revision, or now if it is not positive. -/
def liveAt (s : Store) (revision : Int) : List Live :=
  s.table.liveAt revision

def live (s : Store) : List Live :=
  s.liveAt 0

def latest? (s : Store) (key : Bytes) : Option Live :=
  s.table.latest? key

/-- The keys of a span that were there at a revision, in ascending order. -/
def scan (s : Store) (span : Span) (revision : Int) : List Live :=
  (s.table.walk span).liveAt revision

def size (s : Store) : Nat :=
  s.live.length

/-- What a request makes of a store: the store after it, and the answer or why there is none. -/
abbrev Step (α : Type) := Store × Except Refusal α

end Store

end Keyspace
