import Keyspace.Snapshot.Slot
import Keyspace.Store.Upkeep

namespace Keyspace.Snapshot

structure Feed where
  header : Header
  content : Bytes
  /-- How many bytes were sent. -/
  offset : Nat := 0
  deriving DecidableEq, Inhabited, Repr

namespace Feed

def ofStore (s : Store) : Feed where
  header := s.header
  content := RangeResponse.codec.encode s.snapshot

/-- Where the next piece ends, for pieces of at most `size` bytes. -/
def stop (f : Feed) (size : Nat) : Nat :=
  min (f.offset + size) f.content.length

/-- The next piece, which says how many bytes come after it. -/
def piece (f : Feed) (size : Nat) : SnapshotResponse where
  header := some f.header
  remainingBytes := UInt64.ofNat (f.content.length - f.stop size)
  blob := (f.content.drop f.offset).take (f.stop size - f.offset)

/-- What is sent next, with the feed after it if more is to come. A receiver that asked for the
end of the stream is sent nothing any more. -/
def send (f : Feed) (size : Nat) (ended : Bool) : Option (Signal × Option Feed) :=
  if ended then none
  else if f.offset < f.content.length then
    some (.next (f.piece size), some { f with offset := f.stop size })
  else some (.completed, none)

end Feed

end Keyspace.Snapshot
