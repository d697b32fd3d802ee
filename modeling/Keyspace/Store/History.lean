import Keyspace.Message.KeyValue

namespace Keyspace

/-- A key as a write left it. The key and the revision of the write are part of it, so that it can
be given out as it is. The version counts the writes since the key was created, which happened at
revision `created`. -/
structure Live where
  key : Bytes
  value : Bytes
  lease : Int64
  created : Nat
  modified : Nat
  version : Nat
  deriving DecidableEq, Inhabited, Repr

def Live.toKeyValue (l : Live) : KeyValue where
  key := l.key
  createRevision := Int64.ofNat l.created
  modRevision := Int64.ofNat l.modified
  version := Int64.ofNat l.version
  value := l.value
  lease := l.lease

/-- One step in the life of a key: a write, or a deletion when nothing was written. -/
structure Entry where
  revision : Nat
  written : Option Live
  deriving DecidableEq, Inhabited, Repr

abbrev History := List Entry

namespace History

/-- The entry that holds at a revision. Zero and what is below it stand for the latest. -/
def entryAt? (revision : Int) (h : History) : Option Entry :=
  if revision ≤ 0 then h.getLast? else (h.filter fun e => (e.revision : Int) ≤ revision).getLast?

def liveAt? (revision : Int) (h : History) : Option Live :=
  (h.entryAt? revision).bind Entry.written

def latest? (h : History) : Option Live :=
  h.liveAt? 0

/-- What is left of a history when the states before a revision are forgotten: the entry that
holds at the revision, unless it is a deletion, and all that is younger. -/
def compact (revision : Int) (h : History) : History :=
  match (h.filter fun e => (e.revision : Int) ≤ revision).getLast? with
  | none => h
  | some last =>
      let younger := h.filter fun e => revision < (e.revision : Int)
      if last.written.isSome then last :: younger else younger

end History

end Keyspace
