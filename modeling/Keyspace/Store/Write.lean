import Keyspace.Message.Write
import Keyspace.Store.Basic

namespace Keyspace

def DeleteRangeRequest.span (r : DeleteRangeRequest) : Span where
  start := r.key
  stop := r.rangeEnd

/-- The answer to a deletion that removed the given keys, but for its header. -/
def DeleteRangeRequest.response (r : DeleteRangeRequest) (removed : List Live) :
    DeleteRangeResponse where
  deleted := Int64.ofNat removed.length
  prevKvs := if r.prevKv then removed.map Live.toKeyValue else []

/-- What a write leaves at its key, given what was there. -/
def PutRequest.written (r : PutRequest) (revision : Nat) : Option Live → Live
  | none =>
      { key := r.key, value := r.value, lease := r.lease, created := revision,
        modified := revision, version := 1 }
  | some prev =>
      { key := r.key
        value := if r.ignoreValue then prev.value else r.value
        lease := if r.ignoreLease then prev.lease else r.lease
        created := prev.created
        modified := revision
        version := prev.version + 1 }

def PutRequest.keepsPrevious (r : PutRequest) : Bool :=
  r.ignoreValue || r.ignoreLease

namespace Store

def putAt (s : Store) (r : PutRequest) (revision : Nat) : Step PutResponse :=
  let prev := s.latest? r.key
  if r.keepsPrevious ∧ prev.isNone then
    (s, .error .keyNotFound)
  else
    ({ s with table := s.table.push r.key { revision, written := some (r.written revision prev) } },
      .ok { prevKv := if r.prevKv then prev.map Live.toKeyValue else none })

/-- Deletes the keys of a span that are there, and tells which they were. -/
def deleteAt (s : Store) (span : Span) (revision : Nat) : Store × List Live :=
  let removed := s.scan span 0
  let deletion : Entry := { revision, written := none }
  ({ s with table := removed.foldl (fun t l => t.extend l.key deletion) s.table }, removed)

def put (s : Store) (r : PutRequest) : Step PutResponse :=
  if r.key = [] then
    (s, .error .keyMissing)
  else
    match s.putAt r (s.revision + 1) with
    | (s', .ok response) =>
        let s' := { s' with revision := s.revision + 1 }
        (s', .ok { response with header := some s'.header })
    | (s', .error refusal) => (s', .error refusal)

/-- A deletion that finds nothing makes no new revision. -/
def deleteRange (s : Store) (r : DeleteRangeRequest) : Step DeleteRangeResponse :=
  if r.key = [] then
    (s, .error .keyMissing)
  else
    let (s', removed) := s.deleteAt r.span (s.revision + 1)
    let s' := if removed.isEmpty then s' else { s' with revision := s.revision + 1 }
    (s', .ok { r.response removed with header := some s'.header })

end Store

end Keyspace
