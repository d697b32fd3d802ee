import Keyspace.Message.Write
import Keyspace.Message.Range
import Keyspace.Store.Basic

namespace Keyspace.Store

/-- Forgets what the keys were before a revision. Once that was done at a positive revision, it
can only be done at later ones. -/
def compact (s : Store) (r : CompactionRequest) : Step CompactionResponse :=
  let revision := r.revision.toInt
  if 0 < s.compacted ∧ revision ≤ s.compacted then (s, .error .compacted)
  else if (s.revision : Int) < revision then (s, .error .futureRevision)
  else
    let s' := { s with table := s.table.mapHistories (History.compact revision),
                       compacted := revision }
    (s', .ok { header := some s'.header })

/-- Drops the keys of which only deletions are left that are not younger than the last
compaction. -/
def defragment (s : Store) : Store × DefragmentResponse :=
  let table := s.table.filter fun (_, h) =>
    h.any fun e => e.written.isSome || s.compacted < e.revision
  let s' := { s with table }
  (s', { header := some s'.header })

def entrySize (e : Entry) : Nat :=
  8 + e.written.elim 0 fun l => KeyValue.codec.size l.toKeyValue

def byteSize (s : Store) : Nat :=
  s.table.foldr (fun (key, h) n => key.length + h.foldr (fun e m => entrySize e + m) 0 + n) 0

def serverVersion : String := "3.5.0"

def status (s : Store) : StatusResponse where
  header := some s.header
  version := serverVersion
  dbSize := Int64.ofNat s.byteSize
  leader := memberId
  raftIndex := UInt64.ofNat s.revision
  raftTerm := 1

/-- Lists alarms, raises one or takes one back. An alarm that is raised already keeps its
place. -/
def alarm (s : Store) (r : AlarmRequest) : Step AlarmResponse :=
  let named : AlarmMember := { memberId := r.memberId, alarm := r.alarm }
  let answer (alarms : List AlarmMember) : AlarmResponse := { header := some s.header, alarms }
  match AlarmAction.ofWire? r.action, AlarmType.ofWire? r.alarm with
  | none, _ => (s, .error .unknownAlarmAction)
  | some _, none => (s, .error .unknownAlarmType)
  | some .get, some _ => (s, .ok (answer s.alarms))
  | some .activate, some _ =>
      (if s.alarms.contains named then s else { s with alarms := s.alarms ++ [named] },
        .ok (answer [named]))
  | some .deactivate, some _ =>
      ({ s with alarms := s.alarms.filter (· ≠ named) },
        .ok (answer (s.alarms.filter (· = named))))

/-- All keys that are there now, as the answer to a request for them. -/
def snapshot (s : Store) : RangeResponse where
  header := some s.header
  kvs := s.live.map Live.toKeyValue
  more := false
  count := Int64.ofNat s.size

end Keyspace.Store
