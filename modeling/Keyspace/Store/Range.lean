import Keyspace.Options
import Keyspace.Store.Basic

namespace Keyspace

def SortTarget.order : SortTarget → Live → Live → Ordering
  | key, a, b => Bytes.order a.key b.key
  | version, a, b => compareOfLessAndEq a.version b.version
  | createRevision, a, b => compareOfLessAndEq a.created b.created
  | modRevision, a, b => compareOfLessAndEq a.modified b.modified
  | value, a, b => Bytes.order a.value b.value

/-- Sorting keeps the order of keys that do not differ in what is sorted on. -/
def SortOrder.sort (order : SortOrder) (target : SortTarget) (keys : List Live) : List Live :=
  match order with
  | descend => keys.mergeSort fun a b => target.order a b ≠ .lt
  | _ => keys.mergeSort fun a b => target.order a b ≠ .gt

namespace RangeRequest

def span (r : RangeRequest) : Span where
  start := r.key
  stop := r.rangeEnd

/-- Does the key lie between the revisions that the request asks for? Zero sets no bound. -/
def admits (r : RangeRequest) (l : Live) : Bool :=
  (r.minModRevision = 0 || r.minModRevision.toInt ≤ l.modified)
    && (r.maxModRevision = 0 || l.modified ≤ r.maxModRevision.toInt)
    && (r.minCreateRevision = 0 || r.minCreateRevision.toInt ≤ l.created)
    && (r.maxCreateRevision = 0 || l.created ≤ r.maxCreateRevision.toInt)

def exceeded (r : RangeRequest) (count : Nat) : Bool :=
  0 < r.limit.toInt && r.limit.toInt < count

/-- The keys that are returned of those that were found. Values are left out after sorting. -/
def cut (r : RangeRequest) (found : List Live) : List KeyValue :=
  let kept := if r.exceeded found.length then found.take r.limit.toInt.toNat else found
  kept.map fun l => if r.keysOnly then { l.toKeyValue with value := [] } else l.toKeyValue

end RangeRequest

namespace Store

/-- A revision can be read from the last compaction up to the present. -/
def checkReadable (s : Store) (revision : Int) : Except Refusal Unit :=
  if 0 < revision ∧ revision < s.compacted then .error .compacted
  else if (s.revision : Int) < revision then .error .futureRevision
  else .ok ()

/-- What can be said against a range request before it is carried out. -/
def checkRange (s : Store) (r : RangeRequest) : Except Refusal (SortOrder × SortTarget) :=
  match s.checkReadable r.revision.toInt with
  | .error refusal => .error refusal
  | .ok () =>
      match SortOrder.ofWire? r.sortOrder, SortTarget.ofWire? r.sortTarget with
      | none, _ => .error .unknownSortOrder
      | some _, none => .error .unknownSortTarget
      | some order, some target => .ok (order, target)

/-- The keys that a range request is about, in ascending order. -/
def select (s : Store) (r : RangeRequest) : List Live :=
  (s.scan r.span r.revision.toInt).filter r.admits

def range (s : Store) (r : RangeRequest) : Except Refusal RangeResponse :=
  match s.checkRange r with
  | .error refusal => .error refusal
  | .ok (order, target) =>
      let found := order.sort target (s.select r)
      .ok { header := some s.header
            kvs := if r.countOnly then [] else r.cut found
            more := !r.countOnly && r.exceeded found.length
            count := Int64.ofNat found.length }

end Store

end Keyspace
