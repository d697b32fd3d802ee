import Keyspace.Store.History
import Keyspace.Store.Span

namespace Keyspace

abbrev Table := List (Bytes × History)

namespace Table

def history (t : Table) (key : Bytes) : History :=
  (t.lookup key).getD []

/-- Adds an entry to the history of a key, which starts with it when the key is new. -/
def push (key : Bytes) (e : Entry) : Table → Table
  | [] => [(key, [e])]
  | (k, h) :: rest =>
      if key < k then (key, [e]) :: (k, h) :: rest
      else if key = k then (k, h ++ [e]) :: rest
      else (k, h) :: push key e rest

def extend (key : Bytes) (e : Entry) (t : Table) : Table :=
  t.map fun (k, h) => (k, if k = key then h ++ [e] else h)

/-- All keys that were there at a revision, in ascending order. -/
def liveAt (revision : Int) (t : Table) : List Live :=
  t.filterMap fun (_, h) => h.liveAt? revision

def latest? (t : Table) (key : Bytes) : Option Live :=
  (t.history key).latest?

/-- What is met of a table between the start and the end of a span. A span without an end is one
key to look up, and one that ends before it starts is not walked at all. -/
def walk (span : Span) (t : Table) : Table :=
  if span.stop = [] then (t.lookup span.start).toList.map (span.start, ·)
  else if span.stop = [0] then t.dropWhile fun p => p.1 < span.start
  else if span.stop ≤ span.start then []
  else (t.dropWhile fun p => p.1 < span.start).takeWhile fun p => p.1 < span.stop

/-- Changes every history and drops the keys whose history is empty then. -/
def mapHistories (f : History → History) (t : Table) : Table :=
  (t.map fun (key, h) => (key, f h)).filter fun (_, h) => !h.isEmpty

end Table

end Keyspace
