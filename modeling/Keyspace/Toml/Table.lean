import Keyspace.Document.Basic

namespace Keyspace.Toml

inductive Origin
  /-- A header names the table itself. -/
  | header
  /-- A header names a table inside of it. -/
  | passed
  /-- A key with dots leads through it. -/
  | dotted
  deriving DecidableEq, Inhabited, Repr

inductive Node
  | value (document : Document)
  | table (origin : Origin) (entries : List (String × Node))
  /-- The tables that headers between double brackets gave, in their order. -/
  | rows (tables : List Node)
  deriving Inhabited

namespace Node

def root : Node :=
  .table .header []

def entries : Node → List (String × Node)
  | .table _ entries => entries
  | _ => []

/-- The entries with the node under the name in place of the one that was there, or at the end. -/
def put (name : String) (node : Node) : List (String × Node) → List (String × Node)
  | [] => [(name, node)]
  | (other, found) :: rest =>
      if other = name then (name, node) :: rest else (other, found) :: put name node rest

/-- Changes the node at the end of a path. Tables that are not there are made. The path goes
through the last of several rows, and for a key with dots only through tables that no header names
and that are not given as values. -/
def change (dotted : Bool) (f : Node → Option Node) : (path : List String) → Node → Option Node
  | [], node => f node
  | name :: path, .table origin entries =>
      let changed :=
        match entries.lookup name with
        | none => change dotted f path (.table (if dotted then .dotted else .passed) [])
        | some (.value _) => none
        | some (.rows tables) =>
            match tables.getLast? with
            | none => none
            | some last =>
                (change dotted f path last).map fun last => .rows (tables.dropLast ++ [last])
        | some (.table inner es) =>
            if dotted ∧ inner = Origin.header then none else change dotted f path (.table inner es)
      changed.map fun node => .table origin (put name node entries)
  | _ :: _, _ => none

def add (name : String) (document : Document) : Node → Option Node
  | .table origin entries =>
      match entries.lookup name with
      | none => some (.table origin (entries ++ [(name, .value document)]))
      | some _ => none
  | _ => none

def addDotted (name : String) (document : Document) : Node → Option Node
  | .table .dotted entries => add name document (.table .dotted entries)
  | _ => none

def insert (key : List String) (document : Document) (node : Node) : Option Node :=
  match key.reverse with
  | [] => none
  | [name] => add name document node
  | name :: path => change true (addDotted name document) path.reverse node

/-- Opens the table that a header names: a new one, or one that headers only passed through. -/
def openTable (name : String) : Node → Option Node
  | .table origin entries =>
      match entries.lookup name with
      | none => some (.table origin (entries ++ [(name, .table .header [])]))
      | some (.table .passed es) => some (.table origin (put name (.table .header es) entries))
      | some _ => none
  | _ => none

/-- Opens one more row of the tables that a header between double brackets names. -/
def openRow (name : String) : Node → Option Node
  | .table origin entries =>
      match entries.lookup name with
      | none => some (.table origin (entries ++ [(name, .rows [.table .header []])]))
      | some (.rows tables) =>
          some (.table origin (put name (.rows (tables ++ [.table .header []])) entries))
      | some _ => none
  | _ => none

mutual

def document : Node → Document
  | .value d => d
  | .table _ entries => .record (members entries)
  | .rows tables => .list (documents tables)

def members : List (String × Node) → List (String × Document)
  | [] => []
  | (name, node) :: rest => (name, node.document) :: members rest

def documents : List Node → List Document
  | [] => []
  | node :: rest => node.document :: documents rest

end

end Node

end Keyspace.Toml
