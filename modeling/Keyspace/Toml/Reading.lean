import Keyspace.Toml.Value

/-!
Whole texts of TOML 1.0, line by line.
-/

namespace Keyspace.Toml

/-- What was read so far, and the path of the table that pairs are added to. -/
structure Reading where
  root : Node
  path : List String

namespace Reading

/-- Goes on with another table: `enter` opens it, under the last part of the key, in the table
that the parts before it name. -/
def start (r : Reading) (enter : String → Node → Option Node) (key : List String) :
    Option Reading :=
  match key.reverse with
  | [] => none
  | name :: above => (r.root.change false (enter name) above.reverse).map fun root => ⟨root, key⟩

def add (r : Reading) (key : List String) (document : Document) : Option Reading :=
  (r.root.change false (Node.insert key document) r.path).map fun root => { r with root }

/-- Reads one line that is not blank, and gives the text after it. -/
def line? (r : Reading) (s : List Char) : Option (Reading × List Char) :=
  match s with
  | '[' :: '[' :: s =>
      match key? s with
      | some (key, ']' :: ']' :: rest) =>
          match r.start Node.openRow key, endLine? rest with
          | some r, some rest => some (r, rest)
          | _, _ => none
      | _ => none
  | '[' :: s =>
      match key? s with
      | some (key, ']' :: rest) =>
          match r.start Node.openTable key, endLine? rest with
          | some r, some rest => some (r, rest)
          | _, _ => none
      | _ => none
  | s =>
      match pair? (5 * s.length + 5) (nestingLimit - 1) s with
      | some (key, document, rest) =>
          match r.add key document, endLine? rest with
          | some r, some rest => some (r, rest)
          | _, _ => none
      | none => none

/-- Reads all lines. The number `room` is larger than the number of characters that are left. -/
def lines? : (room : Nat) → Reading → List Char → Option Reading
  | 0, _, _ => none
  | room + 1, r, s =>
      match skipLines? false s with
      | none => none
      | some [] => some r
      | some s =>
          match r.line? s with
          | some (r, rest) => lines? room r rest
          | none => none

end Reading

/-- What a text says, if it is well formed. A mark of the order of bytes may stand before it. -/
def read? (text : String) : Option Document :=
  let s :=
    match text.toList with
    | '\ufeff' :: s => s
    | s => s
  (Reading.lines? (s.length + 1) ⟨.root, []⟩ s).map fun r => r.root.document

end Keyspace.Toml
