import Keyspace.Toml.Number
import Keyspace.Toml.Table

namespace Keyspace.Toml

/-- The name under which the text of a date or a time stands in the record that it is read as. -/
def momentMember : String :=
  "$__toml_private_datetime"

def word? (word : String) (s : List Char) : Option (List Char) :=
  if word.toList.isPrefixOf s then some (s.drop word.length) else none

def scalar? (s : List Char) : Option (Document × List Char) :=
  match s with
  | '"' :: _ => (string? s).map fun (content, rest) => (.text (String.ofList content), rest)
  | '\'' :: _ => (string? s).map fun (content, rest) => (.text (String.ofList content), rest)
  | 't' :: _ => (word? "true" s).map fun rest => (.bool true, rest)
  | 'f' :: _ => (word? "false" s).map fun rest => (.bool false, rest)
  | _ =>
      if startsMoment s then
        (moment? s).map fun (moment, rest) => (.record [(momentMember, .text moment)], rest)
      else if startsReal s then (real? s).map fun (digits, rest) => (.real digits, rest)
      else (integer? s).map fun (n, rest) => (.int n, rest)

mutual

/-- A value, with so many levels of nesting left. The number `room` is larger than the number of
characters that are left. -/
def value? : (room levels : Nat) → List Char → Option (Document × List Char)
  | 0, _, _ => none
  | room + 1, levels, s =>
      match s, levels with
      | '[' :: s, levels + 1 =>
          match items? room levels s with
          | some (items, rest) => some (.list items, rest)
          | none => none
      | '[' :: _, 0 => none
      | '\x7b' :: s, levels + 1 =>
          match pairs? room levels .root s with
          | some (table, rest) => some (table.document, rest)
          | none => none
      | '\x7b' :: _, 0 => none
      | s, _ => scalar? s

/-- The items of a list, up to the bracket that ends it. A comma may stand behind the last. -/
def items? : (room levels : Nat) → List Char → Option (List Document × List Char)
  | 0, _, _ => none
  | room + 1, levels, s =>
      match skipLines? false s with
      | none => none
      | some (']' :: rest) => some ([], rest)
      | some s =>
          match value? room levels s with
          | none => none
          | some (item, rest) =>
              match skipLines? false rest with
              | some (',' :: rest) =>
                  match items? room levels rest with
                  | some (items, rest) => some (item :: items, rest)
                  | none => none
              | some (']' :: rest) => some ([item], rest)
              | _ => none

/-- The pairs of a table on one line, up to the brace that ends it. -/
def pairs? : (room levels : Nat) → Node → List Char → Option (Node × List Char)
  | 0, _, _, _ => none
  | room + 1, levels, table, s =>
      match skipBlanks s, table.entries with
      | '\x7d' :: rest, [] => some (table, rest)
      | s, _ =>
          match pair? room levels s with
          | none => none
          | some (key, document, rest) =>
              match table.insert key document, skipBlanks rest with
              | some table, ',' :: rest => pairs? room levels table rest
              | some table, '\x7d' :: rest => some (table, rest)
              | _, _ => none

def pair? : (room levels : Nat) → List Char → Option (List String × Document × List Char)
  | 0, _, _ => none
  | room + 1, levels, s =>
      match key? s with
      | some (key, '=' :: rest) =>
          match value? room levels (skipBlanks rest) with
          | some (document, rest) => some (key, document, rest)
          | none => none
      | _ => none

end

end Keyspace.Toml
