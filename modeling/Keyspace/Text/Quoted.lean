import Keyspace.Text.Hidden

namespace Keyspace.Text

def hexDigits (n : Nat) : List Char :=
  Nat.toDigits 16 n

/-- A character inside quotes. The quote and the backslash are escaped, line ends, tabs and NUL
have names, and a hidden character is written by its number. -/
def quoteChar (c : Char) : List Char :=
  if c = '"' then ['\\', '"']
  else if c = '\\' then ['\\', '\\']
  else if c = '\n' then ['\\', 'n']
  else if c = '\r' then ['\\', 'r']
  else if c = '\t' then ['\\', 't']
  else if c.toNat = 0 then ['\\', '0']
  else if c.toNat < 32 ∨ c.toNat = 127 ∨ isHidden c then
    ['\\', 'u', '\x7b'] ++ hexDigits c.toNat ++ ['\x7d']
  else [c]

def quote (s : String) : String :=
  String.ofList ('"' :: s.toList.flatMap quoteChar ++ ['"'])

/-- A value with its fields, each given with the text that shows it. -/
def shown (name : String) (fields : List (String × String)) : String :=
  let parts := fields.map fun (field, value) => field ++ ": " ++ value
  name ++ " \x7b " ++ String.intercalate ", " parts ++ " \x7d"

def shownList (values : List String) : String :=
  "[" ++ String.intercalate ", " values ++ "]"

end Keyspace.Text
