import Keyspace.Text.Hex

namespace Keyspace.Toml

open Text (hexDigit?)

def isBlank (c : Char) : Bool :=
  c = ' ' ∨ c = '\t'

/-- May stand in a comment and, the delimiters apart, in a string: anything but control characters
other than the tab. -/
def isPlain (c : Char) : Bool :=
  c = '\t' ∨ 32 ≤ c.toNat ∧ c.toNat ≠ 127

def skipBlanks (s : List Char) : List Char :=
  s.dropWhile isBlank

def afterLineEnd? : List Char → Option (List Char)
  | '\n' :: s => some s
  | '\r' :: '\n' :: s => some s
  | _ => none

/-- The text after a comment, or the whole text if no comment starts it. -/
def skipComment : List Char → List Char
  | '#' :: s => s.dropWhile isPlain
  | s => s

/-- The text after the end of the line, before which only blanks and a comment may stand. -/
def endLine? (s : List Char) : Option (List Char) :=
  match skipComment (skipBlanks s) with
  | [] => some []
  | s => afterLineEnd? s

/-- The text after blanks, line ends and comments, each of which runs to the end of its line. The
flag tells that a comment has begun. -/
def skipLines? : (comment : Bool) → List Char → Option (List Char)
  | false, '#' :: s => skipLines? true s
  | _, '\n' :: s => skipLines? false s
  | _, '\r' :: '\n' :: s => skipLines? false s
  | true, c :: s => if isPlain c then skipLines? true s else none
  | false, c :: s => if isBlank c then skipLines? false s else some (c :: s)
  | _, [] => some []

/-- The character with the given number, if there is one. -/
def char? (n : Nat) : Option Char :=
  if n.isValidChar then some (Char.ofNat n) else none

/-- The character that an escape of one letter stands for. -/
def escaped? : Char → Option Char
  | 'b' => some '\x08'
  | 't' => some '\t'
  | 'n' => some '\n'
  | 'f' => some '\x0c'
  | 'r' => some '\r'
  | '"' => some '"'
  | '\\' => some '\\'
  | _ => none

/-- What the characters before have left to do. -/
inductive Pending
  | nothing
  /-- Blanks and line ends are dropped, as a backslash stood at the end of a line. -/
  | blanks
  /-- Some more digits of the number of a character follow. -/
  | digits (after value : Nat)

def push (c : Char) : Option (List Char × List Char) → Option (List Char × List Char)
  | some (content, rest) => some (c :: content, rest)
  | none => none

/-- What ends a string of many lines, from behind its first quote on. Up to two more quotes belong
to the string, and fewer than three in all do not end it. -/
def closing? (quote : Char) (s : List Char) : Option (List Char × List Char) :=
  let quotes := min 4 (s.takeWhile (· = quote)).length
  if quotes < 2 then none else some (List.replicate (quotes - 2) quote, s.drop quotes)

/-- The rest of a string with escapes, of one line or of many. -/
def escapedBody (many : Bool) : Pending → List Char → Option (List Char × List Char)
  | .digits after value, c :: s =>
      match hexDigit? c, after with
      | none, _ => none
      | some d, after + 1 => escapedBody many (.digits after (16 * value + d)) s
      | some d, 0 =>
          match char? (16 * value + d) with
          | some c => push c (escapedBody many .nothing s)
          | none => none
  | .digits .., [] => none
  | _, '"' :: s =>
      if many then
        match closing? '"' s with
        | some closed => some closed
        | none => push '"' (escapedBody many .nothing s)
      else some ([], s)
  | _, '\\' :: c :: s =>
      if c = 'u' then escapedBody many (.digits 3 0) s
      else if c = 'U' then escapedBody many (.digits 7 0) s
      else if many ∧ (afterLineEnd? (skipBlanks (c :: s))).isSome then escapedBody many .blanks s
      else
        match escaped? c with
        | some c => push c (escapedBody many .nothing s)
        | none => none
  | pending, '\n' :: s =>
      match many, pending with
      | false, _ => none
      | true, .blanks => escapedBody many .blanks s
      | true, _ => push '\n' (escapedBody many .nothing s)
  | pending, '\r' :: '\n' :: s =>
      match many, pending with
      | false, _ => none
      | true, .blanks => escapedBody many .blanks s
      | true, _ => push '\n' (escapedBody many .nothing s)
  | .blanks, c :: s =>
      if isBlank c then escapedBody many .blanks s
      else if isPlain c ∧ c ≠ '\\' then push c (escapedBody many .nothing s)
      else none
  | .nothing, c :: s =>
      if isPlain c ∧ c ≠ '\\' then push c (escapedBody many .nothing s) else none
  | _, [] => none

/-- The rest of a string without escapes, of one line or of many. -/
def literalBody (many : Bool) : List Char → Option (List Char × List Char)
  | '\'' :: s =>
      if many then
        match closing? '\'' s with
        | some closed => some closed
        | none => push '\'' (literalBody many s)
      else some ([], s)
  | '\n' :: s => if many then push '\n' (literalBody many s) else none
  | '\r' :: '\n' :: s => if many then push '\n' (literalBody many s) else none
  | c :: s => if isPlain c then push c (literalBody many s) else none
  | [] => none

/-- The text without the line end that may follow the opening of a string of many lines. -/
def skipLineEnd (s : List Char) : List Char :=
  (afterLineEnd? s).getD s

def line? : List Char → Option (List Char × List Char)
  | '"' :: s => escapedBody false .nothing s
  | '\'' :: s => literalBody false s
  | _ => none

def string? : List Char → Option (List Char × List Char)
  | '"' :: '"' :: '"' :: s => escapedBody true .nothing (skipLineEnd s)
  | '\'' :: '\'' :: '\'' :: s => literalBody true (skipLineEnd s)
  | s => line? s

def isBare (c : Char) : Bool :=
  c.isAlphanum ∨ c = '-' ∨ c = '_'

/-- One part of a key: a string of one line, or a bare word. -/
def part? (s : List Char) : Option (String × List Char) :=
  match s with
  | '"' :: _ => (line? s).map fun (content, rest) => (String.ofList content, rest)
  | '\'' :: _ => (line? s).map fun (content, rest) => (String.ofList content, rest)
  | _ =>
      match s.takeWhile isBare with
      | [] => none
      | word => some (String.ofList word, s.dropWhile isBare)

/-- At most so many things less one may be nested in each other. -/
def nestingLimit : Nat := 80

/-- The parts of a key between dots, with the blanks around them. There are no more than `room`. -/
def parts? : (room : Nat) → List Char → Option (List String × List Char)
  | 0, _ => none
  | room + 1, s =>
      match part? (skipBlanks s) with
      | none => none
      | some (name, rest) =>
          match skipBlanks rest with
          | '.' :: rest =>
              match parts? room rest with
              | some (names, rest) => some (name :: names, rest)
              | none => none
          | rest => some ([name], rest)

def key? (s : List Char) : Option (List String × List Char) :=
  parts? (nestingLimit - 1) s

end Keyspace.Toml
