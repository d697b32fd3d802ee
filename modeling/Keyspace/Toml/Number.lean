import Keyspace.Toml.Lexical

namespace Keyspace.Toml

open Text (hexDigit?)

/-- The digits at the start of the text. Between two digits one underscore may stand. There is at
least one digit, and after an underscore there is a digit. -/
def digits? (isDigit : Char → Bool) : List Char → Option (List Char × List Char)
  | c :: '_' :: s => if isDigit c then push c (digits? isDigit s) else none
  | c :: s =>
      if isDigit c then
        match s with
        | d :: _ => if isDigit d then push c (digits? isDigit s) else some ([c], s)
        | [] => some ([c], s)
      else none
  | [] => none

def value (base : Nat) (digits : List Char) : Nat :=
  digits.foldl (fun n c => base * n + (hexDigit? c).getD 0) 0

def isDigitOf (base : Nat) (c : Char) : Bool :=
  match hexDigit? c with
  | some d => d < base
  | none => false

/-- The digits of a whole number in base ten, with no zero before another digit. -/
def decimal? : List Char → Option (List Char × List Char)
  | '0' :: s => some (['0'], s)
  | s => digits? Char.isDigit s

def sign : List Char → Bool × List Char
  | '-' :: s => (true, s)
  | '+' :: s => (false, s)
  | s => (false, s)

def signed (negative : Bool) (n : Nat) : Int :=
  if negative then -n else n

def fits (n : Int) : Bool :=
  Int64.minValue.toInt ≤ n ∧ n ≤ Int64.maxValue.toInt

/-- A whole number of another base, from behind the sign of the base on. -/
def based? (base : Nat) (s : List Char) : Option (Int × List Char) :=
  match digits? (isDigitOf base) s with
  | some (digits, rest) =>
      let n := value base digits
      if fits n then some (n, rest) else none
  | none => none

def integer? : List Char → Option (Int × List Char)
  | '0' :: 'x' :: s => based? 16 s
  | '0' :: 'o' :: s => based? 8 s
  | '0' :: 'b' :: s => based? 2 s
  | s =>
      let (negative, s) := sign s
      match decimal? s with
      | some (digits, rest) =>
          let n := signed negative (value 10 digits)
          if fits n then some (n, rest) else none
      | none => none

/-- Whether `n * 10 ^ e` is rounded to infinity as a number of 64 bits. The number of digits
decides but for a few powers of ten. -/
def overflows (n : Nat) (e : Int) : Bool :=
  let size : Int := (Nat.toDigits 10 n).length + e
  if n = 0 ∨ size < 300 then false
  else if 320 < size then true
  else
    let bound := Nat.pow 2 1024 - Nat.pow 2 970
    if 0 ≤ e then bound ≤ n * Nat.pow 10 e.toNat else bound * Nat.pow 10 (-e).toNat ≤ n

/-- The digits after a point, or nothing to read if there is no point. -/
def fraction? : List Char → Option (List Char × List Char)
  | '.' :: s => digits? Char.isDigit s
  | s => some ([], s)

def exponent? : List Char → Option (Int × List Char)
  | c :: s =>
      if c = 'e' ∨ c = 'E' then
        let (negative, s) := sign s
        match digits? Char.isDigit s with
        | some (digits, rest) => some (signed negative (value 10 digits), rest)
        | none => none
      else some (0, c :: s)
  | [] => some (0, [])

def taken (s rest : List Char) : String :=
  String.ofList (s.take (s.length - rest.length))

def special? (s : List Char) : Option (List Char) :=
  match (sign s).2 with
  | 'i' :: 'n' :: 'f' :: rest => some rest
  | 'n' :: 'a' :: 'n' :: rest => some rest
  | _ => none

/-- A number with a fraction or an exponent. What is too large is refused, unless it is negative. -/
def real? (s : List Char) : Option (String × List Char) :=
  match special? s with
  | some rest => some (taken s rest, rest)
  | none =>
      let (negative, body) := sign s
      match decimal? body with
      | none => none
      | some (whole, afterWhole) =>
          match fraction? afterWhole with
          | none => none
          | some (part, afterPart) =>
              match exponent? afterPart with
              | none => none
              | some (e, rest) =>
                  if !negative ∧ overflows (value 10 (whole ++ part)) (e - part.length) then none
                  else some (taken s rest, rest)

/-- A number of exactly `count` digits from `least` to `most`. -/
def exactly? (count least most : Nat) (s : List Char) : Option (Nat × List Char) :=
  let digits := s.take count
  let n := value 10 digits
  if digits.length = count ∧ digits.all Char.isDigit ∧ least ≤ n ∧ n ≤ most then
    some (n, s.drop count)
  else none

def expect? (c : Char) : List Char → Option (List Char)
  | d :: s => if d = c then some s else none
  | [] => none

def isLeap (year : Nat) : Bool :=
  year % 4 = 0 ∧ (year % 100 ≠ 0 ∨ year % 400 = 0)

def daysOf (year month : Nat) : Nat :=
  if month = 2 then if isLeap year then 29 else 28
  else if [4, 6, 9, 11].contains month then 30
  else 31

def date? (s : List Char) : Option (List Char) := do
  let (year, s) ← exactly? 4 0 9999 s
  let s ← expect? '-' s
  let (month, s) ← exactly? 2 1 12 s
  let s ← expect? '-' s
  let (_, s) ← exactly? 2 1 (daysOf year month) s
  return s

/-- A time of day. A minute may have one second more than sixty. -/
def time? (s : List Char) : Option (List Char) := do
  let (_, s) ← exactly? 2 0 23 s
  let s ← expect? ':' s
  let (_, s) ← exactly? 2 0 59 s
  let s ← expect? ':' s
  let (_, s) ← exactly? 2 0 60 s
  match s with
  | '.' :: s => if (s.takeWhile Char.isDigit).isEmpty then none else some (s.dropWhile Char.isDigit)
  | _ => some s

/-- The difference to the time of the world, which may be left out. -/
def offset? : List Char → Option (List Char)
  | c :: s =>
      if c = 'Z' ∨ c = 'z' then some s
      else if c = '+' ∨ c = '-' then do
        let (_, s) ← exactly? 2 0 23 s
        let s ← expect? ':' s
        let (_, s) ← exactly? 2 0 59 s
        return s
      else some (c :: s)
  | [] => some []

def startsTime (s : List Char) : Bool :=
  match exactly? 2 0 23 s with
  | some (_, ':' :: _) => true
  | _ => false

def moment? (s : List Char) : Option (String × List Char) :=
  if startsTime s then (time? s).map fun rest => (taken s rest, rest)
  else
    match date? s with
    | none => none
    | some (c :: rest) =>
        if (c = 'T' ∨ c = 't' ∨ c = ' ') ∧ startsTime rest then
          match time? rest with
          | some rest => (offset? rest).map fun rest => (taken s rest, rest)
          | none => none
        else some (taken s (c :: rest), c :: rest)
    | some [] => some (taken s [], [])

def startsMoment (s : List Char) : Bool :=
  startsTime s ||
    match exactly? 4 0 9999 s with
    | some (_, '-' :: _) => true
    | _ => false

/-- Whether a number with a fraction or an exponent starts the text, and not a whole number. -/
def startsReal (s : List Char) : Bool :=
  (special? s).isSome ||
    match decimal? (sign s).2 with
    | some (_, c :: _) => c = '.' ∨ c = 'e' ∨ c = 'E'
    | _ => false

end Keyspace.Toml
