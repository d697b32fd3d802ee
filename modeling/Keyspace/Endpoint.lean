import Keyspace.Failure

namespace Keyspace.Endpoint

/-- Whether the character may stand in the name of a scheme. -/
def isSchemeChar (c : Char) : Bool :=
  c.isAlphanum ∨ "+-.~".toList.contains c

/-- Whether the character may stand in the part of an address that names the server. -/
def isAuthorityChar (c : Char) : Bool :=
  c.isAlphanum ∨ "!$&'()*+,-.:;=@[]_~".toList.contains c

/-- What is left of an address after its scheme and the two slashes, if it has a scheme. -/
def afterScheme? (s : List Char) : Option (List Char) :=
  match s.dropWhile isSchemeChar with
  | ':' :: '/' :: '/' :: rest => if s.length ≤ 3 then none else some rest
  | _ => none

/-- What was seen of the name of a server. A user before it does not count. -/
structure Authority where
  colons : Nat := 0
  opened : Bool := false
  closed : Bool := false
  percent : Bool := false
  last : Option Char := none

/-- The most colons that are counted together: as many as the longest numeric address has with the
one before its port. -/
def maxColons : Nat := 8

/-- Goes on by one character. Brackets may stand once. -/
def Authority.see (a : Authority) (c : Char) : Option Authority :=
  let a := { a with last := some c }
  if c = '%' then some { a with percent := true }
  else if !isAuthorityChar c then none
  else if c = ':' then
    if maxColons ≤ a.colons then none else some { a with colons := a.colons + 1 }
  else if c = '[' then if a.percent || a.opened then none else some { a with opened := true }
  else if c = ']' then
    if !a.opened || a.closed then none
    else some { a with closed := true, colons := 0, percent := false }
  else if c = '@' then some { a with colons := 0, percent := false }
  else some a

def isAuthority (s : List Char) : Bool :=
  match s.foldlM Authority.see {} with
  | some a => a.opened = a.closed ∧ a.colons ≤ 1 ∧ a.last ≠ some '@' ∧ !a.percent
  | none => false

def endsAuthority (c : Char) : Bool :=
  c = '/' ∨ c = '?' ∨ c = '#'

def isBlank (c : Char) : Bool :=
  c.toNat ≤ 32 ∨ c.toNat = 127

/-- Whether the character may stand in the path of an address. -/
def isPathChar (c : Char) : Bool :=
  !isBlank c ∧ !"#<>?".toList.contains c ∧ c.toNat ≠ 96

/-- Whether the character may stand in the query of an address. -/
def isQueryChar (c : Char) : Bool :=
  !isBlank c ∧ !"\"#<>".toList.contains c

/-- Whether the text is a path, with a query or without one. All from a hash on is free. -/
def isPath (s : List Char) : Bool :=
  match s.dropWhile isPathChar with
  | [] => true
  | '#' :: _ => true
  | '?' :: query =>
      match query.dropWhile isQueryChar with
      | [] => true
      | c :: _ => c = '#'
  | _ => false

/-- Whether the text is an address: a path, the name of a server, or a scheme with such a name
and with a path or without one. -/
def isAddress (text : String) : Bool :=
  let s := text.toList
  if s = [] ∨ 65534 < text.utf8ByteSize then false
  else if s.head? = some '/' then isPath s
  else
    match afterScheme? s with
    | none => isAuthority s
    | some rest =>
        let server := rest.takeWhile fun c => !endsAuthority c
        server ≠ [] ∧ isAuthority server ∧ (s.takeWhile isSchemeChar).length ≤ 64
          ∧ isPath (rest.drop server.length)

/-- Control characters other than the tab cannot be sent. -/
def isToken (token : String) : Bool :=
  (Bytes.ofText token).all fun b => b = 9 ∨ 32 ≤ b ∧ b ≠ 127

/-- Whether requests can carry the token, if there is one. -/
def checkToken (token : Option String) : Outcome Unit :=
  if token.all isToken then .ok ()
  else .error (.connect "auth token is not valid ASCII metadata")

/-- What is looked at before a connection is made: first the address, then the token. -/
def check (address : String) (token : Option String) : Outcome Unit :=
  if isAddress address then checkToken token
  else .error (.connect s!"invalid endpoint {address}: invalid URI")

def shown (token : Option String) : String :=
  Text.shown "GrpcTransport" [("authenticated", toString token.isSome)]

end Keyspace.Endpoint
