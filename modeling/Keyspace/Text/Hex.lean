import Keyspace.Bytes

namespace Keyspace

namespace Text

def hexDigit? (c : Char) : Option Nat :=
  if c.isDigit then some (c.toNat - 48)
  else if 'a' ≤ c ∧ c ≤ 'f' then some (c.toNat - 87)
  else if 'A' ≤ c ∧ c ≤ 'F' then some (c.toNat - 55)
  else none

def hexDigit (n : Nat) : Char :=
  Char.ofNat (if n < 10 then 48 + n else 87 + n)

theorem hexDigit?_hexDigit {n : Nat} (h : n < 16) : hexDigit? (hexDigit n) = some n := by
  have all : ∀ n, n < 16 → hexDigit? (hexDigit n) = some n := by decide
  exact all n h

end Text

namespace Bytes

def toHex (s : Bytes) : String :=
  String.ofList (s.flatMap fun b => [Text.hexDigit (b.toNat / 16), Text.hexDigit (b.toNat % 16)])

def ofHexDigits? : List Char → Option Bytes
  | [] => some []
  | high :: low :: rest =>
      match Text.hexDigit? high, Text.hexDigit? low, ofHexDigits? rest with
      | some h, some l, some bytes => some (UInt8.ofNat (16 * h + l) :: bytes)
      | _, _, _ => none
  | [_] => none

def ofHex? (text : String) : Option Bytes :=
  ofHexDigits? text.toList

theorem ofHexDigits?_pairs (s : Bytes) :
    ofHexDigits? (s.flatMap fun b => [Text.hexDigit (b.toNat / 16), Text.hexDigit (b.toNat % 16)])
      = some s := by
  induction s with
  | nil => rfl
  | cons b s ih =>
    have h : b.toNat < 256 := b.toNat_lt
    have high := Text.hexDigit?_hexDigit (n := b.toNat / 16) (by omega)
    have low := Text.hexDigit?_hexDigit (n := b.toNat % 16) (by omega)
    have whole : 16 * (b.toNat / 16) + b.toNat % 16 = b.toNat := by omega
    simp [ofHexDigits?, high, low, ih, whole]

@[simp] theorem ofHex?_toHex (s : Bytes) : ofHex? s.toHex = some s := by
  simp only [ofHex?, toHex, String.toList_ofList, ofHexDigits?_pairs]

end Bytes

end Keyspace
