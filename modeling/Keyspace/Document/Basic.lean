namespace Keyspace

inductive Document
  | null
  | bool (value : Bool)
  | int (value : Int)
  /-- A number with a fraction or an exponent, as it was written. -/
  | real (digits : String)
  | text (value : String)
  | list (items : List Document)
  | record (members : List (String × Document))
  deriving Inhabited, Repr

end Keyspace
