import Keyspace.Bytes
import Keyspace.Text.Quoted

namespace Keyspace

/-- The closed set of status codes. -/
inductive Code
  | ok
  | cancelled
  | unknown
  | invalidArgument
  | deadlineExceeded
  | notFound
  | alreadyExists
  | permissionDenied
  | resourceExhausted
  | failedPrecondition
  | aborted
  | outOfRange
  | unimplemented
  | internal
  | unavailable
  | dataLoss
  | unauthenticated
  deriving DecidableEq, Inhabited, Repr

namespace Code

def all : List Code := [
  ok, cancelled, unknown, invalidArgument, deadlineExceeded, notFound, alreadyExists,
  permissionDenied, resourceExhausted, failedPrecondition, aborted, outOfRange, unimplemented,
  internal, unavailable, dataLoss, unauthenticated]

def number (c : Code) : Nat :=
  all.idxOf c

/-- Any number outside the set stands for an unknown status. -/
def ofNumber (n : Int) : Code :=
  if n < 0 then unknown else all[n.toNat]?.getD unknown

def name : Code → String
  | ok => "Ok"
  | cancelled => "Cancelled"
  | unknown => "Unknown"
  | invalidArgument => "InvalidArgument"
  | deadlineExceeded => "DeadlineExceeded"
  | notFound => "NotFound"
  | alreadyExists => "AlreadyExists"
  | permissionDenied => "PermissionDenied"
  | resourceExhausted => "ResourceExhausted"
  | failedPrecondition => "FailedPrecondition"
  | aborted => "Aborted"
  | outOfRange => "OutOfRange"
  | unimplemented => "Unimplemented"
  | internal => "Internal"
  | unavailable => "Unavailable"
  | dataLoss => "DataLoss"
  | unauthenticated => "Unauthenticated"

@[simp] theorem ofNumber_number (c : Code) : ofNumber c.number = c := by
  cases c <;> rfl

end Code

structure Status where
  code : Code
  message : String
  details : Bytes := []
  deriving DecidableEq, Inhabited, Repr

/-- The status as one line of text. It carries no metadata. -/
def Status.shown (s : Status) : String :=
  "status: " ++ s.code.name ++ ", message: " ++ Text.quote s.message ++ ", details: "
    ++ Text.shownList (s.details.map fun b => toString b.toNat)
    ++ ", metadata: MetadataMap \x7b headers: \x7b\x7d \x7d"

end Keyspace
