import Keyspace.Status

namespace Keyspace

inductive Refusal
  | compacted
  | futureRevision
  | keyMissing
  | keyNotFound
  | duplicateKey
  | unsupportedOperation
  | unknownCompareResult
  | unknownCompareTarget
  | operandMismatch
  | unknownSortOrder
  | unknownSortTarget
  | unknownAlarmAction
  | unknownAlarmType
  deriving DecidableEq, Inhabited, Repr

namespace Refusal

def code : Refusal → Code
  | compacted | futureRevision => .outOfRange
  | keyNotFound => .notFound
  | _ => .invalidArgument

def reason : Refusal → String
  | compacted => "mvcc: required revision has been compacted"
  | futureRevision => "mvcc: required revision is a future revision"
  | keyMissing => "key is not provided"
  | keyNotFound => "key not found"
  | duplicateKey => "duplicate key given in txn request"
  | unsupportedOperation => "unsupported txn request op"
  | unknownCompareResult => "unknown compare result"
  | unknownCompareTarget => "unknown compare target"
  | operandMismatch => "compare target does not match its operand"
  | unknownSortOrder => "unknown sort order"
  | unknownSortTarget => "unknown sort target"
  | unknownAlarmAction => "unknown alarm action"
  | unknownAlarmType => "unknown alarm type"

def status (r : Refusal) : Status where
  code := r.code
  message := "etcdserver: " ++ r.reason

end Refusal

end Keyspace
