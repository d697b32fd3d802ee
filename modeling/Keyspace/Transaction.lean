import Keyspace.Message.Transaction
import Keyspace.Options
import Keyspace.Result

namespace Keyspace

inductive Relation
  | equal
  | greater
  | less
  deriving DecidableEq, Inhabited, Repr

namespace Relation

def all : List Relation := [equal, greater, less]

def name : Relation → String
  | equal => "Equal"
  | greater => "Greater"
  | less => "Less"

def toResult : Relation → CompareResult
  | equal => .equal
  | greater => .greater
  | less => .less

end Relation

/-- What is looked at of a key, and what it is compared with. -/
inductive Bound
  | version (n : Int64)
  | createRevision (n : Int64)
  | modRevision (n : Int64)
  | value (bytes : Bytes)
  deriving DecidableEq, Inhabited, Repr

namespace Bound

def target : Bound → CompareTarget
  | version _ => .version
  | createRevision _ => .createRevision
  | modRevision _ => .modRevision
  | value _ => .value

def operand : Bound → Operand
  | version n => .version n
  | createRevision n => .createRevision n
  | modRevision n => .modRevision n
  | value bytes => .value bytes

/-- The number that is compared with, and what it counts. -/
def number? : Bound → Option (String × Int64)
  | version n => some ("version", n)
  | createRevision n => some ("create revision", n)
  | modRevision n => some ("mod revision", n)
  | value _ => none

end Bound

structure Condition where
  key : Bytes
  relation : Relation
  bound : Bound
  deriving DecidableEq, Inhabited, Repr

namespace Condition

/-- A condition needs a key, and no number that it compares with may be negative. -/
def check (c : Condition) : Outcome Unit :=
  if c.key = [] then
    .error (.invalidArgument "compare key must not be empty")
  else
    match c.bound.number? with
    | some (what, n) =>
        if n < 0 then
          .error (.invalidArgument s!"compare {what} must not be negative, got {n.toInt}")
        else .ok ()
    | none => .ok ()

/-- The way to a condition that is known to be good. -/
def make (key : Bytes) (relation : Relation) (bound : Bound) : Outcome Condition :=
  let c : Condition := { key, relation, bound }
  match c.check with
  | .ok () => .ok c
  | .error failure => .error failure

def toCompare (c : Condition) : Outcome Compare :=
  match c.check with
  | .ok () =>
      .ok { result := c.relation.toResult.wire, target := c.bound.target.wire, key := c.key,
            operand := some c.bound.operand }
  | .error failure => .error failure

end Condition

inductive Operation
  | put (key value : Bytes) (options : PutOptions)
  | get (key : Bytes) (options : GetOptions)
  | delete (key : Bytes) (options : DeleteOptions)
  deriving DecidableEq, Inhabited, Repr

namespace Operation

def kind : Operation → String
  | put .. => "put"
  | get .. => "get"
  | delete .. => "delete"

def toRequest : Operation → OpRequest
  | put key value options => .put (options.toRequest key value)
  | get key options => .range (options.toRequest key)
  | delete key options => .deleteRange (options.toRequest key)

end Operation

structure Transaction where
  conditions : List Condition := []
  success : List Operation := []
  failure : List Operation := []
  deriving DecidableEq, Inhabited, Repr

namespace Transaction

def when (t : Transaction) (conditions : List Condition) : Transaction :=
  { t with conditions := t.conditions ++ conditions }

/-- Adds operations for the case that all conditions hold. -/
def andThen (t : Transaction) (operations : List Operation) : Transaction :=
  { t with success := t.success ++ operations }

/-- Adds operations for the case that a condition does not hold. -/
def orElse (t : Transaction) (operations : List Operation) : Transaction :=
  { t with failure := t.failure ++ operations }

/-- The request, or what is wrong with the first bad condition. -/
def toRequest (t : Transaction) : Outcome TxnRequest :=
  match t.conditions.mapM Condition.toCompare with
  | .ok compare =>
      .ok { compare,
            success := t.success.map fun op => { request := some op.toRequest },
            failure := t.failure.map fun op => { request := some op.toRequest } }
  | .error failure => .error failure

end Transaction

/-- What one operation of the branch that ran gave. -/
inductive OperationResult
  | put (result : PutResult)
  | range (result : RangeResult)
  | delete (result : DeleteResult)
  deriving DecidableEq, Inhabited, Repr

namespace OperationResult

def put? : OperationResult → Option PutResult
  | put result => some result
  | _ => none

def range? : OperationResult → Option RangeResult
  | range result => some result
  | _ => none

def delete? : OperationResult → Option DeleteResult
  | delete result => some result
  | _ => none

def ofResponse : OpResponse → OperationResult
  | .put response => put (.ofResponse response)
  | .range response => range (.ofResponse response)
  | .deleteRange response => delete (.ofResponse response)

end OperationResult

structure TxnResult where
  header : Header
  succeeded : Bool
  results : List OperationResult
  deriving DecidableEq, Inhabited, Repr

namespace TxnResult

def resultsFrom (index : Nat) : List ResponseOp → Outcome (List OperationResult)
  | [] => .ok []
  | op :: ops =>
      match op.response with
      | none => .error (.protocolViolation s!"txn response op {index} has no recognized tag")
      | some response =>
          match resultsFrom (index + 1) ops with
          | .ok results => .ok (.ofResponse response :: results)
          | .error failure => .error failure

/-- Every operation must have told what it answered. -/
def ofResponse (r : TxnResponse) : Outcome TxnResult :=
  match resultsFrom 0 r.responses with
  | .ok results => .ok { header := r.header.getD {}, succeeded := r.succeeded, results }
  | .error failure => .error failure

end TxnResult

end Keyspace
