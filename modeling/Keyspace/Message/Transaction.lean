import Keyspace.Message.Range
import Keyspace.Message.Write

namespace Keyspace

open Wire

/-- How the actual value of a key must relate to the one it is compared with. -/
inductive CompareResult
  | equal
  | greater
  | less
  | notEqual
  deriving DecidableEq, Inhabited, Repr

namespace CompareResult

def all : List CompareResult := [equal, greater, less, notEqual]

def wire : CompareResult → Int32
  | equal => 0
  | greater => 1
  | less => 2
  | notEqual => 3

def ofWire? (n : Int32) : Option CompareResult :=
  all.find? (wire · = n)

def name : CompareResult → String
  | equal => "Equal"
  | greater => "Greater"
  | less => "Less"
  | notEqual => "NotEqual"

end CompareResult

/-- What is compared. -/
inductive CompareTarget
  | version
  | createRevision
  | modRevision
  | value
  | lease
  deriving DecidableEq, Inhabited, Repr

namespace CompareTarget

def all : List CompareTarget := [version, createRevision, modRevision, value, lease]

def wire : CompareTarget → Int32
  | version => 0
  | createRevision => 1
  | modRevision => 2
  | value => 3
  | lease => 4

def ofWire? (n : Int32) : Option CompareTarget :=
  all.find? (wire · = n)

def name : CompareTarget → String
  | version => "Version"
  | createRevision => "Create"
  | modRevision => "Mod"
  | value => "Value"
  | lease => "Lease"

end CompareTarget

/-- What a key is compared with. -/
inductive Operand
  | version (n : Int64)
  | createRevision (n : Int64)
  | modRevision (n : Int64)
  | value (bytes : Bytes)
  | lease (n : Int64)
  deriving DecidableEq, Inhabited, Repr

namespace Operand

def version? : Operand → Option Int64
  | version n => some n
  | _ => none

def createRevision? : Operand → Option Int64
  | createRevision n => some n
  | _ => none

def modRevision? : Operand → Option Int64
  | modRevision n => some n
  | _ => none

def value? : Operand → Option Bytes
  | value bytes => some bytes
  | _ => none

def lease? : Operand → Option Int64
  | lease n => some n
  | _ => none

def members : List (Member Operand) := [
  .scalar 4 .int64 version version?,
  .scalar 5 .int64 createRevision createRevision?,
  .scalar 6 .int64 modRevision modRevision?,
  .scalar 7 .bytes value value?,
  .scalar 8 .int64 lease lease?]

end Operand

structure Compare where
  result : Int32 := 0
  target : Int32 := 0
  key : Bytes := []
  operand : Option Operand := none
  rangeEnd : Bytes := []
  deriving DecidableEq, Inhabited, Repr

def Compare.codec : Codec Compare where
  empty := {}
  fields := [
    .scalar 1 .int32 ⟨result, fun v m => { m with result := v }⟩,
    .scalar 2 .int32 ⟨target, fun v m => { m with target := v }⟩,
    .scalar 3 .bytes ⟨key, fun v m => { m with key := v }⟩,
    .choice Operand.members [] ⟨operand, fun v m => { m with operand := v }⟩,
    .scalar 64 .bytes ⟨rangeEnd, fun v m => { m with rangeEnd := v }⟩]

/-- What one operation of a transaction asks for. -/
inductive OpRequest
  | range (request : RangeRequest)
  | put (request : PutRequest)
  | deleteRange (request : DeleteRangeRequest)
  deriving DecidableEq, Inhabited, Repr

namespace OpRequest

def range? : OpRequest → Option RangeRequest
  | range request => some request
  | _ => none

def put? : OpRequest → Option PutRequest
  | put request => some request
  | _ => none

def deleteRange? : OpRequest → Option DeleteRangeRequest
  | deleteRange request => some request
  | _ => none

def members : List (Member OpRequest) := [
  .message 1 RangeRequest.codec range range?,
  .message 2 PutRequest.codec put put?,
  .message 3 DeleteRangeRequest.codec deleteRange deleteRange?]

end OpRequest

structure RequestOp where
  request : Option OpRequest := none
  deriving DecidableEq, Inhabited, Repr

/-- A nested transaction (tag 4) is skipped like any unknown record and leaves the request as it
is. -/
def RequestOp.codec : Codec RequestOp where
  empty := {}
  fields := [.choice OpRequest.members [] ⟨request, fun v m => { m with request := v }⟩]

/-- What one operation of a transaction answered. -/
inductive OpResponse
  | range (response : RangeResponse)
  | put (response : PutResponse)
  | deleteRange (response : DeleteRangeResponse)
  deriving DecidableEq, Inhabited, Repr

namespace OpResponse

def range? : OpResponse → Option RangeResponse
  | range response => some response
  | _ => none

def put? : OpResponse → Option PutResponse
  | put response => some response
  | _ => none

def deleteRange? : OpResponse → Option DeleteRangeResponse
  | deleteRange response => some response
  | _ => none

def members : List (Member OpResponse) := [
  .message 1 RangeResponse.codec range range?,
  .message 2 PutResponse.codec put put?,
  .message 3 DeleteRangeResponse.codec deleteRange deleteRange?]

end OpResponse

structure ResponseOp where
  response : Option OpResponse := none
  deriving DecidableEq, Inhabited, Repr

/-- The answer of a nested transaction (tag 4) is not kept, and leaves no response. -/
def ResponseOp.codec : Codec ResponseOp where
  empty := {}
  fields := [.choice OpResponse.members [4] ⟨response, fun v m => { m with response := v }⟩]

structure TxnRequest where
  compare : List Compare := []
  success : List RequestOp := []
  failure : List RequestOp := []
  deriving DecidableEq, Inhabited, Repr

def TxnRequest.codec : Codec TxnRequest where
  empty := {}
  fields := [
    .repeated 1 Compare.codec ⟨compare, fun v m => { m with compare := v }⟩,
    .repeated 2 RequestOp.codec ⟨success, fun v m => { m with success := v }⟩,
    .repeated 3 RequestOp.codec ⟨failure, fun v m => { m with failure := v }⟩]

structure TxnResponse where
  header : Option Header := none
  succeeded : Bool := false
  responses : List ResponseOp := []
  deriving DecidableEq, Inhabited, Repr

def TxnResponse.codec : Codec TxnResponse where
  empty := {}
  fields := [
    .optional 1 Header.codec ⟨header, fun v m => { m with header := v }⟩,
    .scalar 2 .bool ⟨succeeded, fun v m => { m with succeeded := v }⟩,
    .repeated 3 ResponseOp.codec ⟨responses, fun v m => { m with responses := v }⟩]

end Keyspace
