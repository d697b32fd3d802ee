import Keyspace.Message.Kind

namespace Keyspace

namespace Wire

namespace Scalar

def recordLength (kind : Scalar α) (tag : Nat) (v : α) : Nat :=
  Key.size tag + kind.size v

end Scalar

/-- The bytes of numbers that are left out when they are zero. -/
def numbersLength [DecidableEq α] [OfNat α 0] (kind : Scalar α) (numbers : List (Nat × α)) : Nat :=
  numbers.foldr (fun (tag, v) n => (if v ≠ 0 then kind.recordLength tag v else 0) + n) 0

/-- The bytes of flags that are left out when they are not set. -/
def flagsLength (flags : List (Nat × Bool)) : Nat :=
  flags.foldr (fun (tag, flag) n => (if flag then Scalar.bool.recordLength tag flag else 0) + n) 0

/-- The bytes of a record that holds a message of so many bytes. -/
def messageLength (tag n : Nat) : Nat :=
  Key.size tag + Varint.size n + n

def optionalLength (tag : Nat) (length : S → Nat) (v : Option S) : Nat :=
  v.elim 0 fun v => messageLength tag (length v)

/-- The bytes of a list of messages, the keys of all of them first. -/
def messagesLength (tag : Nat) (length : S → Nat) (vs : List S) : Nat :=
  Key.size tag * vs.length + vs.foldr (fun v n => length v + Varint.size (length v) + n) 0

end Wire

open Wire

def Header.encodedLength (m : Header) : Nat :=
  (if m.clusterId ≠ 0 then Scalar.uint64.recordLength 1 m.clusterId else 0) +
    (if m.memberId ≠ 0 then Scalar.uint64.recordLength 2 m.memberId else 0) +
    (if m.revision ≠ 0 then Scalar.int64.recordLength 3 m.revision else 0) +
    (if m.raftTerm ≠ 0 then Scalar.uint64.recordLength 4 m.raftTerm else 0)

/-- The lease is counted with the other numbers, before the value. -/
def KeyValue.encodedLength (m : KeyValue) : Nat :=
  (if m.key ≠ [] then Scalar.bytes.recordLength 1 m.key else 0) +
    numbersLength Scalar.int64
      [(2, m.createRevision), (3, m.modRevision), (4, m.version), (6, m.lease)] +
    (if m.value ≠ [] then Scalar.bytes.recordLength 5 m.value else 0)

def RangeRequest.encodedLength (m : RangeRequest) : Nat :=
  (if m.key ≠ [] then Scalar.bytes.recordLength 1 m.key else 0) +
    (if m.rangeEnd ≠ [] then Scalar.bytes.recordLength 2 m.rangeEnd else 0) +
    (if m.sortOrder ≠ 0 then Scalar.int32.recordLength 5 m.sortOrder else 0) +
    (if m.sortTarget ≠ 0 then Scalar.int32.recordLength 6 m.sortTarget else 0) +
    flagsLength [(7, m.serializable), (8, m.keysOnly), (9, m.countOnly)] +
    numbersLength Scalar.int64
      [(3, m.limit), (4, m.revision), (10, m.minModRevision), (11, m.maxModRevision),
        (12, m.minCreateRevision), (13, m.maxCreateRevision)]

def RangeResponse.encodedLength (m : RangeResponse) : Nat :=
  messagesLength 2 KeyValue.encodedLength m.kvs +
    optionalLength 1 Header.encodedLength m.header +
    (if m.more then Scalar.bool.recordLength 3 m.more else 0) +
    (if m.count ≠ 0 then Scalar.int64.recordLength 4 m.count else 0)

def PutRequest.encodedLength (m : PutRequest) : Nat :=
  (if m.key ≠ [] then Scalar.bytes.recordLength 1 m.key else 0) +
    (if m.value ≠ [] then Scalar.bytes.recordLength 2 m.value else 0) +
    (if m.lease ≠ 0 then Scalar.int64.recordLength 3 m.lease else 0) +
    flagsLength [(4, m.prevKv), (5, m.ignoreValue), (6, m.ignoreLease)]

def PutResponse.encodedLength (m : PutResponse) : Nat :=
  optionalLength 1 Header.encodedLength m.header +
    optionalLength 2 KeyValue.encodedLength m.prevKv

def DeleteRangeRequest.encodedLength (m : DeleteRangeRequest) : Nat :=
  (if m.key ≠ [] then Scalar.bytes.recordLength 1 m.key else 0) +
    (if m.rangeEnd ≠ [] then Scalar.bytes.recordLength 2 m.rangeEnd else 0) +
    (if m.prevKv then Scalar.bool.recordLength 3 m.prevKv else 0)

def DeleteRangeResponse.encodedLength (m : DeleteRangeResponse) : Nat :=
  messagesLength 3 KeyValue.encodedLength m.prevKvs +
    optionalLength 1 Header.encodedLength m.header +
    (if m.deleted ≠ 0 then Scalar.int64.recordLength 2 m.deleted else 0)

def CompactionRequest.encodedLength (m : CompactionRequest) : Nat :=
  (if m.revision ≠ 0 then Scalar.int64.recordLength 1 m.revision else 0) +
    (if m.physical then Scalar.bool.recordLength 2 m.physical else 0)

def CompactionResponse.encodedLength (m : CompactionResponse) : Nat :=
  optionalLength 1 Header.encodedLength m.header

/-- What a key is compared with is counted even when it is zero. -/
def Compare.encodedLength (m : Compare) : Nat :=
  (if m.result ≠ 0 then Scalar.int32.recordLength 1 m.result else 0) +
    (if m.target ≠ 0 then Scalar.int32.recordLength 2 m.target else 0) +
    (if m.key ≠ [] then Scalar.bytes.recordLength 3 m.key else 0) +
    (match m.operand with
      | some (.version n) => Scalar.int64.recordLength 4 n
      | some (.createRevision n) => Scalar.int64.recordLength 5 n
      | some (.modRevision n) => Scalar.int64.recordLength 6 n
      | some (.value bytes) => Scalar.bytes.recordLength 7 bytes
      | some (.lease n) => Scalar.int64.recordLength 8 n
      | none => 0) +
    (if m.rangeEnd ≠ [] then Scalar.bytes.recordLength 64 m.rangeEnd else 0)

def RequestOp.encodedLength (m : RequestOp) : Nat :=
  match m.request with
  | some (.range request) => messageLength 1 request.encodedLength
  | some (.put request) => messageLength 2 request.encodedLength
  | some (.deleteRange request) => messageLength 3 request.encodedLength
  | none => 0

def ResponseOp.encodedLength (m : ResponseOp) : Nat :=
  match m.response with
  | some (.range response) => messageLength 1 response.encodedLength
  | some (.put response) => messageLength 2 response.encodedLength
  | some (.deleteRange response) => messageLength 3 response.encodedLength
  | none => 0

def TxnRequest.encodedLength (m : TxnRequest) : Nat :=
  messagesLength 1 Compare.encodedLength m.compare +
    messagesLength 2 RequestOp.encodedLength m.success +
    messagesLength 3 RequestOp.encodedLength m.failure

def TxnResponse.encodedLength (m : TxnResponse) : Nat :=
  messagesLength 3 ResponseOp.encodedLength m.responses +
    optionalLength 1 Header.encodedLength m.header +
    (if m.succeeded then Scalar.bool.recordLength 2 m.succeeded else 0)

def AlarmRequest.encodedLength (m : AlarmRequest) : Nat :=
  (if m.action ≠ 0 then Scalar.int32.recordLength 1 m.action else 0) +
    (if m.memberId ≠ 0 then Scalar.uint64.recordLength 2 m.memberId else 0) +
    (if m.alarm ≠ 0 then Scalar.int32.recordLength 3 m.alarm else 0)

def AlarmMember.encodedLength (m : AlarmMember) : Nat :=
  (if m.memberId ≠ 0 then Scalar.uint64.recordLength 1 m.memberId else 0) +
    (if m.alarm ≠ 0 then Scalar.int32.recordLength 2 m.alarm else 0)

def AlarmResponse.encodedLength (m : AlarmResponse) : Nat :=
  optionalLength 1 Header.encodedLength m.header +
    messagesLength 2 AlarmMember.encodedLength m.alarms

def StatusResponse.encodedLength (m : StatusResponse) : Nat :=
  optionalLength 1 Header.encodedLength m.header +
    (if m.version ≠ "" then Scalar.text.recordLength 2 m.version else 0) +
    (if m.dbSize ≠ 0 then Scalar.int64.recordLength 3 m.dbSize else 0) +
    numbersLength Scalar.uint64 [(4, m.leader), (5, m.raftIndex), (6, m.raftTerm)]

def DefragmentResponse.encodedLength (m : DefragmentResponse) : Nat :=
  optionalLength 1 Header.encodedLength m.header

def SnapshotResponse.encodedLength (m : SnapshotResponse) : Nat :=
  optionalLength 1 Header.encodedLength m.header +
    (if m.remainingBytes ≠ 0 then Scalar.uint64.recordLength 2 m.remainingBytes else 0) +
    (if m.blob ≠ [] then Scalar.bytes.recordLength 3 m.blob else 0)

def MessageKind.encodedLength : (kind : MessageKind) → kind.Carrier → Nat
  | responseHeader => Header.encodedLength
  | keyValue => KeyValue.encodedLength
  | rangeRequest => RangeRequest.encodedLength
  | rangeResponse => RangeResponse.encodedLength
  | putRequest => PutRequest.encodedLength
  | putResponse => PutResponse.encodedLength
  | deleteRangeRequest => DeleteRangeRequest.encodedLength
  | deleteRangeResponse => DeleteRangeResponse.encodedLength
  | compactionRequest => CompactionRequest.encodedLength
  | compactionResponse => CompactionResponse.encodedLength
  | compare => Compare.encodedLength
  | requestOp => RequestOp.encodedLength
  | responseOp => ResponseOp.encodedLength
  | txnRequest => TxnRequest.encodedLength
  | txnResponse => TxnResponse.encodedLength
  | alarmRequest => AlarmRequest.encodedLength
  | alarmMember => AlarmMember.encodedLength
  | alarmResponse => AlarmResponse.encodedLength
  | statusRequest | defragmentRequest | snapshotRequest => fun _ => 0
  | statusResponse => StatusResponse.encodedLength
  | defragmentResponse => DefragmentResponse.encodedLength
  | snapshotResponse => SnapshotResponse.encodedLength

end Keyspace
