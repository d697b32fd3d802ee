import Keyspace.Store.Compare
import Keyspace.Store.Range
import Keyspace.Store.Write

namespace Keyspace

def OpResponse.withHeader (header : Header) : OpResponse → OpResponse
  | range r => range { r with header := some header }
  | put r => put { r with header := some header }
  | deleteRange r => deleteRange { r with header := some header }

namespace Store

/-- What can be said against one operation, given the keys that operations before it write. -/
def checkOp (s : Store) (written : List Bytes) (op : RequestOp) : Except Refusal Unit :=
  match op.request with
  | none => .error .unsupportedOperation
  | some (.put r) =>
      if r.key = [] then .error .keyMissing
      else if written.contains r.key then .error .duplicateKey
      else if r.keepsPrevious ∧ (s.latest? r.key).isNone then .error .keyNotFound
      else .ok ()
  | some (.range r) =>
      match s.checkRange r with
      | .error refusal => .error refusal
      | .ok _ => .ok ()
  | some (.deleteRange r) => if r.key = [] then .error .keyMissing else .ok ()

def writtenKey? (op : RequestOp) : Option Bytes :=
  match op.request with
  | some (.put r) => some r.key
  | _ => none

def deletedSpan? (op : RequestOp) : Option Span :=
  match op.request with
  | some (.deleteRange r) => some r.span
  | _ => none

def checkOps (s : Store) (written : List Bytes) : List RequestOp → Except Refusal Unit
  | [] => .ok ()
  | op :: ops =>
      match s.checkOp written op with
      | .error refusal => .error refusal
      | .ok () => s.checkOps (written ++ (writtenKey? op).toList) ops

/-- No key may be written twice, or both written and deleted. -/
def checkBranch (s : Store) (ops : List RequestOp) : Except Refusal Unit :=
  match s.checkOps [] ops with
  | .error refusal => .error refusal
  | .ok () =>
      if (ops.filterMap writtenKey?).any fun key =>
          (ops.filterMap deletedSpan?).any fun span => span.covers key then
        .error .duplicateKey
      else .ok ()

/-- Carries out one operation at a revision. The answer has no header yet; with it goes whether
something was written. -/
def runOp (s : Store) (revision : Nat) (op : OpRequest) : Step (OpResponse × Bool) :=
  match op with
  | .range r =>
      match s.range r with
      | .ok response => (s, .ok (.range response, false))
      | .error refusal => (s, .error refusal)
  | .put r =>
      match s.putAt r revision with
      | (s', .ok response) => (s', .ok (.put response, true))
      | (s', .error refusal) => (s', .error refusal)
  | .deleteRange r =>
      let (s', removed) := s.deleteAt r.span revision
      (s', .ok (.deleteRange (r.response removed), !removed.isEmpty))

/-- Carries out operations one after the other. One that fails stops those after it; what those
before it wrote stays. -/
def runOps (s : Store) (revision : Nat) : List RequestOp → Step (List OpResponse × Bool)
  | [] => (s, .ok ([], false))
  | op :: ops =>
      match op.request with
      | none => s.runOps revision ops
      | some request =>
          match s.runOp revision request with
          | (s', .error refusal) => (s', .error refusal)
          | (s', .ok (response, wrote)) =>
              match s'.runOps revision ops with
              | (s'', .error refusal) => (s'', .error refusal)
              | (s'', .ok (responses, wrote')) =>
                  (s'', .ok (response :: responses, wrote || wrote'))

/-- Checks a list of operations and carries it out at the next revision, which becomes the
revision of the store if something was written. -/
def runBranch (s : Store) (ops : List RequestOp) : Step (List OpResponse) :=
  match s.checkBranch ops with
  | .error refusal => (s, .error refusal)
  | .ok () =>
      match s.runOps (s.revision + 1) ops with
      | (s', .error refusal) => (s', .error refusal)
      | (s', .ok (responses, wrote)) =>
          let s' := if wrote then { s' with revision := s.revision + 1 } else s'
          (s', .ok (responses.map (OpResponse.withHeader s'.header)))

def txn (s : Store) (r : TxnRequest) : Step TxnResponse :=
  match s.evaluateAll r.compare with
  | .error refusal => (s, .error refusal)
  | .ok succeeded =>
      match s.runBranch (if succeeded then r.success else r.failure) with
      | (s', .error refusal) => (s', .error refusal)
      | (s', .ok responses) =>
          (s', .ok { header := some s'.header, succeeded,
                     responses := responses.map fun response => { response := some response } })

end Store

end Keyspace
