import Keyspace.Status

namespace Keyspace

inductive Failure
  /-- The caller built a request that cannot be sent. -/
  | invalidArgument (reason : String)
  /-- The call failed on the way or at the server. -/
  | transport (status : Status)
  /-- The server answered with something outside of what is understood. -/
  | protocolViolation (reason : String)
  /-- The snapshot stream ended with an error. -/
  | streamTerminated (status : Status)
  /-- The caller cancelled the call. -/
  | cancelled
  /-- The context of the client stopped before the call had its outcome. -/
  | contextShutdown
  | contextStart (reason : String)
  | connect (reason : String)
  deriving DecidableEq, Inhabited, Repr

namespace Failure

def message : Failure → String
  | invalidArgument reason => "invalid argument: " ++ reason
  | transport status => "transport failure: " ++ status.shown
  | protocolViolation reason => "protocol violation: " ++ reason
  | streamTerminated status => "snapshot stream terminated: " ++ status.shown
  | cancelled => "call cancelled"
  | contextShutdown => "callback context shut down"
  | contextStart reason => "callback context failed to start: " ++ reason
  | connect reason => "connect failed: " ++ reason

def code? : Failure → Option Code
  | transport status => some status.code
  | streamTerminated status => some status.code
  | _ => none

/-- Only a call that found no server may be tried again with some hope. -/
def isRetriable : Failure → Bool
  | transport status => status.code = .unavailable
  | _ => false

def isCallerError : Failure → Bool
  | invalidArgument _ => true
  | _ => false

end Failure

abbrev Outcome (α : Type) := Except Failure α

end Keyspace
