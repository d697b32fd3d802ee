import Keyspace.Text.Quoted

namespace Keyspace

structure Context where
  name : String
  running : Bool := true
  deriving DecidableEq, Inhabited, Repr

namespace Context

def stop (c : Context) : Context :=
  { c with running := false }

def shown (c : Context) : String :=
  Text.shown "CallbackContext" [("name", Text.quote c.name), ("running", toString c.running)]

end Context

/-- Where a continuation ran. -/
inductive Place
  /-- On the thread of the context. -/
  | context
  /-- On the thread that asked for it. -/
  | caller
  deriving DecidableEq, Inhabited, Repr

def Place.thread (context : Context) : Place → String
  | .context => context.name
  | .caller => "caller"

end Keyspace
