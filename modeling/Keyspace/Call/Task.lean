import Keyspace.Failure

namespace Keyspace

/-- How a task ended. -/
inductive Ending (α : Type)
  | value (v : α)
  | refused (status : Status)
  | panicked
  /-- The task was aborted before it could end by itself. -/
  | aborted
  deriving DecidableEq, Inhabited, Repr

/-- What the end of a task means for the one who waits for it. -/
def Ending.outcome : Ending α → Outcome α
  | value v => .ok v
  | refused status => .error (.transport status)
  | panicked => .error (.transport { code := .internal, message := "rpc task panicked" })
  | aborted => .error .cancelled

structure Call.Task (α : Type) where
  /-- Somebody asked for the end of the task before it ran. -/
  aborting : Bool := false
  ending : Option (Ending α) := none
  deriving DecidableEq, Inhabited, Repr

namespace Call.Task

def isFinished (t : Task α) : Bool :=
  t.ending.isSome

/-- Asks for the end of a task, which comes when the runtime is driven. -/
def abort (t : Task α) : Task α :=
  { t with aborting := true }

/-- Runs a task that ends by itself as given, if it ends at all. A task that ended stays as it is,
and one that is to be aborted does nothing else any more. -/
def run (t : Task α) (own : Option (Ending α)) : Task α :=
  if t.isFinished then t
  else if t.aborting then { t with ending := some .aborted }
  else { t with ending := own }

theorem run_of_isFinished {t : Task α} (h : t.isFinished = true) (own : Option (Ending α)) :
    t.run own = t := by
  simp [run, h]

def shown (t : Task α) : String :=
  Text.shown "PendingCall" [("finished", toString t.isFinished)]

end Call.Task

end Keyspace
