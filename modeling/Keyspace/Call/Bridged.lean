import Keyspace.Call.Context
import Keyspace.Call.Task

/-!
Calls that bring the result of a task to a caller. A job on the context waits for the task,
converts what it gave and delivers the outcome; the caller looks for the outcome, and may cancel
the call at any time.
-/

namespace Keyspace

/-- What became of the outcome on its way from the context to the caller. -/
inductive Delivery (β : Type)
  | awaited
  | made (outcome : Outcome β)
  /-- The job ended without an outcome. -/
  | lost
  deriving Inhabited

/-- How far the caller came. -/
inductive Stage
  | waiting
  /-- The call failed before it was submitted. -/
  | failed (failure : Failure)
  | done
  deriving DecidableEq, Inhabited, Repr

def Stage.name : Stage → String
  | waiting => "waiting"
  | failed _ => "failed"
  | done => "done"

structure Call (α β : Type) where
  /-- The task of the call, unless the call failed before it was submitted. -/
  task : Option (Call.Task α) := none
  /-- How the value of the task is converted, or nothing for a conversion that panics. -/
  convert : α → Option (Outcome β) := fun _ => none
  delivery : Delivery β := .awaited
  stage : Stage := .waiting
  cancelled : Bool := false

namespace Call

/-- A call for a task. At a context that has stopped there is no job for it, and the task is to be
aborted. -/
def submit (context : Context) (convert : α → Option (Outcome β)) : Call α β :=
  if context.running then { task := some {}, convert }
  else { task := some { aborting := true }, convert, delivery := .lost }

def failed (failure : Failure) : Call α β :=
  { stage := .failed failure }

def onTask (c : Call α β) (f : Task α → Task α) : Call α β :=
  { c with task := c.task.map f }

/-- What the job of the call waits for, once it is there. -/
def arrived? (c : Call α β) : Option (Ending α) :=
  match c.delivery with
  | .awaited => c.task.bind Task.ending
  | _ => none

def toConvert? (c : Call α β) : Option α :=
  match c.arrived? with
  | some (.value v) => some v
  | _ => none

/-- Runs the job of the call on the context. A conversion that panics leaves no outcome. -/
def deliver (c : Call α β) : Call α β :=
  match c.toConvert? with
  | some v =>
      match c.convert v with
      | some outcome => { c with delivery := .made outcome }
      | none => { c with delivery := .lost }
  | none =>
      match c.arrived?.map Ending.outcome with
      | some (.error failure) => { c with delivery := .made (.error failure) }
      | _ => c

/-- The context stops: an outcome that was not delivered never will be. -/
def stop (c : Call α β) : Call α β :=
  match c.delivery with
  | .awaited => { c with delivery := .lost }
  | _ => c

/-- Cancels the call and asks for the end of its task. The flag tells whether the task was still
running. -/
def cancel (c : Call α β) : Call α β × Bool :=
  ({ c.onTask Task.abort with cancelled := true },
    match c.task with
    | some t => !t.isFinished
    | none => false)

/-- What the caller would be given now, if it has not been given an outcome before. -/
def ready? (c : Call α β) : Option (Outcome β) :=
  match c.stage with
  | .done => none
  | .waiting =>
      if c.cancelled then some (.error .cancelled)
      else
        match c.delivery with
        | .awaited => none
        | .made outcome => some outcome
        | .lost => some (.error .contextShutdown)
  | .failed failure => some (.error (if c.cancelled then .cancelled else failure))

/-- The caller looks for the outcome. It is given at most one. -/
def poll (c : Call α β) : Call α β × Option (Outcome β) :=
  match c.ready? with
  | some outcome => ({ c with stage := .done }, some outcome)
  | none => (c, none)

@[simp] theorem poll_outcome (c : Call α β) : c.poll.2 = c.ready? := by
  unfold poll
  split <;> simp_all

def shown (c : Call α β) (context : Context) : String :=
  Text.shown "BridgedCall" [("state", Text.quote c.stage.name),
    ("cancelled", toString c.cancelled), ("context", Text.quote context.name)]

/-- A handle for cancelling the call as one line of text. -/
def shownHandle (c : Call α β) : String :=
  Text.shown "CancelHandle" [("cancelled", toString c.cancelled)]

end Call

end Keyspace
