import Keyspace.Call.Bridged

namespace Keyspace

/-- A call that was made, by its name. -/
structure Made (ι α β : Type) where
  id : ι
  /-- How the task ends by itself, if it does. -/
  own : Option (Ending α)
  call : Call α β
  /-- The caller still has the call. -/
  kept : Bool := true

/-- What the continuation of the call at a place was given, and where it ran. -/
structure Heard (β : Type) where
  call : Nat
  outcome : Outcome β
  place : Place

structure Bridge (ι α β : Type) where
  context : Context
  /-- All calls that were ever made, in order. -/
  calls : List (Made ι α β) := []
  /-- The continuations that wait for their calls, in the order in which they were registered,
  each by the place of its call. -/
  waiting : List Nat := []
  heard : List (Heard β) := []

namespace Bridge

def call (b : Bridge ι α β) (id : ι) (own : Option (Ending α)) (convert : α → Option (Outcome β)) :
    Bridge ι α β :=
  { b with calls := b.calls ++ [{ id, own, call := .submit b.context convert }] }

def failed (b : Bridge ι α β) (id : ι) (failure : Failure) : Bridge ι α β :=
  { b with calls := b.calls ++ [{ id, own := none, call := .failed failure }] }

def last? (b : Bridge ι α β) (test : Made ι α β → Bool) : Option Nat :=
  (List.range b.calls.length).reverse.find? fun i => b.calls[i]?.any test

def has (b : Bridge ι α β) (i : Nat) : Bool :=
  b.calls[i]?.any Made.kept

/-- The place of the call that the caller has under a name. -/
def kept? [DecidableEq ι] (b : Bridge ι α β) (id : ι) : Option Nat :=
  match b.last? fun m => m.id = id with
  | some i => if b.has i then some i else none
  | none => none

/-- The place of the last call with a name that has a task, whether the caller has it or not. -/
def tasked? [DecidableEq ι] (b : Bridge ι α β) (id : ι) : Option Nat :=
  b.last? fun m => m.id = id && m.call.task.isSome

def at? (b : Bridge ι α β) (i : Nat) : Option (Call α β) :=
  b.calls[i]?.map Made.call

def release (b : Bridge ι α β) (i : Nat) : Bridge ι α β :=
  { b with calls := b.calls.modify i fun m => { m with kept := false } }

def onCall (b : Bridge ι α β) (i : Nat) (f : Call α β → Call α β) : Bridge ι α β :=
  { b with calls := b.calls.modify i fun m => { m with call := f m.call } }

def put (b : Bridge ι α β) (i : Nat) (call : Call α β) : Bridge ι α β :=
  b.onCall i fun _ => call

def runTask (b : Bridge ι α β) (i : Nat) : Bridge ι α β :=
  { b with calls := b.calls.modify i fun m =>
      { m with call := m.call.onTask fun t => t.run m.own } }

/-- The job of the call at a place runs, unless the context has stopped. -/
def runJob (b : Bridge ι α β) (i : Nat) : Bridge ι α β :=
  if b.context.running then b.onCall i Call.deliver else b

def hear (b : Bridge ι α β) (i : Nat) (outcome : Outcome β) (place : Place) : Bridge ι α β :=
  { b with
    waiting := b.waiting.filter fun j => j ≠ i
    heard := b.heard ++ [{ call := i, outcome, place }] }

/-- What the continuation of the call at a place was given so far, and where it ran. -/
def told (b : Bridge ι α β) (i : Nat) : List (Outcome β × Place) :=
  (b.heard.filter fun h => h.call = i).map fun h => (h.outcome, h.place)

/-- Runs the continuation that waits for the call at a place, if its call has an outcome. -/
def resume (b : Bridge ι α β) (i : Nat) : Bridge ι α β :=
  if b.waiting.contains i then
    match (b.at? i).map Call.poll with
    | some (call, some outcome) => (b.put i call).hear i outcome .context
    | _ => b
  else b

/-- Runs the tasks, and then the jobs and the continuations that they let go on. -/
def drive (b : Bridge ι α β) : Bridge ι α β :=
  let all := List.range b.calls.length
  all.foldl resume (all.foldl runJob (all.foldl runTask b))

/-- Stops the context. Continuations that still wait are told so, on its thread. -/
def shutdown (b : Bridge ι α β) : Bridge ι α β :=
  if b.context.running then
    b.waiting.foldl (fun b i => b.hear i (.error .contextShutdown) .context)
      { b with
        context := b.context.stop
        calls := b.calls.map fun m => { m with call := m.call.stop } }
  else b

/-- Registers a continuation for the call at a place. At a context that has stopped it is told so
at once, by the one who registers it. -/
def register (b : Bridge ι α β) (i : Nat) : Bridge ι α β :=
  let b := b.release i
  if b.context.running then { b with waiting := b.waiting ++ [i] }
  else b.hear i (.error .contextShutdown) .caller

/-- Registers a continuation for the call at a place, and lets it run if the outcome is there. -/
def continueWith (b : Bridge ι α β) (i : Nat) : Bridge ι α β :=
  (b.register i).resume i

/-- Waits for the outcome of the call at a place, which the caller goes on to keep. Nothing runs
if the outcome is there. -/
def await (b : Bridge ι α β) (i : Nat) : Bridge ι α β × Option (Outcome β) :=
  let b := if (b.at? i).any fun c => c.ready?.isSome then b else b.drive
  match (b.at? i).map Call.poll with
  | some (call, outcome) => (b.put i call, outcome)
  | none => (b, none)

/-- Waits until a continuation for the call at a place has run, and gives what it was given. Nothing
is driven if it ran at once. -/
def complete (b : Bridge ι α β) (i : Nat) : Bridge ι α β × Option (Outcome β × Place) :=
  let b := b.register i
  let b := if (b.told i).isEmpty then b.drive else b
  ({ b with
    waiting := b.waiting.filter fun j => j ≠ i
    heard := b.heard.filter fun h => h.call ≠ i }, (b.told i).head?)

def shown (b : Bridge ι α β) : String :=
  Text.shown "AsyncBridge" [("context", b.context.shown)]

end Bridge

end Keyspace
