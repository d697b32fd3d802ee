import Keyspace.Session.Settle

namespace Keyspace.Session

open Snapshot

/-- How a caller goes on with a call it made. -/
inductive Mode
  | await
  /-- Cancels the call before anything ran. -/
  | cancel
  /-- Cancels the call once all has run. -/
  | lateCancel
  | drop
  | onComplete
  /-- Keeps the call under a name. -/
  | hold (id : Int)
  /-- Drops the call before anything ran. -/
  | letGo
  /-- Gives the call to a continuation before anything ran. -/
  | continueWith
  deriving DecidableEq, Inhabited, Repr

/-- What a caller does with a call that it keeps. -/
inductive Use
  | await
  | onComplete
  | cancel
  | isCancelled
  | debug
  | drop
  | poll
  /-- Gives the call to a continuation, whether anything ran or not. -/
  | continueWith
  deriving DecidableEq, Inhabited, Repr

inductive Step
  | call (command : Command) (mode : Mode)
  /-- The same at a client that was started beside the first. -/
  | callAt (client : Nat) (command : Command) (mode : Mode)
  | held (id : Int) (use : Use)
  /-- Sends a request to the server itself, and waits for the response. -/
  | rpc (request : Request)
  | drive
  | failNext (status : Status)
  | latency (ms : Nat)
  | close (sides : List Side)
  | debug
  /-- Installs a new callback, which may detach itself or install another one at one of its
  chunks. -/
  | attach (detachAt swapAt : Option Nat)
  /-- The same, and settles. -/
  | snapshot (detachAt swapAt : Option Nat)
  | detach
  /-- Asks for a snapshot past the slot, and hears all of it. -/
  | observe (observer : Observer)
  /-- Starts one more client, which has a context of that name. -/
  | start (name : String)
  /-- Cancels a call by a handle of it. The caller need not have the call any more. -/
  | cancelHandle (call : Nat)
  /-- Looks at what the continuation of a call was told. -/
  | listen (call : Nat)
  deriving Inhabited

/-- The texts that show the parts of a session. -/
structure Shown where
  kv : String
  maintenance : String
  server : Option String
  deriving DecidableEq, Inhabited, Repr

/-- What a step tells. -/
inductive Told
  | nothing
  | flag (value : Bool)
  | text (value : String)
  /-- The outcome of a call that was waited for, unless it never comes. -/
  | awaited (outcome : Option (Outcome Reply))
  /-- The outcome of a call that was looked for. -/
  | polled (outcome : Option (Outcome Reply))
  | cancelled (running : Bool) (outcome : Option (Outcome Reply))
  | continued (outcome : Option (Outcome Reply)) (thread : String)
  | response (outcome : Option (Outcome Response))
  | shown (texts : Shown)
  deriving Inhabited

def addCall (s : Session) (side : Option Side) (call : Call Response Reply) : Session :=
  let added : Submitted := { side, call }
  { s with calls := s.calls ++ [added] }

/-- Makes the call of a command at one side, and sends its request if it has one. -/
def makeAt (s : Session) (side : Side) (command : Command) : Session :=
  let i := s.calls.length
  match command.request with
  | .error failure => s.addCall (some side) (.failed failure)
  | .ok request =>
      let reply (response : Response) := some response.reply
      (s.addCall (some side) (.submit (s.context side) reply)).submit i request

def make (s : Session) (command : Command) : Session :=
  s.makeAt command.side command

/-- The caller looks for the outcome of the call at a place. -/
def poll (s : Session) (i : Nat) : Session × Option (Outcome Reply) :=
  match (s.call? i).map Call.poll with
  | some (call, outcome) => (s.onCall i fun _ => call, outcome)
  | none => (s, none)

def await (s : Session) (i : Nat) : Session × Option (Outcome Reply) :=
  (s.settleCall i).poll i

def cancel (s : Session) (i : Nat) : Session × Bool :=
  match (s.call? i).map Call.cancel with
  | some (call, running) => (s.onCall i fun _ => call, running)
  | none => (s, false)

/-- Cancels the call at a place by a handle of it. A continuation that has the call hears of it. -/
def cancelHandle (s : Session) (i : Nat) : Session × Bool :=
  let (s, running) := s.cancel i
  (s.resume, running)

/-- Gives the call at a place to a continuation, which runs once there is an outcome. At a context
that has stopped the caller itself tells it so. -/
def continueWith (s : Session) (i : Nat) : Session :=
  let k : Continuation := { call := i }
  if (s.contextOf i).running then { s with continuations := s.continuations ++ [k] }.resume
  else
    { s with continuations := s.continuations ++ [k.tell (.error .contextShutdown) .caller] }

/-- What the continuation of the call at a place was told. -/
def listen (s : Session) (i : Nat) : Told :=
  match (s.continuations.find? fun k => k.call = i).bind Continuation.told with
  | some (outcome, place) => .continued (some outcome) (place.thread (s.contextOf i))
  | none => .nothing

/-- Settles, and gives the call at a place a continuation. At a context that has stopped the caller
itself is told so. -/
def complete (s : Session) (i : Nat) : Session × Told :=
  let s := s.settleCall i
  let context := s.contextOf i
  if context.running then
    let (s, outcome) := s.poll i
    (s, .continued outcome (Place.context.thread context))
  else (s, .continued (some (.error .contextShutdown)) (Place.caller.thread context))

def callAt (s : Session) (side : Side) (command : Command) (mode : Mode) : Session × Told :=
  let i := s.calls.length
  let s := s.makeAt side command
  match mode with
  | .await =>
      let (s, outcome) := s.await i
      (s, .awaited outcome)
  | .cancel =>
      let (s, running) := s.cancel i
      let (s, outcome) := s.poll i
      (s.settle, .cancelled running outcome)
  | .lateCancel =>
      let (s, running) := s.settle.cancel i
      let (s, outcome) := s.poll i
      (s, .cancelled running outcome)
  | .drop => (s.settle, .nothing)
  | .onComplete => s.complete i
  | .hold id =>
      ({ s with held := (id, i) :: s.held },
        .text ((s.call? i).elim "" fun c => c.shown (s.contextOf i)))
  | .letGo => (s, .nothing)
  | .continueWith => (s.continueWith i, .nothing)

def call (s : Session) (command : Command) (mode : Mode) : Session × Told :=
  s.callAt command.side command mode

/-- A step on the call that the caller keeps under a name. -/
def useHeld (s : Session) (id : Int) (use : Use) : Session × Told :=
  let given := { s with held := s.held.filter fun h => h.1 ≠ id }
  match s.held.lookup id with
  | none => (s, .awaited (some (.error (.invalidArgument "no such call"))))
  | some i =>
      match use with
      | .await =>
          let (s, outcome) := s.await i
          (s, .awaited outcome)
      | .onComplete => given.complete i
      | .cancel =>
          let (s, running) := s.cancel i
          (s, .flag running)
      | .isCancelled => (s, .flag ((s.call? i).any Call.cancelled))
      | .debug => (s, .text ((s.call? i).elim "" fun c => c.shown (s.contextOf i)))
      | .drop => (given, .nothing)
      | .poll =>
          let (s, outcome) := s.poll i
          (s, .polled outcome)
      | .continueWith => (given.continueWith i, .nothing)

/-- Sends a request to the server itself, and waits for the response. -/
def rpc (s : Session) (request : Request) : Session × Option (Outcome Response) :=
  let i := s.calls.length
  let s := ((s.addCall none { task := some {} }).submit i request).settleCall i
  (s, ((s.call? i).bind Call.task).bind fun t => t.ending.map Ending.outcome)

/-- What a callback does that acts at its chunk of the given number. -/
def atChunk (number : Option Nat) (act : Act) : List (List Act) :=
  match number with
  | some (n + 1) => List.replicate n [] ++ [[act]]
  | _ => []

/-- Installs a new callback, which may detach itself or install another one. -/
def attach (s : Session) (detachAt swapAt : Option Nat) : Session :=
  s.onWatch fun w =>
    let i := w.callbacks.length
    let first : Callback := {
      name := "a"
      atChunk := List.zipWithAll (fun a b => a.getD [] ++ b.getD [])
        (atChunk detachAt .detach) (atChunk swapAt (.attach (i + 1))) }
    let second : Callback := { name := "b" }
    ({ w with callbacks := w.callbacks ++ [first, second] }.step (.attach i)).1

def detach (s : Session) : Session × Bool :=
  (s.onWatch fun w => (w.step .detach).1, s.watch.slot.isOpen)

/-- Asks for a snapshot past the slot, and hears all of it. An observer that is to stop after no
chunk asks for the end before the snapshot is asked for. -/
def observe (s : Session) (o : Observer) : Session :=
  let i := s.observers.length
  let stream :=
    if o.stopAfter = some 0 then if o.byDrop then o.stream.drop else o.stream.complete
    else o.stream
  let s := { s with observers := s.observers ++ [{ o with stream }] }
  (s.ask (.observer i)).settleObserver i

/-- Whoever waits for a call of one side is told that its context has stopped. -/
def stopCalls (s : Session) (side : Side) : Session :=
  { s with
    calls := s.calls.map fun c =>
      if c.side = some side then { c with call := c.call.stop } else c
    continuations := s.continuations.map fun k =>
      if s.side? k.call = some side then k.tell (.error .contextShutdown) .context else k }

def stopContext (s : Session) : Side → Session
  | .kv => { s with kv := s.kv.stop }
  | .maintenance => { s with maintenance := s.maintenance.stop }
  | .further client => { s with further := s.further.modify client Context.stop }

/-- Stops the context of one side. With that of maintenance the slot is closed before. -/
def close (s : Session) (side : Side) : Session :=
  let s := if side = .maintenance then s.detach.1 else s
  (s.stopCalls side).stopContext side

def shownServer (s : Session) : Option String :=
  s.store?.map fun store =>
    Text.shown "MemoryTransport" [("revision", toString store.revision),
      ("chunk_size", toString s.chunkSize)]

def texts (s : Session) : Shown where
  kv := Text.shown "KvClient" [("context", s.kv.shown)]
  maintenance := Text.shown "MaintenanceClient" [("context", s.maintenance.shown),
    ("snapshots", s.watch.slot.shown)]
  server := s.shownServer

def step (s : Session) : Step → Session × Told
  | .call command mode => s.call command mode
  | .callAt client command mode => s.callAt (.further client) command mode
  | .held id use => s.useHeld id use
  | .rpc request =>
      let (s, response) := s.rpc request
      (s, .response response)
  | .drive => (s.settle, .nothing)
  | .failNext status => ({ s with failures := s.failures ++ [status] }, .nothing)
  | .latency ms => ({ s with latency := ms }, .nothing)
  | .close sides => (sides.foldl close s, .nothing)
  | .debug => (s, .shown s.texts)
  | .attach detachAt swapAt => (s.attach detachAt swapAt, .nothing)
  | .snapshot detachAt swapAt => ((s.attach detachAt swapAt).settle, .nothing)
  | .detach =>
      let (s, wasOpen) := s.detach
      (s, .flag wasOpen)
  | .observe o => (s.observe o, .nothing)
  | .start name => ({ s with further := s.further ++ [{ name }] }, .nothing)
  | .cancelHandle i =>
      let (s, running) := s.cancelHandle i
      (s, .flag running)
  | .listen i => (s, s.listen i)

/-- The session after steps, whatever they tell. -/
def after (s : Session) (steps : List Step) : Session :=
  steps.foldl (fun s step => (s.step step).1) s

/-- Forgets what was sent and seen so far. -/
def forget (s : Session) : Session :=
  { s with sent := [], seen := [] }

end Keyspace.Session
