import Keyspace.Call.Bridged
import Keyspace.Client.Command
import Keyspace.Snapshot.Feed
import Keyspace.Snapshot.Watch

/-!
A client at a server, with all that waits for its turn. Nothing runs by itself: requests that were
sent and snapshots that were asked for wait in a queue until the session is settled.
-/

namespace Keyspace

/-- What answers the requests of a session. -/
inductive Server
  | memory (store : Store)
  /-- One answer for each request, laid down beforehand. -/
  | script (answers : List (Request → Except Status Response))

namespace Session

/-- Who hears of a snapshot: the slot of the client, for one of the streams it opened, or an
observer of the session's own. -/
inductive Listener
  | slot (stream : Nat)
  | observer (index : Nat)
  deriving DecidableEq, Inhabited, Repr

/-- An observer that may ask for the end of its stream while it hears of a chunk: by the handle,
or by letting go of it. -/
structure Observer where
  stream : Stream := {}
  /-- The number of chunks after which the observer asks for the end. -/
  stopAfter : Option Nat := none
  byDrop : Bool := false
  chunks : Nat := 0
  deriving DecidableEq, Inhabited, Repr

inductive Job
  /-- Answers a request of a call, as given or by the server. -/
  | answer (call : Nat) (request : Request) (given : Option (Except Status Response))
  /-- Sends a snapshot, or tells of the failure that was given to it. -/
  | feed (listener : Listener) (failure : Option Status) (feed : Option Snapshot.Feed)

/-- A job with the time from which on it can run. -/
structure Queued where
  due : Nat
  /-- Whether the job was put off when it was queued. -/
  delayed : Bool
  job : Job

/-- A call that was made: of one side of the client, or at the server itself. -/
structure Submitted where
  side : Option Side
  call : Call Response Reply

/-- A continuation that a caller gave the call at a place to. -/
structure Continuation where
  call : Nat
  /-- What it was told, and where it ran. -/
  told : Option (Outcome Reply × Place) := none

/-- Tells a continuation how its call ended, unless it was told before. -/
def Continuation.tell (k : Continuation) (outcome : Outcome Reply) (place : Place) :
    Continuation :=
  { k with told := k.told.or (some (outcome, place)) }

/-- What was sent to the server. -/
inductive Sent
  | request (request : Request)
  | snapshot
  deriving DecidableEq, Inhabited, Repr

/-- What was seen of snapshots. -/
inductive Seen
  | callback (name : String) (event : Snapshot.Event)
  | observer (signal : Snapshot.Signal)
  deriving DecidableEq, Inhabited, Repr

def Seen.ofEntry? : Snapshot.Entry → Option Seen
  | .heard name event => some (.callback name event)
  | .did _ _ => none

end Session

open Session Snapshot in
structure Session where
  kv : Context
  maintenance : Context
  server : Server
  /-- The most bytes of one piece of a snapshot. -/
  chunkSize : Nat
  /-- How long what is sent from now on is put off. -/
  latency : Nat := 0
  now : Nat := 0
  /-- The failures that the next requests and snapshots meet. -/
  failures : List Status := []
  queue : List Queued := []
  calls : List Submitted := []
  /-- The calls that the caller keeps, by the names it has for them, the latest first. -/
  held : List (Int × Nat) := []
  watch : Watch := {}
  observers : List Observer := []
  sent : List Sent := []
  seen : List Seen := []
  /-- The contexts of the clients that were started beside the first. -/
  further : List Context := []
  continuations : List Continuation := []

namespace Session

/-- A session of a new client, whose contexts have the given text at the start of their names. A
piece of a snapshot has at least one byte. -/
def new (threadPrefix : String) (server : Server) (chunkSize : Nat) : Session where
  kv := { name := threadPrefix ++ "-kv" }
  maintenance := { name := threadPrefix ++ "-maintenance" }
  server
  chunkSize := max chunkSize 1

def context (s : Session) : Side → Context
  | .kv => s.kv
  | .maintenance => s.maintenance
  | .further client => s.further.getD client { name := "", running := false }

def store? (s : Session) : Option Store :=
  match s.server with
  | .memory store => some store
  | .script _ => none

def call? (s : Session) (i : Nat) : Option (Call Response Reply) :=
  s.calls[i]?.map Submitted.call

def onCall (s : Session) (i : Nat)
    (f : Call Response Reply → Call Response Reply) : Session :=
  { s with calls := s.calls.modify i fun c => { c with call := f c.call } }

def side? (s : Session) (i : Nat) : Option Side :=
  s.calls[i]?.bind Submitted.side

def contextOf (s : Session) (i : Nat) : Context :=
  s.context ((s.side? i).getD .kv)

/-- What the caller of the call at a place would be given now. -/
def ready? (s : Session) (i : Nat) : Option (Outcome Reply) :=
  (s.call? i).bind Call.ready?

def resume (s : Session) : Session :=
  { s with continuations := s.continuations.map fun k =>
      (s.ready? k.call).elim k fun outcome => k.tell outcome .context }

/-- Whether the receiver of a snapshot asked for its end. -/
def isOver (s : Session) : Listener → Bool
  | .slot i => s.watch.slot.streams[i]?.any fun o => o.stream.isOver
  | .observer i => s.observers[i]?.any fun o => o.stream.isOver

def enqueue (s : Session) (job : Job) : Session :=
  { s with queue := s.queue ++ [{ due := s.now + s.latency, delayed := s.latency ≠ 0, job }] }

def unanswered (request : Request) : Status where
  code := .unimplemented
  message := request.method

/-- Sends the request of the call at a place. The failure or the answer that is next is taken
now. -/
def submit (s : Session) (call : Nat) (request : Request) : Session :=
  let s := { s with sent := s.sent ++ [Sent.request request] }
  match s.server, s.failures with
  | .memory _, [] => s.enqueue (.answer call request none)
  | .memory _, failure :: failures =>
      { s with failures }.enqueue (.answer call request (some (.error failure)))
  | .script [], _ => s.enqueue (.answer call request (some (.error (unanswered request))))
  | .script (answer :: answers), _ =>
      { s with server := .script answers }.enqueue (.answer call request (some (answer request)))

/-- Asks for a snapshot. A script sends none. -/
def ask (s : Session) (listener : Listener) : Session :=
  let s := { s with sent := s.sent ++ [Sent.snapshot] }
  match s.server with
  | .memory _ =>
      { s with failures := s.failures.tail }.enqueue (.feed listener s.failures.head? none)
  | .script _ => s

/-- Changes the slot. What was seen meanwhile is noted, and a snapshot is asked for with every
stream that was opened. -/
def onWatch (s : Session) (f : Snapshot.Watch → Snapshot.Watch) : Session :=
  let w := f s.watch
  let seen := w.log.filterMap Seen.ofEntry?
  let before := s.watch.slot.streams.length
  let opened := (List.range w.slot.streams.length).drop before
  opened.foldl (fun s i => s.ask (.slot i)) { s with watch := { w with log := [] },
                                                      seen := s.seen ++ seen }

end Session

end Keyspace
