import Keyspace.Session.Basic

namespace Keyspace.Session

open Snapshot

def endingOf : Except Status Response → Ending Response
  | .ok response => .value response
  | .error status => .refused status

/-- Answers the request of the call at a place. A task that is to be aborted asks nothing of the
server. -/
def answer (s : Session) (i : Nat) (request : Request) (given : Option (Except Status Response)) :
    Session :=
  let finish (s : Session) (own : Option (Ending Response)) : Session :=
    s.onCall i fun c => c.onTask fun t => t.run own
  if (s.call? i).any fun c => c.task.any Call.Task.aborting then finish s none
  else
    match given, s.server with
    | some answer, _ => finish s (some (endingOf answer))
    | none, .memory store =>
        let (store, answer) := store.serve request
        finish { s with server := .memory store }
          (some (endingOf (answer.mapError Refusal.status)))
    | none, .script _ => s

/-- An observer hears of a signal, and may ask for the end of its stream. -/
def Observer.hear (o : Observer) (signal : Signal) : Observer :=
  match signal with
  | .next _ =>
      let o := { o with chunks := o.chunks + 1 }
      if o.stopAfter = some o.chunks then
        { o with stream := if o.byDrop then o.stream.drop else o.stream.complete }
      else o
  | _ => o

def hear (s : Session) (listener : Listener) (signal : Signal) : Session :=
  match listener with
  | .slot i => s.onWatch fun w => (w.step (.send i signal)).1
  | .observer i =>
      { s with observers := s.observers.modify i fun o => o.hear signal,
               seen := s.seen ++ [.observer signal] }

/-- What is sent next of a snapshot, with what is left of it. The content is that of the store when
the first piece is sent. -/
def next? (s : Session) (listener : Listener) (failure : Option Status) (feed : Option Feed) :
    Option (Signal × Option Feed) :=
  match failure with
  | some status => some (.error status, none)
  | none =>
      (feed.or (s.store?.map Feed.ofStore)).bind fun feed =>
        feed.send s.chunkSize (s.isOver listener)

/-- Sends the next piece of a snapshot, and gives the job that is left. -/
def send (s : Session) (listener : Listener) (failure : Option Status) (feed : Option Feed) :
    Session × Option Job :=
  match s.next? listener failure feed with
  | none => (s, none)
  | some (signal, rest) =>
      (s.hear listener signal, rest.map fun feed => .feed listener none (some feed))

/-- Runs a job that can run, and gives what is left of it. While it is put off, a task can be
aborted and a snapshot can be stopped. -/
def runJob (s : Session) (q : Queued) : Session × Option Queued :=
  match q.job with
  | .answer i request given =>
      if s.now < q.due ∧ !(s.call? i).any (fun c => c.task.any Call.Task.aborting) then (s, some q)
      else (s.answer i request given, none)
  | .feed listener failure feed =>
      if q.delayed ∧ s.isOver listener then (s, none)
      else if s.now < q.due then (s, some q)
      else
        let (s, left) := s.send listener failure feed
        (s, left.map fun job => { q with job })

def runJobs (s : Session) : List Queued → Session × List Queued
  | [] => (s, [])
  | q :: jobs =>
      let (s, more) := s.runJob q
      let (s, left) := s.runJobs jobs
      (s, more.toList ++ left)

/-- Runs every job of the queue once, then those that were added meanwhile, and so on, for at most
so many rounds. What is left of them is given. -/
def rounds : Nat → Session → Session × List Queued
  | 0, s => (s, [])
  | n + 1, s =>
      let (s, left) := { s with queue := [] }.runJobs s.queue
      let (s, more) := rounds n s
      (s, left ++ more)

/-- Runs every job once. Jobs are added meanwhile only by what callbacks are to do. Of the jobs
that go on, the one that ran last is the next to run. -/
def pass (s : Session) : Session :=
  let (s, left) := rounds (s.watch.scripted + 1) s
  let (goOn, asleep) := left.partition fun q => q.due ≤ s.now
  { s with queue := goOn.reverse ++ asleep ++ s.queue }

def passes : Nat → Session → Session
  | 0, s => s
  | n + 1, s => if s.queue.any fun q => q.due ≤ s.now then passes n s.pass else s

/-- The most bytes that one of the snapshots has that are sent or may be asked for. -/
def longest (s : Session) : Nat :=
  s.queue.foldl
    (fun n q =>
      match q.job with
      | .feed _ _ (some feed) => max n feed.content.length
      | _ => n)
    (s.store?.elim 0 fun store => (Feed.ofStore store).content.length)

/-- As many passes as can be needed. Each request is answered in the first. Each snapshot that is
sent then, or asked for by a callback, sends at least one byte in each but its last two. -/
def runAll (s : Session) : Session :=
  let s := s.pass
  passes ((s.queue.length + s.watch.scripted) * (s.longest + 2)) s

/-- Lets the contexts that have not stopped deliver what has come. -/
def deliver (s : Session) : Session :=
  let calls := s.calls.map fun c =>
    if c.side.any fun side => (s.context side).running then { c with call := c.call.deliver }
    else c
  { s with calls }.resume

def advance (s : Session) (due : Nat) : Session :=
  { s with now := max s.now due, queue := s.queue.mergeSort fun a b => a.due ≤ b.due }

/-- When the current snapshot of the slot can run, if it is waited for. -/
def feedDue? (s : Session) : Option Nat :=
  if s.latency = 0 ∧ s.watch.slot.isOpen then
    (s.queue.find? fun q =>
      match q.job with
      | .feed (.slot i) _ _ => !s.isOver (.slot i)
      | _ => false).map Queued.due
  else none

def settle (s : Session) : Session :=
  let s :=
    match s.feedDue? with
    | some due => if s.now < due then s.advance due else s
    | none => s
  s.runAll.deliver

/-- Settles, and then waits for the jobs for which the test holds. -/
def settleFor (s : Session) (test : Job → Bool) : Session :=
  let s := s.settle
  match s.queue.find? fun q => test q.job with
  | some q => (s.advance q.due).settle
  | none => s

def settleCall (s : Session) (i : Nat) : Session :=
  if (s.call? i).any fun c => c.ready?.isSome then s.settle
  else
    s.settleFor fun job =>
      match job with
      | .answer j _ _ => i = j
      | _ => false

/-- Settles until an observer has heard all of its snapshot. -/
def settleObserver (s : Session) (i : Nat) : Session :=
  s.settleFor fun job =>
    match job with
    | .feed (.observer j) _ _ => i = j
    | _ => false

end Keyspace.Session
