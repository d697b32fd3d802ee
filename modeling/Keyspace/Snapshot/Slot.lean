import Keyspace.Result
import Keyspace.Stream

/-!
The slot of a client for snapshots: at most one stream that is current, and the one callback that
hears of it. Streams that were current before may still send; nobody hears of that.
-/

namespace Keyspace.Snapshot

/-- What a stream sends. -/
inductive Signal
  | next (piece : SnapshotResponse)
  | error (status : Status)
  | completed
  deriving DecidableEq, Inhabited, Repr

/-- What a callback hears. -/
inductive Event
  | chunk (piece : SnapshotResult)
  | failed (failure : Failure)
  | completed
  deriving DecidableEq, Inhabited, Repr

def Signal.event : Signal → Event
  | next piece => .chunk (.ofResponse piece)
  | error status => .failed (.streamTerminated status)
  | completed => .completed

def Signal.isLast : Signal → Bool
  | next _ => false
  | _ => true

/-- A stream that was opened, by its generation. -/
structure Opened where
  generation : Nat
  stream : Stream := {}
  deriving DecidableEq, Inhabited, Repr

/-- A slot for callbacks of type `κ`. -/
structure Slot (κ : Type) where
  /-- The generation that was given out last. -/
  generations : Nat := 0
  /-- The generation of the current stream, with the callback that hears of it. -/
  current : Option (Nat × κ) := none
  /-- All streams that were ever opened, in order. -/
  streams : List Opened := []
  deriving DecidableEq, Inhabited, Repr

namespace Slot

def isOpen (s : Slot κ) : Bool :=
  s.current.isSome

def generation? (s : Slot κ) : Option Nat :=
  s.current.map Prod.fst

def callback? (s : Slot κ) : Option κ :=
  s.current.map Prod.snd

def onStream (s : Slot κ) (generation : Nat) (f : Stream → Stream) : Slot κ :=
  { s with streams := s.streams.map fun o =>
      if o.generation = generation then { o with stream := f o.stream } else o }

/-- Installs a callback. The current stream goes on with it; without one a stream is opened, which
the flag tells. -/
def attach (s : Slot κ) (callback : κ) : Slot κ × Bool :=
  match s.current with
  | some (generation, _) => ({ s with current := some (generation, callback) }, false)
  | none =>
      let generation := s.generations + 1
      ({ generations := generation, current := some (generation, callback),
         streams := s.streams ++ [{ generation }] }, true)

/-- Ends the current stream, if there is one, which the flag tells. -/
def detach (s : Slot κ) : Slot κ × Bool :=
  match s.current with
  | some (generation, _) => ({ s with current := none }.onStream generation Stream.complete, true)
  | none => (s, false)

/-- The callback that hears of a stream: that of the slot, if the stream is the current one. -/
def listener? (s : Slot κ) (generation : Nat) : Option κ :=
  match s.current with
  | some (current, callback) => if current = generation then some callback else none
  | none => none

def release (s : Slot κ) : Slot κ :=
  match s.current with
  | some (generation, _) => { s with current := none }.onStream generation Stream.drop
  | none => s

/-- Takes what the stream of a generation sends. The callback that hears of it is given, with the
slot as the callback finds it: a stream that sends its last is not current any more. -/
def receive (s : Slot κ) (generation : Nat) (signal : Signal) : Slot κ × Option κ :=
  match s.listener? generation with
  | some callback => (if signal.isLast then s.release else s, some callback)
  | none => (s, none)

@[simp] theorem isOpen_attach (s : Slot κ) (callback : κ) :
    (s.attach callback).1.isOpen = true := by
  unfold attach
  split <;> rfl

@[simp] theorem attach_opens (s : Slot κ) (callback : κ) :
    (s.attach callback).2 = !s.isOpen := by
  cases h : s.current <;> simp [attach, isOpen, h]

@[simp] theorem isOpen_detach (s : Slot κ) : s.detach.1.isOpen = false := by
  cases h : s.current <;> simp [detach, isOpen, onStream, h]

@[simp] theorem detach_ended (s : Slot κ) : s.detach.2 = s.isOpen := by
  cases h : s.current <;> simp [detach, isOpen, h]

@[simp] theorem isOpen_release (s : Slot κ) : s.release.isOpen = false := by
  cases h : s.current <;> simp [release, isOpen, onStream, h]

def shown (s : Slot κ) : String :=
  let generation :=
    match s.generation? with
    | some generation => s!"Some({generation})"
    | none => "None"
  Text.shown "SnapshotSlot" [("generation", generation)]

end Slot

end Keyspace.Snapshot
