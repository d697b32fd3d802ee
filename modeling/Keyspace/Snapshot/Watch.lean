import Keyspace.Snapshot.Slot

namespace Keyspace.Snapshot

inductive Act
  /-- Installs the callback of the given index. -/
  | attach (callback : Nat)
  | detach
  | state
  | debug
  /-- The stream of the given index sends something. -/
  | send (stream : Nat) (signal : Signal)
  /-- Lets go of the slot. -/
  | drop
  deriving DecidableEq, Inhabited, Repr

/-- What an act tells the one who did it. -/
inductive Answer
  | nothing
  | flag (value : Bool)
  | state (isOpen : Bool) (generation : Option Nat)
  | text (value : String)
  | noStream
  deriving DecidableEq, Inhabited, Repr

/-- A callback, with what it does at each chunk, each failure and each completion in turn. -/
structure Callback where
  name : String
  atChunk : List (List Act) := []
  atFailure : List (List Act) := []
  atCompletion : List (List Act) := []
  /-- Whether the callback hears of completions at all. -/
  hearsCompletion : Bool := true
  deriving DecidableEq, Inhabited, Repr

/-- What was seen, in order: what callbacks heard, and what acts of theirs told them. -/
inductive Entry
  | heard (callback : String) (event : Event)
  | did (act : Act) (answer : Answer)
  deriving DecidableEq, Inhabited, Repr

/-- What a callback does at the next event of a kind, and the callback after it. -/
def Callback.hear (c : Callback) : Event → Callback × List Act
  | .chunk _ => ({ c with atChunk := c.atChunk.tail }, c.atChunk.headD [])
  | .failed _ => ({ c with atFailure := c.atFailure.tail }, c.atFailure.headD [])
  | .completed =>
      if c.hearsCompletion then
        ({ c with atCompletion := c.atCompletion.tail }, c.atCompletion.headD [])
      else (c, [])

def Callback.notices (c : Callback) (event : Event) : Bool :=
  c.hearsCompletion || event ≠ .completed

structure Watch where
  slot : Slot Nat := {}
  /-- Nobody can reach the slot any more but the streams it opened. -/
  dropped : Bool := false
  callbacks : List Callback := []
  /-- What happens while each stream is being opened. -/
  atOpening : List (List Act) := []
  log : List Entry := []
  deriving Inhabited

namespace Watch

/-- A callback hears of an event: it is noted, and what the callback does at it is given. -/
def hear (w : Watch) (callback : Nat) (event : Event) : Watch × List Act :=
  match w.callbacks[callback]? with
  | none => (w, [])
  | some c =>
      let (changed, acts) := c.hear event
      let log := if c.notices event then w.log ++ [.heard c.name event] else w.log
      ({ w with callbacks := w.callbacks.set callback changed, log }, acts)

/-- Does one act. What it sets off is given, and is to be done before anything else. -/
def perform (w : Watch) : Act → Watch × Answer × List Act
  | .attach callback =>
      if w.dropped then (w, .nothing, [])
      else
        let (slot, opens) := w.slot.attach callback
        if opens then
          ({ w with slot, atOpening := w.atOpening.tail }, .nothing, w.atOpening.headD [])
        else ({ w with slot }, .nothing, [])
  | .detach =>
      if w.dropped then (w, .nothing, [])
      else
        let (slot, wasOpen) := w.slot.detach
        ({ w with slot }, .flag wasOpen, [])
  | .state =>
      (w, if w.dropped then .nothing else .state w.slot.isOpen w.slot.generation?, [])
  | .debug => (w, if w.dropped then .nothing else .text w.slot.shown, [])
  | .send stream signal =>
      match w.slot.streams[stream]? with
      | none => (w, .noStream, [])
      | some opened =>
          let (slot, listener) := w.slot.receive opened.generation signal
          match listener with
          | none => ({ w with slot }, .nothing, [])
          | some callback =>
              let (w, acts) := { w with slot }.hear callback signal.event
              (w, .nothing, acts)
  | .drop => ({ w with dropped := true }, .nothing, [])

/-- What is still to come: acts to be done, and acts that are done and are noted once all is done
that they set off. -/
inductive Item
  | todo (act : Act)
  | done (act : Act) (answer : Answer)

/-- Works through what is to come, for at most so many items. -/
def run : (items : Nat) → List Item → Watch → Watch
  | 0, _, w => w
  | _, [], w => w
  | items + 1, .done act answer :: agenda, w =>
      run items agenda { w with log := w.log ++ [.did act answer] }
  | items + 1, .todo act :: agenda, w =>
      let (w, answer, acts) := w.perform act
      run items (acts.map .todo ++ .done act answer :: agenda) w

def lengths (scripts : List (List Act)) : Nat :=
  scripts.foldr (fun acts n => acts.length + n) 0

def scripted (w : Watch) : Nat :=
  lengths w.atOpening + w.callbacks.foldr (fun c n =>
    lengths c.atChunk + lengths c.atFailure + lengths c.atCompletion + n) 0

/-- Does one act from outside, with all that it sets off. Each of the acts laid down is done at
most once, and noted once. A slot that nobody can reach goes as soon as all is done. -/
def step (w : Watch) (act : Act) : Watch × Answer :=
  let (after, answer, acts) := w.perform act
  let after := after.run (2 * w.scripted) (acts.map .todo)
  (if after.dropped then { after with slot := after.slot.release } else after, answer)

def held (w : Watch) : List String :=
  (w.slot.callback?.bind fun callback => w.callbacks[callback]?).toList.map Callback.name

end Watch

end Keyspace.Snapshot
