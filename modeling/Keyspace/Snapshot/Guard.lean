import Keyspace.Snapshot.Watch

namespace Keyspace.Snapshot

inductive Borrow
  | shared
  | exclusive
  deriving DecidableEq, Inhabited, Repr

/-- By whom the state is taken at the moment. -/
structure Cell where
  shared : Nat := 0
  exclusive : Bool := false
  deriving DecidableEq, Inhabited, Repr

namespace Cell

/-- Takes the state, unless it is taken in a way that excludes it. -/
def take? (c : Cell) : Borrow → Option Cell
  | .shared => if c.exclusive then none else some { c with shared := c.shared + 1 }
  | .exclusive =>
      if c.exclusive || 0 < c.shared then none else some { c with exclusive := true }

def giveBack (c : Cell) : Borrow → Cell
  | .shared => { c with shared := c.shared - 1 }
  | .exclusive => { c with exclusive := false }

end Cell

/-- A stream that sends its last is let go of, and for that the state is changed. -/
def Signal.borrow (signal : Signal) : Borrow :=
  if signal.isLast then .exclusive else .shared

/-- The parts in which an act is carried out, and what it sets off. -/
inductive Piece
  /-- The act begins, by taking the state if it needs it. -/
  | call (act : Act)
  | giveBack (borrow : Borrow)
  /-- A callback is told of an event. -/
  | tell (callback : Nat) (event : Event)
  /-- A stream is opened. -/
  | opening
  | done (act : Act) (answer : Answer)
  deriving DecidableEq, Inhabited, Repr

/-- What an act does with the state in hand. -/
structure Touch where
  watch : Watch
  /-- How the state was taken, if it was. -/
  borrow : Option Borrow := none
  answer : Answer := .nothing
  /-- What is to be done once the state is given back. -/
  next : List Piece := []
  deriving Inhabited

namespace Watch

def touch (w : Watch) : Act → Touch
  | .attach callback =>
      if w.dropped then { watch := w }
      else
        let (slot, opens) := w.slot.attach callback
        { watch := { w with slot }, borrow := some .exclusive,
          next := if opens then [.opening] else [] }
  | .detach =>
      if w.dropped then { watch := w }
      else
        let (slot, wasOpen) := w.slot.detach
        { watch := { w with slot }, borrow := some .exclusive, answer := .flag wasOpen }
  | .state =>
      if w.dropped then { watch := w }
      else
        { watch := w, borrow := some .shared,
          answer := .state w.slot.isOpen w.slot.generation? }
  | .debug =>
      if w.dropped then { watch := w }
      else { watch := w, borrow := some .shared, answer := .text w.slot.shown }
  | .send stream signal =>
      match w.slot.streams[stream]? with
      | none => { watch := w, answer := .noStream }
      | some opened =>
          let (slot, listener) := w.slot.receive opened.generation signal
          { watch := { w with slot }, borrow := some signal.borrow,
            next := listener.toList.map fun callback => .tell callback signal.event }
  | .drop => { watch := { w with dropped := true } }

end Watch

structure Guarded where
  cell : Cell := {}
  /-- What is still to be done, in order. -/
  pieces : List Piece
  watch : Watch
  deriving Inhabited

namespace Guarded

/-- Does the next piece. There is nothing after it if the state is found taken. -/
def next? (g : Guarded) : Option Guarded :=
  match g.pieces with
  | [] => some g
  | .call act :: rest =>
      let t := g.watch.touch act
      let later := t.next ++ .done act t.answer :: rest
      match t.borrow with
      | none => some { g with pieces := later, watch := t.watch }
      | some borrow =>
          match g.cell.take? borrow with
          | none => none
          | some cell => some { cell, pieces := .giveBack borrow :: later, watch := t.watch }
  | .giveBack borrow :: rest => some { g with cell := g.cell.giveBack borrow, pieces := rest }
  | .tell callback event :: rest =>
      let (watch, acts) := g.watch.hear callback event
      some { g with pieces := acts.map .call ++ rest, watch }
  | .opening :: rest =>
      some { g with
        pieces := (g.watch.atOpening.headD []).map .call ++ rest
        watch := { g.watch with atOpening := g.watch.atOpening.tail } }
  | .done act answer :: rest =>
      some { g with
        pieces := rest
        watch := { g.watch with log := g.watch.log ++ [.did act answer] } }

/-- After so many pieces. -/
def after : Nat → Guarded → Option Guarded
  | 0, g => some g
  | n + 1, g => g.next?.bind (after n)

def start (w : Watch) (act : Act) : Guarded where
  pieces := [.call act]
  watch := w

end Guarded

end Keyspace.Snapshot
