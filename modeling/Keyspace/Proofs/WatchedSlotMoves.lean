import Keyspace.Proofs.EventRouting
import Keyspace.Snapshot.Watch

namespace Keyspace.Snapshot

def Entry.heard? : Entry → Option (String × Event)
  | heard callback event => some (callback, event)
  | did _ _ => none

theorem Callback.name_hear (c : Callback) (event : Event) : (c.hear event).1.name = c.name := by
  cases event with
  | completed => cases hc : c.hearsCompletion <;> simp [Callback.hear, hc]
  | _ => rfl

theorem Callback.notices_hear (c : Callback) (event : Event) :
    (c.hear event).1.notices = c.notices := by
  funext other
  cases event with
  | completed => cases hc : c.hearsCompletion <;> simp [Callback.hear, Callback.notices, hc]
  | _ => rfl

namespace Watch

variable {w w' : Watch} {moves more : List (Move Nat)}

def heard (w : Watch) : List (String × Event) :=
  w.log.filterMap Entry.heard?

def noted? (w : Watch) (d : Delivery Nat) : Option (String × Event) :=
  w.callbacks[d.callback]?.bind fun c =>
    if c.notices d.signal.event then some (c.name, d.signal.event) else none

/-- The move that an act makes, if it comes to the slot at all. -/
def move? (w : Watch) : Act → Option (Move Nat)
  | .attach callback => if w.dropped then none else some (.attach callback)
  | .detach => if w.dropped then none else some .detach
  | .send stream signal => w.slot.streams[stream]?.map fun o => .send o.generation signal
  | _ => none

def runMoves (w : Watch) : (items : Nat) → List Item → List (Move Nat)
  | 0, _ => []
  | _, [] => []
  | items + 1, .done act answer :: agenda =>
      ({ w with log := w.log ++ [.did act answer] } : Watch).runMoves items agenda
  | items + 1, .todo act :: agenda =>
      let (after, answer, acts) := w.perform act
      (w.move? act).toList ++ after.runMoves items (acts.map .todo ++ .done act answer :: agenda)

/-- After an act from outside and all that it sets off, but before a slot that nobody can reach
goes. -/
def settled (w : Watch) (act : Act) : Watch :=
  (w.perform act).1.run (2 * w.scripted) ((w.perform act).2.2.map .todo)

/-- The moves made by an act from outside and by all that it sets off. -/
def stepMoves (w : Watch) (act : Act) : List (Move Nat) :=
  (w.move? act).toList ++
    ((w.perform act).1.runMoves (2 * w.scripted) ((w.perform act).2.2.map .todo) ++
      if (w.settled act).dropped then [.drop] else [])

def steps (w : Watch) (acts : List Act) : Watch :=
  acts.foldl (fun w act => (w.step act).1) w

def course : Watch → List Act → List (Move Nat)
  | _, [] => []
  | w, act :: acts => w.stepMoves act ++ (w.step act).1.course acts

/-- The moves lead the slot from one state to another, and what is heard of them is what is noted
on the way. -/
structure Plays (w : Watch) (moves : List (Move Nat)) (w' : Watch) : Prop where
  slot : w'.slot = w.slot.play moves
  heard : ∀ place, w'.heard = w.heard ++ (w.slot.deliveriesFrom place moves).filterMap w.noted?
  noted : w'.noted? = w.noted?

theorem Plays.refl (w : Watch) : w.Plays [] w where
  slot := rfl
  heard _ := (List.append_nil _).symm
  noted := rfl

theorem Plays.trans {w'' : Watch} (h : w.Plays moves w') (h' : w'.Plays more w'') :
    w.Plays (moves ++ more) w'' := by
  constructor
  · rw [h'.slot, h.slot, Slot.play_append]
  · intro place
    rw [h'.heard (place + moves.length), h.heard place, h.slot, h.noted,
      Slot.deliveriesFrom_append, List.filterMap_append, List.append_assoc]
  · rw [h'.noted, h.noted]

theorem plays_of_silent {m : Move Nat} (hslot : w'.slot = w.slot.move m)
    (hsilent : ∀ place, w.slot.delivery? place m = none) (hheard : w'.heard = w.heard)
    (hnoted : w'.noted? = w.noted?) : w.Plays [m] w' where
  slot := hslot
  heard place := by
    simp [Slot.deliveriesFrom, hsilent, hheard]
  noted := hnoted

theorem slot_hear (w : Watch) (callback : Nat) (event : Event) :
    (w.hear callback event).1.slot = w.slot := by
  rw [hear]
  split <;> rfl

theorem heard_hear (w : Watch) (d : Delivery Nat) :
    (w.hear d.callback d.signal.event).1.heard = w.heard ++ [d].filterMap w.noted? := by
  rw [hear, List.filterMap_cons, noted?]
  cases hc : w.callbacks[d.callback]? with
  | none => simp
  | some c =>
      by_cases hnotices : c.notices d.signal.event = true <;>
        simp [heard, hnotices, Entry.heard?]

theorem noted?_hear (w : Watch) (callback : Nat) (event : Event) :
    (w.hear callback event).1.noted? = w.noted? := by
  funext d
  rw [hear]
  cases hc : w.callbacks[callback]? with
  | none => rfl
  | some c =>
      by_cases hd : callback = d.callback
      · subst hd
        have hset : (w.callbacks.set d.callback (c.hear event).1)[d.callback]? =
            some (c.hear event).1 :=
          List.getElem?_set_self (List.getElem?_eq_some_iff.mp hc).1
        simp only [noted?, hset, hc, Option.bind_some, c.name_hear, c.notices_hear]
      · simp only [noted?, List.getElem?_set_ne hd]

theorem plays_perform (w : Watch) (act : Act) :
    w.Plays (w.move? act).toList (w.perform act).1 := by
  cases act with
  | attach callback =>
      rw [perform, move?]
      split
      · exact .refl w
      · simp only
        split <;> exact plays_of_silent rfl (fun _ => rfl) rfl rfl
  | detach =>
      rw [perform, move?]
      split
      · exact .refl w
      · exact plays_of_silent rfl (fun _ => rfl) rfl rfl
  | send stream signal =>
      rw [perform, move?]
      cases hstream : w.slot.streams[stream]? with
      | none => exact .refl w
      | some o =>
          rw [Option.map_some]
          simp only
          split
          · rename_i hnobody
            refine plays_of_silent rfl (fun place => ?_) rfl rfl
            rw [Slot.delivery?, hnobody, Option.map_none]
          · rename_i callback hcallback
            constructor
            · exact slot_hear _ callback signal.event
            · intro place
              simp only [Option.toList_some, Slot.deliveriesFrom, Slot.delivery?, hcallback,
                Option.map_some, List.append_nil]
              exact heard_hear _ { place, generation := o.generation, signal, callback }
            · exact noted?_hear _ callback signal.event
  | state => exact .refl w
  | debug => exact .refl w
  | drop => exact ⟨rfl, fun _ => (List.append_nil _).symm, rfl⟩

theorem plays_run (w : Watch) (items : Nat) (agenda : List Item) :
    w.Plays (w.runMoves items agenda) (w.run items agenda) := by
  induction items generalizing agenda w with
  | zero => exact .refl w
  | succ items ih =>
      cases agenda with
      | nil => exact .refl w
      | cons item agenda =>
          cases item with
          | todo act =>
              -- What the act sets off stands first in the agenda that is left.
              rw [run, runMoves]
              exact (w.plays_perform act).trans (ih _ _)
          | done act answer =>
              rw [run, runMoves]
              have hnoted : w.Plays [] { w with log := w.log ++ [.did act answer] } := by
                refine ⟨rfl, fun _ => ?_, rfl⟩
                simp [heard, Entry.heard?, Slot.deliveriesFrom]
              exact hnoted.trans (ih _ _)

theorem fst_step (w : Watch) (act : Act) :
    (w.step act).1 =
      if (w.settled act).dropped then { w.settled act with slot := (w.settled act).slot.release }
      else w.settled act :=
  rfl

theorem plays_step (w : Watch) (act : Act) : w.Plays (w.stepMoves act) (w.step act).1 := by
  refine (w.plays_perform act).trans ((plays_run _ _ _).trans ?_)
  rw [fst_step, ← settled]
  split
  · exact plays_of_silent rfl (fun _ => rfl) rfl rfl
  · exact .refl _

theorem plays_steps (w : Watch) (acts : List Act) : w.Plays (w.course acts) (w.steps acts) := by
  induction acts generalizing w with
  | nil => exact .refl w
  | cons act acts ih => exact (w.plays_step act).trans (ih _)

def Item.weight : Item → Nat
  | .todo _ => 2
  | .done _ _ => 1

/-- A bound on how many items are worked through. -/
def potential (w : Watch) (agenda : List Item) : Nat :=
  agenda.foldr (fun item n => item.weight + n) 0 + 2 * w.scripted

def scriptedOf (c : Callback) : Nat :=
  lengths c.atChunk + lengths c.atFailure + lengths c.atCompletion

theorem scripted_eq (w : Watch) :
    w.scripted = lengths w.atOpening + w.callbacks.foldr (fun c n => scriptedOf c + n) 0 :=
  rfl

theorem lengths_tail_add (scripts : List (List Act)) :
    lengths scripts.tail + (scripts.headD []).length = lengths scripts := by
  cases scripts with
  | nil => rfl
  | cons acts scripts => exact Nat.add_comm _ _

theorem scriptedOf_hear (c : Callback) (event : Event) :
    scriptedOf (c.hear event).1 + (c.hear event).2.length = scriptedOf c := by
  have hchunk := lengths_tail_add c.atChunk
  have hfailure := lengths_tail_add c.atFailure
  have hcompletion := lengths_tail_add c.atCompletion
  cases event with
  | chunk _ =>
      simp only [Callback.hear, scriptedOf]
      omega
  | failed _ =>
      simp only [Callback.hear, scriptedOf]
      omega
  | completed =>
      simp only [Callback.hear]
      split
      · simp only [scriptedOf]
        omega
      · rfl

theorem foldr_scripted_set {callbacks : List Callback} {i : Nat} {c : Callback}
    (hc : callbacks[i]? = some c) (changed : Callback) :
    (callbacks.set i changed).foldr (fun c n => scriptedOf c + n) 0 + scriptedOf c =
      callbacks.foldr (fun c n => scriptedOf c + n) 0 + scriptedOf changed := by
  induction callbacks generalizing i with
  | nil => simp at hc
  | cons first callbacks ih =>
      cases i with
      | zero =>
          obtain rfl : first = c := Option.some.inj hc
          simp only [List.set_cons_zero, List.foldr_cons]
          omega
      | succ i =>
          have hrest := ih hc
          simp only [List.set_cons_succ, List.foldr_cons]
          omega

theorem scripted_hear (w : Watch) (callback : Nat) (event : Event) :
    (w.hear callback event).1.scripted + (w.hear callback event).2.length = w.scripted := by
  rw [hear]
  cases hc : w.callbacks[callback]? with
  | none => rfl
  | some c =>
      have hset := foldr_scripted_set hc (c.hear event).1
      have hone := scriptedOf_hear c event
      rw [scripted_eq, scripted_eq]
      simp only
      omega

theorem scripted_perform (w : Watch) (act : Act) :
    (w.perform act).1.scripted + (w.perform act).2.2.length = w.scripted := by
  have hopening := lengths_tail_add w.atOpening
  cases act with
  | attach callback =>
      rw [perform]
      split
      · rfl
      · simp only
        split
        · simp only [scripted]
          omega
        · rfl
  | detach =>
      rw [perform]
      split <;> rfl
  | send stream signal =>
      rw [perform]
      split
      · rfl
      · simp only
        split
        · rfl
        · exact scripted_hear _ _ _
  | _ => rfl

theorem potential_todos (w : Watch) (acts : List Act) (agenda : List Item) :
    w.potential (acts.map .todo ++ agenda) = 2 * acts.length + w.potential agenda := by
  induction acts with
  | nil => simp
  | cons act acts ih =>
      simp only [potential, List.map_cons, List.cons_append, List.foldr_cons, Item.weight,
        List.length_cons] at ih ⊢
      omega

theorem potential_perform (w : Watch) (act : Act) (agenda : List Item) :
    (w.perform act).1.potential ((w.perform act).2.2.map .todo ++ agenda) =
      w.potential agenda := by
  have hscripted := w.scripted_perform act
  rw [potential_todos, potential, potential]
  omega

theorem run_add_of_potential_le {w : Watch} {agenda : List Item} {items : Nat}
    (hitems : w.potential agenda ≤ items) (more : Nat) :
    w.run (items + more) agenda = w.run items agenda := by
  induction items generalizing w agenda with
  | zero =>
      cases agenda with
      | nil => cases more <;> rfl
      | cons item agenda => cases item <;> simp [potential, Item.weight] at hitems
  | succ items ih =>
      rw [Nat.add_right_comm]
      cases agenda with
      | nil => rfl
      | cons item agenda =>
          -- An act that is done gives its unit to the note of it, and the acts that it sets off
          -- bring the units that they had while they were laid down.
          have hstep : ∀ (v : Watch) next, v.potential next + 1 ≤ w.potential (item :: agenda) →
              v.run (items + more) next = v.run items next := by
            intro v next hnext
            exact ih (by omega)
          cases item with
          | todo act =>
              refine hstep (w.perform act).1
                ((w.perform act).2.2.map .todo ++ .done act (w.perform act).2.1 :: agenda) ?_
              rw [potential_perform]
              simp only [potential, List.foldr_cons, Item.weight]
              omega
          | done act answer =>
              refine hstep { w with log := w.log ++ [.did act answer] } agenda ?_
              simp only [potential, List.foldr_cons, Item.weight, scripted]
              omega

/-- All that callbacks are to do at what an act sets off is done before the next act. -/
theorem run_eq_settled (w : Watch) (act : Act) (more : Nat) :
    (w.perform act).1.run (2 * w.scripted + more) ((w.perform act).2.2.map .todo) =
      w.settled act := by
  have hpotential : (w.perform act).1.potential ((w.perform act).2.2.map .todo) =
      2 * w.scripted := by
    have hperform := w.potential_perform act []
    rw [List.append_nil] at hperform
    rw [hperform, potential, List.foldr_nil, Nat.zero_add]
  exact run_add_of_potential_le (Nat.le_of_eq hpotential) more

theorem slot_steps (callbacks : List Callback) (atOpening : List (List Act)) (acts : List Act) :
    let w : Watch := { callbacks, atOpening }
    (w.steps acts).slot = Slot.after (w.course acts) := by
  intro w
  rw [(w.plays_steps acts).slot]
  rfl

/-- Whatever callbacks do to the slot when they hear of something, each thing that is sent is
routed once. All that they are to do is done, and what they hear is what was routed to them. -/
theorem routed_once (callbacks : List Callback) (atOpening : List (List Act)) (acts : List Act) :
    let w : Watch := { callbacks, atOpening }
    Slot.Routed (w.course acts) ∧
      (w.steps acts).slot = Slot.after (w.course acts) ∧
      (w.steps acts).heard = (Slot.deliveries (w.course acts)).filterMap w.noted? ∧
      ∀ act more, ((w.steps acts).perform act).1.run (2 * (w.steps acts).scripted + more)
        (((w.steps acts).perform act).2.2.map .todo) = (w.steps acts).settled act := by
  intro w
  refine ⟨Slot.routed _, slot_steps callbacks atOpening acts, ?_, run_eq_settled _⟩
  have hheard := (w.plays_steps acts).heard 0
  exact hheard

/-- A callback that ends its stream and installs another one when it hears of a chunk hears of no
other, and the other one hears of the new stream alone. -/
theorem routed_once_of_replaced_callback :
    let first : Callback := { name := "first", atChunk := [[.detach, .attach 1]] }
    let w : Watch := { callbacks := [first, { name := "second" }] }
    let acts := [.attach 0, .send 0 (.next {}), .send 0 (.next {}), .send 1 .completed]
    w.course acts = [.attach 0, .send 1 (.next {}), .detach, .attach 1, .send 1 (.next {}),
        .send 2 .completed] ∧
      Slot.Routed (w.course acts) ∧
      (w.steps acts).heard = [("first", (Signal.next {}).event), ("second", .completed)] := by
  intro first w acts
  obtain ⟨hrouted, -, hheard, -⟩ := routed_once [first, { name := "second" }] [] acts
  refine ⟨by decide +kernel, hrouted, hheard.trans (by decide +kernel)⟩

/-- Whatever callbacks do to the slot when they hear of something, and whatever happens while a
stream is being opened, no stream is lost sight of and no two are open at once. -/
theorem streams_tracked (callbacks : List Callback) (atOpening : List (List Act))
    (acts : List Act) :
    let w : Watch := { callbacks, atOpening }
    Slot.Tracked (w.course acts) ∧ (w.steps acts).slot = Slot.after (w.course acts) := by
  intro w
  exact ⟨Slot.tracked _, slot_steps callbacks atOpening acts⟩

/-- A stream is over after the slot was detached, after it failed, when a callback detached the slot
at a chunk, and after the slot was dropped. -/
theorem streams_tracked_of_each_ending :
    let w : Watch := { callbacks := [{ name := "callback", atChunk := [[.detach]] }] }
    let acts := [.attach 0, .detach, .attach 0,
      .send 1 (.error { code := .aborted, message := "" }), .attach 0, .send 2 (.next {}),
      .attach 0, .drop]
    Slot.Tracked (w.course acts) ∧
      (w.steps acts).slot.streams.map (fun o => (o.generation, o.stream.isOver)) =
        [(1, true), (2, true), (3, true), (4, true)] := by
  intro w acts
  obtain ⟨htracked, -⟩ := streams_tracked [{ name := "callback", atChunk := [[.detach]] }] [] acts
  exact ⟨htracked, by decide +kernel⟩

end Watch

end Keyspace.Snapshot
