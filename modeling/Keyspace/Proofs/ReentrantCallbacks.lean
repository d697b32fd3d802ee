import Keyspace.Proofs.WatchedSlotMoves
import Keyspace.Snapshot.Guard

/-!
Callbacks that attach to the slot and detach from it while they are being told of something. It
comes to the same as if they did so right after, and they never find the state of the slot taken.
-/

namespace Keyspace.Snapshot

/-- The callback without what it does at the next event of a kind. -/
def Callback.quiet (c : Callback) : Event → Callback
  | .chunk _ => { c with atChunk := [] :: c.atChunk.tail }
  | .failed _ => { c with atFailure := [] :: c.atFailure.tail }
  | .completed =>
      if c.hearsCompletion then { c with atCompletion := [] :: c.atCompletion.tail } else c

theorem Callback.hear_quiet (c : Callback) (event : Event) :
    (c.quiet event).hear event = ((c.hear event).1, []) := by
  cases event with
  | completed => cases hc : c.hearsCompletion <;> simp [Callback.quiet, Callback.hear, hc]
  | _ => rfl

theorem Callback.notices_quiet (c : Callback) (event : Event) :
    (c.quiet event).notices = c.notices := by
  funext other
  cases event with
  | completed => cases hc : c.hearsCompletion <;> simp [Callback.quiet, Callback.notices, hc]
  | _ => rfl

theorem Callback.name_quiet (c : Callback) (event : Event) : (c.quiet event).name = c.name := by
  cases event with
  | completed => cases hc : c.hearsCompletion <;> simp [Callback.quiet, hc]
  | _ => rfl

/-- The act attaches a callback or detaches. -/
inductive Act.Rewires : Act → Prop
  | attach (callback : Nat) : Rewires (.attach callback)
  | detach : Rewires .detach

namespace Watch

variable {w : Watch}

/-- The watch in which a callback does nothing at the next event of a kind. -/
def quieted (w : Watch) (callback : Nat) (event : Event) : Watch :=
  match w.callbacks[callback]? with
  | none => w
  | some c => { w with callbacks := w.callbacks.set callback (c.quiet event) }

def note (w : Watch) (act : Act) (answer : Answer) : Watch :=
  { w with log := w.log ++ [.did act answer] }

/-- Acts from outside, one after the other, each of them noted. -/
def stepsNoted (w : Watch) (acts : List Act) : Watch :=
  acts.foldl (fun w act => (w.step act).1.note act (w.step act).2) w

def finish (w : Watch) (agenda : List Item) : Watch :=
  w.run (w.potential agenda) agenda

theorem potential_done (w : Watch) (act : Act) (answer : Answer) (agenda : List Item) :
    w.potential (.done act answer :: agenda) = (w.note act answer).potential agenda + 1 := by
  simp only [potential, List.foldr_cons, Item.weight, scripted, note]
  omega

theorem potential_todo (w : Watch) (act : Act) (agenda : List Item) :
    w.potential (.todo act :: agenda) =
      (w.perform act).1.potential
        ((w.perform act).2.2.map .todo ++ .done act (w.perform act).2.1 :: agenda) + 1 := by
  rw [potential_perform]
  simp only [potential, List.foldr_cons, Item.weight]
  omega

@[simp] theorem finish_nil (w : Watch) : w.finish [] = w := by
  rw [finish]
  cases w.potential [] <;> rfl

theorem finish_done (w : Watch) (act : Act) (answer : Answer) (agenda : List Item) :
    w.finish (.done act answer :: agenda) = (w.note act answer).finish agenda := by
  rw [finish, potential_done]
  rfl

theorem finish_todo (w : Watch) (act : Act) (agenda : List Item) :
    w.finish (.todo act :: agenda) =
      (w.perform act).1.finish
        ((w.perform act).2.2.map .todo ++ .done act (w.perform act).2.1 :: agenda) := by
  rw [finish, potential_todo]
  rfl

theorem finish_append (w : Watch) (agenda more : List Item) :
    w.finish (agenda ++ more) = (w.finish agenda).finish more := by
  -- Whatever an item leaves to be done instead of itself has less potential.
  induction hpotential : w.potential agenda using Nat.strongRecOn generalizing w agenda with
  | ind n ih =>
      cases agenda with
      | nil => rw [List.nil_append, finish_nil]
      | cons item agenda =>
          cases item with
          | todo act =>
              have hless := w.potential_todo act agenda
              rw [List.cons_append, finish_todo, finish_todo, ← List.cons_append,
                ← List.append_assoc]
              exact ih _ (by omega) _ _ rfl
          | done act answer =>
              have hless := w.potential_done act answer agenda
              rw [List.cons_append, finish_done, finish_done]
              exact ih _ (by omega) _ _ rfl

theorem settled_eq_finish (w : Watch) (act : Act) :
    w.settled act = (w.perform act).1.finish ((w.perform act).2.2.map .todo) := by
  have hpotential := w.potential_perform act []
  rw [List.append_nil] at hpotential
  rw [finish, hpotential, potential, List.foldr_nil, Nat.zero_add]
  rfl

theorem finish_todos (w : Watch) (acts : List Act) :
    w.finish (acts.map .todo) =
      acts.foldl (fun w act => (w.settled act).note act (w.perform act).2.1) w := by
  induction acts generalizing w with
  | nil => exact w.finish_nil
  | cons act acts ih =>
      rw [List.map_cons, List.foldl_cons, ← ih, finish_todo, finish_append, ← settled_eq_finish,
        finish_done]

def reap (w : Watch) : Watch :=
  if w.dropped then { w with slot := w.slot.release } else w

theorem fst_step_eq_reap (w : Watch) (act : Act) : (w.step act).1 = (w.settled act).reap := rfl

theorem snd_step (w : Watch) (act : Act) : (w.step act).2 = (w.perform act).2.1 := rfl

theorem reap_note (w : Watch) (act : Act) (answer : Answer) :
    (w.note act answer).reap = w.reap.note act answer := by
  cases hdropped : w.dropped <;> simp [reap, note, hdropped]

theorem reap_reap (w : Watch) : w.reap.reap = w.reap := by
  have hclosed : w.slot.release.current = none := by
    simpa [Slot.isOpen] using w.slot.isOpen_release
  have hrelease : w.slot.release.release = w.slot.release := by
    rw [Slot.release.eq_def w.slot.release, hclosed]
  cases hdropped : w.dropped with
  | false => simp [reap, hdropped]
  | true => simp [reap, hdropped, hrelease]

theorem dropped_reap (w : Watch) : w.reap.dropped = w.dropped := by
  rw [reap]
  split <;> rfl

theorem perform_of_dropped {act : Act} (hact : act.Rewires) (hdropped : w.dropped = true) :
    w.perform act = (w, .nothing, []) := by
  cases hact <;> rw [perform, if_pos hdropped]

theorem settled_of_dropped {act : Act} (hact : act.Rewires) (hdropped : w.dropped = true) :
    w.settled act = w := by
  rw [settled_eq_finish, perform_of_dropped hact hdropped]
  exact w.finish_nil

theorem step_reap {act : Act} (hact : act.Rewires) :
    (w.reap.step act).1.note act (w.reap.step act).2 =
      ((w.settled act).note act (w.perform act).2.1).reap := by
  rw [fst_step_eq_reap, snd_step, reap_note]
  cases hdropped : w.dropped with
  | false =>
      have hsame : w.reap = w := if_neg (by simp [hdropped])
      rw [hsame]
  | true =>
      have hdropped' : w.reap.dropped = true := w.dropped_reap.trans hdropped
      rw [settled_of_dropped hact hdropped, settled_of_dropped hact hdropped', reap_reap,
        perform_of_dropped hact hdropped, perform_of_dropped hact hdropped']

theorem stepsNoted_reap {acts : List Act} (hacts : ∀ act ∈ acts, act.Rewires) (w : Watch) :
    w.reap.stepsNoted acts = (w.finish (acts.map .todo)).reap := by
  rw [finish_todos]
  induction acts generalizing w with
  | nil => rfl
  | cons act acts ih =>
      obtain ⟨hact, hrest⟩ := List.forall_mem_cons.mp hacts
      rw [List.foldl_cons, ← ih hrest, ← step_reap hact]
      rfl

section Delivery

variable {callback : Nat} {o : Opened} {c : Callback} (stream : Nat) (signal : Signal)

theorem perform_send (w : Watch) (hopened : w.slot.streams[stream]? = some o)
    (hlistens : w.slot.listener? o.generation = some callback)
    (hc : w.callbacks[callback]? = some c) :
    w.perform (.send stream signal) =
      ({ w with
          slot := (w.slot.receive o.generation signal).1
          callbacks := w.callbacks.set callback (c.hear signal.event).1
          log := if c.notices signal.event then w.log ++ [.heard c.name signal.event] else w.log },
        .nothing, (c.hear signal.event).2) := by
  simp only [perform, hopened, Slot.receive, hlistens, hear, hc]

theorem perform_send_quieted (hopened : w.slot.streams[stream]? = some o)
    (hlistens : w.slot.listener? o.generation = some callback)
    (hc : w.callbacks[callback]? = some c) :
    (w.quieted callback signal.event).perform (.send stream signal) =
      ((w.perform (.send stream signal)).1, .nothing, []) := by
  have hquieted : w.quieted callback signal.event =
      { w with callbacks := w.callbacks.set callback (c.quiet signal.event) } := by
    simp only [quieted, hc]
  have hquiet : (w.callbacks.set callback (c.quiet signal.event))[callback]? =
      some (c.quiet signal.event) :=
    List.getElem?_set_self (List.getElem?_eq_some_iff.mp hc).1
  have hperform := (w.quieted callback signal.event).perform_send stream signal
    (by rw [hquieted]; exact hopened) (by rw [hquieted]; exact hlistens)
    (by rw [hquieted]; exact hquiet)
  rw [hquieted] at hperform ⊢
  rw [hperform, w.perform_send stream signal hopened hlistens hc, c.hear_quiet, c.notices_quiet,
    c.name_quiet, List.set_set]

/-- What a callback does to the slot comes to the same as if it were done right after. -/
theorem step_send_eq (hopened : w.slot.streams[stream]? = some o)
    (hlistens : w.slot.listener? o.generation = some callback)
    (hc : w.callbacks[callback]? = some c)
    (hbody : ∀ act ∈ (c.hear signal.event).2, act.Rewires) :
    (w.step (.send stream signal)).1 =
      ((w.quieted callback signal.event).step (.send stream signal)).1.stepsNoted
        (c.hear signal.event).2 := by
  have hquieted := perform_send_quieted stream signal hopened hlistens hc
  have hacts : (w.perform (.send stream signal)).2.2 = (c.hear signal.event).2 := by
    rw [w.perform_send stream signal hopened hlistens hc]
  rw [fst_step_eq_reap, fst_step_eq_reap, settled_eq_finish, settled_eq_finish, hquieted, hacts]
  simp only [List.map_nil, finish_nil]
  exact (stepsNoted_reap hbody _).symm

end Delivery

end Watch

def Watch.Item.piece : Watch.Item → Piece
  | todo act => .call act
  | done act answer => .done act answer

namespace Guarded

variable {g g' g'' : Guarded} {w : Watch}

theorem after_add (m n : Nat) (g : Guarded) : g.after (m + n) = (g.after m).bind (after n) := by
  induction m generalizing g with
  | zero => rw [Nat.zero_add]; rfl
  | succ m ih =>
      rw [Nat.succ_add, after, after]
      cases g.next? with
      | none => rfl
      | some g' => exact ih g'

/-- Some number of pieces leads from one to the other, and the state is not found taken. -/
def Reaches (g g' : Guarded) : Prop :=
  ∃ n, g.after n = some g'

theorem Reaches.refl (g : Guarded) : g.Reaches g := ⟨0, rfl⟩

theorem Reaches.trans (h : g.Reaches g') (h' : g'.Reaches g'') : g.Reaches g'' := by
  obtain ⟨m, hm⟩ := h
  obtain ⟨n, hn⟩ := h'
  exact ⟨m + n, by rw [after_add, hm]; exact hn⟩

theorem Reaches.of_next? (hnext : g.next? = some g') : g.Reaches g' :=
  ⟨1, by rw [after, hnext]; rfl⟩

theorem take?_giveBack (borrow : Borrow) :
    ∃ cell, ({} : Cell).take? borrow = some cell ∧ cell.giveBack borrow = {} := by
  cases borrow <;> exact ⟨_, rfl, rfl⟩

theorem reaches_touched (w : Watch) (act : Act) (rest : List Piece) :
    Reaches { pieces := .call act :: rest, watch := w }
      { pieces := (w.touch act).next ++ .done act (w.touch act).answer :: rest,
        watch := (w.touch act).watch } := by
  cases hborrow : (w.touch act).borrow with
  | none => exact .of_next? (by rw [next?]; simp only [hborrow])
  | some borrow =>
      obtain ⟨cell, htake, hback⟩ := take?_giveBack borrow
      have htaken : next? { pieces := .call act :: rest, watch := w } =
          some { cell, watch := (w.touch act).watch,
                 pieces := .giveBack borrow ::
                   ((w.touch act).next ++ .done act (w.touch act).answer :: rest) } := by
        rw [next?]
        simp only [hborrow, htake]
      refine (Reaches.of_next? htaken).trans (.of_next? ?_)
      rw [next?]
      simp only [hback]

/-- What an act does in parts is what it does at once, and the state is free for all that it sets
off. -/
theorem reaches_performed (w : Watch) (act : Act) (rest : List Piece) :
    Reaches { pieces := .call act :: rest, watch := w }
      { pieces := (w.perform act).2.2.map .call ++ .done act (w.perform act).2.1 :: rest,
        watch := (w.perform act).1 } := by
  refine (reaches_touched w act rest).trans ?_
  cases act with
  | attach callback =>
      rw [Watch.touch, Watch.perform]
      split
      · exact .refl _
      · simp only
        split
        · exact .of_next? rfl
        · exact .refl _
  | detach =>
      rw [Watch.touch, Watch.perform]
      split <;> exact .refl _
  | state =>
      rw [Watch.touch, Watch.perform]
      split <;> exact .refl _
  | debug =>
      rw [Watch.touch, Watch.perform]
      split <;> exact .refl _
  | send stream signal =>
      cases hstream : w.slot.streams[stream]? with
      | none =>
          simp only [Watch.touch, Watch.perform, hstream]
          exact .refl _
      | some o =>
          cases hlistener : (w.slot.receive o.generation signal).2 with
          | none =>
              simp only [Watch.touch, Watch.perform, hstream, hlistener]
              exact .refl _
          | some callback =>
              simp only [Watch.touch, Watch.perform, hstream, hlistener]
              exact .of_next? rfl
  | drop => exact .refl _

theorem reaches_finished (w : Watch) (agenda : List Watch.Item) :
    Reaches { pieces := agenda.map Watch.Item.piece, watch := w }
      { pieces := [], watch := w.finish agenda } := by
  induction hpotential : w.potential agenda using Nat.strongRecOn generalizing w agenda with
  | ind n ih =>
      cases agenda with
      | nil =>
          rw [Watch.finish_nil]
          exact .refl _
      | cons item agenda =>
          cases item with
          | todo act =>
              have hless := w.potential_todo act agenda
              have hrest := ih _ (by omega) (w.perform act).1
                ((w.perform act).2.2.map .todo ++ .done act (w.perform act).2.1 :: agenda) rfl
              rw [Watch.finish_todo]
              refine (reaches_performed w act (agenda.map Watch.Item.piece)).trans ?_
              rw [List.map_append, List.map_map] at hrest
              exact hrest
          | done act answer =>
              have hless := w.potential_done act answer agenda
              rw [Watch.finish_done]
              refine Reaches.trans (.of_next? rfl) (ih _ (by omega) (w.note act answer) agenda rfl)

theorem reaches_settled (w : Watch) (act : Act) :
    (start w act).Reaches
      { pieces := [], watch := (w.settled act).note act (w.step act).2 } := by
  have hfinished := reaches_finished w [.todo act]
  rw [Watch.finish_todo, Watch.finish_append, ← Watch.settled_eq_finish, Watch.finish_done,
    Watch.finish_nil] at hfinished
  exact hfinished

theorem after_of_done (hdone : g.pieces = []) (n : Nat) : g.after n = some g := by
  induction n with
  | zero => rfl
  | succ n ih =>
      have hnext : g.next? = some g := by
        rw [next?, hdone]
      rw [after, hnext, Option.bind_some, ih]

theorem after_ne_none (hreaches : g.Reaches g') (hdone : g'.pieces = []) (n : Nat) :
    g.after n ≠ none := by
  obtain ⟨m, hm⟩ := hreaches
  intro hnone
  have hboth : g.after (m + n) = some g' := by
    rw [after_add, hm]
    exact after_of_done hdone n
  rw [Nat.add_comm, after_add, hnone] at hboth
  cases hboth

end Guarded

namespace Watch

/-- Whatever is sent to a callback that then attaches to the slot and detaches from it, any number
of times: the slot and its streams, what is heard, what the calls are answered and all that follows
are as if the callback had done nothing and the calls had been made after it returned. None of the
calls finds the state of the slot taken. -/
theorem nested_calls_sequential (w : Watch) (stream callback : Nat) (signal : Signal) (o : Opened)
    (c : Callback) (hopened : w.slot.streams[stream]? = some o)
    (hlistens : w.slot.listener? o.generation = some callback)
    (hc : w.callbacks[callback]? = some c)
    (hbody : ∀ act ∈ (c.hear signal.event).2, act.Rewires) :
    (w.step (.send stream signal)).1 =
        ((w.quieted callback signal.event).step (.send stream signal)).1.stepsNoted
          (c.hear signal.event).2 ∧
      (w.step (.send stream signal)).2 =
        ((w.quieted callback signal.event).step (.send stream signal)).2 ∧
      (∀ n, (Guarded.start w (.send stream signal)).after n ≠ none) ∧
      (Guarded.start w (.send stream signal)).Reaches
        { pieces := [], watch := (w.settled (.send stream signal)).note (.send stream signal)
            (w.step (.send stream signal)).2 } := by
  have hreaches := Guarded.reaches_settled w (.send stream signal)
  refine ⟨step_send_eq stream signal hopened hlistens hc hbody, ?_,
    Guarded.after_ne_none hreaches rfl, hreaches⟩
  have hquieted := perform_send_quieted stream signal hopened hlistens hc
  have hperform := w.perform_send stream signal hopened hlistens hc
  rw [snd_step, snd_step, hquieted, hperform]

/-- A callback that at a chunk detaches and installs another one, for which a stream is opened, that
installs the other one when the stream has failed, and that detaches again when it is completed. -/
theorem nested_calls_sequential_of_each_event :
    let first : Callback :=
      { name := "first", atChunk := [[.detach, .attach 1]], atFailure := [[.attach 1]],
        atCompletion := [[.attach 1, .detach]] }
    let w := ({ callbacks := [first, { name := "second" }] } : Watch).steps [.attach 0]
    let failure : Signal := .error { code := .aborted, message := "" }
    ((w.step (.send 0 (.next {}))).1 =
        ((w.quieted 0 (Signal.next {}).event).step (.send 0 (.next {}))).1.stepsNoted
          [.detach, .attach 1] ∧
        (w.step (.send 0 (.next {}))).1.slot.generation? = some 2) ∧
      (w.step (.send 0 failure)).1 =
        ((w.quieted 0 failure.event).step (.send 0 failure)).1.stepsNoted [.attach 1] ∧
      (w.step (.send 0 .completed)).1 =
        ((w.quieted 0 .completed).step (.send 0 .completed)).1.stepsNoted [.attach 1, .detach] ∧
      ∀ signal n, (Guarded.start w (.send 0 signal)).after n ≠ none := by
  intro first w failure
  have hopened : w.slot.streams[0]? = some { generation := 1 } := by decide
  have hlistens : w.slot.listener? 1 = some 0 := by decide
  have hc : w.callbacks[0]? = some first := by decide
  have hattach : ∀ act ∈ [Act.attach 1], act.Rewires :=
    List.forall_mem_singleton.mpr (.attach 1)
  have hdetach : ∀ act ∈ [Act.detach], act.Rewires := List.forall_mem_singleton.mpr .detach
  have hbody : ∀ signal : Signal, ∀ act ∈ (first.hear signal.event).2, act.Rewires := by
    intro signal
    cases signal with
    | next piece => exact List.forall_mem_cons.mpr ⟨.detach, hattach⟩
    | error status => exact hattach
    | completed => exact List.forall_mem_cons.mpr ⟨.attach 1, hdetach⟩
  have hall := fun signal =>
    nested_calls_sequential w 0 0 signal _ first hopened hlistens hc (hbody signal)
  exact ⟨⟨(hall (.next {})).1, by decide +kernel⟩, (hall failure).1, (hall .completed).1,
    fun signal => (hall signal).2.2.1⟩

end Watch

end Keyspace.Snapshot
