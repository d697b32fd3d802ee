import Keyspace.Proofs.SettledRequests
import Keyspace.Proofs.ForeignSlotMoves
import Keyspace.Proofs.SnapshotPieces

/-!
A snapshot on its way through a slot. Its task is resumed at any time; in between the store answers
requests and anything is done to the slot. What callbacks hear of the stream is a copy of the store
as it was when the task was resumed first, and all of it if the slot stays with the stream.
-/

namespace Keyspace.Session

open Snapshot

/-- What can come next while the task of a snapshot lives. -/
inductive Turn
  /-- The store answers a request. -/
  | serve (request : Request)
  /-- Something is done to the slot, with all that it sets off. -/
  | act (act : Act)
  /-- The task goes on until it lets others go on. -/
  | resume
  deriving DecidableEq

def serve (s : Session) (request : Request) : Session :=
  match s.server with
  | .memory store => { s with server := .memory (store.serve request).1 }
  | .script _ => s

/-- A turn in a session with a task, of which a job is left while it lives. -/
def takeTurn (p : Session × Option Job) : Turn → Session × Option Job
  | .serve request => (p.1.serve request, p.2)
  | .act act => (p.1.onWatch fun w => (w.step act).1, p.2)
  | .resume =>
      match p.2 with
      | some (.feed listener failure feed) => p.1.send listener failure feed
      | _ => p

def takeTurns (p : Session × Option Job) (turns : List Turn) : Session × Option Job :=
  turns.foldl takeTurn p

/-- What is done to the slot in a turn: the task sends what is next in the name of its stream. -/
def turnAct? (p : Session × Option Job) : Turn → Option Act
  | .serve _ => none
  | .act act => some act
  | .resume =>
      match p.2 with
      | some (.feed (.slot i) failure feed) =>
          (p.1.next? (.slot i) failure feed).map fun next => .send i next.1
      | _ => none

def turnMoves : Session × Option Job → List Turn → List (Move Nat)
  | _, [] => []
  | p, turn :: turns =>
      (turnAct? p turn).toList.flatMap p.1.watch.stepMoves ++ turnMoves (takeTurn p turn) turns

/-- What callbacks hear of the stream at a place in the course of turns. -/
def heardOf (i : Nat) (p : Session × Option Job) (turns : List Turn) : List Signal :=
  p.1.watch.slot.hears (i + 1) (turnMoves p turns)

/-- As long as the task lives, the stream at a place is the current one of the slot. -/
def Stays (i : Nat) (p : Session × Option Job) (turns : List Turn) : Prop :=
  ∀ n, (takeTurns p (turns.take n)).2 ≠ none →
    (takeTurns p (turns.take n)).1.watch.slot.generation? = some (i + 1)

theorem Stays.head {i : Nat} {p : Session × Option Job} {turns : List Turn}
    (hstays : Stays i p turns) (hjob : p.2 ≠ none) :
    p.1.watch.slot.generation? = some (i + 1) :=
  hstays 0 hjob

theorem Stays.tail {i : Nat} {p : Session × Option Job} {turn : Turn} {turns : List Turn}
    (hstays : Stays i p (turn :: turns)) : Stays i (takeTurn p turn) turns :=
  fun n => hstays (n + 1)

section Task

variable {s : Session} {i size n : Nat} {feed : Feed} {turn : Turn} {turns : List Turn}

/-- The stream at a place was opened, and only its task sends in its name. -/
structure Serves (s : Session) (i size : Nat) : Prop where
  spares : s.watch.Spares i
  opened : i < s.watch.slot.streams.length
  chunkSize : s.chunkSize = size

theorem serve_eq (s : Session) (request : Request) :
    ∃ server, s.serve request = { s with server } := by
  rw [serve]
  split <;> exact ⟨_, rfl⟩

theorem Serves.onWatch (hs : s.Serves i size) (act : Act) :
    (s.onWatch fun w => (w.step act).1).Serves i size := by
  obtain ⟨failures, sent, added, -, hs'⟩ := s.onWatch_eq fun w => (w.step act).1
  obtain ⟨hspares, -⟩ := hs.spares.step act
  rw [hs']
  refine ⟨⟨hspares.accounted, hspares.foreign⟩, ?_, hs.chunkSize⟩
  obtain ⟨o, ho, -⟩ := Slot.becomes_play (List.getElem?_eq_getElem hs.opened)
    (s.watch.stepMoves act)
  simp only
  rw [(s.watch.plays_step act).slot]
  exact (List.getElem?_eq_some_iff.mp ho).1

theorem Serves.isOver_iff (hs : s.Serves i size) :
    s.isOver (.slot i) = true ↔ s.watch.slot.generation? ≠ some (i + 1) :=
  hs.spares.accounted.any_isOver hs.opened

/-- What is left of the task when so many pieces of a feed were sent. -/
def feedJob? (i : Nat) (feed : Feed) (size n : Nat) : Option Job :=
  if n ≤ feed.count size then some (.feed (.slot i) none (some (feed.past size n))) else none

theorem feedJob?_of_lt (hn : feed.count size < n) : feedJob? i feed size n = none :=
  if_neg (Nat.not_le_of_lt hn)

theorem drop_signals_of_lt (hn : feed.count size < n) : (feed.signals size).drop n = [] :=
  List.drop_eq_nil_of_le (by rw [Feed.length_signals]; omega)

theorem next?_of_current (hs : s.Serves i size) (hsize : 0 < size) (hn : n ≤ feed.count size)
    (hcurrent : s.watch.slot.generation? = some (i + 1)) :
    s.next? (.slot i) none (some (feed.past size n)) =
      (feed.signals size)[n]?.map fun signal =>
        (signal, if n < feed.count size then some (feed.past size (n + 1)) else none) := by
  have hgoes : s.isOver (.slot i) = false :=
    Bool.eq_false_iff.mpr fun hover => hs.isOver_iff.mp hover hcurrent
  rw [← Feed.send_past hsize hn, next?, hgoes, hs.chunkSize]
  rfl

theorem next?_of_left (hs : s.Serves i size)
    (hleft : s.watch.slot.generation? ≠ some (i + 1)) (feed : Option Feed) :
    s.next? (.slot i) none feed = none := by
  rw [next?, hs.isOver_iff.mpr hleft]
  cases feed.or (s.store?.map Feed.ofStore) with
  | none => rfl
  | some feed => rfl

theorem resume_of_current (hs : s.Serves i size) (hsize : 0 < size) (hn : n ≤ feed.count size)
    (hcurrent : s.watch.slot.generation? = some (i + 1)) :
    ∃ signal, (feed.signals size)[n]? = some signal ∧
      turnAct? (s, feedJob? i feed size n) .resume = some (.send i signal) ∧
      takeTurn (s, feedJob? i feed size n) .resume =
        (s.onWatch fun w => (w.step (.send i signal)).1, feedJob? i feed size (n + 1)) := by
  have hlt : n < (feed.signals size).length := by
    rw [Feed.length_signals]
    omega
  have hnext := next?_of_current hs hsize hn hcurrent
  rw [List.getElem?_eq_getElem hlt, Option.map_some] at hnext
  refine ⟨_, List.getElem?_eq_getElem hlt, ?_, ?_⟩
  · rw [feedJob?, if_pos hn]
    simp only [turnAct?, hnext, Option.map_some]
  · rw [feedJob?, if_pos hn]
    simp only [takeTurn, send, hnext, hear, feedJob?, Nat.succ_le_iff]
    split <;> rfl

theorem resume_of_left (hs : s.Serves i size) (hleft : s.watch.slot.generation? ≠ some (i + 1))
    (feed : Option Feed) :
    takeTurn (s, some (.feed (.slot i) none feed)) .resume = (s, none) := by
  simp only [takeTurn, send, next?_of_left hs hleft feed]

theorem Serves.serve (hs : s.Serves i size) (request : Request) :
    (s.serve request).Serves i size := by
  obtain ⟨server, hserve⟩ := s.serve_eq request
  rw [hserve]
  exact ⟨hs.spares, hs.opened, hs.chunkSize⟩

theorem Serves.hears_of_foreign (hs : s.Serves i size) {act : Act} (hact : act.Foreign i) :
    s.watch.slot.hears (i + 1) (s.watch.stepMoves act) = [] := by
  obtain ⟨-, moves, hmoves, hforeign⟩ := hs.spares.step act
  rw [hmoves]
  refine Slot.hears_of_foreign fun m hm => ?_
  rcases List.mem_append.mp hm with hm | hm
  · exact hs.spares.foreign_move? hact m hm
  · exact hforeign m hm

theorem Serves.hears_send (hs : s.Serves i size)
    (hcurrent : s.watch.slot.generation? = some (i + 1)) (signal : Signal) :
    s.watch.slot.hears (i + 1) (s.watch.stepMoves (.send i signal)) = [signal] := by
  obtain ⟨-, moves, hmoves, hforeign⟩ := hs.spares.step (.send i signal)
  have hopened := List.getElem?_eq_getElem hs.opened
  have hmove : s.watch.move? (.send i signal) = some (.send (i + 1) signal) := by
    rw [Watch.move?, hopened, Option.map_some,
      hs.spares.accounted.generation_of_getElem? hopened]
  rw [hmoves, hmove]
  exact Slot.hears_send hcurrent hforeign

/-- Either the store answers, if anything happens at all, or an act is done to the slot. -/
inductive TurnsTo (s : Session) : Option Act → Session → Prop
  | idle (server : Server) : TurnsTo s none { s with server }
  | acted (act : Act) : TurnsTo s (some act) (s.onWatch fun w => (w.step act).1)

theorem TurnsTo.refl (s : Session) : s.TurnsTo none s :=
  .idle s.server

/-- What is left of the task is for the stream at a place, and no failure was given to it. -/
def Tasked (i : Nat) (p : Session × Option Job) : Prop :=
  ∀ job ∈ p.2, ∃ feed, job = .feed (.slot i) none feed

theorem tasked_feedJob? (s : Session) (i : Nat) (feed : Feed) (size n : Nat) :
    Tasked i (s, feedJob? i feed size n) := by
  intro job hjob
  rw [feedJob?] at hjob
  split at hjob
  · exact ⟨_, (Option.some.inj hjob).symm⟩
  · nomatch hjob

theorem Tasked.takeTurn {p : Session × Option Job} (hp : Tasked i p) (turn : Turn) :
    TurnsTo p.1 (turnAct? p turn) (takeTurn p turn).1 ∧ Tasked i (takeTurn p turn) := by
  cases turn with
  | serve request =>
      obtain ⟨server, hserve⟩ := p.1.serve_eq request
      simp only [Session.takeTurn, hserve]
      exact ⟨.idle server, hp⟩
  | act act =>
      simp only [turnAct?, Session.takeTurn]
      exact ⟨.acted act, hp⟩
  | resume =>
      obtain ⟨s, job⟩ := p
      cases job with
      | none => exact ⟨.refl s, hp⟩
      | some job =>
          obtain ⟨feed, rfl⟩ := hp job rfl
          cases hnext : s.next? (.slot i) none feed with
          | none =>
              simp only [turnAct?, Session.takeTurn, send, hnext, Option.map_none]
              exact ⟨.refl s, fun job hjob => absurd hjob (Option.not_mem_none job)⟩
          | some next =>
              simp only [turnAct?, Session.takeTurn, send, hnext, Option.map_some]
              refine ⟨.acted _, fun job hjob => ?_⟩
              obtain ⟨rest, -, rfl⟩ := Option.map_eq_some_iff.mp hjob
              exact ⟨_, rfl⟩

theorem Tasked.after {p : Session × Option Job} (hp : Tasked i p) (turns : List Turn) :
    Tasked i (takeTurns p turns) := by
  induction turns generalizing p with
  | nil => exact hp
  | cons turn turns ih => exact ih (hp.takeTurn turn).2

theorem Serves.turnsTo {s' : Session} {act? : Option Act} (hs : s.Serves i size)
    (h : s.TurnsTo act? s') : s'.Serves i size := by
  cases h with
  | idle server => exact ⟨hs.spares, hs.opened, hs.chunkSize⟩
  | acted act => exact hs.onWatch act

/-- The moves lead the slot of a session from one state to another, and what is heard of them is
what callbacks are seen to hear. -/
structure Plays (s : Session) (moves : List (Move Nat)) (s' : Session) : Prop where
  slot : s'.watch.slot = s.watch.slot.play moves
  noted : s'.watch.noted? = s.watch.noted?
  seen : s.watch.log = [] → s'.watch.log = [] ∧ ∀ place, s'.seen = s.seen ++
    ((s.watch.slot.deliveriesFrom place moves).filterMap s.watch.noted?).map Seen.ofHeard

theorem Plays.refl (s : Session) : s.Plays [] s where
  slot := rfl
  noted := rfl
  seen hlog := ⟨hlog, fun _ => (List.append_nil _).symm⟩

theorem Plays.trans {s' s'' : Session} {moves more : List (Move Nat)} (h : s.Plays moves s')
    (h' : s'.Plays more s'') : s.Plays (moves ++ more) s'' := by
  constructor
  · rw [h'.slot, h.slot, Slot.play_append]
  · rw [h'.noted, h.noted]
  · intro hlog
    obtain ⟨hlog', hseen⟩ := h.seen hlog
    obtain ⟨hlog'', hseen'⟩ := h'.seen hlog'
    refine ⟨hlog'', fun place => ?_⟩
    rw [hseen' (place + moves.length), hseen place, h.slot, h.noted, Slot.deliveriesFrom_append,
      List.filterMap_append, List.map_append, List.append_assoc]

theorem plays_onWatch (s : Session) (act : Act) :
    s.Plays (s.watch.stepMoves act) (s.onWatch fun w => (w.step act).1) := by
  obtain ⟨failures, sent, added, -, hs'⟩ := s.onWatch_eq fun w => (w.step act).1
  have hplays := s.watch.plays_step act
  rw [hs']
  refine ⟨hplays.slot, hplays.noted, fun hlog => ⟨rfl, fun place => ?_⟩⟩
  have hquiet : s.watch.heard = [] := by rw [Watch.heard, hlog, List.filterMap_nil]
  simp only [hplays.heard place, hquiet, List.nil_append]

theorem TurnsTo.plays {s' : Session} {act? : Option Act} (h : s.TurnsTo act? s') :
    s.Plays (act?.toList.flatMap s.watch.stepMoves) s' := by
  cases h with
  | idle server => exact ⟨rfl, rfl, (Plays.refl s).seen⟩
  | acted act =>
      rw [Option.toList_some, List.flatMap_singleton]
      exact s.plays_onWatch act

theorem Tasked.plays {p : Session × Option Job} (hp : Tasked i p) (turns : List Turn) :
    p.1.Plays (turnMoves p turns) (takeTurns p turns).1 := by
  induction turns generalizing p with
  | nil => exact .refl p.1
  | cons turn turns ih =>
      obtain ⟨hturn, hp'⟩ := hp.takeTurn turn
      exact hturn.plays.trans (ih hp')

theorem Tasked.serves {p : Session × Option Job} (hp : Tasked i p) (hs : p.1.Serves i size)
    (turns : List Turn) : (takeTurns p turns).1.Serves i size := by
  induction turns generalizing p with
  | nil => exact hs
  | cons turn turns ih =>
      obtain ⟨hturn, hp'⟩ := hp.takeTurn turn
      exact ih hp' (hs.turnsTo hturn)

theorem turnMoves_append (p : Session × Option Job) (turns more : List Turn) :
    turnMoves p (turns ++ more) = turnMoves p turns ++ turnMoves (takeTurns p turns) more := by
  induction turns generalizing p with
  | nil => rfl
  | cons turn turns ih =>
      rw [List.cons_append, turnMoves, ih, turnMoves, List.append_assoc]
      rfl

theorem heardOf_append {p : Session × Option Job} (hp : Tasked i p) (turns more : List Turn) :
    heardOf i p (turns ++ more) = heardOf i p turns ++ heardOf i (takeTurns p turns) more := by
  rw [heardOf, turnMoves_append, Slot.hears_append, ← (hp.plays turns).slot]
  rfl

theorem heardOf_cons {p : Session × Option Job} (hp : Tasked i p) (turn : Turn)
    (turns : List Turn) :
    heardOf i p (turn :: turns) =
      p.1.watch.slot.hears (i + 1) ((turnAct? p turn).toList.flatMap p.1.watch.stepMoves) ++
        heardOf i (takeTurn p turn) turns := by
  have hone := heardOf_append hp [turn] turns
  rw [List.singleton_append] at hone
  rw [hone, heardOf, turnMoves, turnMoves, List.append_nil]
  rfl

theorem heardOf_cons_of_none {p : Session × Option Job} (hp : Tasked i p)
    (hact : turnAct? p turn = none) :
    heardOf i p (turn :: turns) = heardOf i (takeTurn p turn) turns := by
  rw [heardOf_cons hp, hact]
  rfl

theorem heardOf_cons_of_some {p : Session × Option Job} (hp : Tasked i p) {act : Act}
    (hact : turnAct? p turn = some act) :
    heardOf i p (turn :: turns) =
      p.1.watch.slot.hears (i + 1) (p.1.watch.stepMoves act) ++
        heardOf i (takeTurn p turn) turns := by
  rw [heardOf_cons hp, hact, Option.toList_some, List.flatMap_singleton]

theorem Serves.heardOf_of_left {p : Session × Option Job} (hs : p.1.Serves i size)
    (hleft : p.1.watch.slot.generation? ≠ some (i + 1)) (turns : List Turn) :
    heardOf i p turns = [] :=
  (hs.spares.accounted.past hs.opened hleft).hears _

theorem takeTurns_of_ended (s : Session) (turns : List Turn) :
    (takeTurns (s, none) turns).2 = none := by
  induction turns generalizing s with
  | nil => rfl
  | cons turn turns ih => cases turn <;> exact ih _

theorem Tasked.ends_of_left {p : Session × Option Job} (hp : Tasked i p)
    (hs : p.1.Serves i size) (hleft : p.1.watch.slot.generation? ≠ some (i + 1))
    (hresume : .resume ∈ turns) : (takeTurns p turns).2 = none := by
  induction turns generalizing p with
  | nil => nomatch hresume
  | cons turn turns ih =>
      obtain ⟨hturn, hp'⟩ := hp.takeTurn turn
      rcases List.mem_cons.mp hresume with rfl | hresume
      · obtain ⟨s, job⟩ := p
        cases job with
        | none => exact takeTurns_of_ended s _
        | some job =>
            obtain ⟨feed, rfl⟩ := hp job rfl
            rw [takeTurns, List.foldl_cons, resume_of_left hs hleft feed]
            exact takeTurns_of_ended s turns
      · refine ih hp' (hs.turnsTo hturn) ?_ hresume
        rw [hturn.plays.slot]
        exact ((hs.spares.accounted.past hs.opened hleft).play _).not_current

/-- Whatever happens between its turns, what is heard of the stream are the first things that its
task sends; and one for each turn of the task, as long as the slot stays with the stream. -/
theorem transmission (hs : s.Serves i size) (hsize : 0 < size)
    (hturns : ∀ act, .act act ∈ turns → act.Foreign i) (n : Nat) :
    ∃ k, heardOf i (s, feedJob? i feed size n) turns = ((feed.signals size).drop n).take k ∧
      (Stays i (s, feedJob? i feed size n) turns → k = turns.count .resume ∧
        (takeTurns (s, feedJob? i feed size n) turns).2 =
          feedJob? i feed size (n + turns.count .resume)) := by
  induction turns generalizing s n with
  | nil => exact ⟨0, rfl, fun _ => ⟨rfl, rfl⟩⟩
  | cons turn turns ih =>
      have htask := tasked_feedJob? s i feed size n
      have hrest : ∀ act, .act act ∈ turns → act.Foreign i :=
        fun act hact => hturns act (List.mem_cons_of_mem _ hact)
      cases turn with
      | serve request =>
          obtain ⟨k, hheard, hall⟩ := ih (hs.serve request) hrest n
          refine ⟨k, ?_, fun hstays => ?_⟩
          · rw [heardOf_cons_of_none htask rfl]
            exact hheard
          · rw [List.count_cons_of_ne (by simp)]
            exact hall hstays.tail
      | act act =>
          have hact := hturns act List.mem_cons_self
          obtain ⟨k, hheard, hall⟩ := ih (hs.onWatch act) hrest n
          refine ⟨k, ?_, fun hstays => ?_⟩
          · rw [heardOf_cons_of_some htask rfl, hs.hears_of_foreign hact, List.nil_append]
            exact hheard
          · rw [List.count_cons_of_ne (by simp)]
            exact hall hstays.tail
      | resume =>
          rw [List.count_cons_self]
          by_cases hn : n ≤ feed.count size
          · by_cases hcurrent : s.watch.slot.generation? = some (i + 1)
            · -- One more thing is heard, and the rest follows from the task that is left.
              obtain ⟨signal, hsignal, hact, hturn⟩ := resume_of_current hs hsize hn hcurrent
              obtain ⟨k, hheard, hall⟩ := ih (hs.onWatch (.send i signal)) hrest (n + 1)
              refine ⟨k + 1, ?_, fun hstays => ?_⟩
              · have hdrop : (feed.signals size).drop n =
                    signal :: (feed.signals size).drop (n + 1) := by
                  rw [List.drop_eq_getElem?_toList_append (i := n), hsignal]
                  rfl
                rw [heardOf_cons_of_some htask hact, hs.hears_send hcurrent, hturn, hheard, hdrop]
                rfl
              · have htail := hstays.tail
                rw [hturn] at htail
                obtain ⟨hk, hjob⟩ := hall htail
                refine ⟨congrArg (· + 1) hk, ?_⟩
                rw [takeTurns, List.foldl_cons, hturn, ← takeTurns, hjob]
                congr 1
                omega
            · have hjob : feedJob? i feed size n ≠ none := by simp [feedJob?, hn]
              refine ⟨0, ?_, fun hstays => absurd (hstays.head hjob) hcurrent⟩
              rw [hs.heardOf_of_left hcurrent, List.take_zero]
          · have hlt : feed.count size < n := Nat.lt_of_not_le hn
            have hlt' : feed.count size < n + 1 := Nat.lt_succ_of_lt hlt
            obtain ⟨k, hheard, hall⟩ := ih hs hrest (n + 1)
            rw [feedJob?_of_lt hlt', drop_signals_of_lt hlt', List.take_nil] at hheard
            rw [feedJob?_of_lt hlt', Nat.add_assoc, Nat.add_comm 1] at hall
            rw [feedJob?_of_lt hlt] at htask ⊢
            rw [drop_signals_of_lt hlt]
            refine ⟨turns.count .resume + 1, ?_, fun hstays => ⟨rfl, (hall hstays.tail).2⟩⟩
            rw [heardOf_cons_of_none htask rfl, List.take_nil]
            exact hheard

end Task

/-- How the pieces of a snapshot come through the slot in the course of turns. -/
structure Transmits (i : Nat) (p : Session × Option Job) (turns : List Turn)
    (pieces : List SnapshotResponse) : Prop where
  /-- Nothing is heard of the stream but the pieces in their order, and then their completion. -/
  initial : heardOf i p turns <+: signalsOf pieces
  /-- As long as the slot stays with the stream, each turn of the task is heard. -/
  complete : Stays i p turns → heardOf i p turns = (signalsOf pieces).take (turns.count .resume)
  /-- The turn after the last piece is the last of the task. -/
  ends : Stays i p turns →
    ((takeTurns p turns).2 = none ↔ pieces.length < turns.count .resume)
  /-- Once the slot has left the stream, nothing more is heard of it, and the next turn of the
  task is its last. -/
  left : ∀ before after, turns = before ++ after →
    (takeTurns p before).1.watch.slot.generation? ≠ some (i + 1) →
      heardOf i p turns = heardOf i p before ∧
        (.resume ∈ after → (takeTurns p turns).2 = none)
  plays : p.1.Plays (turnMoves p turns) (takeTurns p turns).1

theorem store?_of_memory {s : Session} {store : Store} (hserver : s.server = .memory store) :
    s.store? = some store := by
  rw [store?, hserver]

theorem next?_start {s : Session} {store : Store} (hserver : s.server = .memory store)
    (listener : Listener) (size : Nat) :
    s.next? listener none none =
      s.next? listener none (some ((Feed.ofStore store).past size 0)) := by
  have hstart : (Feed.ofStore store).past size 0 = Feed.ofStore store := by
    rw [Feed.past, Nat.zero_mul, Nat.zero_min]
    rfl
  rw [next?, next?, store?_of_memory hserver, hstart]
  rfl

theorem resume_start {s : Session} {store : Store} (hserver : s.server = .memory store)
    (i size : Nat) :
    turnAct? (s, some (.feed (.slot i) none none)) .resume =
        turnAct? (s, feedJob? i (.ofStore store) size 0) .resume ∧
      takeTurn (s, some (.feed (.slot i) none none)) .resume =
        takeTurn (s, feedJob? i (.ofStore store) size 0) .resume := by
  rw [feedJob?, if_pos (Nat.zero_le _)]
  constructor
  · simp only [turnAct?, next?_start hserver (.slot i) size]
  · simp only [takeTurn, send, next?_start hserver (.slot i) size]

/-- Whatever requests the store answers and whatever is done to the slot between the turns of the
task, what callbacks hear of the stream is a copy of the store that was there at its first turn. -/
theorem snapshot_transmitted (requests : List Request) (size : UInt64) (past : List (Move Nat))
    (s : Session) (i : Nat) (turns : List Turn)
    (hserver : s.server = .memory (Store.empty.run requests))
    (hchunk : s.chunkSize = max size.toNat 1)
    (hslot : s.watch.slot = Slot.after past) (hopened : i < s.watch.slot.streams.length)
    (hlaidDown : ∀ act ∈ s.watch.laidDown, act.Foreign i)
    (hturns : ∀ act, .act act ∈ turns → act.Foreign i)
    (hlength : (Feed.ofStore (Store.empty.run requests)).content.length < 2 ^ 63) :
    ∃ pieces, Copies (Store.empty.run requests) s.chunkSize pieces ∧
      Transmits i (s, some (.feed (.slot i) none none)) (.resume :: turns) pieces := by
  have hserves : s.Serves i s.chunkSize :=
    ⟨⟨hslot ▸ Slot.accounted_after past, hlaidDown⟩, hopened, rfl⟩
  have hpositive : 0 < s.chunkSize := by omega
  have hword : s.chunkSize < UInt64.size := by
    rw [hchunk]
    exact Nat.max_lt.mpr ⟨size.toNat_lt, by decide⟩
  refine ⟨_, Feed.copies_ofStore (Store.sound_empty.run requests) hpositive hword hlength, ?_⟩
  obtain ⟨hact, hturn⟩ := resume_start hserver i s.chunkSize
  generalize Feed.ofStore (Store.empty.run requests) = feed at hact hturn ⊢
  have htask : Tasked i (s, some (.feed (.slot i) none none)) :=
    fun job hjob => ⟨none, (Option.some.inj hjob).symm⟩
  have htask' := tasked_feedJob? s i feed s.chunkSize 0
  -- From its first turn on, the task goes on as one that had read the store before.
  have hheardOf : heardOf i (s, some (.feed (.slot i) none none)) (.resume :: turns) =
      heardOf i (s, feedJob? i feed s.chunkSize 0) (.resume :: turns) := by
    rw [heardOf_cons htask, heardOf_cons htask', hact, hturn]
  have htakes : ∀ turns, takeTurns (s, some (.feed (.slot i) none none)) (.resume :: turns) =
      takeTurns (s, feedJob? i feed s.chunkSize 0) (.resume :: turns) := by
    intro turns
    rw [takeTurns, takeTurns, List.foldl_cons, List.foldl_cons, hturn]
  have hstaysOf : Stays i (s, some (.feed (.slot i) none none)) (.resume :: turns) →
      Stays i (s, feedJob? i feed s.chunkSize 0) (.resume :: turns) := by
    intro hstays n
    cases n with
    | zero => exact fun _ => hstays.head (Option.some_ne_none _)
    | succ n =>
        rw [List.take_succ_cons, ← htakes]
        exact hstays (n + 1)
  have hforeign : ∀ act, Turn.act act ∈ .resume :: turns → act.Foreign i :=
    fun act hact => hturns act ((List.mem_cons.mp hact).resolve_left (by simp))
  obtain ⟨k, hheard, hall⟩ := transmission hserves hpositive hforeign 0
  rw [List.drop_zero, ← hheardOf] at hheard
  constructor
  · rw [hheard]
    exact List.take_prefix _ _
  · intro hstays
    rw [hheard, (hall (hstaysOf hstays)).1]
    rfl
  · intro hstays
    rw [htakes, (hall (hstaysOf hstays)).2, Nat.zero_add, Feed.length_pieces, feedJob?]
    split
    · simp only [reduceCtorEq, false_iff]
      omega
    · simp only [true_iff]
      omega
  · intro before after hturns hleft
    have hserves' := htask.serves hserves before
    constructor
    · rw [hturns, heardOf_append htask, hserves'.heardOf_of_left hleft, List.append_nil]
    · intro hresume
      rw [hturns, takeTurns, List.foldl_append]
      exact (htask.after before).ends_of_left hserves' hleft hresume
  · exact htask.plays _

def Seen.rest? : Seen → Option (String × Option Nat)
  | .callback name (.chunk piece) => some (name, some piece.remainingBytes.toNat)
  | .callback name .completed => some (name, none)
  | _ => none

/-- A callback puts another one in its place at the first piece, after which all keys are deleted,
and is installed again after the second piece. -/
theorem snapshot_transmitted_of_swapped_callback :
    let requests := [.put { key := [97], value := [1, 2, 3] }]
    let first : Callback := { name := "first", atChunk := [[.attach 1]] }
    let watch : Watch :=
      { slot := Slot.after [.attach 0], callbacks := [first, { name := "second" }] }
    let s : Session := { Session.new "" (.memory (Store.empty.run requests)) 12 with watch }
    let p := (s, some (.feed (.slot 0) none none))
    let turns := [.serve (.deleteRange { key := [0], rangeEnd := [0] }), .resume,
      .act (.attach 0), .resume, .resume]
    (∃ pieces, Copies (Store.empty.run requests) s.chunkSize pieces ∧
      Transmits 0 p (.resume :: turns) pieces) ∧
    (takeTurns p (.resume :: turns)).1.seen.filterMap Seen.rest? =
      [("first", some 20), ("second", some 8), ("first", some 0), ("first", none)] := by
  intro requests first watch s p turns
  refine ⟨snapshot_transmitted requests 12 [.attach 0] s 0 turns rfl rfl rfl (by decide)
    (by decide) ?_ (by decide +kernel), by decide +kernel⟩
  intro act hact
  simp only [turns, List.mem_cons, reduceCtorEq, Turn.act.injEq, List.not_mem_nil, or_false,
    false_or] at hact
  subst hact
  decide

end Keyspace.Session
