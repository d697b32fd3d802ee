import Keyspace.Proofs.SlotStreams

namespace Keyspace.Snapshot

/-- Something that a callback hears, with the place among all moves at which it was sent. -/
structure Delivery (κ : Type) where
  place : Nat
  generation : Nat
  signal : Signal
  callback : κ

namespace Slot

variable {κ : Type} {s t : Slot κ} {m : Move κ} {moves : List (Move κ)}

def delivery? (s : Slot κ) (place : Nat) : Move κ → Option (Delivery κ)
  | .send generation signal =>
      (s.receive generation signal).2.map fun callback =>
        { place, generation, signal, callback }
  | _ => none

def deliveriesFrom (s : Slot κ) (place : Nat) : List (Move κ) → List (Delivery κ)
  | [] => []
  | m :: moves =>
      (s.delivery? place m).toList ++ (s.move m).deliveriesFrom (place + 1) moves

def deliveries (moves : List (Move κ)) : List (Delivery κ) :=
  deliveriesFrom {} 0 moves

def attached? (moves : List (Move κ)) : Option κ :=
  moves.reverse.findSome? Move.attached?

theorem listener?_eq_some {g : Nat} {callback : κ} :
    s.listener? g = some callback ↔ s.generation? = some g ∧ s.callback? = some callback := by
  cases hcurrent : s.current with
  | none => simp [listener?, generation?, hcurrent]
  | some current =>
      by_cases hg : current.1 = g <;> simp [listener?, generation?, callback?, hcurrent, hg]

theorem receive_listener (s : Slot κ) (g : Nat) (signal : Signal) :
    (s.receive g signal).2 = s.listener? g := by
  rw [receive]
  split
  · exact Eq.symm ‹s.listener? g = some _›
  · exact Eq.symm ‹s.listener? g = none›

theorem delivery?_eq_some {place : Nat} {d : Delivery κ} :
    s.delivery? place m = some d ↔
      d.place = place ∧ m = .send d.generation d.signal ∧
        s.listener? d.generation = some d.callback := by
  obtain ⟨place', g, signal, callback⟩ := d
  cases m with
  | send g' signal' =>
      rw [delivery?, receive_listener, Option.map_eq_some_iff]
      simp only [Delivery.mk.injEq, Move.send.injEq]
      constructor
      · rintro ⟨callback', hlistener, rfl, rfl, rfl, rfl⟩
        exact ⟨rfl, ⟨rfl, rfl⟩, hlistener⟩
      · rintro ⟨rfl, ⟨rfl, rfl⟩, hlistener⟩
        exact ⟨callback, hlistener, rfl, rfl, rfl, rfl⟩
  | _ => simp [delivery?]

theorem mem_deliveriesFrom {place : Nat} {d : Delivery κ} :
    d ∈ s.deliveriesFrom place moves ↔ ∃ i, d.place = place + i ∧
      moves[i]? = some (.send d.generation d.signal) ∧
        (s.play (moves.take i)).listener? d.generation = some d.callback := by
  induction moves generalizing s place with
  | nil => simp [deliveriesFrom]
  | cons m moves ih =>
      -- The first move is at the place itself, the others one further than among themselves.
      rw [deliveriesFrom, List.mem_append, Option.mem_toList, delivery?_eq_some, ih]
      constructor
      · rintro (⟨hplace, rfl, hlistener⟩ | ⟨i, hplace, hsent, hlistener⟩)
        · exact ⟨0, hplace, rfl, hlistener⟩
        · exact ⟨i + 1, by omega, hsent, hlistener⟩
      · rintro ⟨i, hplace, hsent, hlistener⟩
        cases i with
        | zero => exact .inl ⟨hplace, Option.some.inj hsent, hlistener⟩
        | succ i => exact .inr ⟨i, by omega, hsent, hlistener⟩

theorem pairwise_deliveriesFrom (s : Slot κ) (place : Nat) (moves : List (Move κ)) :
    (s.deliveriesFrom place moves).Pairwise fun d e => d.place < e.place := by
  induction moves generalizing s place with
  | nil => exact .nil
  | cons m moves ih =>
      rw [deliveriesFrom, List.pairwise_append]
      refine ⟨?_, ih _ _, ?_⟩
      · cases s.delivery? place m with
        | none => exact .nil
        | some d => exact List.pairwise_singleton _ d
      · intro d hd e he
        obtain ⟨hplace, -⟩ := delivery?_eq_some.mp (Option.mem_toList.mp hd)
        obtain ⟨i, hplace', -⟩ := mem_deliveriesFrom.mp he
        omega

theorem deliveriesFrom_append (s : Slot κ) (place : Nat) (moves more : List (Move κ)) :
    s.deliveriesFrom place (moves ++ more) =
      s.deliveriesFrom place moves ++
        (s.play moves).deliveriesFrom (place + moves.length) more := by
  induction moves generalizing s place with
  | nil => rfl
  | cons m moves ih =>
      rw [List.cons_append, deliveriesFrom, ih, deliveriesFrom, List.append_assoc,
        List.length_cons, Nat.add_right_comm, Nat.add_assoc]
      rfl

theorem Effect.callback? (h : s.Effect m t) {callback : κ} (hc : t.callback? = some callback) :
    m.attached?.or s.callback? = some callback := by
  cases h with
  | idle silent => rw [silent, Option.none_or, hc]
  | opened _ => exact hc
  | swapped _ => exact hc
  | ended _ _ _ => simp [Slot.callback?, onStream] at hc

theorem attached?_cons (m : Move κ) (moves : List (Move κ)) :
    attached? (m :: moves) = (attached? moves).or m.attached? := by
  rw [attached?, List.reverse_cons, List.findSome?_append, attached?]
  cases h : m.attached? <;> simp [h]

theorem callback?_play {callback : κ} (hc : (s.play moves).callback? = some callback) :
    (attached? moves).or s.callback? = some callback := by
  induction moves generalizing s with
  | nil => exact hc
  | cons m moves ih =>
      have hlast := ih hc
      rw [attached?_cons, Option.or_assoc]
      cases hmoves : attached? moves with
      | none =>
          rw [hmoves, Option.none_or] at hlast
          rw [Option.none_or]
          exact (s.effect_move m).callback? hlast
      | some last =>
          rw [hmoves] at hlast
          exact hlast

theorem callback?_after (hopen : (after moves).isOpen = true) :
    (after moves).callback? = attached? moves := by
  obtain ⟨current, hcurrent⟩ := Option.isSome_iff_exists.mp hopen
  have hcallback : (after moves).callback? = some current.2 := by
    rw [Slot.callback?, hcurrent, Option.map_some]
  have hlast := callback?_play hcallback
  rw [show ({} : Slot κ).callback? = none from rfl, Option.or_none] at hlast
  rw [hcallback, hlast]

/-- What is sent reaches a callback exactly while its stream is current, and then the one that was
installed last. A stream that sends its last is not current any more when that is heard, and of a
stream that is not current any more nothing is heard again. -/
structure Routed (moves : List (Move κ)) : Prop where
  sent : ∀ d ∈ deliveries moves, moves[d.place]? = some (.send d.generation d.signal)
  heard_iff : ∀ place g signal, moves[place]? = some (.send g signal) →
    ((∃ callback, { place, generation := g, signal, callback } ∈ deliveries moves) ↔
      (after (moves.take place)).generation? = some g)
  latest : ∀ d ∈ deliveries moves, attached? (moves.take d.place) = some d.callback
  once : (deliveries moves).Pairwise fun d e => d.place < e.place
  closed_of_last : ∀ d ∈ deliveries moves, d.signal.isLast = true →
    (after (moves.take (d.place + 1))).isOpen = false
  last_unique : ∀ d ∈ deliveries moves, ∀ e ∈ deliveries moves,
    d.signal.isLast = true → e.signal.isLast = true → d.generation = e.generation → d = e
  silent_of_last : ∀ d ∈ deliveries moves, ∀ e ∈ deliveries moves,
    d.signal.isLast = true → d.generation = e.generation → e.place ≤ d.place
  silent_of_detach : ∀ place g, moves[place]? = some .detach →
    (after (moves.take place)).generation? = some g →
      ∀ e ∈ deliveries moves, e.generation = g → e.place < place

theorem mem_deliveries {d : Delivery κ} :
    d ∈ deliveries moves ↔ moves[d.place]? = some (.send d.generation d.signal) ∧
      (after (moves.take d.place)).listener? d.generation = some d.callback := by
  rw [deliveries, mem_deliveriesFrom]
  constructor
  · rintro ⟨i, hplace, h⟩
    obtain rfl : d.place = i := by omega
    exact h
  · intro h
    exact ⟨d.place, by omega, h⟩

theorem generation?_of_mem {d : Delivery κ} (hd : d ∈ deliveries moves) :
    (after (moves.take d.place)).generation? = some d.generation :=
  (listener?_eq_some.mp (mem_deliveries.mp hd).2).1

theorem attached?_of_mem {d : Delivery κ} (hd : d ∈ deliveries moves) :
    attached? (moves.take d.place) = some d.callback := by
  obtain ⟨hgeneration, hcallback⟩ := listener?_eq_some.mp (mem_deliveries.mp hd).2
  have hopen : (after (moves.take d.place)).isOpen = true := by
    rw [isOpen, ← Option.isSome_map (f := Prod.fst)]
    exact Option.isSome_of_eq_some hgeneration
  rw [← callback?_after hopen, hcallback]

theorem closed_of_last {d : Delivery κ} (hd : d ∈ deliveries moves)
    (hlast : d.signal.isLast = true) : (after (moves.take (d.place + 1))).isOpen = false := by
  obtain ⟨hsent, hlistener⟩ := mem_deliveries.mp hd
  rw [after_take_succ hsent, move, receive, hlistener]
  simp only [hlast, if_true, isOpen_release]

theorem place_le_of_ended {place g : Nat} (hm : moves[place]? = some m)
    (hg : (after (moves.take place)).generation? = some g)
    (hended : (after (moves.take (place + 1))).isOpen = false) {e : Delivery κ}
    (he : e ∈ deliveries moves) (hsame : e.generation = g) : e.place ≤ place := by
  apply Nat.le_of_not_lt
  intro hlater
  have hpast := past_of_ended hm hg hended hlater
  apply hpast.not_current
  rw [generation?_of_mem he, hsame]

theorem place_le_of_last {d e : Delivery κ} (hd : d ∈ deliveries moves)
    (he : e ∈ deliveries moves) (hlast : d.signal.isLast = true)
    (hsame : d.generation = e.generation) : e.place ≤ d.place :=
  place_le_of_ended (mem_deliveries.mp hd).1 (generation?_of_mem hd) (closed_of_last hd hlast) he
    hsame.symm

theorem routed (moves : List (Move κ)) : Routed moves where
  sent d hd := (mem_deliveries.mp hd).1
  heard_iff place g signal hsent := by
    constructor
    · rintro ⟨callback, hd⟩
      exact generation?_of_mem hd
    · intro hg
      obtain ⟨current, hcurrent, rfl⟩ := Option.map_eq_some_iff.mp hg
      refine ⟨current.2, mem_deliveries.mpr ⟨hsent, listener?_eq_some.mpr ⟨hg, ?_⟩⟩⟩
      rw [Slot.callback?, hcurrent, Option.map_some]
  latest d hd := attached?_of_mem hd
  once := pairwise_deliveriesFrom _ 0 moves
  closed_of_last d hd hlast := closed_of_last hd hlast
  last_unique d hd e he hlast hlast' hsame := by
    have hplace : d.place = e.place :=
      Nat.le_antisymm (place_le_of_last he hd hlast' hsame.symm)
        (place_le_of_last hd he hlast hsame)
    have hsent := (mem_deliveries.mp hd).1
    have hcallback := attached?_of_mem hd
    rw [hplace, (mem_deliveries.mp he).1, Option.some.injEq, Move.send.injEq] at hsent
    rw [hplace, attached?_of_mem he, Option.some.injEq] at hcallback
    cases d
    cases e
    simp_all
  silent_of_last d hd e he hlast hsame := place_le_of_last hd he hlast hsame
  silent_of_detach place g hm hg e he hsame := by
    have hended : (after (moves.take (place + 1))).isOpen = false := by
      rw [after_take_succ hm, move, isOpen_detach]
    have hle := place_le_of_ended hm hg hended he hsame
    have hne : e.place ≠ place := by
      intro h
      have hsent := (mem_deliveries.mp he).1
      simp [h, hm] at hsent
    omega

end Slot

end Keyspace.Snapshot
