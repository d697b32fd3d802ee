import Keyspace.Proofs.WatchedSlotMoves

namespace Keyspace.Snapshot

def Move.Foreign (g : Nat) (m : Move κ) : Prop :=
  ∀ signal, m ≠ .send g signal

namespace Slot

variable {κ : Type} {s : Slot κ} {g : Nat} {moves more : List (Move κ)}

def hears (s : Slot κ) (g : Nat) (moves : List (Move κ)) : List Signal :=
  ((s.deliveriesFrom 0 moves).filter fun d => d.generation = g).map Delivery.signal

theorem hears_eq (s : Slot κ) (g place : Nat) (moves : List (Move κ)) :
    ((s.deliveriesFrom place moves).filter fun d => d.generation = g).map Delivery.signal =
      s.hears g moves := by
  rw [hears]
  generalize 0 = start
  induction moves generalizing s place start with
  | nil => rfl
  | cons m moves ih =>
      have hfirst : ((s.delivery? place m).toList.filter fun d => d.generation = g).map
            Delivery.signal =
          ((s.delivery? start m).toList.filter fun d => d.generation = g).map Delivery.signal := by
        cases m with
        | send g' signal =>
            rw [delivery?, delivery?]
            cases (s.receive g' signal).2 with
            | none => rfl
            | some callback => by_cases hg : g' = g <;> simp [hg]
        | _ => rfl
      rw [deliveriesFrom, deliveriesFrom, List.filter_append, List.filter_append, List.map_append,
        List.map_append, hfirst, ih _ (place + 1) (start + 1)]

theorem hears_append (s : Slot κ) (g : Nat) (moves more : List (Move κ)) :
    s.hears g (moves ++ more) = s.hears g moves ++ (s.play moves).hears g more := by
  rw [hears, deliveriesFrom_append, List.filter_append, List.map_append, hears_eq _ _ (0 + _)]
  rfl

theorem hears_eq_nil (hmoves : ∀ i signal, moves[i]? = some (.send g signal) →
    (s.play (moves.take i)).generation? ≠ some g) : s.hears g moves = [] := by
  rw [hears, List.map_eq_nil_iff, List.filter_eq_nil_iff]
  intro d hd hg
  obtain rfl : d.generation = g := of_decide_eq_true hg
  obtain ⟨i, -, hsent, hlistener⟩ := mem_deliveriesFrom.mp hd
  exact hmoves i d.signal hsent (listener?_eq_some.mp hlistener).1

theorem hears_of_foreign (hmoves : ∀ m ∈ moves, m.Foreign g) : s.hears g moves = [] :=
  hears_eq_nil fun _ signal hsent =>
    absurd rfl (hmoves _ (List.mem_of_getElem? hsent) signal)

theorem Past.hears (hpast : s.Past g) (moves : List (Move κ)) : s.hears g moves = [] :=
  hears_eq_nil fun _ _ _ => (hpast.play _).not_current

theorem hears_send (hcurrent : s.generation? = some g) {signal : Signal}
    (hmoves : ∀ m ∈ moves, m.Foreign g) : s.hears g (.send g signal :: moves) = [signal] := by
  obtain ⟨callback, hcallback⟩ : ∃ callback, s.callback? = some callback := by
    cases hs : s.current with
    | none => simp [generation?, hs] at hcurrent
    | some current => exact ⟨current.2, by rw [callback?, hs, Option.map_some]⟩
  have hone : s.hears g [.send g signal] = [signal] := by
    simp [Slot.hears, deliveriesFrom, delivery?, receive_listener,
      listener?_eq_some.mpr ⟨hcurrent, hcallback⟩]
  rw [← List.singleton_append, hears_append, hone, hears_of_foreign hmoves, List.append_nil]

theorem Accounted.generation_of_getElem? (hs : s.Accounted) {i : Nat} {o : Opened}
    (ho : s.streams[i]? = some o) : o.generation = i + 1 := by
  have hgeneration : (s.streams.map Opened.generation)[i]? = some o.generation := by
    rw [List.getElem?_map, ho, Option.map_some]
  rw [hs.generations] at hgeneration
  obtain ⟨hlt, hrange⟩ := List.getElem?_eq_some_iff.mp hgeneration
  rw [List.getElem_range'] at hrange
  omega

theorem Accounted.past (hs : s.Accounted) {i : Nat} (hi : i < s.streams.length)
    (hcurrent : s.generation? ≠ some (i + 1)) : s.Past (i + 1) := by
  refine ⟨?_, hcurrent⟩
  have hlength := congrArg List.length hs.generations
  rw [List.length_map, List.length_range'] at hlength
  omega

theorem Accounted.any_isOver (hs : s.Accounted) {i : Nat} (hi : i < s.streams.length) :
    s.streams[i]?.any (fun o => o.stream.isOver) = true ↔ s.generation? ≠ some (i + 1) := by
  have hget := List.getElem?_eq_getElem hi
  rw [hget, Option.any_some, hs.over_iff _ (List.getElem_mem hi), hs.generation_of_getElem? hget]

end Slot

/-- The place of the stream in whose name the act sends, if it does. -/
def Act.sender? : Act → Option Nat
  | send i _ => some i
  | _ => none

/-- The act does not send in the name of the stream at a place. -/
abbrev Act.Foreign (i : Nat) (act : Act) : Prop :=
  act.sender? ≠ some i

def Callback.laidDown (c : Callback) : List Act :=
  (c.atChunk ++ c.atFailure ++ c.atCompletion).flatten

theorem mem_flatten_of_mem_headD {scripts : List (List Act)} {act : Act}
    (hact : act ∈ scripts.headD []) : act ∈ scripts.flatten := by
  cases scripts with
  | nil => nomatch hact
  | cons acts scripts => exact List.mem_append_left _ hact

theorem mem_flatten_of_mem_tail {scripts : List (List Act)} {act : Act}
    (hact : act ∈ scripts.tail.flatten) : act ∈ scripts.flatten := by
  cases scripts with
  | nil => nomatch hact
  | cons acts scripts => exact List.mem_append_right _ hact

theorem Callback.laidDown_hear (c : Callback) (event : Event) {act : Act}
    (hact : act ∈ (c.hear event).2 ∨ act ∈ (c.hear event).1.laidDown) : act ∈ c.laidDown := by
  have hhead := fun scripts : List (List Act) => @mem_flatten_of_mem_headD scripts act
  have htail := fun scripts : List (List Act) => @mem_flatten_of_mem_tail scripts act
  simp only [laidDown, List.flatten_append, List.mem_append] at hact ⊢
  cases event with
  | chunk _ => grind [Callback.hear]
  | failed _ => grind [Callback.hear]
  | completed => grind [Callback.hear]

namespace Watch

variable {w : Watch} {i : Nat}

def laidDown (w : Watch) : List Act :=
  w.atOpening.flatten ++ w.callbacks.flatMap Callback.laidDown

theorem laidDown_hear (w : Watch) (callback : Nat) (event : Event) {act : Act}
    (hact : act ∈ (w.hear callback event).2 ∨ act ∈ (w.hear callback event).1.laidDown) :
    act ∈ w.laidDown := by
  rw [hear] at hact
  cases hc : w.callbacks[callback]? with
  | none =>
      rw [hc] at hact
      exact hact.resolve_left List.not_mem_nil
  | some c =>
      rw [hc] at hact
      have hmem := List.mem_of_getElem? hc
      have hown : ∀ {act}, act ∈ (c.hear event).2 ∨ act ∈ (c.hear event).1.laidDown →
          act ∈ w.laidDown := fun h =>
        List.mem_append_right _ (List.mem_flatMap.mpr ⟨c, hmem, c.laidDown_hear event h⟩)
      rcases hact with hact | hact
      · exact hown (.inl hact)
      · rcases List.mem_append.mp hact with hact | hact
        · exact List.mem_append_left _ hact
        · obtain ⟨c', hc', hact⟩ := List.mem_flatMap.mp hact
          rcases List.mem_or_eq_of_mem_set hc' with hc' | rfl
          · exact List.mem_append_right _ (List.mem_flatMap.mpr ⟨c', hc', hact⟩)
          · exact hown (.inr hact)

theorem laidDown_perform (w : Watch) (act : Act) {next : Act}
    (hnext : next ∈ (w.perform act).2.2 ∨ next ∈ (w.perform act).1.laidDown) :
    next ∈ w.laidDown := by
  cases act with
  | attach callback =>
      rw [perform] at hnext
      split at hnext
      · exact hnext.resolve_left List.not_mem_nil
      · simp only at hnext
        split at hnext
        · rcases hnext with hnext | hnext
          · exact List.mem_append_left _ (mem_flatten_of_mem_headD hnext)
          · rcases List.mem_append.mp hnext with hnext | hnext
            · exact List.mem_append_left _ (mem_flatten_of_mem_tail hnext)
            · exact List.mem_append_right _ hnext
        · exact hnext.resolve_left List.not_mem_nil
  | detach =>
      rw [perform] at hnext
      split at hnext <;> exact hnext.resolve_left List.not_mem_nil
  | send stream signal =>
      rw [perform] at hnext
      split at hnext
      · exact hnext.resolve_left List.not_mem_nil
      · simp only at hnext
        split at hnext
        · exact hnext.resolve_left List.not_mem_nil
        · have hlaid := laidDown_hear _ _ _ hnext
          exact hlaid
  | _ => exact hnext.resolve_left List.not_mem_nil

/-- Nothing that is laid down sends in the name of the stream at a place. -/
structure Spares (w : Watch) (i : Nat) : Prop where
  accounted : w.slot.Accounted
  foreign : ∀ act ∈ w.laidDown, act.Foreign i

theorem Spares.perform (hw : w.Spares i) (act : Act) : (w.perform act).1.Spares i where
  accounted := by
    rw [(w.plays_perform act).slot]
    exact hw.accounted.play _
  foreign next hnext := hw.foreign next (w.laidDown_perform act (.inr hnext))

theorem Spares.foreign_move? (hw : w.Spares i) {act : Act} (hact : act.Foreign i) :
    ∀ m ∈ (w.move? act).toList, m.Foreign (i + 1) := by
  intro m hm signal hsend
  subst hsend
  cases act with
  | send stream sent =>
      simp only [move?, Option.mem_toList, Option.map_eq_some_iff, Move.send.injEq] at hm
      obtain ⟨o, ho, hgeneration, -⟩ := hm
      have hplace := hw.accounted.generation_of_getElem? ho
      obtain rfl : stream = i := by omega
      exact hact rfl
  | attach callback =>
      rw [move?] at hm
      split at hm <;> simp at hm
  | detach =>
      rw [move?] at hm
      split at hm <;> simp at hm
  | _ => simp [move?] at hm

def Item.Foreign (i : Nat) : Item → Prop
  | .todo act => act.Foreign i
  | .done _ _ => True

theorem Spares.run (hw : w.Spares i) (items : Nat) {agenda : List Item}
    (hagenda : ∀ item ∈ agenda, Item.Foreign i item) :
    (w.run items agenda).Spares i ∧ ∀ m ∈ w.runMoves items agenda, m.Foreign (i + 1) := by
  induction items generalizing agenda w with
  | zero => exact ⟨hw, fun _ hm => nomatch hm⟩
  | succ items ih =>
      cases agenda with
      | nil => exact ⟨hw, fun _ hm => nomatch hm⟩
      | cons item agenda =>
          obtain ⟨hitem, hrest⟩ := List.forall_mem_cons.mp hagenda
          cases item with
          | done act answer =>
              rw [Watch.run, runMoves]
              exact ih (w := { w with log := w.log ++ [.did act answer] })
                ⟨hw.accounted, hw.foreign⟩ hrest
          | todo act =>
              rw [Watch.run, runMoves]
              have hnext : ∀ next ∈ (w.perform act).2.2.map Item.todo ++
                  .done act (w.perform act).2.1 :: agenda, Item.Foreign i next := by
                intro next hnext
                rcases List.mem_append.mp hnext with hnext | hnext
                · obtain ⟨set, hset, rfl⟩ := List.mem_map.mp hnext
                  exact hw.foreign set (w.laidDown_perform act (.inl hset))
                · rcases List.mem_cons.mp hnext with rfl | hnext
                  · trivial
                  · exact hrest next hnext
              obtain ⟨hspares, hforeign⟩ := ih (hw.perform act) hnext
              refine ⟨hspares, fun m hm => ?_⟩
              rcases List.mem_append.mp hm with hm | hm
              · exact hw.foreign_move? hitem m hm
              · exact hforeign m hm

/-- All that an act sets off is done by others. -/
theorem Spares.step (hw : w.Spares i) (act : Act) :
    (w.step act).1.Spares i ∧
      ∃ moves, w.stepMoves act = (w.move? act).toList ++ moves ∧
        ∀ m ∈ moves, m.Foreign (i + 1) := by
  have hset : ∀ item ∈ (w.perform act).2.2.map Item.todo, Item.Foreign i item := by
    intro item hitem
    obtain ⟨next, hnext, rfl⟩ := List.mem_map.mp hitem
    exact hw.foreign next (w.laidDown_perform act (.inl hnext))
  obtain ⟨hspares, hforeign⟩ := (hw.perform act).run (2 * w.scripted) hset
  refine ⟨⟨?_, ?_⟩, _, rfl, ?_⟩
  · rw [(w.plays_step act).slot]
    exact hw.accounted.play _
  · intro next hnext
    rw [fst_step] at hnext
    refine hspares.foreign next ?_
    split at hnext <;> exact hnext
  · intro m hm
    rcases List.mem_append.mp hm with hm | hm
    · exact hforeign m hm
    · split at hm
      · obtain rfl := List.mem_singleton.mp hm
        exact fun signal => nofun
      · nomatch hm

end Watch

end Keyspace.Snapshot
