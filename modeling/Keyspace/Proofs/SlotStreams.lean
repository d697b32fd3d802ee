import Keyspace.Snapshot.Slot

namespace Keyspace.Snapshot

/-- One thing that happens to a slot. A stream may send at any time, also when it is long over. -/
inductive Move (κ : Type)
  | attach (callback : κ)
  | detach
  | send (generation : Nat) (signal : Signal)
  | drop
  deriving DecidableEq

def Move.attached? : Move κ → Option κ
  | attach callback => some callback
  | _ => none

namespace Slot

variable {κ : Type} {s t : Slot κ} {m : Move κ}

def move (s : Slot κ) : Move κ → Slot κ
  | .attach callback => (s.attach callback).1
  | .detach => s.detach.1
  | .send generation signal => (s.receive generation signal).1
  | .drop => s.release

def play (s : Slot κ) (moves : List (Move κ)) : Slot κ :=
  moves.foldl move s

def after (moves : List (Move κ)) : Slot κ :=
  play {} moves

theorem play_append (s : Slot κ) (moves more : List (Move κ)) :
    s.play (moves ++ more) = (s.play moves).play more :=
  List.foldl_append

theorem after_take_add (moves : List (Move κ)) (n k : Nat) :
    after (moves.take (n + k)) = (after (moves.take n)).play ((moves.drop n).take k) := by
  rw [after, List.take_add, play_append]
  rfl

theorem after_take_succ {moves : List (Move κ)} {n : Nat} (hm : moves[n]? = some m) :
    after (moves.take (n + 1)) = (after (moves.take n)).move m := by
  rw [after, List.take_add_one, hm, play_append]
  rfl

/-- What a move may make of a slot: nothing new, a stream that is opened, another callback for the
current stream, and the end of that. -/
inductive Effect (s : Slot κ) : Move κ → Slot κ → Prop
  | idle {m : Move κ} (silent : m.attached? = none) : Effect s m s
  | opened {callback : κ} (closed : s.current = none) :
      Effect s (.attach callback)
        { generations := s.generations + 1, current := some (s.generations + 1, callback),
          streams := s.streams ++ [{ generation := s.generations + 1 }] }
  | swapped {g : Nat} {old callback : κ} (current : s.current = some (g, old)) :
      Effect s (.attach callback) { s with current := some (g, callback) }
  | ended {m : Move κ} {g : Nat} {callback : κ} {f : Stream → Stream} (silent : m.attached? = none)
      (current : s.current = some (g, callback)) (ends : ∀ stream, (f stream).isOver = true) :
      Effect s m ({ s with current := none }.onStream g f)

theorem effect_attach (s : Slot κ) (callback : κ) :
    s.Effect (.attach callback) (s.move (.attach callback)) := by
  cases hcurrent : s.current with
  | none =>
      simp only [move, attach, hcurrent]
      exact .opened hcurrent
  | some current =>
      simp only [move, attach, hcurrent]
      exact .swapped hcurrent

theorem effect_release (s : Slot κ) (hm : m.attached? = none) : s.Effect m s.release := by
  cases hcurrent : s.current with
  | none =>
      simp only [release, hcurrent]
      exact .idle hm
  | some current =>
      simp only [release, hcurrent]
      exact .ended hm hcurrent Stream.isOver_drop

theorem effect_move (s : Slot κ) (m : Move κ) : s.Effect m (s.move m) := by
  cases m with
  | attach callback => exact s.effect_attach callback
  | detach =>
      cases hcurrent : s.current with
      | none =>
          simp only [move, detach, hcurrent]
          exact .idle rfl
      | some current =>
          simp only [move, detach, hcurrent]
          exact .ended rfl hcurrent Stream.isOver_complete
  | send generation signal =>
      rw [move, receive]
      split
      · -- Only the last thing that the current stream sends changes the slot.
        split
        · exact s.effect_release rfl
        · exact .idle rfl
      · exact .idle rfl
  | drop => exact s.effect_release rfl

@[simp] theorem map_generation_onStream (s : Slot κ) (g : Nat) (f : Stream → Stream) :
    (s.onStream g f).streams.map Opened.generation = s.streams.map Opened.generation := by
  rw [onStream, List.map_map]
  apply List.map_congr_left
  intro o _
  rw [Function.comp_apply]
  split <;> rfl

theorem generation?_ended (s : Slot κ) (g : Nat) (f : Stream → Stream) :
    (({ s with current := none } : Slot κ).onStream g f).generation? = none :=
  rfl

/-- The streams are numbered in the order in which they were opened, the current one is the last
of them, and it alone is not over. -/
structure Accounted (s : Slot κ) : Prop where
  generations : s.streams.map Opened.generation = List.range' 1 s.generations
  current_last : ∀ g, s.generation? = some g →
    (s.streams.map Opened.generation).getLast? = some g
  over_iff : ∀ o ∈ s.streams, o.stream.isOver = true ↔ s.generation? ≠ some o.generation

theorem accounted_empty : ({} : Slot κ).Accounted where
  generations := rfl
  current_last _ hg := nomatch hg
  over_iff _ ho := nomatch ho

theorem Accounted.generation_le (hs : s.Accounted) {o : Opened} (ho : o ∈ s.streams) :
    o.generation ≤ s.generations := by
  have hmem : o.generation ∈ List.range' 1 s.generations := by
    rw [← hs.generations]
    exact List.mem_map_of_mem ho
  rw [List.mem_range'_1] at hmem
  omega

theorem Accounted.current_le (hs : s.Accounted) {g : Nat} (hg : s.generation? = some g) :
    g ≤ s.generations := by
  obtain ⟨o, ho, rfl⟩ := List.mem_map.mp (List.mem_of_getLast? (hs.current_last g hg))
  exact hs.generation_le ho

theorem Accounted.effect (hs : s.Accounted) (h : s.Effect m t) : t.Accounted := by
  cases h with
  | idle _ => exact hs
  | opened closed =>
      have hnone : s.generation? = none := by rw [generation?, closed, Option.map_none]
      constructor
      · rw [List.map_append, hs.generations, List.range'_1_concat, Nat.add_comm 1]
        rfl
      · rintro g hg
        obtain rfl : s.generations + 1 = g := Option.some.inj hg
        rw [List.map_append]
        exact List.getLast?_concat
      · -- Nothing was current, so the streams before the new one are over.
        intro o ho
        rcases List.mem_append.mp ho with ho | ho
        · have hover : o.stream.isOver = true := (hs.over_iff o ho).mpr (by simp [hnone])
          have hlt : o.generation < s.generations + 1 := Nat.lt_succ_of_le (hs.generation_le ho)
          simpa [hover, generation?] using Nat.ne_of_gt hlt
        · obtain rfl := List.mem_singleton.mp ho
          simp [generation?, Stream.isOver]
  | @swapped g old callback current =>
      have hsame : ({ s with current := some (g, callback) } : Slot κ).generation? =
          s.generation? := by
        rw [generation?, generation?, current]
        rfl
      constructor
      · exact hs.generations
      · rw [hsame]
        exact hs.current_last
      · rw [hsame]
        exact hs.over_iff
  | @ended _ g _ f _ current ends =>
      have hsome : s.generation? = some g := by rw [generation?, current, Option.map_some]
      constructor
      · rw [map_generation_onStream]
        exact hs.generations
      · intro _ hg
        rw [generation?_ended] at hg
        contradiction
      · intro o ho
        refine ⟨fun _ => by simp [generation?_ended], fun _ => ?_⟩
        obtain ⟨o, hmem, rfl⟩ := List.mem_map.mp ho
        split
        · exact ends o.stream
        · rename_i hother
          rw [hs.over_iff o hmem, hsome]
          exact fun h => hother (Option.some.inj h).symm

theorem Accounted.play (hs : s.Accounted) (moves : List (Move κ)) : (s.play moves).Accounted := by
  induction moves generalizing s with
  | nil => exact hs
  | cons m moves ih => exact ih (hs.effect (s.effect_move m))

theorem accounted_after (moves : List (Move κ)) : (after moves).Accounted :=
  accounted_empty.play moves

/-- What becomes of a stream: it keeps its number, and is not taken up again once it is over. -/
structure Becomes (o o' : Opened) : Prop where
  generation : o'.generation = o.generation
  stays_over : o.stream.isOver = true → o'.stream.isOver = true

theorem Becomes.refl (o : Opened) : Becomes o o :=
  ⟨rfl, id⟩

theorem Becomes.trans {o o' o'' : Opened} (h : Becomes o o') (h' : Becomes o' o'') :
    Becomes o o'' :=
  ⟨h'.generation.trans h.generation, h'.stays_over ∘ h.stays_over⟩

theorem Effect.becomes (h : s.Effect m t) {i : Nat} {o : Opened} (ho : s.streams[i]? = some o) :
    ∃ o', t.streams[i]? = some o' ∧ Becomes o o' := by
  cases h with
  | idle _ => exact ⟨o, ho, .refl o⟩
  | opened _ =>
      have hi := (List.getElem?_eq_some_iff.mp ho).1
      exact ⟨o, (List.getElem?_append_left hi).trans ho, .refl o⟩
  | swapped _ => exact ⟨o, ho, .refl o⟩
  | @ended _ g _ f _ _ ends =>
      rw [onStream, List.getElem?_map, ho]
      by_cases hg : o.generation = g
      · exact ⟨{ o with stream := f o.stream }, by simp [hg], rfl, fun _ => ends o.stream⟩
      · exact ⟨o, by simp [hg], .refl o⟩

theorem becomes_play {i : Nat} {o : Opened} (ho : s.streams[i]? = some o)
    (moves : List (Move κ)) : ∃ o', (s.play moves).streams[i]? = some o' ∧ Becomes o o' := by
  induction moves generalizing s o with
  | nil => exact ⟨o, ho, .refl o⟩
  | cons m moves ih =>
      obtain ⟨mid, hmid, hfirst⟩ := (s.effect_move m).becomes ho
      obtain ⟨o', ho', hrest⟩ := ih hmid
      exact ⟨o', ho', hfirst.trans hrest⟩

theorem Effect.length_streams (h : s.Effect m t) :
    t.streams.length = s.streams.length + if m.attached?.isSome && !s.isOpen then 1 else 0 := by
  cases h with
  | idle silent => rw [silent]; rfl
  | opened closed => simp [Move.attached?, isOpen, closed]
  | swapped current => simp [Move.attached?, isOpen, current]
  | ended silent _ _ => simp [silent, onStream]

/-- At every time the streams are accounted for. None of them comes back once it is over, a stream
is opened exactly for a callback in a closed slot, and exactly an open slot has one to end. -/
structure Tracked (moves : List (Move κ)) : Prop where
  accounted : ∀ n, (after (moves.take n)).Accounted
  becomes : ∀ (n k i : Nat) (o : Opened), (after (moves.take n)).streams[i]? = some o →
    ∃ o', (after (moves.take (n + k))).streams[i]? = some o' ∧ Becomes o o'
  opens : ∀ n m, moves[n]? = some m →
    (after (moves.take (n + 1))).streams.length = (after (moves.take n)).streams.length +
      if m.attached?.isSome && !(after (moves.take n)).isOpen then 1 else 0
  ends : ∀ n, (after (moves.take n)).detach.2 = true ↔ (after (moves.take n)).isOpen = true

theorem tracked (moves : List (Move κ)) : Tracked moves where
  accounted _ := accounted_after _
  becomes n k i o ho := by
    rw [after_take_add]
    exact becomes_play ho _
  opens n m hm := by
    rw [after_take_succ hm]
    exact (effect_move _ m).length_streams
  ends n := by rw [detach_ended]

/-- The stream of the generation was opened, and is not current any more. -/
structure Past (s : Slot κ) (g : Nat) : Prop where
  given : g ≤ s.generations
  not_current : s.generation? ≠ some g

theorem Effect.generations_le (h : s.Effect m t) : s.generations ≤ t.generations := by
  cases h with
  | opened _ => exact Nat.le_succ _
  | _ => exact Nat.le_refl _

theorem Past.effect {g : Nat} (hg : s.Past g) (h : s.Effect m t) : t.Past g := by
  refine ⟨Nat.le_trans hg.given h.generations_le, ?_⟩
  obtain ⟨hgiven, hcurrent⟩ := hg
  cases h with
  | idle _ => exact hcurrent
  | opened _ =>
      intro hnew
      have : s.generations + 1 = g := Option.some.inj hnew
      omega
  | swapped current =>
      intro hnew
      rw [generation?, current] at hcurrent
      exact hcurrent hnew
  | ended _ _ _ => simp [generation?_ended]

theorem Past.play {g : Nat} (hg : s.Past g) (moves : List (Move κ)) : (s.play moves).Past g := by
  induction moves generalizing s with
  | nil => exact hg
  | cons m moves ih => exact ih (hg.effect (s.effect_move m))

theorem past_of_ended {moves : List (Move κ)} {n k g : Nat} (hm : moves[n]? = some m)
    (hg : (after (moves.take n)).generation? = some g)
    (hended : (after (moves.take (n + 1))).isOpen = false) (hk : n < k) :
    (after (moves.take k)).Past g := by
  have hpast : (after (moves.take (n + 1))).Past g := by
    constructor
    · rw [after_take_succ hm]
      exact Nat.le_trans ((accounted_after _).current_le hg) (effect_move _ m).generations_le
    · have hclosed : (after (moves.take (n + 1))).current = none := by simpa [isOpen] using hended
      simp [generation?, hclosed]
  obtain ⟨d, rfl⟩ := Nat.exists_eq_add_of_lt hk
  rw [Nat.add_right_comm, after_take_add]
  exact hpast.play _

end Slot

end Keyspace.Snapshot
