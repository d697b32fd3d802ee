import Keyspace.Wire.Scalar
import Mathlib.Data.List.Basic

namespace Keyspace.Wire

/-- A reader takes some bytes, and what it takes does not depend on those that it leaves. -/
def Steady (read : Bytes → Read α) : Prop :=
  ∀ ⦃s v rest⦄, read s = .ok (v, rest) →
    ∃ payload, s = payload ++ rest ∧ payload ≠ [] ∧ ∀ t, read (payload ++ t) = .ok (v, t)

theorem Steady.length_lt {α : Type} {read : Bytes → Read α} {s rest : Bytes} {v : α}
    (hread : Steady read) (h : read s = .ok (v, rest)) : rest.length < s.length := by
  obtain ⟨payload, rfl, hne, -⟩ := hread h
  have hpos := List.length_pos_iff.mpr hne
  rw [List.length_append]
  omega

theorem bind_eq_ok {ε α β : Type} {x : Except ε α} {f : α → Except ε β} {b : β} :
    x.bind f = .ok b ↔ ∃ a, x = .ok a ∧ f a = .ok b := by
  cases x <;> simp [Except.bind]

theorem map_eq_ok {ε α β : Type} {x : Except ε α} {f : α → β} {b : β} :
    x.map f = .ok b ↔ ∃ a, x = .ok a ∧ f a = b := by
  cases x <;> simp [Except.map]

theorem Steady.refine {α β : Type} {read : Bytes → Read α} {read' : Bytes → Read β}
    (hread : Steady read) (f : α → Except Fault β)
    (heq : ∀ s, read' s = (read s).bind fun taken => (f taken.1).map fun v => (v, taken.2)) :
    Steady read' := by
  intro s v rest h
  rw [heq] at h
  obtain ⟨⟨a, rest'⟩, hs, hmap⟩ := bind_eq_ok.mp h
  obtain ⟨u, hf, heq'⟩ := map_eq_ok.mp hmap
  cases heq'
  obtain ⟨payload, rfl, hne, hsteady⟩ := hread hs
  refine ⟨payload, rfl, hne, fun t => ?_⟩
  rw [heq, bind_eq_ok]
  exact ⟨(a, t), hsteady t, map_eq_ok.mpr ⟨v, hf, rfl⟩⟩

theorem Varint.decodeWithin_append {room n : Nat} {s rest : Bytes}
    (h : decodeWithin room s = some (n, rest)) :
    ∃ payload, s = payload ++ rest ∧ payload ≠ [] ∧
      ∀ t, decodeWithin room (payload ++ t) = some (n, t) := by
  induction room generalizing s n with
  | zero => cases h
  | succ room ih =>
      cases s with
      | nil => cases h
      | cons b s =>
          rw [decodeWithin] at h
          split at h
          · rename_i hlast
            split at h
            · cases h
            · rename_i hroom
              cases h
              refine ⟨[b], rfl, by simp, fun t => ?_⟩
              rw [List.singleton_append, decodeWithin, if_pos hlast, if_neg hroom]
          · rename_i hmore
            obtain ⟨⟨high, rest'⟩, hread, heq⟩ := Option.map_eq_some_iff.mp h
            cases heq
            obtain ⟨payload, rfl, -, hsteady⟩ := ih hread
            refine ⟨b :: payload, rfl, by simp, fun t => ?_⟩
            rw [List.cons_append, decodeWithin, if_neg hmore, hsteady, Option.map_some]

theorem Varint.steady_decode : Steady decode := by
  intro s n rest h
  rw [decode] at h
  split at h
  · rename_i hfound
    cases h
    obtain ⟨payload, rfl, hne, hsteady⟩ := decodeWithin_append hfound
    refine ⟨payload, rfl, hne, fun t => ?_⟩
    rw [decode, hsteady]
  · cases h

theorem Key.steady_decode : Steady decode := by
  refine Varint.steady_decode.refine (fun key =>
    if UInt32.size ≤ key then .error (.invalidKey key)
    else (WireType.ofCode? (key % 8)).elim (.error (.invalidWireType (key % 8))) fun w =>
      if key / 8 = 0 then .error .invalidTag else .ok (key / 8, w)) fun s => ?_
  rw [decode]
  cases Varint.decode s with
  | error fault => rfl
  | ok taken =>
      dsimp only [Except.bind]
      split
      · rfl
      · cases WireType.ofCode? (taken.1 % 8) with
        | none => rfl
        | some w =>
            dsimp only [Option.elim_some]
            split <;> rfl

theorem Scalar.readSized_eq_ok {s content rest : Bytes} : readSized s = .ok (content, rest) ↔
    Varint.decode s = .ok (content.length, content ++ rest) := by
  rw [readSized]
  constructor
  · intro h
    split at h
    · cases h
    · rename_i n s' hn
      split at h
      · cases h
      · rename_i hle
        cases h
        rw [hn, List.take_append_drop, List.length_take, Nat.min_eq_left (Nat.not_lt.mp hle)]
  · intro h
    rw [h]
    simp

theorem Scalar.steady_readSized : Steady readSized := by
  intro s content rest h
  obtain ⟨head, hs, hne, hsteady⟩ := Varint.steady_decode (readSized_eq_ok.mp h)
  refine ⟨head ++ content, by rw [hs, List.append_assoc], by simp [hne], fun t => ?_⟩
  rw [readSized_eq_ok, List.append_assoc, hsteady]

theorem Steady.skip {α : Type} {read : Bytes → Read α} {s rest : Bytes} (hread : Steady read)
    (h : (read s).map Prod.snd = .ok rest) :
    ∃ payload, s = payload ++ rest ∧ ∀ t, (read (payload ++ t)).map Prod.snd = .ok t := by
  obtain ⟨⟨v, rest'⟩, hs, rfl⟩ := map_eq_ok.mp h
  obtain ⟨payload, heq, -, hpayload⟩ := hread hs
  exact ⟨payload, heq, fun t => map_eq_ok.mpr ⟨(v, t), hpayload t, rfl⟩⟩

theorem skipPayload_varint (levels tag : Nat) (s : Bytes) :
    skipPayload (levels + 1) .varint tag s = (Varint.decode s).map Prod.snd :=
  rfl

theorem skipPayload_lengthDelimited (levels tag : Nat) (s : Bytes) :
    skipPayload (levels + 1) .lengthDelimited tag s = (Scalar.readSized s).map Prod.snd := by
  simp only [skipPayload, Scalar.readSized]
  cases Varint.decode s with
  | error fault => rfl
  | ok taken =>
      dsimp only [advance]
      split <;> rfl

theorem advance_eq_ok {n : Nat} {s rest : Bytes} :
    advance n s = .ok rest ↔ ∃ payload, s = payload ++ rest ∧ payload.length = n := by
  rw [advance]
  constructor
  · intro h
    split at h
    · cases h
    · rename_i hle
      cases h
      refine ⟨s.take n, (List.take_append_drop n s).symm, ?_⟩
      rw [List.length_take, Nat.min_eq_left (Nat.not_lt.mp hle)]
  · rintro ⟨payload, rfl, rfl⟩
    rw [if_neg (by simp), List.drop_left]

theorem advance_append {n : Nat} {s rest : Bytes} (h : advance n s = .ok rest) :
    ∃ payload, s = payload ++ rest ∧ ∀ t, advance n (payload ++ t) = .ok t := by
  obtain ⟨payload, heq, hlength⟩ := advance_eq_ok.mp h
  exact ⟨payload, heq, fun t => advance_eq_ok.mpr ⟨payload, rfl, hlength⟩⟩

section

variable {skip : WireType → Nat → Bytes → Except Fault Bytes} {levels tag inner room : Nat}
  {w : WireType} {s rest : Bytes}

theorem skipGroup_of_record (hkey : Key.decode s = .ok ((inner, w), rest)) (hw : w ≠ .endGroup) :
    skipGroup skip tag (room + 1) s =
      (skip w inner rest).bind fun rest => skipGroup skip tag room rest := by
  rw [skipGroup, hkey]
  cases w with
  | endGroup => exact absurd rfl hw
  | _ => dsimp only; cases skip _ inner rest <;> rfl

theorem skipGroup_of_end (hkey : Key.decode s = .ok ((inner, .endGroup), rest)) :
    skipGroup skip tag (room + 1) s =
      if inner = tag then .ok rest else .error .unexpectedEndGroup := by
  rw [skipGroup, hkey]

theorem skipGroup_append
    (hskip : ∀ {w tag s rest}, skipPayload levels w tag s = .ok rest →
      ∃ payload, s = payload ++ rest ∧ ∀ levels', levels ≤ levels' →
        ∀ t, skipPayload levels' w tag (payload ++ t) = .ok t)
    (h : skipGroup (skipPayload levels) tag room s = .ok rest) :
    ∃ payload, s = payload ++ rest ∧ ∀ levels', levels ≤ levels' → ∀ room', payload.length < room' →
      ∀ t, skipGroup (skipPayload levels') tag room' (payload ++ t) = .ok t := by
  induction room generalizing s with
  | zero => cases h
  | succ room ih =>
      cases hkey : Key.decode s with
      | error fault =>
          rw [skipGroup, hkey] at h
          cases h
      | ok taken =>
          obtain ⟨⟨inner, w⟩, s'⟩ := taken
          obtain ⟨head, rfl, hne, hsteady⟩ := Key.steady_decode hkey
          have hhead := List.length_pos_iff.mpr hne
          by_cases hw : w = .endGroup
          · subst hw
            rw [skipGroup_of_end hkey] at h
            split at h
            · rename_i htag
              cases h
              refine ⟨head, rfl, fun levels' _ room' hroom t => ?_⟩
              obtain ⟨room', rfl⟩ := Nat.exists_eq_add_one_of_ne_zero (Nat.ne_zero_of_lt hroom)
              rw [skipGroup_of_end (hsteady t), if_pos htag]
            · cases h
          · rw [skipGroup_of_record hkey hw] at h
            obtain ⟨s'', hrecord, hgroup⟩ := bind_eq_ok.mp h
            obtain ⟨payload, rfl, hpayload⟩ := hskip hrecord
            obtain ⟨more, rfl, hmore⟩ := ih hgroup
            refine ⟨head ++ payload ++ more, by simp, fun levels' hle room' hroom t => ?_⟩
            obtain ⟨room', rfl⟩ := Nat.exists_eq_add_one_of_ne_zero (Nat.ne_zero_of_lt hroom)
            simp only [List.length_append] at hroom
            rw [List.append_assoc, List.append_assoc, skipGroup_of_record (hsteady _) hw,
              hpayload levels' hle]
            exact hmore levels' hle room' (by omega) t

end

/-- A payload is skipped in the same way with more levels left. -/
theorem skipPayload_append {levels : Nat} {w : WireType} {tag : Nat} {s rest : Bytes}
    (h : skipPayload levels w tag s = .ok rest) :
    ∃ payload, s = payload ++ rest ∧ ∀ levels', levels ≤ levels' →
      ∀ t, skipPayload levels' w tag (payload ++ t) = .ok t := by
  induction levels generalizing w tag s rest with
  | zero => cases h
  | succ levels ih =>
      -- All that a level is needed for is that there is one, and a group to have one less inside.
      suffices hone : ∃ payload, s = payload ++ rest ∧ ∀ levels', levels ≤ levels' →
          ∀ t, skipPayload (levels' + 1) w tag (payload ++ t) = .ok t by
        obtain ⟨payload, heq, hpayload⟩ := hone
        refine ⟨payload, heq, fun levels' hle t => ?_⟩
        obtain ⟨levels', rfl⟩ := Nat.exists_eq_add_one_of_ne_zero (Nat.ne_zero_of_lt hle)
        exact hpayload levels' (Nat.le_of_succ_le_succ hle) t
      cases w with
      | varint =>
          rw [skipPayload_varint] at h
          obtain ⟨payload, heq, hpayload⟩ := Varint.steady_decode.skip h
          exact ⟨payload, heq, fun levels' _ t => hpayload t⟩
      | thirtyTwoBit =>
          change advance 4 s = .ok rest at h
          obtain ⟨payload, heq, hpayload⟩ := advance_append h
          exact ⟨payload, heq, fun levels' _ t => hpayload t⟩
      | sixtyFourBit =>
          change advance 8 s = .ok rest at h
          obtain ⟨payload, heq, hpayload⟩ := advance_append h
          exact ⟨payload, heq, fun levels' _ t => hpayload t⟩
      | lengthDelimited =>
          rw [skipPayload_lengthDelimited] at h
          obtain ⟨payload, heq, hpayload⟩ := Scalar.steady_readSized.skip h
          refine ⟨payload, heq, fun levels' _ t => ?_⟩
          rw [skipPayload_lengthDelimited, hpayload]
      | startGroup =>
          obtain ⟨payload, heq, hpayload⟩ := skipGroup_append ih h
          refine ⟨payload, heq, fun levels' hle t => hpayload levels' hle _ ?_ t⟩
          rw [List.length_append]
          omega
      | endGroup => cases h

/-- The values are read as far as one goes who skips them. -/
structure Scalar.Steady (kind : Scalar α) : Prop where
  read : Wire.Steady kind.read
  skip : ∀ {s v rest}, kind.read s = .ok (v, rest) →
    ∀ levels tag, skipPayload (levels + 1) kind.wireType tag s = .ok rest

namespace Scalar

theorem steady_number [DecidableEq α] {zero : α} {toNat : α → Nat} {ofNat : Nat → α} :
    (number zero toNat ofNat).Steady where
  read := Varint.steady_decode.refine (fun n => .ok (ofNat n)) fun s => by
    cases hs : Varint.decode s <;> simp [number, hs, Except.map, Except.bind]
  skip h levels tag := by
    obtain ⟨⟨n, rest⟩, hn, heq⟩ := map_eq_ok.mp h
    cases heq
    exact map_eq_ok.mpr ⟨_, hn, rfl⟩

theorem steady_bytes : bytes.Steady where
  read := steady_readSized
  skip h levels tag := by
    change skipPayload (levels + 1) .lengthDelimited tag _ = _
    rw [skipPayload_lengthDelimited]
    exact map_eq_ok.mpr ⟨_, h, rfl⟩

theorem steady_text : text.Steady where
  read := steady_readSized.refine
    (fun payload => payload.text?.elim (.error .invalidText) .ok) fun s => by
      rw [text]
      dsimp only
      cases readSized s with
      | error fault => rfl
      | ok taken =>
          dsimp only [Except.bind]
          cases taken.1.text? <;> rfl
  skip h levels tag := by
    change skipPayload (levels + 1) .lengthDelimited tag _ = _
    rw [skipPayload_lengthDelimited]
    rw [text] at h
    dsimp only at h
    split at h
    · cases h
    · rename_i payload rest hsized
      split at h
      · cases h
      · cases h
        exact map_eq_ok.mpr ⟨_, hsized, rfl⟩

theorem merge_eq_ok {kind : Scalar α} {w : WireType} {old v : α} {s rest : Bytes} :
    kind.merge w old s = ⟨v, .ok rest⟩ ↔ w = kind.wireType ∧ kind.read s = .ok (v, rest) := by
  rw [merge]
  split
  · rename_i hw
    cases hread : kind.read s with
    | error fault => simp
    | ok taken => simp [hw, Prod.ext_iff]
  · rename_i hw
    simp [hw]

end Scalar

end Keyspace.Wire
