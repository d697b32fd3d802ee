import Keyspace.Proofs.MessageKindFields

namespace Keyspace

namespace Wire.Codec

variable {M : Type} {c : Codec M} {levels limit room room' : Nat} {m m' m'' : M}
  {s t x y rest : Bytes} {rs : List Record}

theorem Steady.mergeRecords_eq (hc : c.Steady) (hle : levels ≤ nestingLimit)
    (hroom : s.length < room) (hroom' : s.length < room') :
    c.mergeRecords levels limit room m s = c.mergeRecords levels limit room' m s := by
  induction room generalizing room' m s with
  | zero => exact absurd hroom (Nat.not_lt_zero _)
  | succ room ih =>
      obtain ⟨room', rfl⟩ := Nat.exists_eq_add_one_of_ne_zero (Nat.ne_zero_of_lt hroom')
      rw [mergeRecords, mergeRecords]
      split
      · rfl
      · rcases hrecord : c.mergeRecord levels m s with ⟨m', fault | rest⟩
        · rfl
        · have hlt := hc.length_lt hle hrecord
          exact ih (by omega) (by omega)

theorem Steady.merge_of_record (hc : c.Steady)
    (h : c.mergeRecord nestingLimit m s = ⟨m', .ok rest⟩) : c.merge m s = c.merge m' rest := by
  have hlt := hc.length_lt (Nat.le_refl _) h
  rw [merge, mergeRecords, if_neg (by omega), h]
  exact hc.mergeRecords_eq (Nat.le_refl _) (by omega) (by omega)

theorem Steady.merge_of_reads (hc : c.Steady) (h : c.Reads nestingLimit m s m' t) :
    c.merge m s = c.merge m' t := by
  induction h with
  | done m s => rfl
  | record merge _ _ ih => rw [hc.merge_of_record merge, ih]

theorem Steady.reads_append (hc : c.Steady) (hle : levels ≤ nestingLimit)
    (h : c.Reads levels m x m' []) (y : Bytes) : c.Reads levels m (x ++ y) m' y := by
  obtain ⟨bytes, rs, rfl, -, -, hsteady⟩ := hc.reads hle h
  rw [List.append_nil]
  exact hsteady levels (Nat.le_refl _) y

theorem Steady.merge_append (hc : c.Steady) (hx : c.merge m x = ⟨m', .ok rest⟩) (y : Bytes) :
    c.merge m (x ++ y) = c.merge m' y := by
  obtain ⟨rfl, hreads⟩ := hc.merge_eq_ok.mp hx
  exact hc.merge_of_reads (hc.reads_append (Nat.le_refl _) hreads y)

/-- A message that can be read can be cut behind any of its records. -/
theorem Steady.reads_split (hc : c.Steady) (hle : levels ≤ nestingLimit)
    (hrs : records x = .ok rs) (h : c.Reads levels m (x ++ y) m'' []) :
    ∃ m', c.Reads levels m x m' [] ∧ c.Reads levels m' y m'' [] := by
  induction rs generalizing m x with
  | nil =>
      obtain ⟨rfl, -⟩ | ⟨_, _, _, -, -, heq⟩ := records_eq_ok.mp hrs
      · exact ⟨m, .done m [], h⟩
      · cases heq
  | cons r rs ih =>
      obtain ⟨-, heq⟩ | ⟨r', rest, rs', hread, hrest, heq⟩ := records_eq_ok.mp hrs
      · cases heq
      cases heq
      obtain ⟨head, rfl, hne, hsteady⟩ := Record.steady_read hread
      rw [List.append_assoc] at h
      generalize hs : head ++ (rest ++ y) = s at h
      cases h with
      | done => simp [hne] at hs
      | record merge _ more =>
          -- The record that is read over the message is the one that stands first.
          obtain ⟨r', bytes, rfl, -, hfirst, -, hrecord⟩ := hc.mergeRecord hle merge
          have hsame := hsteady (rest ++ y)
          rw [hs, hfirst] at hsame
          cases hsame
          obtain rfl := List.append_cancel_right hs
          obtain ⟨m', hx, hy⟩ := ih hrest more
          refine ⟨m', .record (hrecord levels (Nat.le_refl _) rest) ?_ hx, hy⟩
          exact Record.steady_read.length_lt hread

end Wire.Codec

open Wire

namespace MessageKind

/-- If the first of two pieces can be read over a message, then reading both comes to what reading
the second one over the result comes to, be it a message or a fault and what was read before it.
Of a whole that can be read, the first piece can be read if it ends where a record ends. -/
theorem merge_in_pieces (kind : MessageKind) (m : kind.Carrier) (x y : Bytes) :
    (∀ m' rest, kind.codec.merge m x = ⟨m', .ok rest⟩ →
      kind.codec.merge m (x ++ y) = kind.codec.merge m' y) ∧
    ∀ m'' rest, kind.codec.merge m (x ++ y) = ⟨m'', .ok rest⟩ →
      ((∃ rs, records x = .ok rs) ↔ ∃ m', kind.codec.merge m x = ⟨m', .ok []⟩) := by
  have hc := kind.steady_codec
  refine ⟨fun m' rest hx => hc.merge_append hx y, fun m'' rest hwhole => ⟨?_, ?_⟩⟩
  · rintro ⟨rs, hrs⟩
    obtain ⟨-, hreads⟩ := hc.merge_eq_ok.mp hwhole
    obtain ⟨m', hx, -⟩ := hc.reads_split (Nat.le_refl _) hrs hreads
    exact ⟨m', hc.merge_eq_ok.mpr ⟨rfl, hx⟩⟩
  · rintro ⟨m', hx⟩
    obtain ⟨-, hreads⟩ := hc.merge_eq_ok.mp hx
    obtain ⟨bytes, rs, rfl, hrs, -⟩ := hc.reads (Nat.le_refl _) hreads
    exact ⟨rs, by rwa [List.append_nil]⟩

/-- A put in three pieces, of which the last one breaks off. -/
theorem merge_in_pieces_of_one_member :
    let x : Bytes := [18, 4, 10, 2, 24, 7]
    let y : Bytes := [18, 4, 10, 2, 32, 3]
    let first : ResponseOp := { response := some (.put { header := some { revision := 7 } }) }
    let both : ResponseOp :=
      { response := some (.put { header := some { revision := 7, raftTerm := 3 } }) }
    ResponseOp.codec.merge {} x = ⟨first, .ok []⟩ ∧
      ResponseOp.codec.merge {} (x ++ y) = ResponseOp.codec.merge first y ∧
      ResponseOp.codec.merge first y = ⟨both, .ok []⟩ ∧
      ResponseOp.codec.merge {} (x ++ (y ++ [18, 9])) =
        ResponseOp.codec.merge first (y ++ [18, 9]) ∧
      ResponseOp.codec.merge first (y ++ [18, 9]) = ⟨both, .error .bufferUnderflow⟩ := by
  intro x y first both
  have hx : ResponseOp.codec.merge {} x = ⟨first, .ok []⟩ := by rfl
  exact ⟨hx, (merge_in_pieces .responseOp {} x y).1 first [] hx, rfl,
    (merge_in_pieces .responseOp {} x (y ++ [18, 9])).1 first [] hx, rfl⟩

end MessageKind

end Keyspace
