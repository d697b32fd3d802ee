import Keyspace.Proofs.ReaderExtent
import Keyspace.Proofs.RecordLaws

/-!
Messages as lists of records. The bytes of a message split into records without any knowledge of
its fields, and the message is what its records make of the empty one, each read by itself.
-/

namespace Keyspace.Wire

/-- One record of a message, whose payload is known but not read. -/
structure Record where
  tag : Nat
  wireType : WireType
  payload : Bytes
  deriving DecidableEq, Repr

namespace Record

/-- The first record of a message, which ends where one ends who skips it. -/
def read (s : Bytes) : Read Record :=
  (Key.decode s).bind fun ((tag, wireType), s) =>
    (skipPayload nestingLimit wireType tag s).map fun rest =>
      ({ tag, wireType, payload := s.take (s.length - rest.length) }, rest)

def content (r : Record) : Except Fault Bytes :=
  if r.wireType = .lengthDelimited then (Scalar.readSized r.payload).map Prod.fst
  else .error (.wrongWireType r.wireType .lengthDelimited)

theorem read_eq_ok {r : Record} {s rest : Bytes} :
    read s = .ok (r, rest) ↔
      Key.decode s = .ok ((r.tag, r.wireType), r.payload ++ rest) ∧
        skipPayload nestingLimit r.wireType r.tag (r.payload ++ rest) = .ok rest := by
  rw [read, bind_eq_ok]
  constructor
  · rintro ⟨⟨⟨tag, w⟩, s'⟩, hkey, h⟩
    obtain ⟨rest', hskip, heq⟩ := map_eq_ok.mp h
    obtain ⟨payload, rfl, -⟩ := skipPayload_append hskip
    cases heq
    simpa using ⟨hkey, hskip⟩
  · rintro ⟨hkey, hskip⟩
    exact ⟨_, hkey, map_eq_ok.mpr ⟨rest, hskip, by simp⟩⟩

theorem steady_read : Steady read := by
  intro s r rest h
  obtain ⟨hkey, hskip⟩ := read_eq_ok.mp h
  obtain ⟨head, rfl, hne, hsteady⟩ := Key.steady_decode hkey
  obtain ⟨payload, heq, hpayload⟩ := skipPayload_append hskip
  obtain rfl := List.append_cancel_right heq
  refine ⟨head ++ r.payload, by rw [List.append_assoc], by simp [hne], fun t => ?_⟩
  rw [read_eq_ok, List.append_assoc]
  exact ⟨hsteady _, hpayload _ (Nat.le_refl _) t⟩

end Record

/-- The records of a message. The number `room` bounds how many they are. -/
def recordsWithin : (room : Nat) → Bytes → Except Fault (List Record)
  | _, [] => .ok []
  | 0, _ :: _ => .error .invalidVarint
  | room + 1, b :: s =>
      (Record.read (b :: s)).bind fun (r, rest) => (recordsWithin room rest).map (r :: ·)

def records (s : Bytes) : Except Fault (List Record) :=
  recordsWithin s.length s

section

variable {s t rest : Bytes} {r : Record} {rs rs' : List Record}

theorem recordsWithin_cons {room : Nat} (hread : Record.read s = .ok (r, rest)) :
    recordsWithin (room + 1) s = (recordsWithin room rest).map (r :: ·) := by
  cases s with
  | nil => cases hread
  | cons b s =>
      rw [recordsWithin, hread]
      rfl

theorem recordsWithin_eq {room room' : Nat} (hroom : s.length ≤ room) (hroom' : s.length ≤ room') :
    recordsWithin room s = recordsWithin room' s := by
  induction room generalizing s room' with
  | zero =>
      obtain rfl := List.eq_nil_of_length_eq_zero (Nat.le_zero.mp hroom)
      cases room' <;> rfl
  | succ room ih =>
      cases s with
      | nil => cases room' <;> rfl
      | cons b s =>
          obtain ⟨room', rfl⟩ := Nat.exists_eq_add_one_of_ne_zero (Nat.ne_zero_of_lt hroom')
          cases hread : Record.read (b :: s) with
          | error fault =>
              rw [recordsWithin, recordsWithin, hread]
              rfl
          | ok taken =>
              obtain ⟨r, rest⟩ := taken
              rw [recordsWithin_cons hread, recordsWithin_cons hread]
              have hlt : rest.length < (b :: s).length := Record.steady_read.length_lt hread
              have hrest : recordsWithin room rest = recordsWithin room' rest :=
                ih (by omega) (by omega)
              rw [hrest]

theorem records_cons (hread : Record.read s = .ok (r, rest)) :
    records s = (records rest).map (r :: ·) := by
  have hlt : rest.length < s.length := Record.steady_read.length_lt hread
  obtain ⟨room, hroom⟩ := Nat.exists_eq_add_one_of_ne_zero (n := s.length) (by omega)
  have hrest : recordsWithin room rest = recordsWithin rest.length rest :=
    recordsWithin_eq (by omega) (Nat.le_refl _)
  rw [records, hroom, recordsWithin_cons hread, hrest, records]

theorem records_eq_ok :
    records s = .ok rs ↔ s = [] ∧ rs = [] ∨
      ∃ r rest rs', Record.read s = .ok (r, rest) ∧ records rest = .ok rs' ∧ rs = r :: rs' := by
  constructor
  · intro h
    cases s with
    | nil =>
        cases h
        exact .inl ⟨rfl, rfl⟩
    | cons b s =>
        have hsplit := h
        rw [records, List.length_cons, recordsWithin] at hsplit
        obtain ⟨⟨r, rest⟩, hread, -⟩ := bind_eq_ok.mp hsplit
        rw [records_cons hread] at h
        obtain ⟨rs', hrest, rfl⟩ := map_eq_ok.mp h
        exact .inr ⟨r, rest, rs', hread, hrest, rfl⟩
  · rintro (⟨rfl, rfl⟩ | ⟨r, rest, rs', hread, hrest, rfl⟩)
    · rfl
    · rw [records_cons hread, hrest]
      rfl

theorem records_append (hs : records s = .ok rs) (ht : records t = .ok rs') :
    records (s ++ t) = .ok (rs ++ rs') := by
  induction rs generalizing s with
  | nil =>
      obtain ⟨rfl, -⟩ | ⟨_, _, _, -, -, heq⟩ := records_eq_ok.mp hs
      · exact ht
      · cases heq
  | cons r rs ih =>
      obtain ⟨-, heq⟩ | ⟨r', rest, rs'', hread, hrest, heq⟩ := records_eq_ok.mp hs
      · cases heq
      · cases heq
        obtain ⟨bytes, rfl, -, hsteady⟩ := Record.steady_read hread
        rw [List.append_assoc, records_cons (hsteady _), ih hrest]
        rfl

end

/-- Reading over an old value takes what one takes who skips it, whatever follows and also with
more levels left. -/
structure SteadyMerge (merge : (tag : Nat) → WireType → (levels : Nat) → V → Bytes → Merged V) :
    Prop where
  append : ∀ {tag w levels old s v rest}, levels ≤ nestingLimit →
    merge tag w levels old s = ⟨v, .ok rest⟩ →
      ∃ payload, s = payload ++ rest ∧ ∀ levels', levels ≤ levels' → ∀ t,
        merge tag w levels' old (payload ++ t) = ⟨v, .ok t⟩
  skip : ∀ {tag w levels old s v rest}, levels ≤ nestingLimit →
    merge tag w levels old s = ⟨v, .ok rest⟩ →
      ∀ levels', levels ≤ levels' → 0 < levels' → skipPayload levels' w tag s = .ok rest

def Record.readOver (merge : (tag : Nat) → WireType → (levels : Nat) → V → Bytes → Merged V)
    (v : V) (r : Record) : Except Fault V :=
  match merge r.tag r.wireType nestingLimit v r.payload with
  | ⟨v, .ok _⟩ => .ok v
  | ⟨_, .error fault⟩ => .error fault

def merged (merge : (tag : Nat) → WireType → (levels : Nat) → V → Bytes → Merged V) :
    V → List Record → Except Fault V
  | v, [] => .ok v
  | v, r :: rs => (r.readOver merge v).bind fun v => merged merge v rs

section

variable {V W : Type} {merge : (tag : Nat) → WireType → (levels : Nat) → V → Bytes → Merged V}
  {r : Record} {rs rs' : List Record} {v v' v'' : V} {s rest : Bytes}

theorem Record.readOver_eq_ok : r.readOver merge v = .ok v' ↔
    ∃ rest, merge r.tag r.wireType nestingLimit v r.payload = ⟨v', .ok rest⟩ := by
  rw [Record.readOver]
  split
  · rename_i heq
    simp [heq]
  · rename_i heq
    simp [heq]

theorem Record.readOver_congr
    {merge' : (tag : Nat) → WireType → (levels : Nat) → V → Bytes → Merged V}
    (h : merge r.tag = merge' r.tag) : r.readOver merge v = r.readOver merge' v := by
  rw [readOver, readOver, h]

theorem merged_cons : merged merge v (r :: rs) = .ok v'' ↔
    ∃ v', r.readOver merge v = .ok v' ∧ merged merge v' rs = .ok v'' :=
  bind_eq_ok

theorem merged_append : merged merge v (rs ++ rs') = .ok v'' ↔
    ∃ v', merged merge v rs = .ok v' ∧ merged merge v' rs' = .ok v'' := by
  induction rs generalizing v with
  | nil => simp [merged]
  | cons r rs ih =>
      simp only [List.cons_append, merged_cons, ih]
      grind

theorem merged_singleton : merged merge v [r] = r.readOver merge v := by
  rw [merged]
  cases r.readOver merge v <;> rfl

theorem merged_concat : merged merge v (rs ++ [r]) = .ok v'' ↔
    ∃ v', merged merge v rs = .ok v' ∧ r.readOver merge v' = .ok v'' := by
  simp only [merged_append, merged_singleton]

theorem SteadyMerge.readOver_iff (hmerge : SteadyMerge merge)
    (hread : Record.read s = .ok (r, rest)) :
    r.readOver merge v = .ok v' ↔
      merge r.tag r.wireType nestingLimit v (r.payload ++ rest) = ⟨v', .ok rest⟩ := by
  rw [Record.readOver_eq_ok]
  constructor
  · rintro ⟨left, h⟩
    obtain ⟨payload, heq, hsteady⟩ := hmerge.append (Nat.le_refl _) h
    have hskip := hmerge.skip (Nat.le_refl _) h nestingLimit (Nat.le_refl _) (by decide)
    obtain ⟨taken, heq', hpayload⟩ := skipPayload_append (Record.read_eq_ok.mp hread).2
    obtain rfl := List.append_cancel_right heq'
    have hend := hpayload nestingLimit (Nat.le_refl _) []
    rw [List.append_nil, hskip] at hend
    cases hend
    rw [List.append_nil] at heq
    rw [heq]
    exact hsteady nestingLimit (Nat.le_refl _) rest
  · intro h
    obtain ⟨payload, heq, hsteady⟩ := hmerge.append (Nat.le_refl _) h
    obtain rfl := List.append_cancel_right heq
    refine ⟨[], ?_⟩
    have hnil := hsteady nestingLimit (Nat.le_refl _) []
    rwa [List.append_nil] at hnil

theorem SteadyMerge.lift {merge' : (tag : Nat) → WireType → (levels : Nat) → W → Bytes → Merged W}
    (hmerge : SteadyMerge merge) (get : W → V) (set : W → V → W)
    (heq : ∀ {tag w levels old s new rest}, merge' tag w levels old s = ⟨new, .ok rest⟩ ↔
      ∃ v, merge tag w levels (get old) s = ⟨v, .ok rest⟩ ∧ set old v = new) :
    SteadyMerge merge' where
  append hle h := by
    obtain ⟨v, hv, hset⟩ := heq.mp h
    obtain ⟨payload, hs, hsteady⟩ := hmerge.append hle hv
    exact ⟨payload, hs, fun levels' hle t => heq.mpr ⟨v, hsteady levels' hle t, hset⟩⟩
  skip hle h := by
    obtain ⟨v, hv, -⟩ := heq.mp h
    exact hmerge.skip hle hv

theorem Merged.map_eq_ok {f : V → W} {x : Merged V} {w : W} :
    (⟨f x.value, x.rest⟩ : Merged W) = ⟨w, .ok rest⟩ ↔ ∃ v, x = ⟨v, .ok rest⟩ ∧ f v = w := by
  constructor
  · intro h
    obtain ⟨hvalue, hrest⟩ := Merged.mk.inj h
    exact ⟨x.value, by rw [← hrest], hvalue⟩
  · rintro ⟨v, rfl, rfl⟩
    rfl

theorem SteadyMerge.of_tags (h : ∀ tag, ∃ merge', SteadyMerge merge' ∧ merge tag = merge' tag) :
    SteadyMerge merge where
  append {tag _ _ _ _ _ _} hle hmerge := by
    obtain ⟨merge', hsteady, heq⟩ := h tag
    rw [heq] at hmerge ⊢
    exact hsteady.append hle hmerge
  skip {tag _ _ _ _ _ _} hle hmerge := by
    obtain ⟨merge', hsteady, heq⟩ := h tag
    rw [heq] at hmerge
    exact hsteady.skip hle hmerge

theorem steadyMerge_skip (f : V → V) : SteadyMerge fun tag w levels v s =>
    (⟨f v, skipPayload levels w tag s⟩ : Merged V) where
  append _ h := by
    obtain ⟨rfl, hskip⟩ := Merged.mk.inj h
    obtain ⟨payload, hs, hsteady⟩ := skipPayload_append hskip
    exact ⟨payload, hs, fun levels' hle t => by rw [hsteady levels' hle t]⟩
  skip _ h levels' hle _ := by
    obtain ⟨rfl, hskip⟩ := Merged.mk.inj h
    obtain ⟨payload, rfl, hsteady⟩ := skipPayload_append hskip
    exact hsteady levels' hle _

end

namespace Codec

/-- Reads the payload of a record into the field that its tag addresses, or skips it. -/
def mergeField (c : Codec M) (tag : Nat) (w : WireType) (levels : Nat) (m : M) (s : Bytes) :
    Merged M :=
  match c.field? tag with
  | some field =>
      let merged := field.merge tag w levels (field.part.get m) s
      ⟨field.part.set merged.value m, merged.rest⟩
  | none => ⟨m, skipPayload levels w tag s⟩

/-- All fields of the message go as far as one goes who skips them. -/
def Steady (c : Codec M) : Prop :=
  ∀ f ∈ c.fields, SteadyMerge f.merge

variable {c : Codec M} {levels limit room : Nat} {m m' : M} {s rest : Bytes}

theorem mergeRecord_eq_ok : c.mergeRecord levels m s = ⟨m', .ok rest⟩ ↔
    ∃ tag w payload, Key.decode s = .ok ((tag, w), payload) ∧
      c.mergeField tag w levels m payload = ⟨m', .ok rest⟩ := by
  rw [mergeRecord]
  cases hkey : Key.decode s with
  | error fault => simp
  | ok taken =>
      obtain ⟨⟨tag, w⟩, payload⟩ := taken
      simp only [Except.ok.injEq, Prod.mk.injEq, mergeField]
      grind

theorem field?_mem {f : Field M} {tag : Nat} (h : c.field? tag = some f) :
    f ∈ c.fields ∧ tag ∈ f.tags :=
  ⟨List.mem_of_find?_eq_some h, by simpa using List.find?_some h⟩

theorem mergeField_of_field {f : Field M} {tag : Nat} (hf : c.field? tag = some f) {w : WireType} :
    c.mergeField tag w levels m s = ⟨m', .ok rest⟩ ↔
      ∃ v, f.merge tag w levels (f.part.get m) s = ⟨v, .ok rest⟩ ∧ f.part.set v m = m' := by
  rw [mergeField, hf]
  exact Merged.map_eq_ok (f := fun v => f.part.set v m)

theorem mergeField_of_none {tag : Nat} (hf : c.field? tag = none) {w : WireType} :
    c.mergeField tag w levels m s = ⟨m, skipPayload levels w tag s⟩ := by
  rw [mergeField, hf]

theorem Steady.mergeField (hc : c.Steady) : SteadyMerge c.mergeField := by
  refine .of_tags fun tag => ?_
  cases hf : c.field? tag with
  | some f =>
      have hfield := hc f (field?_mem hf).1
      refine ⟨fun tag w levels m s => ⟨f.part.set (f.merge tag w levels (f.part.get m) s).value m,
        (f.merge tag w levels (f.part.get m) s).rest⟩,
        hfield.lift f.part.get (fun m v => f.part.set v m)
          (Merged.map_eq_ok (f := fun v => f.part.set v _)), ?_⟩
      funext w levels m s
      rw [Codec.mergeField, hf]
  | none =>
      refine ⟨_, steadyMerge_skip id, ?_⟩
      funext w levels m s
      rw [mergeField_of_none hf, id]

theorem Steady.mergeRecord (hc : c.Steady) (hle : levels ≤ nestingLimit)
    (h : c.mergeRecord levels m s = ⟨m', .ok rest⟩) :
    ∃ r bytes, s = bytes ++ rest ∧ bytes ≠ [] ∧ (∀ t, Record.read (bytes ++ t) = .ok (r, t)) ∧
      r.readOver c.mergeField m = .ok m' ∧ ∀ levels', levels ≤ levels' → ∀ t,
        c.mergeRecord levels' m (bytes ++ t) = ⟨m', .ok t⟩ := by
  obtain ⟨tag, w, payload, hkey, hfield⟩ := mergeRecord_eq_ok.mp h
  obtain ⟨head, rfl, hne, hhead⟩ := Key.steady_decode hkey
  obtain ⟨payload, rfl, hsteady⟩ := hc.mergeField.append hle hfield
  -- The field takes what one takes who skips it, so the record ends where its field does.
  have hskip := hc.mergeField.skip hle hfield nestingLimit hle (by decide)
  obtain ⟨taken, heq, htaken⟩ := skipPayload_append hskip
  obtain rfl := List.append_cancel_right heq
  have hread (t : Bytes) : Record.read (head ++ payload ++ t) = .ok (⟨tag, w, payload⟩, t) := by
    rw [Record.read_eq_ok, List.append_assoc]
    exact ⟨hhead _, htaken _ (Nat.le_refl _) t⟩
  refine ⟨⟨tag, w, payload⟩, head ++ payload, by rw [List.append_assoc], by simp [hne], hread,
    ?_, fun levels' hle' t => ?_⟩
  · exact (hc.mergeField.readOver_iff (hread [])).mpr (hsteady nestingLimit hle [])
  · rw [mergeRecord_eq_ok, List.append_assoc]
    exact ⟨tag, w, payload ++ t, hhead _, hsteady levels' hle' t⟩

theorem Steady.length_lt (hc : c.Steady) (hle : levels ≤ nestingLimit)
    (h : c.mergeRecord levels m s = ⟨m', .ok rest⟩) : rest.length < s.length := by
  obtain ⟨r, bytes, rfl, hne, -⟩ := hc.mergeRecord hle h
  have hpos := List.length_pos_iff.mpr hne
  rw [List.length_append]
  omega

/-- What is read of a message are its first records, each read by itself. -/
theorem Steady.reads (hc : c.Steady) (hle : levels ≤ nestingLimit)
    (h : c.Reads levels m s m' rest) :
    ∃ bytes rs, s = bytes ++ rest ∧ records bytes = .ok rs ∧ merged c.mergeField m rs = .ok m' ∧
      ∀ levels', levels ≤ levels' → ∀ t, c.Reads levels' m (bytes ++ t) m' t := by
  induction h with
  | done m s => exact ⟨[], [], rfl, rfl, rfl, fun levels' _ t => .done m t⟩
  | record merge _ _ ih =>
      obtain ⟨r, head, rfl, hne, hread, hover, hrecord⟩ := hc.mergeRecord hle merge
      obtain ⟨bytes, rs, rfl, hrs, hmerged, hreads⟩ := ih
      refine ⟨head ++ bytes, r :: rs, by rw [List.append_assoc], ?_, ?_, fun levels' hle' t => ?_⟩
      · rw [records_cons (hread bytes), hrs]
        rfl
      · exact merged_cons.mpr ⟨_, hover, hmerged⟩
      · rw [List.append_assoc]
        refine .record (hrecord levels' hle' _) ?_ (hreads levels' hle' t)
        have hpos := List.length_pos_iff.mpr hne
        simp only [List.length_append]
        omega

theorem Steady.reads_of_records (hc : c.Steady) {rs : List Record} (hrs : records s = .ok rs)
    (hmerged : merged c.mergeField m rs = .ok m') : c.Reads nestingLimit m s m' [] := by
  induction rs generalizing m s with
  | nil =>
      obtain ⟨rfl, -⟩ | ⟨_, _, _, -, -, heq⟩ := records_eq_ok.mp hrs
      · cases hmerged
        exact .done _ []
      · cases heq
  | cons r rs ih =>
      obtain ⟨-, heq⟩ | ⟨r', rest, rs', hread, hrest, heq⟩ := records_eq_ok.mp hrs
      · cases heq
      cases heq
      obtain ⟨m'', hover, hmore⟩ := merged_cons.mp hmerged
      refine .record ?_ (Record.steady_read.length_lt hread) (ih hrest hmore)
      rw [mergeRecord_eq_ok]
      exact ⟨r.tag, r.wireType, _, (Record.read_eq_ok.mp hread).1,
        (hc.mergeField.readOver_iff hread).mp hover⟩

theorem Steady.reads_of_mergeRecords (hc : c.Steady) (hle : levels ≤ nestingLimit)
    (h : c.mergeRecords levels limit room m s = ⟨m', .ok rest⟩) :
    c.Reads levels m s m' rest ∧ rest.length = limit := by
  induction room generalizing m s with
  | zero => cases h
  | succ room ih =>
      rw [mergeRecords] at h
      split at h
      · split at h
        · cases h
          exact ⟨.done _ _, ‹_›⟩
        · cases h
      · split at h
        · rename_i hrecord
          obtain ⟨hreads, hlength⟩ := ih h
          exact ⟨.record hrecord (hc.length_lt hle hrecord) hreads, hlength⟩
        · cases h

theorem Steady.merge_eq_ok (hc : c.Steady) :
    c.merge m s = ⟨m', .ok rest⟩ ↔ rest = [] ∧ c.Reads nestingLimit m s m' [] := by
  rw [merge]
  constructor
  · intro h
    obtain ⟨hreads, hlength⟩ := hc.reads_of_mergeRecords (Nat.le_refl _) h
    obtain rfl := List.eq_nil_of_length_eq_zero hlength
    exact ⟨rfl, hreads⟩
  · rintro ⟨rfl, hreads⟩
    exact mergeRecords_of_reads hreads (Nat.lt_succ_self s.length)

theorem Steady.decode_eq_ok (hc : c.Steady) :
    c.decode s = .ok m ↔ ∃ rs, records s = .ok rs ∧ merged c.mergeField c.empty rs = .ok m := by
  rw [decode]
  constructor
  · intro h
    split at h
    · rename_i m' rest hmerge
      cases h
      obtain ⟨rfl, hreads⟩ := hc.merge_eq_ok.mp hmerge
      obtain ⟨bytes, rs, rfl, hrs, hmerged, -⟩ := hc.reads (Nat.le_refl _) hreads
      exact ⟨rs, by rwa [List.append_nil], hmerged⟩
    · cases h
  · rintro ⟨rs, hrs, hmerged⟩
    rw [hc.merge_eq_ok.mpr ⟨rfl, hc.reads_of_records hrs hmerged⟩]

theorem mergePayload_of_reads {content : Bytes} (hsized : Scalar.readSized s = .ok (content, rest))
    (hreads : c.Reads levels m (content ++ rest) m' rest) :
    c.mergePayload .lengthDelimited (levels + 1) m s = ⟨m', .ok rest⟩ := by
  have hlong : ¬(content ++ rest).length < content.length := by simp
  have hmerge := mergeRecords_of_reads hreads (Nat.lt_succ_self _)
  rw [mergePayload, if_pos rfl, mergeDelimited, Scalar.readSized_eq_ok.mp hsized]
  simp only [if_neg hlong]
  simpa using hmerge

theorem Steady.reads_of_mergePayload {w : WireType} (hc : c.Steady) (hle : levels ≤ nestingLimit)
    (h : c.mergePayload w levels m s = ⟨m', .ok rest⟩) :
    w = .lengthDelimited ∧ ∃ inner content, levels = inner + 1 ∧
      Scalar.readSized s = .ok (content, rest) ∧ c.Reads inner m (content ++ rest) m' rest := by
  rw [Codec.mergePayload] at h
  split at h
  · cases levels with
    | zero => cases h
    | succ inner =>
        rw [mergeDelimited] at h
        split at h
        · cases h
        · rename_i n s' hn
          split at h
          · cases h
          · rename_i hlong
            obtain ⟨hreads, hlength⟩ := hc.reads_of_mergeRecords (by omega) h
            obtain ⟨content, rs, rfl, -⟩ := hc.reads (by omega) hreads
            rw [List.length_append] at hlength hlong
            obtain rfl : n = content.length := by omega
            exact ⟨‹_›, inner, content, rfl, Scalar.readSized_eq_ok.mpr hn, hreads⟩
  · cases h

theorem Steady.mergePayload (hc : c.Steady) :
    SteadyMerge fun _ w levels => c.mergePayload w levels where
  append hle h := by
    obtain ⟨rfl, inner, content, rfl, hsized, hreads⟩ := hc.reads_of_mergePayload hle h
    obtain ⟨payload, rfl, -, hpayload⟩ := Scalar.steady_readSized hsized
    obtain ⟨bytes, rs, heq, -, -, hsteady⟩ := hc.reads (by omega) hreads
    obtain rfl := List.append_cancel_right heq
    refine ⟨payload, rfl, fun levels' hle' t => ?_⟩
    obtain ⟨inner', rfl⟩ := Nat.exists_eq_add_one_of_ne_zero (Nat.ne_zero_of_lt hle')
    exact mergePayload_of_reads (hpayload t) (hsteady inner' (by omega) t)
  skip hle h levels' hle' hpos := by
    obtain ⟨rfl, inner, content, rfl, hsized, -⟩ := hc.reads_of_mergePayload hle h
    obtain ⟨inner', rfl⟩ := Nat.exists_eq_add_one_of_ne_zero (Nat.ne_zero_of_lt hpos)
    rw [skipPayload_lengthDelimited]
    exact map_eq_ok.mpr ⟨_, hsized, rfl⟩

theorem Steady.readOver_mergePayload (hc : c.Steady) {r : Record}
    (h : r.readOver (fun _ w levels => c.mergePayload w levels) m = .ok m') :
    ∃ content rs, r.content = .ok content ∧ records content = .ok rs ∧
      merged c.mergeField m rs = .ok m' := by
  obtain ⟨rest, hover⟩ := Record.readOver_eq_ok.mp h
  obtain ⟨hw, inner, content, hinner, hsized, hreads⟩ :=
    hc.reads_of_mergePayload (Nat.le_refl _) hover
  obtain ⟨bytes, rs, heq, hrs, hmerged, -⟩ :=
    hc.reads (hinner ▸ Nat.le_succ inner) hreads
  obtain rfl := List.append_cancel_right heq
  refine ⟨content, rs, ?_, hrs, hmerged⟩
  rw [Record.content, if_pos hw]
  exact map_eq_ok.mpr ⟨_, hsized, rfl⟩

end Codec

section

variable {tag : Nat} {S U : Type} {sub : Codec S}

theorem Scalar.Steady.merge {kind : Scalar α} (hkind : kind.Steady) :
    SteadyMerge fun _ w _ => kind.merge w where
  append _ h := by
    obtain ⟨rfl, hread⟩ := merge_eq_ok.mp h
    obtain ⟨payload, hs, -, hsteady⟩ := hkind.read hread
    exact ⟨payload, hs, fun levels' _ t => merge_eq_ok.mpr ⟨rfl, hsteady t⟩⟩
  skip _ h levels' _ hpos := by
    obtain ⟨rfl, hread⟩ := merge_eq_ok.mp h
    obtain ⟨inner, rfl⟩ := Nat.exists_eq_add_one_of_ne_zero (Nat.ne_zero_of_lt hpos)
    exact hkind.skip hread inner _

theorem Field.steady_scalar {kind : Scalar α} {part : Part M α} (hkind : kind.Steady) :
    SteadyMerge (scalar tag kind part).merge :=
  hkind.merge

theorem Field.merge_optional {part : Part M (Option S)} {tag' levels : Nat} {w : WireType}
    {old new : Option S} {s rest : Bytes} :
    (optional tag sub part).merge tag' w levels old s = ⟨new, .ok rest⟩ ↔
      ∃ v, sub.mergePayload w levels (old.getD sub.empty) s = ⟨v, .ok rest⟩ ∧ some v = new := by
  change (match sub.mergePayload w levels (old.getD sub.empty) s with
    | ⟨v, .ok rest⟩ => ⟨some v, .ok rest⟩
    | ⟨_, .error fault⟩ => ⟨none, .error fault⟩) = (⟨new, .ok rest⟩ : Merged (Option S)) ↔ _
  split <;> rename_i hv <;> simp [hv, and_comm]

theorem Field.merge_repeated {part : Part M (List S)} {tag' levels : Nat} {w : WireType}
    {old new : List S} {s rest : Bytes} :
    (repeated tag sub part).merge tag' w levels old s = ⟨new, .ok rest⟩ ↔
      ∃ v, sub.mergePayload w levels sub.empty s = ⟨v, .ok rest⟩ ∧ old ++ [v] = new := by
  change (match sub.mergePayload w levels sub.empty s with
    | ⟨v, .ok rest⟩ => ⟨old ++ [v], .ok rest⟩
    | ⟨_, .error fault⟩ => ⟨old, .error fault⟩) = (⟨new, .ok rest⟩ : Merged (List S)) ↔ _
  split <;> rename_i hv <;> simp [hv, and_comm]

theorem Field.steady_optional {part : Part M (Option S)} (hsub : sub.Steady) :
    SteadyMerge (optional tag sub part).merge :=
  hsub.mergePayload.lift (fun old : Option S => old.getD sub.empty) (fun _ v => some v)
    merge_optional

theorem Field.steady_repeated {part : Part M (List S)} (hsub : sub.Steady) :
    SteadyMerge (repeated tag sub part).merge :=
  hsub.mergePayload.lift (fun _ => sub.empty) (fun (old : List S) v => old ++ [v]) merge_repeated

theorem Member.merge_scalar {kind : Scalar α} {wrap : α → U} {view : U → Option α} {w : WireType}
    {levels : Nat} {old new : Option U} {s rest : Bytes} :
    (scalar tag kind wrap view).merge w levels old s = ⟨new, .ok rest⟩ ↔
      ∃ v, kind.merge w kind.default s = ⟨v, .ok rest⟩ ∧ some (wrap v) = new := by
  simp only [scalar]
  split <;> rename_i hv <;> simp [hv, and_comm]

theorem Member.steady_scalar {kind : Scalar α} {wrap : α → U} {view : U → Option α}
    (hkind : kind.Steady) : SteadyMerge fun _ => (scalar tag kind wrap view).merge :=
  hkind.merge.lift (fun _ : Option U => kind.default) (fun _ v => some (wrap v)) merge_scalar

theorem Member.merge_message {wrap : S → U} {view : U → Option S} {w : WireType} {levels : Nat}
    {old new : Option U} {s rest : Bytes} :
    (message tag sub wrap view).merge w levels old s = ⟨new, .ok rest⟩ ↔
      ∃ v, sub.mergePayload w levels ((old.bind view).getD sub.empty) s = ⟨v, .ok rest⟩ ∧
        some (wrap v) = new :=
  Merged.map_eq_ok (f := fun v => some (wrap v))
    (x := sub.mergePayload w levels ((old.bind view).getD sub.empty) s)

theorem Member.steady_message {wrap : S → U} {view : U → Option S} (hsub : sub.Steady) :
    SteadyMerge fun _ => (message tag sub wrap view).merge :=
  hsub.mergePayload.lift (fun old => (old.bind view).getD sub.empty) (fun _ v => some (wrap v))
    merge_message

theorem Field.merge_choice_of_member {members : List (Member U)} {dropped : List Nat}
    {part : Part M (Option U)} {member : Member U}
    (hfind : (members.find? fun member => member.tag == tag) = some member) :
    (choice members dropped part).merge tag = member.merge := by
  funext w levels old s
  simp only [choice, hfind]

theorem Field.merge_choice_of_dropped {members : List (Member U)} {dropped : List Nat}
    {part : Part M (Option U)} (hfind : (members.find? fun member => member.tag == tag) = none) :
    (choice members dropped part).merge tag =
      fun w levels _ s => (⟨none, skipPayload levels w tag s⟩ : Merged (Option U)) := by
  funext w levels old s
  simp only [choice, hfind]

theorem Field.steady_choice {members : List (Member U)} {dropped : List Nat}
    {part : Part M (Option U)} (hmembers : ∀ member ∈ members, SteadyMerge fun _ => member.merge) :
    SteadyMerge (choice members dropped part).merge := by
  refine .of_tags fun tag => ?_
  cases hfind : members.find? fun member => member.tag == tag with
  | some member =>
      exact ⟨_, hmembers member (List.mem_of_find?_eq_some hfind), merge_choice_of_member hfind⟩
  | none => exact ⟨_, steadyMerge_skip fun _ => none, merge_choice_of_dropped hfind⟩

end

end Keyspace.Wire
