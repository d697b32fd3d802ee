import Keyspace.Proofs.UnknownRecords
import Mathlib.Data.List.Pairwise

namespace Keyspace

namespace Wire

/-- To replace the part of one of two fields does not change that of the other one. -/
structure Field.Apart (f g : Field M) : Prop where
  left : ∀ v m, f.part.get (g.part.set v m) = f.part.get m
  right : ∀ v m, g.part.get (f.part.set v m) = g.part.get m

/-- Each field holds a part of the message of its own. -/
structure Codec.Separate (c : Codec M) : Prop where
  lawful : ∀ f ∈ c.fields, f.part.Lawful
  apart : c.fields.Pairwise Field.Apart

instance : Std.Symm (Field.Apart (M := M)) where
  symm _ _ h := ⟨h.right, h.left⟩

theorem Codec.Separate.get_set {c : Codec M} {f g : Field M} (hc : c.Separate)
    (hf : f ∈ c.fields) (hg : g ∈ c.fields) (hne : f ≠ g) (v : g.Value) (m : M) :
    f.part.get (g.part.set v m) = f.part.get m :=
  (hc.apart.forall hf hg hne).left v m

def Field.AddressedBy (f : Field M) (s : Bytes) : Prop :=
  ∃ tag w payload, Key.decode s = .ok ((tag, w), payload) ∧ tag ∈ f.tags

namespace Codec

variable {M : Type} {c : Codec M} {levels room : Nat} {m m' m'' : M} {s t q : Bytes}
  {fault : Fault}

/-- The first record has no key, or a key that no field has the tag of. -/
def Stray (c : Codec M) (s : Bytes) : Prop :=
  (∃ fault, Key.decode s = .error fault) ∨
    ∃ tag w payload, Key.decode s = .ok ((tag, w), payload) ∧ ∀ f ∈ c.fields, tag ∉ f.tags

theorem Stray.not_addressed (h : c.Stray s) {f : Field M} (hf : f ∈ c.fields) :
    ¬f.AddressedBy s := by
  rintro ⟨tag, w, payload, hkey, htag⟩
  obtain ⟨fault, hfault⟩ | ⟨tag', w', payload', hkey', hnone⟩ := h
  · rw [hfault] at hkey
    cases hkey
  · rw [hkey'] at hkey
    cases hkey
    exact hnone f hf htag

theorem mergeRecord_eq_error (h : c.mergeRecord levels m s = ⟨m', .error fault⟩) :
    c.Stray s ∧ m' = m ∨
      ∃ tag w payload, Key.decode s = .ok ((tag, w), payload) ∧ ∃ f, c.field? tag = some f ∧
        ∃ v, f.merge tag w levels (f.part.get m) payload = ⟨v, .error fault⟩ ∧
          m' = f.part.set v m := by
  rw [mergeRecord] at h
  rcases hkey : Key.decode s with fault' | ⟨⟨tag, w⟩, payload⟩
  · rw [hkey] at h
    exact .inl ⟨.inl ⟨fault', hkey⟩, (Merged.mk.inj h).1.symm⟩
  · simp only [hkey] at h
    cases hfield : c.field? tag with
    | none =>
        rw [hfield] at h
        have hnone : ∀ f ∈ c.fields, tag ∉ f.tags := fun f hf => by
          simpa using List.find?_eq_none.mp hfield f hf
        exact .inl ⟨.inr ⟨tag, w, payload, hkey, hnone⟩, (Merged.mk.inj h).1.symm⟩
    | some f =>
        rw [hfield] at h
        obtain ⟨hvalue, hrest⟩ := Merged.mk.inj h
        refine .inr ⟨tag, w, payload, rfl, f, hfield, _, ?_, hvalue.symm⟩
        rw [← hrest]

theorem Steady.mergeRecords_eq_error (hc : c.Steady) (hroom : s.length < room)
    (h : c.mergeRecords nestingLimit 0 room m s = ⟨m'', .error fault⟩) :
    ∃ m' t, c.Reads nestingLimit m s m' t ∧
      c.mergeRecord nestingLimit m' t = ⟨m'', .error fault⟩ := by
  induction room generalizing m s with
  | zero => exact absurd hroom (Nat.not_lt_zero _)
  | succ room ih =>
      rw [mergeRecords] at h
      split at h
      · rename_i hle
        rw [if_pos (Nat.le_zero.mp hle)] at h
        cases h
      · rcases hrecord : c.mergeRecord nestingLimit m s with ⟨m₁, fault₁ | rest⟩
        · rw [hrecord] at h
          cases h
          exact ⟨m, s, .done m s, hrecord⟩
        · rw [hrecord] at h
          have hlt := hc.length_lt (Nat.le_refl _) hrecord
          obtain ⟨m', t, hreads, hfails⟩ := ih (by omega) h
          exact ⟨m', t, .record hrecord hlt hreads, hfails⟩

theorem Reads.length_le_of_error (h : c.Reads levels m s m'' q) (hreads : c.Reads levels m s m' t)
    (hfails : ∃ v fault, c.mergeRecord levels m' t = ⟨v, .error fault⟩) :
    t.length ≤ q.length := by
  induction h with
  | done m s => exact hreads.length_le
  | record merge _ _ ih =>
      cases hreads with
      | done =>
          obtain ⟨v, fault, hfails⟩ := hfails
          rw [merge] at hfails
          cases hfails
      | record merge' _ more =>
          rw [merge] at merge'
          cases merge'
          exact ih more

/-- The input up to the record that fails: a prefix of whole records that can be read over the
message, and the longest one of which that holds. -/
structure Accepted (c : Codec M) (m : M) (s : Bytes) (p : Bytes) (m' : M) : Prop where
  whole : ∃ rs, records p = .ok rs
  merged : c.merge m p = ⟨m', .ok []⟩
  longest : ∀ p' q m'' rest, s = p' ++ q → c.merge m p' = ⟨m'', .ok rest⟩ → p'.length ≤ p.length

/-- A merge that fails has read the longest prefix that can be read, and fails at the record
behind it. -/
theorem Steady.merge_eq_error (hc : c.Steady) (h : c.merge m s = ⟨m'', .error fault⟩) :
    ∃ p t m', s = p ++ t ∧ c.Accepted m s p m' ∧
      c.mergeRecord nestingLimit m' t = ⟨m'', .error fault⟩ := by
  obtain ⟨m', t, hreads, hfails⟩ := hc.mergeRecords_eq_error (Nat.lt_succ_self _) h
  obtain ⟨p, rs, rfl, hrs, -, hsteady⟩ := hc.reads (Nat.le_refl _) hreads
  refine ⟨p, t, m', rfl, ⟨⟨rs, hrs⟩, ?_, fun p' q m₁ rest heq hmerge => ?_⟩, hfails⟩
  · have hprefix := hsteady nestingLimit (Nat.le_refl _) []
    rw [List.append_nil] at hprefix
    exact hc.merge_eq_ok.mpr ⟨rfl, hprefix⟩
  · obtain ⟨-, hprefix⟩ := hc.merge_eq_ok.mp hmerge
    have hother := hc.reads_append (Nat.le_refl _) hprefix q
    rw [← heq] at hother
    have hle := hother.length_le_of_error hreads ⟨m'', fault, hfails⟩
    have hlength := congrArg List.length heq
    simp only [List.length_append] at hlength
    omega

theorem mergeRecord_eq_of_stray (hstray : c.Stray t)
    (h : c.mergeRecord levels m' t = ⟨m'', .error fault⟩) : m'' = m' := by
  obtain ⟨-, heq⟩ | ⟨tag, w, payload, hkey, f, hfield, -⟩ := mergeRecord_eq_error h
  · exact heq
  · obtain ⟨hf, htag⟩ := field?_mem hfield
    exact absurd ⟨tag, w, payload, hkey, htag⟩ (hstray.not_addressed hf)

theorem mergeRecord_of_addressed (htags : c.Tagged) {f : Field M} (hf : f ∈ c.fields)
    {tag : Nat} {w : WireType} {payload : Bytes} (hkey : Key.decode t = .ok ((tag, w), payload))
    (htag : tag ∈ f.tags) (h : c.mergeRecord levels m' t = ⟨m'', .error fault⟩) :
    ∃ v, f.merge tag w levels (f.part.get m') payload = ⟨v, .error fault⟩ ∧
      m'' = f.part.set v m' := by
  obtain ⟨hstray, -⟩ | ⟨tag', w', payload', hkey', g, hfield, v, hv, heq⟩ :=
    mergeRecord_eq_error h
  · exact absurd ⟨tag, w, payload, hkey, htag⟩ (hstray.not_addressed hf)
  · rw [hkey] at hkey'
    cases hkey'
    rw [field?_eq_some htags.1 hf htag] at hfield
    cases hfield
    exact ⟨v, hv, heq⟩

theorem get_mergeRecord (hc : c.Separate) {f : Field M} (hf : f ∈ c.fields)
    (hother : ¬f.AddressedBy t) (h : c.mergeRecord levels m' t = ⟨m'', .error fault⟩) :
    f.part.get m'' = f.part.get m' := by
  obtain ⟨-, rfl⟩ | ⟨tag, w, payload, hkey, g, hfield, v, -, rfl⟩ := mergeRecord_eq_error h
  · rfl
  · obtain ⟨hg, htag⟩ := field?_mem hfield
    refine hc.get_set hf hg ?_ v m'
    rintro rfl
    exact hother ⟨tag, w, payload, hkey, htag⟩

end Codec

section

variable {M S U : Type} {c : Codec M} {sub : Codec S} {levels tag : Nat} {m' m'' : M} {t : Bytes}
  {fault : Fault}

theorem Field.merge_optional_eq_error {part : Part M (Option S)} {tag' : Nat} {w : WireType}
    {old new : Option S} {s : Bytes}
    (h : (optional tag sub part).merge tag' w levels old s = ⟨new, .error fault⟩) :
    new = none := by
  simp only [optional] at h
  split at h <;> cases h
  rfl

theorem Field.merge_repeated_eq_error {part : Part M (List S)} {tag' : Nat} {w : WireType}
    {old new : List S} {s : Bytes}
    (h : (repeated tag sub part).merge tag' w levels old s = ⟨new, .error fault⟩) :
    new = old := by
  simp only [repeated] at h
  split at h <;> cases h
  rfl

theorem Codec.Reads.get_optional_ne_none {m : M} {s : Bytes} (hreads : c.Reads levels m s m' t)
    (hc : c.Separate) {part : Part M (Option S)} (hf : .optional tag sub part ∈ c.fields)
    (hset : part.get m ≠ none) : part.get m' ≠ none := by
  have hpart : part.Lawful := hc.lawful _ hf
  induction hreads with
  | done => exact hset
  | @record m m₁ m' s t rest merge _ _ ih =>
      refine ih ?_
      obtain ⟨tag', w, payload, -, hmerge⟩ := mergeRecord_eq_ok.mp merge
      cases hfield : c.field? tag' with
      | none =>
          rw [mergeField_of_none hfield] at hmerge
          rwa [← (Merged.mk.inj hmerge).1]
      | some g =>
          obtain ⟨v, hv, rfl⟩ := (mergeField_of_field hfield).mp hmerge
          by_cases hg : g = .optional tag sub part
          · subst hg
            obtain ⟨u, -, rfl⟩ := Field.merge_optional.mp hv
            have hget : part.get (part.set (some u) m) = some u := hpart.get_set _ m
            exact fun hnone => Option.some_ne_none u (hget.symm.trans hnone)
          · have hget : part.get (g.part.set v m) = part.get m :=
              hc.get_set hf (field?_mem hfield).1 (Ne.symm hg) v m
            exact fun hnone => hset (hget.symm.trans hnone)

theorem Codec.get_choice_of_message (hc : c.Separate) (htags : c.Tagged)
    {members : List (Member U)} {dropped : List Nat} {part : Part M (Option U)} {wrap : S → U}
    {view : U → Option S} (hf : .choice members dropped part ∈ c.fields)
    (hmember : .message tag sub wrap view ∈ members) {w : WireType} {payload : Bytes}
    (hkey : Key.decode t = .ok ((tag, w), payload))
    (h : c.mergeRecord levels m' t = ⟨m'', .error fault⟩) :
    part.get m'' = some (wrap
      (sub.mergePayload w levels (((part.get m').bind view).getD sub.empty) payload).value) := by
  have htag : tag ∈ (Field.choice members dropped part).tags :=
    List.mem_append_left _ (List.mem_map.mpr ⟨_, hmember, rfl⟩)
  have hnodup := (List.nodup_flatMap.mp htags.1).1 _ hf
  have hmerge : (Field.choice members dropped part).merge tag =
      (Member.message tag sub wrap view).merge :=
    Field.merge_choice_of_member (find?_of_nodup (List.Nodup.of_append_left hnodup) hmember)
  obtain ⟨v, hv, rfl⟩ := mergeRecord_of_addressed htags hf hkey htag h
  rw [hmerge] at hv
  have hget : part.get (part.set v m') = v := (hc.lawful _ hf).get_set _ m'
  exact hget.trans (Merged.mk.inj hv).1.symm

theorem Codec.get_repeated (hc : c.Separate) (htags : c.Tagged) {part : Part M (List S)}
    (hf : .repeated tag sub part ∈ c.fields)
    (h : c.mergeRecord levels m' t = ⟨m'', .error fault⟩) : part.get m'' = part.get m' := by
  by_cases haddressed : (Field.repeated tag sub part).AddressedBy t
  · obtain ⟨tag', w, payload, hkey, htag⟩ := haddressed
    obtain ⟨v, hv, rfl⟩ := mergeRecord_of_addressed htags hf hkey htag h
    rw [Field.merge_repeated_eq_error hv]
    exact (hc.lawful _ hf).get_set _ m'
  · exact get_mergeRecord hc hf haddressed h

end

end Wire

open Wire

namespace MessageKind

theorem separate_codec (kind : MessageKind) : kind.codec.Separate := by
  cases kind <;> constructor
  all_goals
    simp only [codec, Header.codec, KeyValue.codec, RangeRequest.codec, RangeResponse.codec,
      PutRequest.codec, PutResponse.codec, DeleteRangeRequest.codec, DeleteRangeResponse.codec,
      CompactionRequest.codec, CompactionResponse.codec, Compare.codec, RequestOp.codec,
      ResponseOp.codec, TxnRequest.codec, TxnResponse.codec, AlarmRequest.codec,
      AlarmMember.codec, AlarmResponse.codec, StatusRequest.codec, StatusResponse.codec,
      DefragmentRequest.codec, DefragmentResponse.codec, SnapshotRequest.codec,
      SnapshotResponse.codec, List.pairwise_cons, List.forall_mem_cons]
  all_goals repeat' apply And.intro
  -- What is left is one goal for each field and one for each two of them.
  all_goals first
    | exact ⟨fun _ _ => rfl, fun _ => rfl, fun _ _ _ => rfl⟩
    | exact ⟨fun _ _ => rfl, fun _ _ => rfl⟩
    | exact List.forall_mem_nil _
    | exact .nil

/-- A merge that fails damages at most one field. With the longest prefix that can be read, and
what it makes of the message, all fields are as they are then but the one that the record behind
it addresses. A list is as it is then in any case, and all is if that record has no key or the tag
of no field. -/
theorem merge_damages_one_field (kind : MessageKind) (m m'' : kind.Carrier) (s : Bytes)
    (fault : Fault) (h : kind.codec.merge m s = ⟨m'', .error fault⟩) :
    ∃ p t m', s = p ++ t ∧ kind.codec.Accepted m s p m' ∧
      kind.codec.mergeRecord nestingLimit m' t = ⟨m'', .error fault⟩ ∧
      (∀ f ∈ kind.codec.fields, ¬f.AddressedBy t → f.part.get m'' = f.part.get m') ∧
      (∀ f ∈ kind.codec.fields, f.AddressedBy t → m'' = f.part.set (f.part.get m'') m') ∧
      (∀ (S : Type) (tag : Nat) (sub : Codec S) (part : Part kind.Carrier (List S)),
        .repeated tag sub part ∈ kind.codec.fields → part.get m'' = part.get m') ∧
      (kind.codec.Stray t → m'' = m') := by
  have hc := kind.separate_codec
  have htags := kind.tagged_codec
  obtain ⟨p, t, m', hsplit, haccepted, hfails⟩ := kind.steady_codec.merge_eq_error h
  refine ⟨p, t, m', hsplit, haccepted, hfails, ?_, ?_, ?_, ?_⟩
  · exact fun f hf hother => Codec.get_mergeRecord hc hf hother hfails
  · rintro f hf ⟨tag, w, payload, hkey, htag⟩
    obtain ⟨v, -, rfl⟩ := Codec.mergeRecord_of_addressed htags hf hkey htag hfails
    rw [(hc.lawful f hf).get_set]
  · exact fun S tag sub part hf => Codec.get_repeated hc htags hf hfails
  · exact fun hstray => Codec.mergeRecord_eq_of_stray hstray hfails

/-- The second element breaks off: the count before it is read, and the elements stay. -/
theorem merge_damages_one_field_of_element :
    let m : RangeResponse := { header := some { revision := 7 }, kvs := [{ key := [97] }] }
    let s : Bytes := [32, 5, 18, 4, 10, 1, 107, 42]
    RangeResponse.codec.merge m s = ⟨{ m with count := 5 }, .error .invalidVarint⟩ ∧
      ∃ p t m', s = p ++ t ∧ RangeResponse.codec.Accepted m s p m' ∧ m.kvs = m'.kvs := by
  intro m s
  have hmerge : RangeResponse.codec.merge m s = ⟨{ m with count := 5 }, .error .invalidVarint⟩ := by
    rfl
  obtain ⟨p, t, m', hsplit, haccepted, -, -, -, hlists, -⟩ :=
    merge_damages_one_field .rangeResponse m _ s _ hmerge
  have hkvs := hlists _ 2 KeyValue.codec _ (List.mem_cons_of_mem _ List.mem_cons_self)
  exact ⟨hmerge, p, t, m', hsplit, haccepted, hkvs⟩

/-- What a merge that fails makes of the messages inside a message. An optional one that was set
is lost if the record that fails is one of its own, and else it is as the records before that one
left it. A message in a choice stays the one that is set, as far as it was read. -/
theorem merge_loses_optional (kind : MessageKind) (m m'' : kind.Carrier) (s : Bytes)
    (fault : Fault) (h : kind.codec.merge m s = ⟨m'', .error fault⟩) :
    ∃ p t m', s = p ++ t ∧ kind.codec.Accepted m s p m' ∧
      kind.codec.mergeRecord nestingLimit m' t = ⟨m'', .error fault⟩ ∧
      (∀ (S : Type) (tag : Nat) (sub : Codec S) (part : Part kind.Carrier (Option S)),
        .optional tag sub part ∈ kind.codec.fields → part.get m ≠ none →
          part.get m' ≠ none ∧
          ((Field.optional tag sub part).AddressedBy t → part.get m'' = none) ∧
          (¬(Field.optional tag sub part).AddressedBy t → part.get m'' = part.get m')) ∧
      ∀ (S U : Type) (members : List (Member U)) (dropped : List Nat)
        (part : Part kind.Carrier (Option U)) (tag : Nat) (sub : Codec S) (wrap : S → U)
        (view : U → Option S), .choice members dropped part ∈ kind.codec.fields →
          .message tag sub wrap view ∈ members →
          ∀ w payload, Key.decode t = .ok ((tag, w), payload) →
            part.get m'' = some (wrap (sub.mergePayload w nestingLimit
              (((part.get m').bind view).getD sub.empty) payload).value) := by
  have hc := kind.separate_codec
  have htags := kind.tagged_codec
  obtain ⟨p, t, m', hsplit, haccepted, hfails⟩ := kind.steady_codec.merge_eq_error h
  refine ⟨p, t, m', hsplit, haccepted, hfails, ?_, ?_⟩
  · intro S tag sub part hf hset
    obtain ⟨-, hreads⟩ := kind.steady_codec.merge_eq_ok.mp haccepted.merged
    refine ⟨hreads.get_optional_ne_none hc hf hset, ?_, ?_⟩
    · rintro ⟨tag', w, payload, hkey, htag⟩
      obtain ⟨v, hv, rfl⟩ := Codec.mergeRecord_of_addressed htags hf hkey htag hfails
      rw [Field.merge_optional_eq_error hv]
      exact (hc.lawful _ hf).get_set _ m'
    · exact fun hother => Codec.get_mergeRecord hc hf hother hfails
  · intro S U members dropped part tag sub wrap view hf hmember w payload hkey
    exact Codec.get_choice_of_message hc htags hf hmember hkey hfails

/-- A header that breaks off leaves a put without the one it had. -/
theorem merge_loses_optional_of_header :
    let m : PutResponse := { header := some { revision := 7 }, prevKv := some { key := [97] } }
    let s : Bytes := [10, 2, 24, 8, 10, 5]
    PutResponse.codec.merge m s = ⟨{ m with header := none }, .error .bufferUnderflow⟩ ∧
      ∃ p t m', s = p ++ t ∧ PutResponse.codec.Accepted m s p m' ∧ m'.header ≠ none ∧
        m'.prevKv ≠ none := by
  intro m s
  have hmerge : PutResponse.codec.merge m s =
      ⟨{ m with header := none }, .error .bufferUnderflow⟩ := by rfl
  obtain ⟨p, t, m', hsplit, haccepted, -, hoptional, -⟩ :=
    merge_loses_optional .putResponse m _ s _ hmerge
  obtain ⟨hheader, -⟩ := hoptional _ 1 Header.codec _ List.mem_cons_self (by decide)
  obtain ⟨hprev, -⟩ :=
    hoptional _ 2 KeyValue.codec _ (List.mem_cons_of_mem _ List.mem_cons_self) (by decide)
  exact ⟨hmerge, p, t, m', hsplit, haccepted, hheader, hprev⟩

/-- The same failure loses the header of a put and keeps the put of an operation. -/
theorem header_lost_where_member_stays :
    let put : PutResponse := { header := some { revision := 7 } }
    PutResponse.codec.merge put [10, 5] = ⟨{}, .error .bufferUnderflow⟩ ∧
      ResponseOp.codec.merge { response := some (.put put) } [18, 5] =
        ⟨{ response := some (.put put) }, .error .bufferUnderflow⟩ := by
  exact ⟨by rfl, by rfl⟩

end MessageKind

end Keyspace
