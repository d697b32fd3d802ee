import Keyspace.Proofs.MergeInPieces
import Mathlib.Data.List.Nodup

namespace Keyspace

namespace Wire

/-- The payload of one record by itself. That of a group are records up to a key that ends a group
of the same tag, and they have one level of nesting less. -/
inductive Payload : (levels : Nat) → WireType → (tag : Nat) → Bytes → Prop
  | varint {levels tag n : Nat} {s : Bytes} (number : Varint.decode s = .ok (n, [])) :
      Payload (levels + 1) .varint tag s
  | sixtyFourBit {levels tag : Nat} {s : Bytes} (length : s.length = 8) :
      Payload (levels + 1) .sixtyFourBit tag s
  | thirtyTwoBit {levels tag : Nat} {s : Bytes} (length : s.length = 4) :
      Payload (levels + 1) .thirtyTwoBit tag s
  | lengthDelimited {levels tag : Nat} {s content : Bytes}
      (sized : Varint.decode s = .ok (content.length, content)) :
      Payload (levels + 1) .lengthDelimited tag s
  | groupEnd {levels tag : Nat} {s : Bytes} (key : Key.decode s = .ok ((tag, .endGroup), [])) :
      Payload (levels + 1) .startGroup tag s
  | groupRecord {levels tag inner : Nat} {w : WireType} {s payload more : Bytes}
      (key : Key.decode s = .ok ((inner, w), payload ++ more))
      (record : Payload levels w inner payload)
      (group : Payload (levels + 1) .startGroup tag more) : Payload (levels + 1) .startGroup tag s

section

variable {levels tag n room : Nat} {w : WireType} {s payload rest : Bytes}

theorem Payload.ne_endGroup (h : Payload levels w tag s) : w ≠ .endGroup := by
  cases h <;> nofun

theorem Payload.skip (h : Payload levels w tag s) : skipPayload levels w tag s = .ok [] := by
  induction h with
  | varint number => exact map_eq_ok.mpr ⟨_, number, rfl⟩
  | sixtyFourBit length | thirtyTwoBit length =>
      exact advance_eq_ok.mpr ⟨_, (List.append_nil _).symm, length⟩
  | @lengthDelimited _ _ s content sized =>
      have hsized : Scalar.readSized s = .ok (content, []) := by
        rw [Scalar.readSized_eq_ok, List.append_nil, sized]
      rw [skipPayload_lengthDelimited]
      exact map_eq_ok.mpr ⟨_, hsized, rfl⟩
  | groupEnd key =>
      rw [skipPayload, skipGroup_of_end key, if_pos rfl]
  | @groupRecord levels tag inner w s payload more key record group ihrecord ihgroup =>
      obtain ⟨payload', heq, hrecord⟩ := skipPayload_append ihrecord
      obtain rfl := (List.append_nil payload').symm.trans heq.symm
      obtain ⟨more', heq, hgroup⟩ := skipGroup_append skipPayload_append ihgroup
      obtain rfl := (List.append_nil more').symm.trans heq.symm
      have hlt := Key.steady_decode.length_lt key
      rw [List.length_append] at hlt
      rw [skipPayload, skipGroup_of_record key record.ne_endGroup, hrecord levels (Nat.le_refl _)]
      have hrest := hgroup levels (Nat.le_refl _) s.length (by omega) []
      rwa [List.append_nil] at hrest

theorem payload_of_skipGroup
    (hrecords : ∀ {w tag s rest}, skipPayload levels w tag s = .ok rest →
      ∃ payload, s = payload ++ rest ∧ Payload levels w tag payload)
    (h : skipGroup (skipPayload levels) tag room s = .ok rest) :
    ∃ payload, s = payload ++ rest ∧ Payload (levels + 1) .startGroup tag payload := by
  induction room generalizing s with
  | zero => cases h
  | succ room ih =>
      rcases hkey : Key.decode s with fault | ⟨⟨inner, w⟩, s'⟩
      · rw [skipGroup, hkey] at h
        cases h
      obtain ⟨head, rfl, -, hsteady⟩ := Key.steady_decode hkey
      by_cases hw : w = .endGroup
      · subst hw
        rw [skipGroup_of_end hkey] at h
        split at h
        · rename_i htag
          cases h
          have hend := hsteady []
          rw [List.append_nil, htag] at hend
          exact ⟨head, rfl, .groupEnd hend⟩
        · cases h
      · rw [skipGroup_of_record hkey hw] at h
        obtain ⟨s'', hrecord, hgroup⟩ := bind_eq_ok.mp h
        obtain ⟨payload, rfl, hpayload⟩ := hrecords hrecord
        obtain ⟨more, rfl, hmore⟩ := ih hgroup
        exact ⟨head ++ (payload ++ more), by simp, .groupRecord (hsteady _) hpayload hmore⟩

theorem payload_of_skip (h : skipPayload levels w tag s = .ok rest) :
    ∃ payload, s = payload ++ rest ∧ Payload levels w tag payload := by
  induction levels generalizing w tag s rest with
  | zero => cases h
  | succ levels ih =>
      cases w with
      | varint =>
          obtain ⟨⟨n, rest⟩, hn, rfl⟩ := map_eq_ok.mp h
          obtain ⟨payload, rfl, -, hsteady⟩ := Varint.steady_decode hn
          have hnumber := hsteady []
          rw [List.append_nil] at hnumber
          exact ⟨payload, rfl, .varint hnumber⟩
      | sixtyFourBit =>
          obtain ⟨payload, rfl, hlength⟩ := advance_eq_ok.mp h
          exact ⟨payload, rfl, .sixtyFourBit hlength⟩
      | thirtyTwoBit =>
          obtain ⟨payload, rfl, hlength⟩ := advance_eq_ok.mp h
          exact ⟨payload, rfl, .thirtyTwoBit hlength⟩
      | lengthDelimited =>
          rw [skipPayload_lengthDelimited] at h
          obtain ⟨⟨content, rest⟩, hsized, rfl⟩ := map_eq_ok.mp h
          obtain ⟨payload, rfl, -, hsteady⟩ := Scalar.steady_readSized hsized
          have hcontent := Scalar.readSized_eq_ok.mp (hsteady [])
          rw [List.append_nil, List.append_nil] at hcontent
          exact ⟨payload, rfl, .lengthDelimited hcontent⟩
      | startGroup => exact payload_of_skipGroup ih h
      | endGroup => cases h

/-- What can be skipped are the payloads that are well formed by themselves. -/
theorem skipPayload_eq_ok_iff : skipPayload levels w tag s = .ok rest ↔
    ∃ payload, s = payload ++ rest ∧ Payload levels w tag payload := by
  constructor
  · exact payload_of_skip
  · rintro ⟨payload, rfl, hpayload⟩
    obtain ⟨payload', heq, hskip⟩ := skipPayload_append hpayload.skip
    obtain rfl := (List.append_nil payload').symm.trans heq.symm
    exact hskip levels (Nat.le_refl _) rest

end

namespace Codec

variable {M S : Type} {c : Codec M} {sub : Codec S} {levels tag : Nat} {m m' : M} {y : Bytes}

/-- One record by itself, of which no field of the message has the tag. -/
def Unknown (c : Codec M) (levels : Nat) (u : Bytes) : Prop :=
  ∃ tag w payload, Key.decode u = .ok ((tag, w), payload) ∧ Payload levels w tag payload ∧
    ∀ f ∈ c.fields, tag ∉ f.tags

theorem Unknown.reads {u : Bytes} (hu : c.Unknown levels u) (m : M) (y : Bytes) :
    c.Reads levels m (u ++ y) m y := by
  obtain ⟨tag, w, payload, hkey, hpayload, hunknown⟩ := hu
  obtain ⟨head, rfl, hne, hsteady⟩ := Key.steady_decode hkey
  have hfield : c.field? tag = none :=
    List.find?_eq_none.mpr fun f hf => by simpa using hunknown f hf
  refine .record ?_ ?_ (.done m y)
  · rw [mergeRecord_eq_ok, List.append_assoc]
    refine ⟨tag, w, payload ++ y, hsteady _, ?_⟩
    rw [mergeField_of_none hfield, skipPayload_eq_ok_iff.mpr ⟨payload, rfl, hpayload⟩]
  · have hpos := List.length_pos_iff.mpr hne
    simp only [List.length_append]
    omega

/-- The records with a tag hold messages of the second kind. -/
inductive Nests (c : Codec M) (sub : Codec S) (tag : Nat) : Prop
  | optional {part : Part M (Option S)} (own : .optional tag sub part ∈ c.fields)
  | repeated {part : Part M (List S)} (own : .repeated tag sub part ∈ c.fields)
  | member {U : Type} {members : List (Member U)} {dropped : List Nat} {part : Part M (Option U)}
      {wrap : S → U} {view : U → Option S} (own : .choice members dropped part ∈ c.fields)
      (holds : .message tag sub wrap view ∈ members)

theorem mergeField_of_lift {f : Field M} (hfield : c.field? tag = some f)
    {merge : WireType → Nat → f.Value → Bytes → Merged f.Value} (hmerge : f.merge tag = merge)
    {get : f.Value → S} {set : f.Value → S → f.Value}
    (hlift : ∀ {w levels old s new rest}, merge w levels old s = ⟨new, .ok rest⟩ ↔
      ∃ v, sub.mergePayload w levels (get old) s = ⟨v, .ok rest⟩ ∧ set old v = new)
    {w : WireType} {s rest : Bytes} :
    c.mergeField tag w levels m s = ⟨m', .ok rest⟩ ↔
      ∃ v, sub.mergePayload w levels (get (f.part.get m)) s = ⟨v, .ok rest⟩ ∧
        f.part.set (set (f.part.get m) v) m = m' := by
  rw [mergeField_of_field hfield, hmerge]
  constructor
  · rintro ⟨new, hnew, rfl⟩
    obtain ⟨v, hv, rfl⟩ := hlift.mp hnew
    exact ⟨v, hv, rfl⟩
  · rintro ⟨v, hv, rfl⟩
    exact ⟨_, hlift.mpr ⟨v, hv, rfl⟩, rfl⟩

theorem find?_of_nodup {U : Type} {members : List (Member U)} {member : Member U}
    (htags : (members.map Member.tag).Nodup) (hmem : member ∈ members) :
    (members.find? fun other => other.tag == member.tag) = some member := by
  obtain ⟨before, after, rfl⟩ := List.append_of_mem hmem
  rw [List.map_append, List.map_cons, List.nodup_append] at htags
  obtain ⟨-, -, hapart⟩ := htags
  apply find?_of_distinct
  intro other hother
  exact hapart other.tag (List.mem_map_of_mem hother) member.tag List.mem_cons_self

theorem Nests.mergeField (h : c.Nests sub tag) (htags : c.Tagged) :
    ∃ (get : M → S) (set : M → S → M), ∀ {w levels m m' s rest},
      c.mergeField tag w levels m s = ⟨m', .ok rest⟩ ↔
        ∃ v, sub.mergePayload w levels (get m) s = ⟨v, .ok rest⟩ ∧ set m v = m' := by
  cases h with
  | optional own =>
      have hfield := field?_eq_some htags.1 own (List.mem_singleton.mpr (Eq.refl tag))
      exact ⟨_, _, mergeField_of_lift hfield rfl Field.merge_optional⟩
  | repeated own =>
      have hfield := field?_eq_some htags.1 own (List.mem_singleton.mpr (Eq.refl tag))
      exact ⟨_, _, mergeField_of_lift hfield rfl Field.merge_repeated⟩
  | @member U members dropped part wrap view own holds =>
      have htag : tag ∈ (Field.choice members dropped part).tags :=
        List.mem_append_left _ (List.mem_map.mpr ⟨_, holds, rfl⟩)
      have hfield := field?_eq_some htags.1 own htag
      have hnodup := (List.nodup_flatMap.mp htags.1).1 _ own
      have hfind := find?_of_nodup (List.Nodup.of_append_left hnodup) holds
      exact ⟨_, _, mergeField_of_lift hfield (Field.merge_choice_of_member hfind)
        Member.merge_message⟩

theorem Nests.mergeRecord (h : c.Nests sub tag) (htags : c.Tagged) (hsub : sub.Steady)
    (hle : levels < nestingLimit) {head size size' content content' rest : Bytes}
    (hkey : Key.decode head = .ok ((tag, .lengthDelimited), []))
    (hsize : Varint.decode size = .ok (content.length, []))
    (hsize' : Varint.decode size' = .ok (content'.length, []))
    (hcontent : ∀ {v v'}, sub.Reads levels v content v' [] → sub.Reads levels v content' v' [])
    (hrecord : c.mergeRecord (levels + 1) m (head ++ (size ++ content) ++ y) = ⟨m', .ok rest⟩) :
    rest = y ∧ c.mergeRecord (levels + 1) m (head ++ (size' ++ content') ++ y) = ⟨m', .ok y⟩ := by
  obtain ⟨get, set, hget⟩ := h.mergeField htags
  have hhead (t : Bytes) : Key.decode (head ++ t) = .ok ((tag, .lengthDelimited), t) := by
    obtain ⟨bytes, heq, -, hsteady⟩ := Key.steady_decode hkey
    rw [heq, List.append_nil, hsteady]
  have hsized {size content : Bytes} (hsize : Varint.decode size = .ok (content.length, [])) :
      Scalar.readSized (size ++ content ++ y) = .ok (content, y) := by
    obtain ⟨bytes, heq, -, hsteady⟩ := Varint.steady_decode hsize
    rw [Scalar.readSized_eq_ok, heq, List.append_nil, List.append_assoc, hsteady]
  rw [List.append_assoc] at hrecord ⊢
  obtain ⟨tag', w, payload, hdecode, hfield⟩ := mergeRecord_eq_ok.mp hrecord
  rw [hhead] at hdecode
  cases hdecode
  obtain ⟨v, hv, rfl⟩ := hget.mp hfield
  obtain ⟨-, inner, content'', heq, hsized', hreads⟩ := hsub.reads_of_mergePayload (by omega) hv
  cases heq
  rw [hsized hsize] at hsized'
  cases hsized'
  refine ⟨rfl, mergeRecord_eq_ok.mpr ⟨tag, .lengthDelimited, _, hhead _, hget.mpr ⟨v, ?_, rfl⟩⟩⟩
  obtain ⟨bytes, rs, heq, -, -, hsteady⟩ := hsub.reads (by omega) hreads
  obtain rfl := List.append_cancel_right heq
  have hold := hsteady levels (Nat.le_refl _) []
  rw [List.append_nil] at hold
  exact mergePayload_of_reads (hsized hsize') (hsub.reads_append (by omega) (hcontent hold) y)

end Codec

end Wire

open Wire

namespace MessageKind

/-- The second string of bytes is the first one with an unknown record put in where a record ends,
or put into the message that one of the records holds, whose length is then written anew. -/
inductive Padded : (kind : MessageKind) → (levels : Nat) → Bytes → Bytes → Prop
  | here {kind : MessageKind} {levels : Nat} {x u y : Bytes} {rs : List Record}
      (whole : records x = .ok rs) (unknown : kind.codec.Unknown levels u) :
      Padded kind levels (x ++ y) (x ++ (u ++ y))
  | inside {kind sub : MessageKind} {levels tag : Nat} {rs : List Record}
      {x y head size size' content content' : Bytes} (whole : records x = .ok rs)
      (nests : kind.codec.Nests sub.codec tag)
      (key : Key.decode head = .ok ((tag, .lengthDelimited), []))
      (sized : Varint.decode size = .ok (content.length, []))
      (resized : Varint.decode size' = .ok (content'.length, []))
      (padded : Padded sub levels content content') :
      Padded kind (levels + 1) (x ++ (head ++ (size ++ content) ++ y))
        (x ++ (head ++ (size' ++ content') ++ y))

theorem Padded.reads {kind : MessageKind} {levels : Nat} {s s' : Bytes}
    (h : kind.Padded levels s s') (hle : levels ≤ nestingLimit) {m m' : kind.Carrier}
    (hreads : kind.codec.Reads levels m s m' []) : kind.codec.Reads levels m s' m' [] := by
  induction h with
  | @here kind levels x u y rs whole unknown =>
      have hc := kind.steady_codec
      obtain ⟨m₁, hx, hy⟩ := hc.reads_split hle whole hreads
      exact (hc.reads_append hle hx (u ++ y)).trans ((unknown.reads m₁ y).trans hy)
  | @inside kind sub levels tag rs x y head size size' content content' whole nests key sized
      resized padded ih =>
      have hc := kind.steady_codec
      obtain ⟨m₁, hx, hy⟩ := hc.reads_split hle whole hreads
      refine (hc.reads_append hle hx _).trans ?_
      generalize hs : head ++ (size ++ content) ++ y = s at hy
      cases hy with
      | done =>
          have hhead : head = [] := by
            simp only [List.append_eq_nil_iff] at hs
            exact hs.1.1
          rw [hhead] at key
          cases key
      | record merge _ more =>
          subst hs
          obtain ⟨rfl, hrecord⟩ := nests.mergeRecord kind.tagged_codec sub.steady_codec hle key
            sized resized (ih (by omega)) merge
          exact .record hrecord (hc.length_lt hle hrecord) more

/-- Records with tags that a message does not know are transparent: where one stands among the
records of a message, or of a message inside it, does not matter to what is read. -/
theorem merge_padded (kind : MessageKind) (m m' : kind.Carrier) (rest : Bytes) :
    (∀ x u y rs, records x = .ok rs → kind.codec.Unknown nestingLimit u →
      kind.codec.merge m (x ++ y) = ⟨m', .ok rest⟩ →
        kind.codec.merge m (x ++ (u ++ y)) = ⟨m', .ok rest⟩) ∧
    ∀ s s', kind.Padded nestingLimit s s' → kind.codec.merge m s = ⟨m', .ok rest⟩ →
      kind.codec.merge m s' = ⟨m', .ok rest⟩ := by
  have hpadded : ∀ s s', kind.Padded nestingLimit s s' → kind.codec.merge m s = ⟨m', .ok rest⟩ →
      kind.codec.merge m s' = ⟨m', .ok rest⟩ := by
    intro s s' h hmerge
    obtain ⟨rfl, hreads⟩ := kind.steady_codec.merge_eq_ok.mp hmerge
    exact kind.steady_codec.merge_eq_ok.mpr ⟨rfl, h.reads (Nat.le_refl _) hreads⟩
  exact ⟨fun x u y rs hwhole hu => hpadded _ _ (.here hwhole hu), hpadded⟩

/-- A group that no put knows of: between two records of a put, and in the put of a transaction. -/
theorem merge_padded_of_group :
    let u : Bytes := [75, 8, 150, 1, 76]
    let put : PutRequest := { key := [107], value := [118] }
    let txn : TxnRequest := { success := [{ request := some (.put { key := [107] }) }] }
    records [10, 1, 107] = .ok [⟨1, .lengthDelimited, [1, 107]⟩] ∧
      PutRequest.codec.Unknown nestingLimit u ∧
      PutRequest.codec.merge {} ([10, 1, 107] ++ [18, 1, 118]) = ⟨put, .ok []⟩ ∧
      PutRequest.codec.merge {} ([10, 1, 107] ++ (u ++ [18, 1, 118])) = ⟨put, .ok []⟩ ∧
      Padded .txnRequest nestingLimit [18, 5, 18, 3, 10, 1, 107]
        [18, 10, 18, 8, 10, 1, 107, 75, 8, 150, 1, 76] ∧
      TxnRequest.codec.merge {} [18, 5, 18, 3, 10, 1, 107] = ⟨txn, .ok []⟩ ∧
      TxnRequest.codec.merge {} [18, 10, 18, 8, 10, 1, 107, 75, 8, 150, 1, 76] = ⟨txn, .ok []⟩ := by
  intro u put txn
  have hwhole : records [10, 1, 107] = .ok [⟨1, .lengthDelimited, [1, 107]⟩] := by rfl
  have hunknown (levels : Nat) : PutRequest.codec.Unknown (levels + 2) u := by
    have hnumber : Payload (levels + 1) .varint 1 [150, 1] := .varint (n := 150) (by rfl)
    have hend : Payload (levels + 2) .startGroup 9 [76] := .groupEnd (by rfl)
    exact ⟨9, .startGroup, [8, 150, 1, 76], by rfl, .groupRecord (by rfl) hnumber hend, by decide⟩
  have hpadded : Padded .txnRequest nestingLimit [18, 5, 18, 3, 10, 1, 107]
      [18, 10, 18, 8, 10, 1, 107, 75, 8, 150, 1, 76] := by
    have hput : Padded .putRequest 98 [10, 1, 107] [10, 1, 107, 75, 8, 150, 1, 76] :=
      @Padded.here .putRequest 98 [10, 1, 107] u [] _ hwhole (hunknown 96)
    have hop : Padded .requestOp 99 [18, 3, 10, 1, 107] [18, 8, 10, 1, 107, 75, 8, 150, 1, 76] :=
      @Padded.inside .requestOp .putRequest 98 2 [] [] [] [18] [3] [8] _ _ (by rfl)
        (.member List.mem_cons_self (List.mem_cons_of_mem _ List.mem_cons_self)) (by rfl) (by rfl)
        (by rfl) hput
    exact @Padded.inside .txnRequest .requestOp 99 2 [] [] [] [18] [5] [10] _ _ (by rfl)
      (.repeated (List.mem_cons_of_mem _ List.mem_cons_self)) (by rfl) (by rfl) (by rfl) hop
  have hsplit : PutRequest.codec.merge {} ([10, 1, 107] ++ [18, 1, 118]) = ⟨put, .ok []⟩ := by rfl
  have htxn : TxnRequest.codec.merge {} [18, 5, 18, 3, 10, 1, 107] = ⟨txn, .ok []⟩ := by rfl
  exact ⟨hwhole, hunknown 98, hsplit,
    (merge_padded .putRequest {} put []).1 _ _ _ _ hwhole (hunknown 98) hsplit, hpadded, htxn,
    (merge_padded .txnRequest {} txn []).2 _ _ hpadded htxn⟩

end MessageKind

end Keyspace
