import Keyspace.Proofs.RecordLaws
import Mathlib.Data.List.Nodup

namespace Keyspace.Wire

/-- What is written of a value can be told from whatever follows it. -/
def PrefixFree (write : α → Bytes) : Prop :=
  ∀ ⦃a b : α⦄ ⦃s t : Bytes⦄, write a ++ s = write b ++ t → a = b ∧ s = t

theorem Varint.prefixFree_encode : PrefixFree encode := by
  intro m n s t h
  induction m using Nat.strongRecOn generalizing n with
  | ind m ih =>
      by_cases hm : m < 128
      · by_cases hn : n < 128
        · rw [encode_of_lt hm, encode_of_lt hn, List.singleton_append, List.singleton_append] at h
          obtain ⟨hbyte, hrest⟩ := List.cons.inj h
          have hnat := congrArg UInt8.toNat hbyte
          rw [toNat_toUInt8 (by omega), toNat_toUInt8 (by omega)] at hnat
          exact ⟨hnat, hrest⟩
        · rw [encode_of_lt hm, encode_of_le (Nat.not_lt.mp hn), List.singleton_append,
            List.cons_append] at h
          have hnat := congrArg UInt8.toNat (List.cons.inj h).1
          rw [toNat_toUInt8 (by omega), toNat_toUInt8 (by omega)] at hnat
          omega
      · by_cases hn : n < 128
        · rw [encode_of_le (Nat.not_lt.mp hm), encode_of_lt hn, List.singleton_append,
            List.cons_append] at h
          have hnat := congrArg UInt8.toNat (List.cons.inj h).1
          rw [toNat_toUInt8 (by omega), toNat_toUInt8 (by omega)] at hnat
          omega
        · rw [encode_of_le (Nat.not_lt.mp hm), encode_of_le (Nat.not_lt.mp hn), List.cons_append,
            List.cons_append] at h
          obtain ⟨hbyte, hhigh⟩ := List.cons.inj h
          have hnat := congrArg UInt8.toNat hbyte
          rw [toNat_toUInt8 (by omega), toNat_toUInt8 (by omega)] at hnat
          obtain ⟨hdiv, hrest⟩ := ih (m / 128) (by omega) hhigh
          exact ⟨by omega, hrest⟩

theorem Key.encode_append_inj {tag tag' : Nat} {w w' : WireType} {s t : Bytes}
    (h : encode tag w ++ s = encode tag' w' ++ t) : tag = tag' ∧ s = t := by
  have hcode := w.code_lt
  have hcode' := w'.code_lt
  obtain ⟨hkey, hrest⟩ := Varint.prefixFree_encode h
  exact ⟨by omega, hrest⟩

theorem prefixFree_sized {write : α → Bytes} (hwrite : Function.Injective write) :
    PrefixFree fun v => Varint.encode (write v).length ++ write v := by
  intro a b s t h
  rw [List.append_assoc, List.append_assoc] at h
  obtain ⟨hlength, hpayload⟩ := Varint.prefixFree_encode h
  obtain ⟨heq, hrest⟩ := List.append_inj hpayload hlength
  exact ⟨hwrite heq, hrest⟩

theorem Scalar.Lawful.prefixFree [Inhabited α] {kind : Scalar α} (hkind : kind.Lawful)
    (hsize : ∀ v, kind.size v < UInt64.size) : PrefixFree kind.write := by
  intro a b s t h
  have hread := hkind.read_write a s (hsize a)
  rw [h, hkind.read_write b t (hsize b)] at hread
  obtain ⟨rfl, rfl⟩ := Prod.mk.inj (Except.ok.inj hread)
  exact ⟨rfl, rfl⟩

theorem Varint.size_lt {n : Nat} (hn : n < UInt64.size) : size n < UInt64.size := by
  have hlog : n.log2 < 64 := by
    by_cases hzero : n = 0
    · rw [hzero]
      decide
    · exact (Nat.log2_lt hzero).mpr hn
  have hsize : 64 < UInt64.size := by decide
  rw [size]
  omega

theorem Scalar.prefixFree_int64 : PrefixFree int64.write :=
  lawful_int64.prefixFree fun v => Varint.size_lt v.toUInt64.toNat_lt

theorem Scalar.prefixFree_int32 : PrefixFree int32.write :=
  lawful_int32.prefixFree fun v => Varint.size_lt v.toInt64.toUInt64.toNat_lt

theorem Scalar.prefixFree_bool : PrefixFree bool.write := by
  refine lawful_bool.prefixFree fun v => Varint.size_lt ?_
  cases v <;> decide

theorem Scalar.prefixFree_bytes : PrefixFree bytes.write :=
  prefixFree_sized fun _ _ h => h

/-- No record with one of the tags stands at the head of the bytes. -/
def Clear (tags : List Nat) (s : Bytes) : Prop :=
  ∀ tag w t, s = Key.encode tag w ++ t → tag ∉ tags

/-- A field that writes records with its own tags, if any at all, and whose value can be told from
what it writes as long as no more of these records follow. -/
structure Field.Distinct (f : Field M) : Prop where
  own : ∀ v, f.write v = [] ∨ ∃ tag ∈ f.tags, ∃ w s, f.write v = Key.encode tag w ++ s
  inj : ∀ ⦃v v' s s'⦄, Clear f.tags s → Clear f.tags s' → f.write v ++ s = f.write v' ++ s' →
    v = v' ∧ s = s'

theorem clear_flatMap_write {fs : List (Field M)} (hfs : ∀ f ∈ fs, f.Distinct) {tags : List Nat}
    (htags : ∀ tag ∈ fs.flatMap Field.tags, tag ∉ tags) (m : M) :
    Clear tags (fs.flatMap fun f => f.write (f.part.get m)) := by
  induction fs with
  | nil =>
      intro tag w t h
      have hne := Varint.encode_ne_nil (tag * 8 + w.code)
      exact absurd (List.append_eq_nil_iff.mp h.symm).1 hne
  | cons f fs ih =>
      obtain ⟨hf, hrest⟩ := List.forall_mem_cons.mp hfs
      rw [List.flatMap_cons]
      rcases hf.own (f.part.get m) with hnil | ⟨tag, htag, w, s, hwrite⟩
      · rw [hnil, List.nil_append]
        apply ih hrest
        intro tag htag
        exact htags tag (List.mem_append_right _ htag)
      · intro tag' w' t h
        rw [hwrite, List.append_assoc] at h
        obtain ⟨rfl, -⟩ := Key.encode_append_inj h
        exact htags tag (List.mem_append_left _ htag)

theorem Codec.get_eq_of_encode_eq {c : Codec M} (hfs : ∀ f ∈ c.fields, f.Distinct)
    (htags : (c.fields.flatMap Field.tags).Nodup) {a b : M} (h : c.encode a = c.encode b) :
    ∀ f ∈ c.fields, f.part.get a = f.part.get b := by
  rw [encode, encode] at h
  generalize c.fields = fs at hfs htags h
  induction fs with
  | nil => exact nofun
  | cons f fs ih =>
      obtain ⟨hf, hrest⟩ := List.forall_mem_cons.mp hfs
      rw [List.flatMap_cons, List.nodup_append] at htags
      obtain ⟨-, hnodup, hapart⟩ := htags
      have hclear : ∀ m, Clear f.tags (fs.flatMap fun f => f.write (f.part.get m)) := by
        apply clear_flatMap_write hrest
        intro tag htag hown
        exact hapart tag hown tag htag rfl
      obtain ⟨hvalue, htail⟩ := hf.inj (hclear a) (hclear b) h
      exact List.forall_mem_cons.mpr ⟨hvalue, ih hrest hnodup htail⟩

theorem Codec.encode_injective {c : Codec M} (hfs : ∀ f ∈ c.fields, f.Distinct)
    (htags : (c.fields.flatMap Field.tags).Nodup)
    (hext : ∀ a b, (∀ f ∈ c.fields, f.part.get a = f.part.get b) → a = b) :
    Function.Injective c.encode :=
  fun a b h => hext a b (get_eq_of_encode_eq hfs htags h)

theorem Codec.prefixFree_encodeDelimited {c : Codec M} (hc : Function.Injective c.encode)
    (hsize : ∀ m, (c.encode m).length = c.size m) : PrefixFree c.encodeDelimited := by
  intro a b s t h
  rw [encodeDelimited, encodeDelimited, ← hsize, ← hsize] at h
  exact prefixFree_sized hc h

section Kinds

variable {tag : Nat} {S : Type} {sub : Codec S}

theorem Field.distinct_scalar [Inhabited α] {kind : Scalar α} {part : Part M α}
    (hkind : kind.Lawful) (hwrite : PrefixFree kind.write) : (scalar tag kind part).Distinct where
  own (v : α) := by
    change (if kind.isDefault v then [] else _) = [] ∨ ∃ tag' ∈ [tag], ∃ w s,
      (if kind.isDefault v then [] else _) = Key.encode tag' w ++ s
    split
    · exact .inl rfl
    · exact .inr ⟨tag, List.mem_singleton.mpr rfl, kind.wireType, kind.write v, rfl⟩
  inj (v v' : α) s s' hs hs' h := by
    change (if kind.isDefault v then [] else Key.encode tag kind.wireType ++ kind.write v) ++ s =
      (if kind.isDefault v' then [] else Key.encode tag kind.wireType ++ kind.write v') ++ s' at h
    have hown : tag ∈ [tag] := List.mem_singleton.mpr rfl
    split at h
    · rename_i hv
      split at h
      · rename_i hv'
        have hzero := (hkind.isDefault_iff v).mp hv
        have hzero' := (hkind.isDefault_iff v').mp hv'
        exact ⟨hzero.trans hzero'.symm, h⟩
      · rw [List.nil_append, List.append_assoc] at h
        exact absurd hown (hs tag _ _ h)
    · split at h
      · rw [List.nil_append, List.append_assoc] at h
        exact absurd hown (hs' tag _ _ h.symm)
      · rw [List.append_assoc, List.append_assoc] at h
        exact hwrite (Key.encode_append_inj h).2

theorem Field.distinct_bytes (part : Part M Bytes) : (scalar tag .bytes part).Distinct :=
  distinct_scalar Scalar.lawful_bytes Scalar.prefixFree_bytes

theorem Field.distinct_int64 (part : Part M Int64) : (scalar tag .int64 part).Distinct :=
  distinct_scalar Scalar.lawful_int64 Scalar.prefixFree_int64

theorem Field.distinct_int32 (part : Part M Int32) : (scalar tag .int32 part).Distinct :=
  distinct_scalar Scalar.lawful_int32 Scalar.prefixFree_int32

theorem Field.distinct_bool (part : Part M Bool) : (scalar tag .bool part).Distinct :=
  distinct_scalar Scalar.lawful_bool Scalar.prefixFree_bool

theorem Field.distinct_repeated {part : Part M (List S)} (hsub : PrefixFree sub.encodeDelimited) :
    (repeated tag sub part).Distinct where
  own (vs : List S) := by
    cases vs with
    | nil => exact .inl rfl
    | cons v vs =>
        right
        refine ⟨tag, List.mem_singleton.mpr rfl, .lengthDelimited,
          sub.encodeDelimited v ++ (repeated tag sub part).write vs, ?_⟩
        exact List.append_assoc ..
  inj (vs vs' : List S) s s' hs hs' h := by
    change (vs.flatMap fun v => Key.encode tag .lengthDelimited ++ sub.encodeDelimited v) ++ s =
      (vs'.flatMap fun v => Key.encode tag .lengthDelimited ++ sub.encodeDelimited v) ++ s' at h
    have hown : tag ∈ [tag] := List.mem_singleton.mpr rfl
    induction vs generalizing vs' with
    | nil =>
        cases vs' with
        | nil => exact ⟨rfl, h⟩
        | cons v' vs' =>
            rw [List.flatMap_cons, List.append_assoc, List.append_assoc] at h
            exact absurd hown (hs tag _ _ h)
    | cons v vs ih =>
        cases vs' with
        | nil =>
            rw [List.flatMap_cons, List.append_assoc, List.append_assoc] at h
            exact absurd hown (hs' tag _ _ h.symm)
        | cons v' vs' =>
            rw [List.flatMap_cons, List.flatMap_cons, List.append_assoc, List.append_assoc,
              List.append_assoc, List.append_assoc] at h
            obtain ⟨rfl, hmore⟩ := hsub (Key.encode_append_inj h).2
            obtain ⟨rfl, hrest⟩ := ih vs' hmore
            exact ⟨rfl, hrest⟩

/-- The member writes the value of the choice alone, and so that it can be told from what
follows. -/
structure Member.Writes (member : Member U) (members : List (Member U)) (u : U) : Prop where
  mem : member ∈ members
  alone : members.flatMap (fun other => other.write u) = member.write u
  own : ∃ w s, member.write u = Key.encode member.tag w ++ s
  inj : ∀ ⦃u' s s'⦄, member.write u' ≠ [] → member.write u ++ s = member.write u' ++ s' →
    u = u' ∧ s = s'

theorem Member.writes_of_view {member : Member U} {members : List (Member U)} {view : U → Option α}
    {wrap : α → U} {write : α → Bytes} {w : WireType} {v : α} (hmem : member ∈ members)
    (hmember : ∀ u, member.write u =
      match view u with
      | none => []
      | some v => Key.encode member.tag w ++ write v)
    (halone : members.flatMap (fun other => other.write (wrap v)) = member.write (wrap v))
    (hview : ∀ u v, view u = some v ↔ u = wrap v) (hwrite : PrefixFree write) :
    member.Writes members (wrap v) where
  mem := hmem
  alone := halone
  own := by
    rw [hmember, (hview (wrap v) v).mpr rfl]
    exact ⟨w, write v, rfl⟩
  inj u' s s' hu' h := by
    rw [hmember] at hu'
    rw [hmember, hmember u', (hview (wrap v) v).mpr rfl] at h
    cases hv' : view u' with
    | none => simp [hv'] at hu'
    | some v' =>
        simp only [hv', List.append_assoc] at h
        obtain ⟨rfl, hrest⟩ := hwrite (Key.encode_append_inj h).2
        exact ⟨((hview u' v).mp hv').symm, hrest⟩

theorem Member.writes_scalar {kind : Scalar α} {wrap : α → U} {view : U → Option α}
    {members : List (Member U)} {v : α} (hmem : scalar tag kind wrap view ∈ members)
    (halone : members.flatMap (fun other => other.write (wrap v)) =
      (scalar tag kind wrap view).write (wrap v))
    (hview : ∀ u v, view u = some v ↔ u = wrap v) (hwrite : PrefixFree kind.write) :
    (scalar tag kind wrap view).Writes members (wrap v) :=
  writes_of_view hmem (fun _ => rfl) halone hview hwrite

theorem Member.writes_message {wrap : S → U} {view : U → Option S} {members : List (Member U)}
    {v : S} (hmem : message tag sub wrap view ∈ members)
    (halone : members.flatMap (fun other => other.write (wrap v)) =
      (message tag sub wrap view).write (wrap v))
    (hview : ∀ u v, view u = some v ↔ u = wrap v) (hwrite : PrefixFree sub.encodeDelimited) :
    (message tag sub wrap view).Writes members (wrap v) :=
  writes_of_view hmem (fun _ => rfl) halone hview hwrite

theorem Field.distinct_choice {members : List (Member U)} {part : Part M (Option U)}
    (htags : (members.map Member.tag).Nodup)
    (hmembers : ∀ u, ∃ member : Member U, member.Writes members u) :
    (choice members [] part).Distinct where
  own (u : Option U) := by
    cases u with
    | none => exact .inl rfl
    | some u =>
        obtain ⟨member, hmember⟩ := hmembers u
        obtain ⟨w, s, hown⟩ := hmember.own
        refine .inr ⟨member.tag, ?_, w, s, hmember.alone.trans hown⟩
        exact List.mem_append_left _ (List.mem_map_of_mem hmember.mem)
  inj (u u' : Option U) s s' hs hs' h := by
    have hclear : ∀ {member : Member U} {u s t}, member.Writes members u →
        Clear (members.map Member.tag ++ []) s → s ≠ member.write u ++ t := by
      intro member u s t hmember hs h
      obtain ⟨w, p, hown⟩ := hmember.own
      rw [hown, List.append_assoc] at h
      exact hs member.tag w _ h (List.mem_append_left _ (List.mem_map_of_mem hmember.mem))
    cases u with
    | none =>
        cases u' with
        | none => exact ⟨rfl, h⟩
        | some u' =>
            obtain ⟨member, hmember⟩ := hmembers u'
            change s = members.flatMap (fun other => other.write u') ++ s' at h
            rw [hmember.alone] at h
            exact absurd h (hclear hmember hs)
    | some u =>
        obtain ⟨member, hmember⟩ := hmembers u
        cases u' with
        | none =>
            change members.flatMap (fun other => other.write u) ++ s = s' at h
            rw [hmember.alone] at h
            exact absurd h.symm (hclear hmember hs')
        | some u' =>
            obtain ⟨member', hmember'⟩ := hmembers u'
            change members.flatMap (fun other => other.write u) ++ s =
              members.flatMap (fun other => other.write u') ++ s' at h
            rw [hmember.alone, hmember'.alone] at h
            -- The tag at the head says that both were written by one member.
            obtain ⟨w, p, hown⟩ := hmember.own
            obtain ⟨w', p', hown'⟩ := hmember'.own
            have hkeys := h
            rw [hown, hown', List.append_assoc, List.append_assoc] at hkeys
            have htag := (Key.encode_append_inj hkeys).1
            obtain rfl := List.inj_on_of_nodup_map htags hmember.mem hmember'.mem htag
            have hne : member.write u' ≠ [] := by
              rw [hown']
              exact List.append_ne_nil_of_left_ne_nil (Varint.encode_ne_nil _) _
            obtain ⟨rfl, hrest⟩ := hmember.inj hne h
            exact ⟨rfl, hrest⟩

end Kinds

end Keyspace.Wire
