import Keyspace.Proofs.RecordSplitting
import Mathlib.Data.List.Induction
import Mathlib.Data.List.Nodup

namespace Keyspace.Wire

variable {M S U : Type}

def contents : List Record → Except Fault Bytes
  | [] => .ok []
  | r :: rs => r.content.bind fun s => (contents rs).map (s ++ ·)

/-- The records hold a message, in one or in several pieces. -/
def Holds (c : Codec M) (rs : List Record) (m : M) : Prop :=
  ∃ s, contents rs = .ok s ∧ c.decode s = .ok m

/-- The records end with a run of records that have the tag and hold a message. -/
def EndsIn (tag : Nat) (c : Codec M) (rs : List Record) (m : M) : Prop :=
  ∃ before run, rs = before ++ run ∧ run ≠ [] ∧ (∀ r ∈ run, r.tag = tag) ∧
    (∀ last, before.getLast? = some last → last.tag ≠ tag) ∧ Holds c run m

section

variable {c : Codec M} {rs : List Record} {r : Record} {m m' : M} {tag : Nat} {s t : Bytes}

theorem contents_concat (hs : contents rs = .ok s) (ht : r.content = .ok t) :
    contents (rs ++ [r]) = .ok (s ++ t) := by
  induction rs generalizing s with
  | nil =>
      cases hs
      exact bind_eq_ok.mpr ⟨t, ht, by simp [contents, Except.map]⟩
  | cons r' rs ih =>
      obtain ⟨s', hcontent, hmap⟩ := bind_eq_ok.mp hs
      obtain ⟨more, hmore, rfl⟩ := map_eq_ok.mp hmap
      refine bind_eq_ok.mpr ⟨s', hcontent, map_eq_ok.mpr ⟨more ++ t, ih hmore, ?_⟩⟩
      rw [List.append_assoc]

theorem holds_nil (hc : c.Steady) : Holds c [] c.empty :=
  ⟨[], rfl, hc.decode_eq_ok.mpr ⟨[], rfl, rfl⟩⟩

theorem Holds.concat (hc : c.Steady) (h : Holds c rs m)
    (hover : r.readOver (fun _ w levels => c.mergePayload w levels) m = .ok m') :
    Holds c (rs ++ [r]) m' := by
  obtain ⟨s, hs, hdecode⟩ := h
  obtain ⟨inner, hinner, hmerged⟩ := hc.decode_eq_ok.mp hdecode
  obtain ⟨t, inner', ht, hinner', hmerged'⟩ := hc.readOver_mergePayload hover
  refine ⟨s ++ t, contents_concat hs ht, hc.decode_eq_ok.mpr ⟨inner ++ inner', ?_, ?_⟩⟩
  · exact records_append hinner hinner'
  · exact merged_append.mpr ⟨m, hmerged, hmerged'⟩

theorem EndsIn.last (h : EndsIn tag c rs m) : ∃ last, rs.getLast? = some last ∧ last.tag = tag := by
  obtain ⟨before, run, rfl, hne, htags, -, -⟩ := h
  refine ⟨run.getLast hne, ?_, htags _ (List.getLast_mem hne)⟩
  rw [List.getLast?_append, List.getLast?_eq_some_getLast hne, Option.some_or]

theorem EndsIn.concat (hc : c.Steady) (h : EndsIn tag c rs m) (htag : r.tag = tag)
    (hover : r.readOver (fun _ w levels => c.mergePayload w levels) m = .ok m') :
    EndsIn tag c (rs ++ [r]) m' := by
  obtain ⟨before, run, rfl, -, htags, hbefore, hholds⟩ := h
  refine ⟨before, run ++ [r], by rw [List.append_assoc], by simp, ?_, hbefore,
    hholds.concat hc hover⟩
  rw [List.forall_mem_append, List.forall_mem_singleton]
  exact ⟨htags, htag⟩

theorem endsIn_singleton (hc : c.Steady) (hlast : ∀ last, rs.getLast? = some last → last.tag ≠ tag)
    (htag : r.tag = tag)
    (hover : r.readOver (fun _ w levels => c.mergePayload w levels) c.empty = .ok m') :
    EndsIn tag c (rs ++ [r]) m' :=
  ⟨rs, [r], rfl, by simp, by simpa using htag, hlast, (holds_nil hc).concat hc hover⟩

theorem EndsIn.append_left (h : EndsIn tag c rs m) {others : List Record}
    (hothers : ∀ r ∈ others, r.tag ≠ tag) : EndsIn tag c (others ++ rs) m := by
  obtain ⟨before, run, rfl, hne, htags, hbefore, hholds⟩ := h
  refine ⟨others ++ before, run, by rw [List.append_assoc], hne, htags, fun last hlast => ?_,
    hholds⟩
  rw [List.getLast?_append, Option.or_eq_some_iff] at hlast
  rcases hlast with hlast | ⟨-, hlast⟩
  · exact hbefore last hlast
  · exact hothers last (List.mem_of_getLast? hlast)

end

def tagged (tags : List Nat) (rs : List Record) : List Record :=
  rs.filter fun r => r.tag ∈ tags

theorem tagged_append (tags : List Nat) (rs rs' : List Record) :
    tagged tags (rs ++ rs') = tagged tags rs ++ tagged tags rs' :=
  List.filter_append ..

theorem tagged_tagged {tags tags' : List Nat} (hsub : tags ⊆ tags') (rs : List Record) :
    tagged tags (tagged tags' rs) = tagged tags rs := by
  rw [tagged, tagged, tagged, List.filter_filter]
  refine List.filter_congr fun r _ => ?_
  by_cases htag : r.tag ∈ tags
  · simp [htag, hsub htag]
  · simp [htag]

theorem Codec.merged_field {c : Codec M} {f : Field M} (htags : c.Tagged) (hf : f ∈ c.fields)
    (hpart : f.part.Lawful)
    (hapart : ∀ g ∈ c.fields, ∀ tag ∈ g.tags, tag ∉ f.tags → ∀ v m,
      f.part.get (g.part.set v m) = f.part.get m)
    {rs : List Record} {m m' : M} (h : merged c.mergeField m rs = .ok m') :
    merged f.merge (f.part.get m) (tagged f.tags rs) = .ok (f.part.get m') := by
  rw [tagged]
  induction rs generalizing m with
  | nil =>
      cases h
      rfl
  | cons r rs ih =>
      obtain ⟨m'', hover, hmore⟩ := merged_cons.mp h
      obtain ⟨rest, hfield⟩ := Record.readOver_eq_ok.mp hover
      by_cases htag : r.tag ∈ f.tags
      · obtain ⟨v, hv, rfl⟩ := (mergeField_of_field (field?_eq_some htags.1 hf htag)).mp hfield
        have hfirst := ih hmore
        rw [hpart.get_set] at hfirst
        rw [List.filter_cons_of_pos (by simpa using htag)]
        exact merged_cons.mpr ⟨v, Record.readOver_eq_ok.mpr ⟨rest, hv⟩, hfirst⟩
      · have hsame : f.part.get m'' = f.part.get m := by
          cases hg : c.field? r.tag with
          | some g =>
              obtain ⟨v, hv, rfl⟩ := (mergeField_of_field hg).mp hfield
              exact hapart g (field?_mem hg).1 r.tag (field?_mem hg).2 htag v m
          | none =>
              rw [mergeField_of_none hg] at hfield
              rw [(Merged.mk.inj hfield).1]
        rw [List.filter_cons_of_neg (by simpa using htag), ← hsame]
        exact ih hmore

theorem Codec.merged_single {c : Codec M} {f : Field M} (htags : c.Tagged)
    (hfields : c.fields = [f]) (hpart : f.part.Lawful) {rs : List Record} {m m' : M}
    (h : merged c.mergeField m rs = .ok m') :
    merged f.merge (f.part.get m) (tagged f.tags rs) = .ok (f.part.get m') := by
  have hf : f ∈ c.fields := by
    rw [hfields]
    exact List.mem_singleton.mpr rfl
  refine merged_field htags hf hpart ?_ h
  intro g hg tag hown hother
  rw [hfields, List.mem_singleton] at hg
  rw [hg] at hown
  exact absurd hown hother

section

variable {rs : List Record} {sub : Codec S} {tag : Nat}

theorem merged_scalar {kind : Scalar α} {part : Part M α} {old new : α}
    (h : merged (Field.scalar tag kind part).merge old rs = .ok new) :
    (rs = [] ∧ new = old) ∨
      ∃ last rest, rs.getLast? = some last ∧ kind.read last.payload = .ok (new, rest) := by
  induction rs using List.reverseRecOn with
  | nil =>
      cases h
      exact .inl ⟨rfl, rfl⟩
  | append_singleton rs r =>
      obtain ⟨v, -, hover⟩ := merged_concat.mp h
      obtain ⟨rest, hmerge⟩ := Record.readOver_eq_ok.mp hover
      exact .inr ⟨r, rest, by simp, (Scalar.merge_eq_ok.mp hmerge).2⟩

theorem merged_optional {part : Part M (Option S)} {new : Option S} (hsub : sub.Steady)
    (h : merged (Field.optional tag sub part).merge none rs = .ok new) :
    Holds sub rs (new.getD sub.empty) := by
  induction rs using List.reverseRecOn generalizing new with
  | nil =>
      cases h
      exact holds_nil hsub
  | append_singleton rs r ih =>
      obtain ⟨v, hmerged, hover⟩ := merged_concat.mp h
      obtain ⟨rest, hmerge⟩ := Record.readOver_eq_ok.mp hover
      obtain ⟨u, hu, rfl⟩ := Field.merge_optional.mp hmerge
      exact (ih hmerged).concat hsub (Record.readOver_eq_ok.mpr ⟨rest, hu⟩)

theorem merged_repeated {part : Part M (List S)} {old new : List S} (hsub : sub.Steady)
    (h : merged (Field.repeated tag sub part).merge old rs = .ok new) :
    ∃ vs, new = old ++ vs ∧ List.Forall₂ (fun r v => ∃ s inner, r.content = .ok s ∧
      records s = .ok inner ∧ merged sub.mergeField sub.empty inner = .ok v) rs vs := by
  induction rs generalizing old with
  | nil =>
      cases h
      exact ⟨[], (List.append_nil _).symm, .nil⟩
  | cons r rs ih =>
      obtain ⟨mid, hover, hmore⟩ := merged_cons.mp h
      obtain ⟨rest, hmerge⟩ := Record.readOver_eq_ok.mp hover
      obtain ⟨v, hv, rfl⟩ := Field.merge_repeated.mp hmerge
      obtain ⟨vs, rfl, hvs⟩ := ih hmore
      refine ⟨v :: vs, List.append_assoc .., .cons ?_ hvs⟩
      exact hsub.readOver_mergePayload (Record.readOver_eq_ok.mpr ⟨rest, hv⟩)

theorem readOver_choice_of_member {members : List (Member U)} {dropped : List Nat}
    {part : Part M (Option U)} {member : Member U} {r : Record} {old : Option U}
    (hfind : (members.find? fun member => member.tag == r.tag) = some member) :
    r.readOver (V := Option U) (Field.choice members dropped part).merge old =
      r.readOver (fun _ => member.merge) old :=
  Record.readOver_congr (Field.merge_choice_of_member hfind)

theorem readOver_choice_of_dropped {members : List (Member U)} {dropped : List Nat}
    {part : Part M (Option U)} {r : Record} {old new : Option U}
    (hfind : (members.find? fun member => member.tag == r.tag) = none)
    (hover : r.readOver (V := Option U) (Field.choice members dropped part).merge old = .ok new) :
    new = none := by
  obtain ⟨rest, hmerge⟩ := Record.readOver_eq_ok.mp hover
  rw [Field.merge_choice_of_dropped hfind] at hmerge
  exact (Merged.mk.inj hmerge).1.symm

theorem endsIn_concat {wrap : S → U} {view : U → Option S} {old new : Option U} {r : Record}
    (hsub : sub.Steady) (htag : r.tag = tag)
    (hrun : ∀ v, old.bind view = some v → EndsIn tag sub rs v)
    (hother : old.bind view = none → ∀ last, rs.getLast? = some last → last.tag ≠ tag)
    (hover : r.readOver (fun _ => (Member.message tag sub wrap view).merge) old = .ok new) :
    ∃ v, new = some (wrap v) ∧ EndsIn tag sub (rs ++ [r]) v := by
  obtain ⟨rest, hmerge⟩ := Record.readOver_eq_ok.mp hover
  obtain ⟨v, hv, rfl⟩ := Member.merge_message.mp hmerge
  refine ⟨v, rfl, ?_⟩
  cases hold : old.bind view with
  | some u =>
      rw [hold] at hv
      exact (hrun u hold).concat hsub htag (Record.readOver_eq_ok.mpr ⟨rest, hv⟩)
  | none =>
      rw [hold] at hv
      exact endsIn_singleton hsub (hother hold) htag (Record.readOver_eq_ok.mpr ⟨rest, hv⟩)

end

/-- A member of a choice that is a message. -/
structure Variant (U : Type) where
  Content : Type
  tag : Nat
  codec : Codec Content
  wrap : Content → U
  view : U → Option Content

def Variant.member (k : Variant U) : Member U :=
  .message k.tag k.codec k.wrap k.view

@[simp]
theorem Variant.tag_member (k : Variant U) : k.member.tag = k.tag :=
  rfl

/-- The members are told apart, by their tags and by what is read of them. -/
structure Variant.Distinct (variants : List (Variant U)) : Prop where
  tags : (variants.map tag).Nodup
  steady : ∀ k ∈ variants, k.codec.Steady
  view_wrap : ∀ k ∈ variants, ∀ v, k.view (k.wrap v) = some v
  view_other : ∀ k ∈ variants, ∀ k' ∈ variants, k.tag ≠ k'.tag → ∀ v, k'.view (k.wrap v) = none

/-- What the records of a choice say: what their last run holds, and nothing if the last record is
not that of a member. -/
inductive Chosen (variants : List (Variant U)) (rs : List Record) : Option U → Prop
  | nothing (last : ∀ r, rs.getLast? = some r → ∀ k ∈ variants, r.tag ≠ k.tag) :
      Chosen variants rs none
  | run {k : Variant U} {v : k.Content} (own : k ∈ variants)
      (ends : EndsIn k.tag k.codec rs v) : Chosen variants rs (some (k.wrap v))

section

variable {variants : List (Variant U)} {rs : List Record} {r : Record} {old new : Option U}
  {k : Variant U}

theorem Chosen.endsIn (h : Chosen variants rs old) (hd : Variant.Distinct variants)
    (hk : k ∈ variants) {v : k.Content} (hv : old.bind k.view = some v) :
    EndsIn k.tag k.codec rs v := by
  cases h with
  | nothing => cases hv
  | @run k' v' own ends =>
      change k.view (k'.wrap v') = some v at hv
      by_cases htag : k'.tag = k.tag
      · obtain rfl := List.inj_on_of_nodup_map hd.tags own hk htag
        rw [hd.view_wrap _ hk] at hv
        cases hv
        exact ends
      · rw [hd.view_other _ own _ hk htag] at hv
        cases hv

theorem Chosen.last_ne (h : Chosen variants rs old) (hd : Variant.Distinct variants)
    (hk : k ∈ variants) (hv : old.bind k.view = none) :
    ∀ last, rs.getLast? = some last → last.tag ≠ k.tag := by
  intro last hlast
  cases h with
  | nothing hnone => exact hnone last hlast k hk
  | @run k' v' own ends =>
      intro htag
      obtain ⟨last', hlast', htag'⟩ := ends.last
      rw [hlast] at hlast'
      cases hlast'
      obtain rfl := List.inj_on_of_nodup_map hd.tags own hk (htag'.symm.trans htag)
      change k'.view (k'.wrap v') = none at hv
      rw [hd.view_wrap _ hk] at hv
      cases hv

theorem Chosen.last (h : Chosen variants rs old) (hold : old ≠ none) :
    ∃ last, rs.getLast? = some last ∧ ∃ k ∈ variants, last.tag = k.tag := by
  cases h with
  | nothing => exact absurd rfl hold
  | run own ends =>
      obtain ⟨last, hlast, htag⟩ := ends.last
      exact ⟨last, hlast, _, own, htag⟩

theorem Chosen.concat (h : Chosen variants rs old) (hd : Variant.Distinct variants)
    {dropped : List Nat} {part : Part M (Option U)}
    (hover : r.readOver (V := Option U)
      (Field.choice (variants.map Variant.member) dropped part).merge old = .ok new) :
    Chosen variants (rs ++ [r]) new := by
  cases hfind : (variants.map Variant.member).find? fun member => member.tag == r.tag with
  | none =>
      obtain rfl := readOver_choice_of_dropped hfind hover
      refine .nothing fun last hlast k hk htag => ?_
      rw [List.getLast?_concat] at hlast
      cases hlast
      have hne := List.find?_eq_none.mp hfind k.member (List.mem_map_of_mem hk)
      exact hne (by simpa using htag.symm)
  | some member =>
      obtain ⟨k, hk, rfl⟩ := List.mem_map.mp (List.mem_of_find?_eq_some hfind)
      have htag : k.tag = r.tag := by simpa using List.find?_some hfind
      rw [readOver_choice_of_member hfind] at hover
      obtain ⟨v, rfl, hends⟩ := endsIn_concat (hd.steady k hk) htag.symm (fun _ => h.endsIn hd hk)
        (h.last_ne hd hk) hover
      exact .run hk hends

theorem Chosen.append_left (h : Chosen variants rs old) {others : List Record}
    (hothers : ∀ r ∈ others, ∀ k ∈ variants, r.tag ≠ k.tag) :
    Chosen variants (others ++ rs) old := by
  cases h with
  | nothing last =>
      refine .nothing fun r hr => ?_
      rw [List.getLast?_append, Option.or_eq_some_iff] at hr
      rcases hr with hr | ⟨-, hr⟩
      · exact last r hr
      · exact hothers r (List.mem_of_getLast? hr)
  | run own ends => exact .run own (ends.append_left fun r hr => hothers r hr _ own)

/-- A choice of messages is what its records say. -/
theorem chosen_merged (hd : Variant.Distinct variants) {dropped : List Nat}
    {part : Part M (Option U)}
    (h : merged (Field.choice (variants.map Variant.member) dropped part).merge none rs =
      .ok new) : Chosen variants rs new := by
  induction rs using List.reverseRecOn generalizing new with
  | nil =>
      cases h
      exact .nothing nofun
  | append_singleton rs r ih =>
      obtain ⟨old, hmerged, hover⟩ := merged_concat.mp h
      exact (ih hmerged).concat hd hover

end

end Keyspace.Wire
