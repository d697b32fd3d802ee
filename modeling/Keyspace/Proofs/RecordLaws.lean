import Keyspace.Proofs.ScalarRoundTrip
import Keyspace.Wire.Codec

namespace Keyspace

/-- Replacing a part changes nothing else, and a part that is replaced by itself nothing at
all. -/
structure Part.Lawful (p : Part M α) : Prop where
  get_set : ∀ v m, p.get (p.set v m) = v
  set_get : ∀ m, p.set (p.get m) m = m
  set_set : ∀ v w m, p.set v (p.set w m) = p.set v m

namespace Overlay

/-- A value over another one, which stays if the new value is the default. -/
def value [DecidableEq α] [Inhabited α] (old new : α) : α :=
  if new = default then old else new

def optional (overlay : α → α → α) : Option α → Option α → Option α
  | old, none => old
  | none, some new => some new
  | some old, some new => some (overlay old new)

theorem value_of_eq_default [DecidableEq α] [Inhabited α] {old : α} (new : α)
    (hold : old = default) : value old new = new := by
  rw [value]
  split
  · rename_i hnew
    rw [hold, hnew]
  · rfl

@[simp] theorem optional_none (overlay : α → α → α) (new : Option α) :
    optional overlay none new = new := by
  cases new <;> rfl

end Overlay

namespace Wire

/-- Records with the given tags are read one after the other, each over what those before it made
of a value. -/
inductive Overlays {V : Type} (tags : List Nat) (merge : Nat → WireType → V → Bytes → Merged V) :
    V → Bytes → V → Bytes → Prop
  | done (v : V) (s : Bytes) : Overlays tags merge v s v s
  | record {old mid new : V} {tag : Nat} {w : WireType} {payload s rest : Bytes}
      (own : tag ∈ tags) (merged : merge tag w old (payload ++ s) = ⟨mid, .ok s⟩)
      (more : Overlays tags merge mid s new rest) :
      Overlays tags merge old (Key.encode tag w ++ (payload ++ s)) new rest

def Field.Reads (f : Field M) (levels : Nat) : f.Value → Bytes → f.Value → Bytes → Prop :=
  Overlays f.tags fun tag w => f.merge tag w levels

/-- Some number of records is read over a message, each of which takes some of the input. -/
inductive Codec.Reads (c : Codec M) (levels : Nat) : M → Bytes → M → Bytes → Prop
  | done (m : M) (s : Bytes) : Reads c levels m s m s
  | record {m m' m'' : M} {s t rest : Bytes} (merge : c.mergeRecord levels m s = ⟨m', .ok t⟩)
      (taken : t.length < s.length) (more : Reads c levels m' t m'' rest) :
      Reads c levels m s m'' rest

namespace Codec

variable {c : Codec M} {levels : Nat} {m m' m'' : M} {s t u : Bytes}

theorem Reads.trans (hreads : c.Reads levels m s m' t) (hmore : c.Reads levels m' t m'' u) :
    c.Reads levels m s m'' u := by
  induction hreads with
  | done => exact hmore
  | record merge taken _ ih => exact .record merge taken (ih hmore)

theorem Reads.length_le (hreads : c.Reads levels m s m' t) : t.length ≤ s.length := by
  induction hreads with
  | done => exact Nat.le_refl _
  | record _ taken _ ih => exact Nat.le_trans ih (Nat.le_of_lt taken)

theorem mergeRecords_of_reads (hreads : c.Reads levels m s m' t) {room : Nat}
    (hroom : s.length < room) : c.mergeRecords levels t.length room m s = ⟨m', .ok t⟩ := by
  induction hreads generalizing room with
  | done m s =>
      obtain ⟨room, rfl⟩ := Nat.exists_eq_add_one_of_ne_zero (Nat.ne_zero_of_lt hroom)
      rw [mergeRecords, if_pos (Nat.le_refl _), if_pos rfl]
  | record merge taken more ih =>
      obtain ⟨room, rfl⟩ := Nat.exists_eq_add_one_of_ne_zero (Nat.ne_zero_of_lt hroom)
      have hle := more.length_le
      rw [mergeRecords, if_neg (by omega), merge]
      exact ih (by omega)

end Codec

theorem Field.Reads.codec {f : Field M} {c : Codec M} {levels : Nat} {v v' : f.Value}
    {s s' : Bytes} (hpart : f.part.Lawful)
    (hown : ∀ tag ∈ f.tags, 0 < tag ∧ tag * 8 < UInt32.size ∧ c.field? tag = some f)
    (hreads : f.Reads levels v s v' s') {m : M} (hm : f.part.get m = v) :
    c.Reads levels m s (f.part.set v' m) s' := by
  induction hreads generalizing m with
  | done v s =>
      rw [← hm, hpart.set_get]
      exact .done m s
  | @record old mid new tag w payload s rest own merged _ ih =>
      obtain ⟨hpos, hbound, hfield⟩ := hown tag own
      have hrecord : c.mergeRecord levels m (Key.encode tag w ++ (payload ++ s)) =
          ⟨f.part.set mid m, .ok s⟩ := by
        rw [Codec.mergeRecord, Key.decode_encode hpos hbound]
        simp only [hfield, hm, merged]
      have htaken : s.length < (Key.encode tag w ++ (payload ++ s)).length := by
        have := List.length_pos_iff.mpr (Varint.encode_ne_nil (tag * 8 + w.code))
        simp only [Key.encode, List.length_append]
        omega
      have hmore := ih (m := f.part.set mid m) (hpart.get_set mid m)
      rw [hpart.set_set] at hmore
      exact .record hrecord htaken hmore

/-- The field is as long as is said, and reading what it writes lays the new value over the old
one. -/
structure Field.Lawful (f : Field M) (levels : Nat) (overlay : f.Value → f.Value → f.Value) :
    Prop where
  part : f.part.Lawful
  length_write : ∀ v, (f.write v).length = f.size v
  reads : ∀ old new s, f.size new < UInt64.size →
    f.Reads levels old (f.write new ++ s) (overlay old new) s

/-- The message is as long as is said, and reading what was written lays the new message over the
old one. -/
structure Codec.Lawful (c : Codec M) (levels : Nat) (overlay : M → M → M) : Prop where
  length_encode : ∀ m, (c.encode m).length = c.size m
  reads : ∀ a b s, c.size b < UInt64.size → c.Reads levels a (c.encode b ++ s) (overlay a b) s
  overlay_empty : ∀ b, overlay c.empty b = b

/-- Lawful fields, which lay one message over another one field at a time. -/
inductive LawfulFields (levels : Nat) : List (Field M) → (M → M → M) → Prop
  | nil : LawfulFields levels [] fun a _ => a
  | cons {f : Field M} {fs : List (Field M)} {overlay : f.Value → f.Value → f.Value}
      {rest : M → M → M} (head : f.Lawful levels overlay) (tail : LawfulFields levels fs rest) :
      LawfulFields levels (f :: fs) fun a b =>
        rest (f.part.set (overlay (f.part.get a) (f.part.get b)) a) b

namespace Codec

variable {c : Codec M} {levels : Nat} {overlay : M → M → M} {a b : M} {s : Bytes}

theorem field?_eq_some (htags : (c.fields.flatMap Field.tags).Nodup) {f : Field M}
    (hf : f ∈ c.fields) {tag : Nat} (htag : tag ∈ f.tags) : c.field? tag = some f := by
  rw [field?]
  generalize c.fields = fs at htags hf
  induction fs with
  | nil => simp at hf
  | cons g fs ih =>
      rw [List.flatMap_cons, List.nodup_append] at htags
      obtain ⟨-, hrest, hapart⟩ := htags
      rcases List.mem_cons.mp hf with rfl | hf
      · exact List.find?_cons_of_pos (by simpa using htag)
      · have hnot : tag ∉ g.tags := fun hg =>
          hapart tag hg tag (List.mem_flatMap.mpr ⟨f, hf, htag⟩) rfl
        rw [List.find?_cons_of_neg (by simpa using hnot), ih hrest hf]

theorem length_flatMap_write {fs : List (Field M)} (hfs : LawfulFields levels fs overlay) (m : M) :
    (fs.flatMap fun f => f.write (f.part.get m)).length =
      fs.foldr (fun f n => f.size (f.part.get m) + n) 0 := by
  induction hfs with
  | nil => rfl
  | cons head _ ih =>
      rw [List.flatMap_cons, List.length_append, head.length_write, ih]
      rfl

theorem reads_flatMap_write {fs : List (Field M)} (hfs : LawfulFields levels fs overlay)
    (hown : ∀ f ∈ fs, ∀ tag ∈ f.tags, 0 < tag ∧ tag * 8 < UInt32.size ∧ c.field? tag = some f)
    (a b : M) (s : Bytes)
    (hsize : fs.foldr (fun f n => f.size (f.part.get b) + n) 0 < UInt64.size) :
    c.Reads levels a ((fs.flatMap fun f => f.write (f.part.get b)) ++ s) (overlay a b) s := by
  induction hfs generalizing a with
  | nil => exact .done a s
  | @cons f fs lay rest head tail ih =>
      -- The records of the first field are read into it, those of the others over the result.
      obtain ⟨hhead, htail⟩ := List.forall_mem_cons.mp hown
      rw [List.foldr_cons] at hsize
      rw [List.flatMap_cons, List.append_assoc]
      have hfield := head.reads (f.part.get a) (f.part.get b)
        ((fs.flatMap fun f => f.write (f.part.get b)) ++ s) (by omega)
      exact (hfield.codec head.part hhead rfl).trans (ih htail _ (by omega))

/-- No two fields have a tag in common, and each tag can be written in a key. -/
abbrev Tagged (c : Codec M) : Prop :=
  (c.fields.flatMap Field.tags).Nodup ∧
    ∀ tag ∈ c.fields.flatMap Field.tags, 0 < tag ∧ tag * 8 < UInt32.size

theorem Lawful.of_fields {overlay' : M → M → M} (htags : c.Tagged)
    (hfields : LawfulFields levels c.fields overlay) (hsame : ∀ a b, overlay a b = overlay' a b)
    (hempty : ∀ b, overlay' c.empty b = b) : c.Lawful levels overlay' where
  length_encode := length_flatMap_write hfields
  reads a b s hsize := by
    rw [← hsame]
    apply reads_flatMap_write hfields _ a b s hsize
    intro f hf tag htag
    obtain ⟨hpos, hbound⟩ := htags.2 tag (List.mem_flatMap.mpr ⟨f, hf, htag⟩)
    exact ⟨hpos, hbound, field?_eq_some htags.1 hf htag⟩
  overlay_empty := hempty

theorem Lawful.length_encodeDelimited (hc : c.Lawful levels overlay) (m : M) :
    (c.encodeDelimited m).length = c.sizeDelimited m := by
  rw [encodeDelimited, List.length_append, Varint.length_encode, hc.length_encode, sizeDelimited]

theorem Lawful.mergeRecords_encode (hc : c.Lawful levels overlay) (hb : c.size b < UInt64.size) :
    c.mergeRecords levels s.length ((c.encode b ++ s).length + 1) a (c.encode b ++ s) =
      ⟨overlay a b, .ok s⟩ :=
  mergeRecords_of_reads (hc.reads a b s hb) (Nat.lt_succ_self _)

theorem Lawful.decode_encode (hc : c.Lawful nestingLimit overlay) (hb : c.size b < UInt64.size) :
    c.decode (c.encode b) = .ok b := by
  have hmerge : c.merge c.empty (c.encode b) = ⟨overlay c.empty b, .ok []⟩ := by
    have hrecords := hc.mergeRecords_encode (a := c.empty) (s := []) hb
    rwa [List.append_nil] at hrecords
  rw [decode, hmerge, hc.overlay_empty]

theorem Lawful.mergeDelimited_encodeDelimited (hc : c.Lawful levels overlay)
    (hb : c.size b < UInt64.size) :
    c.mergeDelimited (levels + 1) a (c.encodeDelimited b ++ s) = ⟨overlay a b, .ok s⟩ := by
  have hlength : (c.encode b ++ s).length - c.size b = s.length := by
    rw [List.length_append, hc.length_encode, Nat.add_sub_cancel_left]
  have hroom : ¬(c.encode b ++ s).length < c.size b := by
    rw [List.length_append, hc.length_encode]
    omega
  rw [encodeDelimited, List.append_assoc, mergeDelimited, Varint.decode_encode hb]
  simp only [if_neg hroom, hlength]
  exact hc.mergeRecords_encode hb

theorem Lawful.mergePayload_encodeDelimited (hc : c.Lawful levels overlay)
    (hb : c.size b < UInt64.size) :
    c.mergePayload .lengthDelimited (levels + 1) a (c.encodeDelimited b ++ s) =
      ⟨overlay a b, .ok s⟩ := by
  rw [mergePayload, if_pos rfl, hc.mergeDelimited_encodeDelimited hb]

end Codec

section Kinds

variable {levels tag : Nat} {S : Type} {sub : Codec S} {lay : S → S → S}

theorem overlays_scalar [DecidableEq α] [Inhabited α] {kind : Scalar α} (hkind : kind.Lawful)
    (old new : α) (s : Bytes)
    (hsize : kind.isDefault new = false → kind.size new < UInt64.size) :
    Overlays [tag] (fun _ w => kind.merge w) old
      ((if kind.isDefault new then [] else Key.encode tag kind.wireType ++ kind.write new) ++ s)
      (Overlay.value old new) s := by
  by_cases hnew : new = default
  · rw [if_pos ((hkind.isDefault_iff new).mpr hnew), Overlay.value, if_pos hnew]
    exact .done old s
  · have hset : ¬kind.isDefault new = true := fun h => hnew ((hkind.isDefault_iff new).mp h)
    have hread := hkind.read_write new s (hsize (Bool.not_eq_true _ ▸ hset))
    rw [if_neg hset, Overlay.value, if_neg hnew, List.append_assoc]
    refine .record (List.mem_singleton.mpr rfl) ?_ (.done new s)
    simp only [Scalar.merge, if_pos, hread]

theorem Field.lawful_scalar [DecidableEq α] [Inhabited α] {kind : Scalar α} {part : Part M α}
    (hkind : kind.Lawful)
    (hpart : part.Lawful) :
    (scalar tag kind part).Lawful levels (Overlay.value : α → α → α) where
  part := hpart
  length_write (v : α) := by
    change (if kind.isDefault v then [] else Key.encode tag kind.wireType ++ kind.write v).length =
      if kind.isDefault v then 0 else Key.size tag + kind.size v
    split
    · rfl
    · rw [List.length_append, Key.length_encode, hkind.length_write]
  reads (old new : α) s hsize := by
    change (if kind.isDefault new then 0 else Key.size tag + kind.size new) < UInt64.size at hsize
    refine overlays_scalar hkind old new s fun hset => ?_
    rw [hset] at hsize
    exact Nat.lt_of_le_of_lt (Nat.le_add_left _ _) hsize

theorem Field.lawful_optional {part : Part M (Option S)} (hsub : sub.Lawful levels lay)
    (hpart : part.Lawful) :
    (optional tag sub part).Lawful (levels + 1) (Overlay.optional lay) where
  part := hpart
  length_write v := by
    cases v with
    | none => rfl
    | some v =>
        change (Key.encode tag .lengthDelimited ++ sub.encodeDelimited v).length = _
        rw [List.length_append, Key.length_encode, hsub.length_encodeDelimited]
        rfl
  reads old new s hsize := by
    cases new with
    | none => exact .done old s
    | some new =>
        have hnew : sub.size new < UInt64.size := by
          change Key.size tag + (Varint.size (sub.size new) + sub.size new) < UInt64.size at hsize
          omega
        simp only [optional, List.append_assoc]
        refine .record (List.mem_singleton.mpr rfl) ?_ (.done _ s)
        simp only [hsub.mergePayload_encodeDelimited hnew]
        cases old with
        | none => rw [Option.getD_none, hsub.overlay_empty, Overlay.optional_none]
        | some old => rfl

theorem overlays_repeated {merge : WireType → List S → Bytes → Merged (List S)}
    (hmerge : ∀ old v s, sub.size v < UInt64.size →
      merge .lengthDelimited old (sub.encodeDelimited v ++ s) = ⟨old ++ [v], .ok s⟩)
    (old new : List S) (s : Bytes)
    (hsize : new.foldr (fun v n => Key.size tag + sub.sizeDelimited v + n) 0 < UInt64.size) :
    Overlays [tag] (fun _ w => merge w) old
      ((new.flatMap fun v => Key.encode tag .lengthDelimited ++ sub.encodeDelimited v) ++ s)
      (old ++ new) s := by
  induction new generalizing old with
  | nil =>
      rw [List.append_nil]
      exact .done old s
  | cons v vs ih =>
      rw [List.foldr_cons, Codec.sizeDelimited] at hsize
      have hmore := ih (old ++ [v]) (by omega)
      rw [List.append_assoc, List.singleton_append] at hmore
      rw [List.flatMap_cons, List.append_assoc, List.append_assoc]
      exact .record (List.mem_singleton.mpr rfl) (hmerge old v _ (by omega)) hmore

theorem Field.lawful_repeated {part : Part M (List S)} (hsub : sub.Lawful levels lay)
    (hpart : part.Lawful) :
    (repeated tag sub part).Lawful (levels + 1) (List.append : List S → List S → List S) where
  part := hpart
  length_write (vs : List S) := by
    change List.length (vs.flatMap _) = vs.foldr _ 0
    induction vs with
    | nil => rfl
    | cons v vs ih =>
        rw [List.flatMap_cons, List.length_append, List.length_append, Key.length_encode,
          hsub.length_encodeDelimited, ih, List.foldr_cons]
  reads (old new : List S) s hsize := by
    refine overlays_repeated (fun old v s hv => ?_) old new s hsize
    simp only [hsub.mergePayload_encodeDelimited hv, hsub.overlay_empty]

end Kinds

/-- The member is the one to which the value belongs: it writes the value as one record, and
reading that record lays the value over any other one. -/
structure Member.Lawful (member : Member U) (levels : Nat) (overlay : U → U → U) (u : U) :
    Prop where
  length_write : (member.write u).length = member.size u
  reads : member.size u < UInt64.size → ∃ w payload,
    member.write u = Key.encode member.tag w ++ payload ∧
    ∀ old s, member.merge w levels old (payload ++ s) =
      ⟨Overlay.optional overlay old (some u), .ok s⟩

namespace Member

variable {levels tag : Nat} {overlay : U → U → U}

theorem lawful_scalar [Inhabited α] {kind : Scalar α} {wrap : α → U} {view : U → Option α} {v : α}
    (hkind : kind.Lawful) (hview : view (wrap v) = some v)
    (hover : ∀ u, overlay u (wrap v) = wrap v) :
    (scalar tag kind wrap view).Lawful levels overlay (wrap v) where
  length_write := by
    simp only [scalar, hview, List.length_append, Key.length_encode, hkind.length_write]
  reads hsize := by
    simp only [scalar, hview] at hsize
    refine ⟨kind.wireType, kind.write v, by simp only [scalar, hview], fun old s => ?_⟩
    have hsize' : kind.size v < UInt64.size := by omega
    have hmerge : kind.merge kind.wireType kind.default (kind.write v ++ s) = ⟨v, .ok s⟩ := by
      rw [Scalar.merge, if_pos rfl, hkind.read_write v s hsize']
    simp only [scalar, hmerge]
    cases old with
    | none => rfl
    | some u => rw [Overlay.optional, hover]

theorem lawful_message {S : Type} {sub : Codec S} {lay : S → S → S} {wrap : S → U}
    {view : U → Option S} {v : S} (hsub : sub.Lawful levels lay)
    (hview : view (wrap v) = some v)
    (hover : ∀ u, overlay u (wrap v) = wrap ((view u).elim v fun old => lay old v)) :
    (message tag sub wrap view).Lawful (levels + 1) overlay (wrap v) where
  length_write := by
    simp only [message, hview, List.length_append, Key.length_encode,
      hsub.length_encodeDelimited]
  reads hsize := by
    simp only [message, hview, Codec.sizeDelimited] at hsize
    refine ⟨.lengthDelimited, sub.encodeDelimited v, by simp only [message, hview],
      fun old s => ?_⟩
    have hsize' : sub.size v < UInt64.size := by omega
    simp only [message, hsub.mergePayload_encodeDelimited hsize']
    cases old with
    | none => rw [Option.bind_none, Option.getD_none, hsub.overlay_empty, Overlay.optional_none]
    | some u =>
        rw [Option.bind_some, Overlay.optional, hover]
        cases view u with
        | none => rw [Option.getD_none, hsub.overlay_empty, Option.elim_none]
        | some old => rfl

end Member

/-- Every value belongs to one of the members, and the others write nothing for it. -/
def LawfulMembers (levels : Nat) (overlay : U → U → U) (members : List (Member U)) : Prop :=
  ∀ u, ∃ before member after, members = before ++ member :: after ∧
    member.Lawful levels overlay u ∧ (∀ other ∈ before, other.tag ≠ member.tag) ∧
      ∀ other ∈ before ++ after, other.write u = [] ∧ other.size u = 0

theorem flatMap_write_of_silent {member : Member U} {before after : List (Member U)} {u : U}
    (hothers : ∀ other ∈ before ++ after, other.write u = [] ∧ other.size u = 0) :
    (before ++ member :: after).flatMap (fun other => other.write u) = member.write u := by
  have hbefore : before.flatMap (fun other => other.write u) = [] :=
    List.flatMap_eq_nil_iff.mpr fun other h => (hothers other (List.mem_append_left _ h)).1
  have hafter : after.flatMap (fun other => other.write u) = [] :=
    List.flatMap_eq_nil_iff.mpr fun other h => (hothers other (List.mem_append_right _ h)).1
  rw [List.flatMap_append, List.flatMap_cons, hbefore, hafter, List.nil_append, List.append_nil]

theorem foldr_size_of_silent {member : Member U} {before after : List (Member U)} {u : U}
    (hothers : ∀ other ∈ before ++ after, other.write u = [] ∧ other.size u = 0) :
    (before ++ member :: after).foldr (fun other n => other.size u + n) 0 = member.size u := by
  have hzero : ∀ (others : List (Member U)) (n : Nat), (∀ other ∈ others, other.size u = 0) →
      others.foldr (fun other n => other.size u + n) n = n := by
    intro others n h
    induction others with
    | nil => rfl
    | cons other others ih =>
        obtain ⟨hhead, htail⟩ := List.forall_mem_cons.mp h
        rw [List.foldr_cons, hhead, ih htail, Nat.zero_add]
  rw [List.foldr_append, List.foldr_cons,
    hzero after 0 fun other h => (hothers other (List.mem_append_right _ h)).2,
    hzero before _ fun other h => (hothers other (List.mem_append_left _ h)).2, Nat.add_zero]

theorem find?_of_distinct {member : Member U} {before after : List (Member U)}
    (htags : ∀ other ∈ before, other.tag ≠ member.tag) :
    (before ++ member :: after).find? (fun other => other.tag == member.tag) = some member := by
  have hbefore : before.find? (fun other => other.tag == member.tag) = none :=
    List.find?_eq_none.mpr fun other h => by simpa using htags other h
  rw [List.find?_append, hbefore, Option.none_or, List.find?_cons_of_pos (by simp)]

theorem Field.lawful_choice {levels : Nat} {overlay : U → U → U} {members : List (Member U)}
    {dropped : List Nat} {part : Part M (Option U)}
    (hmembers : LawfulMembers levels overlay members)
    (hpart : part.Lawful) :
    (choice members dropped part).Lawful levels (Overlay.optional overlay) where
  part := hpart
  length_write u := by
    cases u with
    | none => rfl
    | some u =>
        obtain ⟨before, member, after, rfl, hmember, -, hothers⟩ := hmembers u
        simp only [choice, flatMap_write_of_silent hothers, foldr_size_of_silent hothers,
          hmember.length_write]
  reads old new s hsize := by
    cases new with
    | none => exact .done old s
    | some u =>
        obtain ⟨before, member, after, rfl, hmember, htags, hothers⟩ := hmembers u
        have hfind : (before ++ member :: after).find? (fun other => other.tag == member.tag) =
            some member := find?_of_distinct htags
        simp only [choice, foldr_size_of_silent hothers] at hsize
        obtain ⟨w, payload, hwrite, hmerge⟩ := hmember.reads hsize
        simp only [choice, flatMap_write_of_silent hothers, hwrite, List.append_assoc]
        refine .record ?_ ?_ (.done _ s)
        · simp
        · simp only [hfind]
          exact hmerge old s

end Wire

end Keyspace
