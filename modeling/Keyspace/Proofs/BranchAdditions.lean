import Keyspace.Proofs.StoreInvariants

namespace Keyspace

theorem isSome_of_toList_append {α : Type} {a b c : Option α}
    (h : a.toList ++ b.toList = c.toList) : c.isSome = (a.isSome || b.isSome) := by
  cases a <;> cases b <;> cases c <;> simp_all

theorem eq_of_ascending {α : Type} {key : α → Bytes} {l l' : List α}
    (hl : l.Pairwise fun a b => key a < key b) (hl' : l'.Pairwise fun a b => key a < key b)
    (hmem : ∀ a, a ∈ l ↔ a ∈ l') : l = l' := by
  have hirrefl : ∀ a b, key a < key b → a ≠ b := by
    rintro a b hlt rfl
    exact Std.lt_irrefl hlt
  have hperm : l.Perm l' :=
    (List.perm_ext_iff_of_nodup (hl.imp (hirrefl _ _)) (hl'.imp (hirrefl _ _))).mpr hmem
  refine hperm.eq_of_pairwise ?_ hl hl'
  intro a b _ _ hab hba
  exact absurd (Std.lt_trans hab hba) Std.lt_irrefl

namespace Table

variable {t t' : Table} {revision : Nat} {key : Bytes}

theorem mem_iff_history (hordered : t.Ordered) (hne : ∀ p ∈ t, p.2 ≠ [])
    (p : Bytes × History) : p ∈ t ↔ p.2 ≠ [] ∧ t.history p.1 = p.2 := by
  constructor
  · intro hp
    exact ⟨hne p hp, history_of_mem hordered hp⟩
  · rintro ⟨hp, hhistory⟩
    rcases history_eq_nil_or_mem t p.1 with hnil | hmem
    · exact absurd (hhistory.symm.trans hnil) hp
    · rwa [hhistory] at hmem

theorem eq_of_history_eq (hordered : t.Ordered) (hordered' : t'.Ordered)
    (hne : ∀ p ∈ t, p.2 ≠ []) (hne' : ∀ p ∈ t', p.2 ≠ [])
    (hhistory : ∀ key, t.history key = t'.history key) : t = t' := by
  refine eq_of_ascending hordered hordered' fun p => ?_
  rw [mem_iff_history hordered hne, mem_iff_history hordered' hne', hhistory]

end Table

namespace Store

variable {s s' : Store} {revision : Nat} {key : Bytes} {op op' : RequestOp}
  {ops : List RequestOp} {request : OpRequest} {e e' : Entry}

/-- The entry that an operation adds to a key, if it adds one. -/
def addition? (s : Store) (revision : Nat) (key : Bytes) (op : RequestOp) : Option Entry :=
  match op.request with
  | some (.put r) => if r.key = key then some (r.entry revision (s.latest? key)) else none
  | some (.deleteRange r) =>
      if r.span.covers key ∧ (s.latest? key).isSome then some (.deletion revision) else none
  | _ => none

theorem addition?_eq_some_iff :
    s.addition? revision key op = some e ↔
      (∃ r, op.request = some (.put r) ∧ r.key = key ∧ r.entry revision (s.latest? key) = e) ∨
        ∃ r, op.request = some (.deleteRange r) ∧
          (r.span.covers key = true ∧ (s.latest? key).isSome = true) ∧ .deletion revision = e := by
  obtain ⟨request⟩ := op
  rcases request with _ | request
  · simp [addition?]
  · cases request <;> simp [addition?]

theorem revision_of_addition? (hadds : s.addition? revision key op = some e) :
    e.revision = revision := by
  rcases addition?_eq_some_iff.mp hadds with ⟨r, -, -, rfl⟩ | ⟨r, -, -, rfl⟩ <;> rfl

theorem addition?_congr {t : Table} (hlatest : t.latest? key = s.latest? key)
    (revision : Nat) (op : RequestOp) :
    ({ s with table := t } : Store).addition? revision key op = s.addition? revision key op := by
  rw [addition?, latest?, hlatest]
  rfl

theorem history_runOp (hs : s.table.Indexed) (hvalid : s.Valid op)
    (hrequest : op.request = some request) (key : Bytes) :
    (s.runOp revision request).1.table.history key =
      s.table.history key ++ (s.addition? revision key op).toList := by
  rw [Valid, hrequest] at hvalid
  rw [addition?, hrequest]
  cases request with
  | range r =>
      obtain ⟨sorting, hcheck⟩ := hvalid
      obtain ⟨response, hresponse⟩ := range_eq_ok hcheck
      rw [runOp_range revision hresponse]
      simp
  | put r =>
      rw [runOp_put revision hvalid.2]
      by_cases hkey : r.key = key
      · subst hkey
        simp [Table.history_push_self hs.ordered]
      · simp [hkey, Table.history_push_of_ne s.table _ (Ne.symm hkey)]
  | deleteRange r =>
      rw [runOp_deleteRange, history_erased_scan hs]
      dsimp only
      split <;> rfl

theorem wrote_runOp_iff (hs : s.table.Indexed) (hrequest : op.request = some request)
    {response : OpResponse} {wrote : Bool}
    (hrun : s.runOp revision request = (s', .ok (response, wrote))) :
    wrote = true ↔ ∃ key, (s.addition? revision key op).isSome = true := by
  simp only [addition?, hrequest]
  cases request with
  | range r =>
      rw [runOp] at hrun
      split at hrun
      · simp_all
      · simp at hrun
  | put r =>
      rw [runOp] at hrun
      split at hrun
      · simp_all
      · simp at hrun
  | deleteRange r =>
      rw [runOp_deleteRange] at hrun
      obtain ⟨-, rfl⟩ := Prod.mk.inj (Except.ok.inj (Prod.mk.inj hrun).2)
      simp only [Option.isSome_ite, ← exists_mem_scan_iff hs]
      cases s.scan r.span 0 with
      | nil => simp
      | cons l removed => simp

/-- The entry that a branch adds to a key: that of the first operation that adds one. -/
def added? (s : Store) (revision : Nat) (ops : List RequestOp) (key : Bytes) : Option Entry :=
  ops.findSome? (s.addition? revision key)

theorem added?_eq_none_iff :
    s.added? revision ops key = none ↔ ∀ op ∈ ops, s.addition? revision key op = none :=
  List.findSome?_eq_none_iff

theorem Accepts.addition?_after (hops : s.Accepts (op :: ops))
    (hadds : s.addition? revision key op = some e) (hop' : op' ∈ ops) {t : Table}
    (hlatest : t.latest? key = e.written) :
    ({ s with table := t } : Store).addition? revision key op' = none := by
  have hsub := List.sublist_cons_self op ops
  rw [Option.eq_none_iff_forall_ne_some]
  intro e' hadds'
  rcases addition?_eq_some_iff.mp hadds with ⟨r, hput, rfl, -⟩ | ⟨r, hdelete, ⟨hcovers, -⟩, rfl⟩
  · rcases addition?_eq_some_iff.mp hadds' with ⟨r', hput', hkey, -⟩ |
      ⟨r', hdelete', ⟨hcovers, -⟩, -⟩
    · exact hops.ne_of_put hput (mem_writtenKeys hop' hput') hkey
    · have hapart := hops.apart r.key (mem_writtenKeys List.mem_cons_self hput) r'.span
        ((hsub.filterMap _).mem (mem_deletedSpans hop' hdelete'))
      simp [hapart] at hcovers
  · rcases addition?_eq_some_iff.mp hadds' with ⟨r', hput', rfl, -⟩ | ⟨r', -, ⟨-, hlive⟩, -⟩
    · have hapart := hops.apart r'.key ((hsub.filterMap _).mem (mem_writtenKeys hop' hput')) r.span
        (mem_deletedSpans List.mem_cons_self hdelete)
      simp [hapart] at hcovers
    · rw [latest?, hlatest] at hlive
      cases hlive

section After

variable {t : Table}
  (hhistory : t.history key = s.table.history key ++ (s.addition? revision key op).toList)

include hhistory

theorem latest?_of_addition?_eq_none (hadds : s.addition? revision key op = none) :
    t.latest? key = s.latest? key := by
  rw [Table.latest?, hhistory, hadds, Option.toList_none, List.append_nil]
  rfl

theorem latest?_of_addition?_eq_some (hadds : s.addition? revision key op = some e) :
    t.latest? key = e.written := by
  rw [Table.latest?, hhistory, hadds, Option.toList_some, History.latest?_concat]

theorem Accepts.added?_cons (hops : s.Accepts (op :: ops)) :
    (s.addition? revision key op).toList ++
        (({ s with table := t } : Store).added? revision ops key).toList =
      (s.added? revision (op :: ops) key).toList := by
  rw [added?, added?, List.findSome?_cons]
  cases hadds : s.addition? revision key op with
  | none =>
      have hsame : ({ s with table := t } : Store).addition? revision key =
          s.addition? revision key :=
        funext (addition?_congr (latest?_of_addition?_eq_none hhistory hadds) revision)
      rw [hsame]
      rfl
  | some e =>
      have hlatest := latest?_of_addition?_eq_some hhistory hadds
      have hrest : ({ s with table := t } : Store).added? revision ops key = none :=
        added?_eq_none_iff.mpr fun op' hop' => hops.addition?_after hadds hop' hlatest
      rw [added?] at hrest
      rw [hrest]
      rfl

theorem Accepts.latest?_before_put (hops : s.Accepts (op :: ops)) (hop' : op' ∈ ops)
    {r : PutRequest} (hput : op'.request = some (.put r)) (hkey : r.key = key) :
    t.latest? key = s.latest? key := by
  cases hadds : s.addition? revision key op with
  | none => exact latest?_of_addition?_eq_none hhistory hadds
  | some e =>
      have hlatest := latest?_of_addition?_eq_some hhistory hadds
      have hnone := hops.addition?_after hadds hop' hlatest
      simp [addition?, hput, hkey] at hnone

end After

/-- The answer to a put, but for its header, given what was there. -/
def putAnswer (s : Store) (r : PutRequest) : PutResponse where
  prevKv := if r.prevKv then (s.latest? r.key).map Live.toKeyValue else none

/-- An accepted branch adds to each key what can be told beforehand, says that it wrote something if
that is not nothing, and answers each put with what was there before the branch. -/
theorem Accepts.runOps_adds (hs : s.table.Indexed) (hops : s.Accepts ops) (revision : Nat) :
    ∃ t responses wrote,
      s.runOps revision ops = ({ s with table := t }, .ok (responses, wrote)) ∧
        (∀ key, t.history key = s.table.history key ++ (s.added? revision ops key).toList) ∧
        (wrote = true ↔ ∃ key, (s.added? revision ops key).isSome = true) ∧
        ∀ (i : Nat) op r, ops[i]? = some op → op.request = some (.put r) →
          responses[i]? = some (.put (s.putAnswer r)) := by
  induction ops generalizing s with
  | nil => exact ⟨s.table, [], false, rfl, by simp [added?], by simp [added?], by simp⟩
  | cons op ops ih =>
      -- The rest of the branch is accepted by the store that the first operation leaves, and adds
      -- nothing to the keys that this one added to.
      have hvalid := hops.valid op List.mem_cons_self
      obtain ⟨request, t, response, wrote, hrequest, hop, ht, htail⟩ := hops.runOp hs revision
      have hhistory : ∀ key, (s.runOp revision request).1.table.history key =
          s.table.history key ++ (s.addition? revision key op).toList :=
        history_runOp hs hvalid hrequest
      have hwrote := wrote_runOp_iff hs hrequest hop
      rw [hop] at hhistory
      obtain ⟨t', responses, wrote', hrest, hhistory', hwrote', hanswers⟩ := ih ht htail
      have hadds := fun key => hops.added?_cons (hhistory key)
      have hrun := runOps_cons hrequest hop hrest
      refine ⟨t', response :: responses, wrote || wrote', hrun, ?_, ?_, ?_⟩
      · intro key
        rw [hhistory', hhistory, List.append_assoc, hadds]
      · rw [Bool.or_eq_true, hwrote, hwrote', ← exists_or]
        refine exists_congr fun key => ?_
        rw [isSome_of_toList_append (hadds key), Bool.or_eq_true]
      · intro i op' r hop' hput
        cases i with
        | zero =>
            obtain rfl := Option.some.inj hop'
            obtain rfl := Option.some.inj (hrequest.symm.trans hput)
            rw [Valid, hrequest] at hvalid
            rw [runOp_put revision hvalid.2] at hop
            have hfirst := (Prod.mk.inj (Except.ok.inj (Prod.mk.inj hop).2)).1
            rw [← hfirst]
            rfl
        | succ i =>
            have hlatest := hops.latest?_before_put (hhistory r.key)
              (List.mem_of_getElem? hop') hput rfl
            have hanswer := hanswers i op' r hop' hput
            rw [putAnswer, latest?, hlatest] at hanswer
            exact hanswer

theorem Accepts.runBranch_adds (hs : s.table.Indexed) (hops : s.Accepts ops) :
    ∃ (t : Table) (responses : List OpResponse) (wrote : Bool),
      s.runBranch ops =
        (s.commit t wrote, .ok (responses.map (OpResponse.withHeader (s.commit t wrote).header))) ∧
      (∀ key, t.history key =
        s.table.history key ++ (s.added? (s.revision + 1) ops key).toList) ∧
      (wrote = true ↔ ∃ key, (s.added? (s.revision + 1) ops key).isSome = true) ∧
      ∀ (i : Nat) op r, ops[i]? = some op → op.request = some (.put r) →
        responses[i]? = some (.put (s.putAnswer r)) := by
  obtain ⟨t, responses, wrote, hrun, hhistory, hwrote, hanswers⟩ :=
    hops.runOps_adds hs (s.revision + 1)
  obtain ⟨t', responses', wrote', hrun', -, hbranch⟩ := hops.runBranch hs
  obtain ⟨hstore, hanswer⟩ := Prod.mk.inj (hrun.symm.trans hrun')
  obtain ⟨rfl, rfl⟩ := Prod.mk.inj (Except.ok.inj hanswer)
  obtain rfl : t = t' := congrArg Store.table hstore
  exact ⟨t, responses, wrote, hbranch, hhistory, hwrote, hanswers⟩

end Store

end Keyspace
