import Keyspace.Proofs.BranchAdditions

namespace Keyspace

/-- What a deletion leaves of a store and what it answers. -/
structure DeleteRangeRequest.Deletes (r : DeleteRangeRequest) (s s' : Store)
    (response : DeleteRangeResponse) : Prop where
  /-- A walk through the table finds the keys that the span covers. -/
  found : (s.table.walk r.span).liveAt 0 = s.live.filter fun l => r.span.covers l.key
  left : s'.live = s.live.filter fun l => !r.span.covers l.key
  deleted : response.deleted = Int64.ofNat (s.live.countP fun l => r.span.covers l.key)
  prevKvs : response.prevKvs =
    if r.prevKv then (s.live.filter fun l => r.span.covers l.key).map Live.toKeyValue else []
  ascending : response.prevKvs.Pairwise fun a b => a.key < b.key
  /-- Neither keys that are not covered nor such that are not there get an entry. -/
  untouched : ∀ key, (r.span.covers key = true → s.latest? key = none) →
    s'.table.history key = s.table.history key
  aside : s'.compacted = s.compacted ∧ s'.alarms = s.alarms
  again : s'.deleteRange r = (s', .ok { header := some s'.header })

/-- What a write leaves at its key, given what was there before. -/
structure PutRequest.Leaves (r : PutRequest) (prev : Option Live) (revision : Nat) (l : Live) :
    Prop where
  key : l.key = r.key
  modified : l.modified = revision
  value : r.ignoreValue = false → l.value = r.value
  keptValue : r.ignoreValue = true → ∃ p, prev = some p ∧ l.value = p.value
  lease : r.ignoreLease = false → l.lease = r.lease
  keptLease : r.ignoreLease = true → ∃ p, prev = some p ∧ l.lease = p.lease
  renewed : ∀ p, prev = some p → l.version = p.version + 1 ∧ l.created = p.created
  first : prev = none → l.version = 1 ∧ l.created = revision

/-- What a write leaves of a store and what it answers. -/
structure PutRequest.Puts (r : PutRequest) (s s' : Store) (response : PutResponse) : Prop where
  revision : s'.revision = s.revision + 1
  elsewhere : (s'.live.filter fun l => l.key ≠ r.key) = s.live.filter fun l => l.key ≠ r.key
  here : ∃ l ∈ s'.live, r.Leaves (s.latest? r.key) s'.revision l
  untouched : ∀ key, key ≠ r.key → s'.table.history key = s.table.history key
  aside : s'.compacted = s.compacted ∧ s'.alarms = s.alarms
  prevKv : ∀ kv, response.prevKv = some kv ↔
    r.prevKv = true ∧ ∃ p, s.latest? r.key = some p ∧ kv = p.toKeyValue

namespace Store

variable {s s' : Store}

theorem live_of_erased (hs : s.table.Indexed) {revision : Nat} {span : Span}
    (htable : s'.table = s.table.erased revision (s.scan span 0)) :
    s'.live = s.live.filter fun l => !span.covers l.key := by
  have hs' : s'.table.Indexed := htable ▸ indexed_erased_scan hs revision span
  refine eq_of_ascending (hs'.pairwise_liveAt 0) ((hs.pairwise_liveAt 0).filter _) fun l => ?_
  have hlatest : l ∈ s'.live ↔ s'.latest? l.key = some l := hs'.mem_liveAt
  have hlatest' : l ∈ s.live ↔ s.latest? l.key = some l := hs.mem_liveAt
  rw [List.mem_filter, hlatest, hlatest', latest?, htable, latest?_erased_scan hs]
  cases span.covers l.key <;> simp

theorem scan_now_eq (hs : s.table.Indexed) (span : Span) :
    s.scan span 0 = s.live.filter fun l => span.covers l.key :=
  scan_eq hs span 0

theorem exists_deleteRange_eq (s : Store) {r : DeleteRangeRequest} (hnamed : r.key ≠ []) :
    ∃ s' response, s.deleteRange r = (s', .ok response) := by
  rw [s.deleteRange_eq hnamed]
  exact ⟨_, _, rfl⟩

theorem table_of_deleteRange {r : DeleteRangeRequest} {response : DeleteRangeResponse}
    (hdelete : s.deleteRange r = (s', .ok response)) :
    r.key ≠ [] ∧ s'.table = s.table.erased (s.revision + 1) (s.scan r.span 0) ∧
      (s'.compacted = s.compacted ∧ s'.alarms = s.alarms) ∧
        response = { r.response (s.scan r.span 0) with header := some s'.header } := by
  have hnamed : r.key ≠ [] := by
    intro hmissing
    rw [deleteRange, if_pos hmissing] at hdelete
    cases hdelete
  have hgives := s.deleteRange_eq hnamed
  rw [hdelete] at hgives
  obtain ⟨hstore, hanswer⟩ := Prod.mk.inj hgives
  refine ⟨hnamed, ?_, ?_, Except.ok.inj hanswer⟩
  · cases hscan : s.scan r.span 0 with
    | nil => rw [hstore, hscan]; rfl
    | cons l removed => rw [hstore, hscan]; rfl
  · rw [hstore]
    split <;> exact ⟨rfl, rfl⟩

theorem deleteRange_of_scan_eq_nil {r : DeleteRangeRequest} (hnamed : r.key ≠ [])
    (hscan : s.scan r.span 0 = []) :
    s.deleteRange r = (s, .ok { header := some s.header }) := by
  have hdelete := s.deleteRange_eq hnamed
  rw [hscan] at hdelete
  have hstore : (s.deleteRange r).1 = s := congrArg Prod.fst hdelete
  rw [hdelete, hstore, DeleteRangeRequest.response]
  simp

theorem deletes_of_deleteRange (hs : s.table.Indexed) {r : DeleteRangeRequest}
    {response : DeleteRangeResponse} (hdelete : s.deleteRange r = (s', .ok response)) :
    r.Deletes s s' response := by
  obtain ⟨hnamed, htable, haside, rfl⟩ := table_of_deleteRange hdelete
  have hs' : s'.table.Indexed := htable ▸ indexed_erased_scan hs _ r.span
  have hleft := live_of_erased hs htable
  refine ⟨scan_now_eq hs r.span, hleft, ?_, ?_, ?_, ?_, haside, ?_⟩
  · rw [List.countP_eq_length_filter, ← scan_now_eq hs]
    rfl
  · rw [← scan_now_eq hs]
    rfl
  · change (if r.prevKv then _ else _ : List KeyValue).Pairwise _
    split
    · exact List.pairwise_map.mpr (pairwise_scan hs r.span 0)
    · exact List.Pairwise.nil
  · intro key habsent
    have hnone : ¬(r.span.covers key = true ∧ (s.latest? key).isSome = true) := by
      rintro ⟨hcovers, hlive⟩
      simp [habsent hcovers] at hlive
    rw [htable, history_erased_scan hs, if_neg hnone, List.append_nil]
  · refine deleteRange_of_scan_eq_nil hnamed ?_
    rw [scan_now_eq hs', hleft, List.filter_filter, List.filter_eq_nil_iff]
    simp

theorem live_of_push (hs : s.table.Indexed) {key : Bytes} {e : Entry} (he : e.Filed key)
    (htable : s'.table = s.table.push key e) :
    (s'.live.filter fun l => l.key ≠ key) = s.live.filter fun l => l.key ≠ key := by
  have hs' : s'.table.Indexed := htable ▸ hs.push he
  refine eq_of_ascending ((hs'.pairwise_liveAt 0).filter _) ((hs.pairwise_liveAt 0).filter _)
    fun l => ?_
  have hlatest : l ∈ s'.live ↔ s'.latest? l.key = some l := hs'.mem_liveAt
  have hlatest' : l ∈ s.live ↔ s.latest? l.key = some l := hs.mem_liveAt
  rw [List.mem_filter, List.mem_filter, hlatest, hlatest', decide_eq_true_iff]
  refine and_congr_left fun hne => ?_
  rw [latest?, htable, Table.latest?_push_of_ne s.table e hne]
  rfl

theorem leaves_written {r : PutRequest} {prev : Option Live}
    (hprev : r.keepsPrevious = true → prev.isSome = true) (revision : Nat) :
    r.Leaves prev revision (r.written revision prev) := by
  cases prev with
  | none =>
      have hneither : r.ignoreValue = false ∧ r.ignoreLease = false := by
        simpa [PutRequest.keepsPrevious] using hprev
      obtain ⟨hvalue, hlease⟩ := hneither
      refine ⟨rfl, rfl, fun _ => rfl, ?_, fun _ => rfl, ?_, by simp, fun _ => ⟨rfl, rfl⟩⟩
      · simp [hvalue]
      · simp [hlease]
  | some p =>
      refine ⟨rfl, rfl, fun hnot => if_neg (by simp [hnot]), fun hkeep => ⟨p, rfl, if_pos hkeep⟩,
        fun hnot => if_neg (by simp [hnot]), fun hkeep => ⟨p, rfl, if_pos hkeep⟩, ?_, by simp⟩
      intro p' hp'
      obtain rfl := Option.some.inj hp'
      exact ⟨rfl, rfl⟩

theorem named_of_put {r : PutRequest} {response : PutResponse}
    (hput : s.put r = (s', .ok response)) :
    r.key ≠ [] ∧ (r.keepsPrevious = true → (s.latest? r.key).isSome = true) := by
  rw [put] at hput
  split at hput
  · cases hput
  · rename_i hnamed
    refine ⟨hnamed, fun hkeeps => ?_⟩
    cases hlatest : s.latest? r.key with
    | some p => rfl
    | none =>
        have hrefused : r.keepsPrevious = true ∧ (s.latest? r.key).isNone = true :=
          ⟨hkeeps, by rw [hlatest]; rfl⟩
        simp only [putAt, if_pos hrefused] at hput
        cases hput

theorem puts_of_put (hs : s.table.Indexed) {r : PutRequest} {response : PutResponse}
    (hput : s.put r = (s', .ok response)) : r.Puts s s' response := by
  obtain ⟨hnamed, hprev⟩ := named_of_put hput
  rw [put_eq hnamed hprev] at hput
  obtain ⟨rfl, hanswer⟩ := Prod.mk.inj hput
  obtain rfl := Except.ok.inj hanswer
  have hfiled := r.filed_entry (s.revision + 1) (s.latest? r.key)
  refine ⟨rfl, live_of_push hs hfiled rfl, ?_, ?_, ⟨rfl, rfl⟩, ?_⟩
  · have hleaves := leaves_written hprev (s.revision + 1)
    refine ⟨_, ?_, hleaves⟩
    rw [live, liveAt, (hs.push hfiled).mem_liveAt, hleaves.key]
    exact Table.latest?_push_self hs.ordered r.key _
  · intro key hne
    exact Table.history_push_of_ne s.table _ hne
  · intro kv
    cases hprevKv : r.prevKv with
    | false => simp
    | true => simp [Option.map_eq_some_iff, eq_comm (a := kv)]

/-- A deletion that is carried out removes the keys that it names and tells which they were. A write
that is carried out changes its key alone. -/
theorem writes_only_named (requests : List Request) :
    (∀ r s' response, (empty.run requests).deleteRange r = (s', .ok response) →
        r.Deletes (empty.run requests) s' response) ∧
      ∀ r s' response, (empty.run requests).put r = (s', .ok response) →
        r.Puts (empty.run requests) s' response := by
  have hs : (empty.run requests).table.Indexed := (sound_empty.run requests).table.indexed
  exact ⟨fun r s' response => deletes_of_deleteRange hs, fun r s' response => puts_of_put hs⟩

/-- A deletion of two keys, one of which was deleted and written again before, and a write that
keeps the value of the other. The key that is gone for good is found by neither. -/
theorem writes_only_named_of_rewritten_key :
    let requests : List Request := [.put { key := [1], value := [7] },
      .put { key := [2], lease := 3 }, .put { key := [3] },
      .deleteRange { key := [2], rangeEnd := [4] }, .put { key := [2], value := [9] }]
    let delete : DeleteRangeRequest := { key := [1], rangeEnd := [0], prevKv := true }
    let keep : PutRequest := { key := [1], lease := 5, prevKv := true, ignoreValue := true }
    (∃ s' response, (empty.run requests).deleteRange delete = (s', .ok response) ∧
        delete.Deletes (empty.run requests) s' response ∧ response.deleted = 2) ∧
      ∃ s' response, (empty.run requests).put keep = (s', .ok response) ∧
        keep.Puts (empty.run requests) s' response := by
  intro requests delete keep
  obtain ⟨hdeletes, hputs⟩ := writes_only_named requests
  exact ⟨⟨_, _, rfl, hdeletes delete _ _ rfl, by decide⟩, _, _, rfl, hputs keep _ _ rfl⟩

end Store

end Keyspace
