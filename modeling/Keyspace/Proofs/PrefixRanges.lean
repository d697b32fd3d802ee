import Keyspace.Proofs.RangeListing
import Keyspace.Proofs.NamedKeyWrites
import Keyspace.Proofs.PendingCalls

namespace Keyspace

namespace Bytes

theorem lt_succ_iff {b c : UInt8} (hb : b ≠ 255) : c < b + 1 ↔ c ≤ b := by
  grind

/-- Either all bytes are at their highest, or there is a last one that is not. -/
theorem prefixEnd_cases (start : Bytes) :
    (∃ n, start = List.replicate n 255 ∧ start.prefixEnd = [0]) ∨
      ∃ before b n, b ≠ 255 ∧ start = before ++ b :: List.replicate n 255 ∧
        start.prefixEnd = before ++ [b + 1] := by
  let full (c : UInt8) : Bool := c = 255
  have hsplit := List.takeWhile_append_dropWhile (p := full) (l := start.reverse)
  have hfull : ∀ c ∈ start.reverse.takeWhile full, c = 255 := fun c hc =>
    of_decide_eq_true (List.all_eq_true.mp List.all_takeWhile c hc)
  rw [List.eq_replicate_of_mem hfull] at hsplit
  generalize (start.reverse.takeWhile full).length = n at hsplit
  rw [prefixEnd]
  cases hrest : start.reverse.dropWhile full with
  | nil =>
      rw [hrest, List.append_nil] at hsplit
      exact .inl ⟨n, by rw [← start.reverse_reverse, ← hsplit, List.reverse_replicate], rfl⟩
  | cons b before =>
      have hb : full b = false := by
        simpa [hrest] using List.head?_dropWhile_not full start.reverse
      rw [hrest] at hsplit
      refine .inr ⟨before.reverse, b, n, of_decide_eq_false hb, ?_, List.reverse_cons⟩
      rw [← start.reverse_reverse, ← hsplit]
      simp

theorem replicate_le_iff (n : Nat) (key : Bytes) :
    List.replicate n 255 ≤ key ↔ List.replicate n 255 <+: key := by
  induction n generalizing key with
  | zero => simp
  | succ n ih =>
      cases key with
      | nil => simp [List.replicate_succ]
      | cons c key =>
          have hnot : ¬255 < c := by grind
          rw [List.replicate_succ, List.cons_le_cons_iff, List.cons_prefix_cons, ih]
          simp [hnot]

theorem between_iff {b : UInt8} (hb : b ≠ 255) (before : Bytes) (n : Nat) (key : Bytes) :
    before ++ b :: List.replicate n 255 ≤ key ∧ key < before ++ [b + 1] ↔
      before ++ b :: List.replicate n 255 <+: key := by
  induction before generalizing key with
  | nil =>
      cases key with
      | nil => simp
      | cons c key =>
          -- No byte is above `b` and below the next one.
          have hnot : ¬(b < c ∧ c ≤ b) := fun h => Std.not_lt.mpr h.2 h.1
          simp only [List.nil_append, List.cons_le_cons_iff, List.cons_lt_cons_iff,
            List.cons_prefix_cons, List.not_lt_nil, and_false, or_false, lt_succ_iff hb,
            replicate_le_iff]
          grind
  | cons a before ih =>
      cases key with
      | nil => simp
      | cons c key =>
          simp only [List.cons_append, List.cons_le_cons_iff, List.cons_lt_cons_iff,
            List.cons_prefix_cons, ← ih]
          grind

end Bytes

def Span.ofPrefix (start : Bytes) : Span where
  start
  stop := start.prefixEnd

theorem Span.covers_ofPrefix_iff (start key : Bytes) :
    (ofPrefix start).covers key = true ↔ start <+: key := by
  rcases start.prefixEnd_cases with ⟨n, hstart, hend⟩ | ⟨before, b, n, hb, hstart, hend⟩
  · rw [covers, ofPrefix, hend, hstart, ← Bytes.replicate_le_iff]
    simp
  · -- What has grown is not the zero byte, which would stand for the end of all keys.
    have hzero : before ++ [b + 1] ≠ [0] := by
      intro hzero
      have hlast : b + 1 = 0 := by
        simpa using congrArg List.getLast? hzero
      grind
    rw [covers, ofPrefix, hend, hstart, if_neg (by simp), if_neg hzero, Bool.and_eq_true,
      decide_eq_true_iff, decide_eq_true_iff]
    exact Bytes.between_iff hb before n key

theorem Span.covers_ofPrefix (start : Bytes) :
    (ofPrefix start).covers = fun key => start.isPrefixOf key := by
  funext key
  rw [Bool.eq_iff_iff, covers_ofPrefix_iff, List.isPrefixOf_iff_prefix]

@[simp] theorem SortOrder.ofWire?_wire (order : SortOrder) :
    SortOrder.ofWire? order.wire = some order := by
  cases order <;> rfl

@[simp] theorem SortTarget.ofWire?_wire (target : SortTarget) :
    SortTarget.ofWire? target.wire = some target := by
  cases target <;> rfl

def Store.startingWith (s : Store) (start : Bytes) : List Live :=
  s.live.filter fun l => start.isPrefixOf l.key

/-- What is read of the keys that start with given bytes. -/
structure GetOptions.Lists (o : GetOptions) (start : Bytes) (s : Store) (result : RangeResult) :
    Prop where
  kvs : result.kvs.Perm ((s.startingWith start).map (o.toRequest start).shown)
  ascending : o.sortOrder = .none → o.sortTarget = .key →
    result.kvs = (s.startingWith start).map (o.toRequest start).shown
  more : result.more = false
  count : result.count = Int64.ofNat (s.startingWith start).length

/-- What is left and what is told when the keys that start with given bytes are deleted. -/
structure DeleteOptions.Removes (o : DeleteOptions) (start : Bytes) (s s' : Store)
    (result : DeleteResult) : Prop where
  left : s'.live = s.live.filter fun l => !start.isPrefixOf l.key
  deleted : result.deleted = Int64.ofNat (s.startingWith start).length
  prevKvs : result.prevKvs =
    if o.prevKv then (s.startingWith start).map Live.toKeyValue else []

namespace Store

variable {s : Store} {start : Bytes}

/-- A caller who reads the keys that start with given bytes is given them. -/
def GetsPrefix (s : Store) (start : Bytes) (o : GetOptions) : Prop :=
  ∃ request result, (Command.get start (o.withPrefix start)).request = .ok request ∧
    s.reply request = .ok (.range result) ∧ o.Lists start s result

/-- A caller who deletes the keys that start with given bytes is told how many there were. -/
def DeletesPrefix (s : Store) (start : Bytes) (o : DeleteOptions) : Prop :=
  ∃ request result, (Command.delete start (o.withPrefix start)).request = .ok request ∧
    s.reply request = .ok (.delete result) ∧ o.Removes start s (s.serve request).1 result

theorem scan_ofPrefix (hs : s.Sound) (start : Bytes) (q : Int) :
    s.scan (.ofPrefix start) q = (s.liveAt q).filter fun l => start.isPrefixOf l.key := by
  rw [scan_eq hs.table.indexed, Span.covers_ofPrefix]

theorem select_withPrefix (hs : s.Sound) (start : Bytes) {o : GetOptions}
    (hnow : o.revision = 0) :
    s.select ((o.withPrefix start).toRequest start) = s.startingWith start := by
  have hall : ((o.withPrefix start).toRequest start).admits = fun _ => true := rfl
  rw [select, hall, List.filter_eq_self.mpr fun _ _ => rfl]
  change s.scan (.ofPrefix start) o.revision.toInt = _
  rw [scan_ofPrefix hs, hnow]
  rfl

theorem checkRange_toRequest (s : Store) (key : Bytes) {o : GetOptions} (hnow : o.revision = 0) :
    s.checkRange (o.toRequest key) = .ok (o.sortOrder, o.sortTarget) := by
  have hreadable : s.checkReadable o.revision.toInt = .ok () := by
    rw [checkReadable_eq_ok_iff, hnow]
    exact ⟨.inl (Int.le_refl 0), Int.natCast_nonneg _⟩
  simp only [checkRange, GetOptions.toRequest, hreadable, SortOrder.ofWire?_wire,
    SortTarget.ofWire?_wire]

theorem getsPrefix (hs : s.Sound) (start : Bytes) {o : GetOptions} (hwhole : o.limit = 0)
    (hnow : o.revision = 0) (hshown : o.countOnly = false) : s.GetsPrefix start o := by
  have hcheck : s.checkRange ((o.withPrefix start).toRequest start) =
      .ok (o.sortOrder, o.sortTarget) := s.checkRange_toRequest start hnow
  obtain ⟨response, hrange, hanswers⟩ := range_answers hcheck
  rw [select_withPrefix hs start hnow] at hanswers
  have hreply : s.reply (.range ((o.withPrefix start).toRequest start)) =
      .ok (.range (.ofResponse response)) := by
    rw [reply, serve, hrange]
    rfl
  -- Without a limit nothing is left out.
  have hall : ∀ count, ¬((o.withPrefix start).toRequest start).Exceeded count := by
    rintro count ⟨hpositive, -⟩
    change 0 < o.limit.toInt at hpositive
    rw [hwhole] at hpositive
    exact absurd hpositive (Int.lt_irrefl 0)
  have hkvs : response.kvs = (o.sortOrder.sort o.sortTarget (s.startingWith start)).map
      (o.toRequest start).shown := hanswers.whole hshown (hall _)
  have hperm := o.sortOrder.perm_sort o.sortTarget (s.startingWith start)
  refine ⟨_, .ofResponse response, rfl, hreply, ?_, ?_, ?_, ?_⟩
  · rw [RangeResult.ofResponse, hkvs]
    exact hperm.map _
  · intro horder htarget
    have hascending : (s.startingWith start).Pairwise fun a b => a.key < b.key :=
      (hs.table.indexed.pairwise_liveAt 0).filter _
    rw [horder, htarget, SortOrder.sort_none_key hascending] at hkvs
    exact hkvs
  · exact Bool.eq_false_iff.mpr fun hmore => hall _ (hanswers.more.mp hmore).2
  · exact hanswers.count.trans (congrArg Int64.ofNat hperm.length_eq)

theorem deletesPrefix (hs : s.Sound) (hnamed : start ≠ []) (o : DeleteOptions) :
    s.DeletesPrefix start o := by
  obtain ⟨s', response, hdelete⟩ :=
    s.exists_deleteRange_eq (r := (o.withPrefix start).toRequest start) hnamed
  obtain ⟨-, hleft, hdeleted, hprevKvs, -⟩ := deletes_of_deleteRange hs.table.indexed hdelete
  have hspan : ((o.withPrefix start).toRequest start).span = .ofPrefix start := rfl
  rw [hspan, Span.covers_ofPrefix] at hleft hdeleted hprevKvs
  rw [List.countP_eq_length_filter] at hdeleted
  refine ⟨_, .ofResponse response, rfl, ?_, ?_, hdeleted, hprevKvs⟩
  · rw [reply, serve, hdelete]
    rfl
  · rw [serve, hdelete]
    exact hleft

theorem deleteRange_of_empty_key (s : Store) {r : DeleteRangeRequest} (hmissing : r.key = []) :
    s.deleteRange r = (s, .error .keyMissing) := by
  rw [deleteRange, if_pos hmissing]

/-- The range of the keys that start with given bytes has these keys and no others in it. They can
be read whatever the bytes are, and deleted if there is at least one byte. -/
theorem prefix_ranges_exact (requests : List Request) (start : Bytes) :
    (∀ key, (Span.ofPrefix start).covers key = true ↔ start <+: key) ∧
      (empty.run requests).table.walk (.ofPrefix start) =
        (empty.run requests).table.filter (fun p => start.isPrefixOf p.1) ∧
      (∀ q, (empty.run requests).scan (.ofPrefix start) q =
        ((empty.run requests).liveAt q).filter fun l => start.isPrefixOf l.key) ∧
      (∀ o : GetOptions, o.limit = 0 → o.revision = 0 → o.countOnly = false →
        (empty.run requests).GetsPrefix start o) ∧
      (start ≠ [] → ∀ o, (empty.run requests).DeletesPrefix start o) ∧
      (start = [] → ∀ o : DeleteOptions,
        (empty.run requests).deleteRange ((o.withPrefix start).toRequest start) =
          (empty.run requests, .error .keyMissing)) := by
  have hs : (empty.run requests).Sound := sound_empty.run requests
  refine ⟨Span.covers_ofPrefix_iff start, ?_, scan_ofPrefix hs start, ?_, ?_, ?_⟩
  · rw [Table.walk_eq_filter hs.table.ordered, Span.covers_ofPrefix]
  · exact fun o => getsPrefix hs start
  · exact fun hnamed o => deletesPrefix hs hnamed o
  · exact fun hempty o => deleteRange_of_empty_key _ hempty

/-- Keys that start with a byte at its highest, that stop short of it and that come right after
them, and an empty beginning. -/
theorem prefix_ranges_exact_of_full_bytes :
    let s := empty.run [.put { key := [97, 255] }, .put { key := [97, 255, 255] },
      .put { key := [97, 254] }, .put { key := [98] }, .put { key := [255, 255] }]
    ((s.startingWith [97, 255]).length = 2 ∧ s.GetsPrefix [97, 255] {} ∧
        s.DeletesPrefix [97, 255] { prevKv := true }) ∧
      (s.startingWith [255]).length = 1 ∧ s.DeletesPrefix [255] {} ∧
      (s.startingWith []).length = 5 ∧ s.GetsPrefix [] { keysOnly := true } ∧
      s.deleteRange ((DeleteOptions.withPrefix {} []).toRequest []) = (s, .error .keyMissing) := by
  intro s
  obtain ⟨-, -, -, hgets, hdeletes, -⟩ := prefix_ranges_exact _ [97, 255]
  obtain ⟨-, -, -, -, hdeletes', -⟩ := prefix_ranges_exact _ [255]
  obtain ⟨-, -, -, hgets', -, hrefused⟩ := prefix_ranges_exact _ []
  exact ⟨⟨by decide, hgets {} rfl rfl rfl, hdeletes (by decide) _⟩, by decide,
    hdeletes' (by decide) {}, by decide, hgets' { keysOnly := true } rfl rfl rfl, hrefused rfl {}⟩

/-- All keys start with the empty string, but a deletion of them is refused. -/
theorem not_deletesPrefix_of_empty :
    ¬(empty.run [.put { key := [97], value := [98] }]).DeletesPrefix [] {} := by
  rintro ⟨request, result, hrequest, hreply, -⟩
  obtain rfl := Except.ok.inj hrequest
  cases hreply

end Store

end Keyspace
