import Keyspace.Proofs.CappedHistory
import Keyspace.Proofs.BranchSelection
import Keyspace.Proofs.StableSort
import Keyspace.Proofs.PastReads

namespace Keyspace

/-- The first key is below the second in what is sorted on. -/
def SortTarget.Less : SortTarget → Live → Live → Prop
  | key, a, b => a.key < b.key
  | version, a, b => a.version < b.version
  | createRevision, a, b => a.created < b.created
  | modRevision, a, b => a.modified < b.modified
  | value, a, b => a.value < b.value

def SortOrder.Less (order : SortOrder) (target : SortTarget) (a b : Live) : Prop :=
  match order with
  | descend => target.Less b a
  | _ => target.Less a b

/-- The first key is listed before the second. Keys that do not differ in what is sorted on ascend,
in either direction. -/
def SortOrder.Precedes (order : SortOrder) (target : SortTarget) (a b : Live) : Prop :=
  order.Less target a b ∨ ¬order.Less target b a ∧ a.key < b.key

theorem SortTarget.order_eq_lt_iff (target : SortTarget) (a b : Live) :
    target.order a b = .lt ↔ target.Less a b := by
  have hless : ∀ o : Ordering, CompareResult.less.holds o = true ↔ o = .lt := by
    simp [CompareResult.holds]
  rw [← hless]
  cases target <;> exact CompareResult.holds_compareOfLessAndEq .less _ _

theorem SortTarget.order_eq_gt_iff (target : SortTarget) (a b : Live) :
    target.order a b = .gt ↔ target.Less b a := by
  have hgreater : ∀ o : Ordering, CompareResult.greater.holds o = true ↔ o = .gt := by
    simp [CompareResult.holds]
  rw [← hgreater]
  cases target <;> exact CompareResult.holds_compareOfLessAndEq .greater _ _

theorem SortTarget.not_less_trans {target : SortTarget} {a b c : Live} (hab : ¬target.Less b a)
    (hbc : ¬target.Less c b) : ¬target.Less c a := by
  cases target <;> exact Std.not_lt.mpr (Std.le_trans (Std.not_lt.mp hab) (Std.not_lt.mp hbc))

theorem SortTarget.not_less_of_less {target : SortTarget} {a b : Live} (hab : target.Less a b) :
    ¬target.Less b a := by
  cases target <;> exact Std.not_lt.mpr (Std.le_of_lt hab)

namespace SortOrder

variable {order : SortOrder} {target : SortTarget}

theorem not_less_trans {a b c : Live} (hab : ¬order.Less target b a)
    (hbc : ¬order.Less target c b) : ¬order.Less target c a := by
  cases order with
  | descend => exact SortTarget.not_less_trans hbc hab
  | none => exact SortTarget.not_less_trans hab hbc
  | ascend => exact SortTarget.not_less_trans hab hbc

theorem not_less_of_less {a b : Live} (hab : order.Less target a b) :
    ¬order.Less target b a := by
  cases order <;> exact SortTarget.not_less_of_less hab

theorem exists_sort_eq (order : SortOrder) (target : SortTarget) (keys : List Live) :
    ∃ le : Live → Live → Bool, (∀ a b, le a b ↔ ¬order.Less target b a) ∧
      order.sort target keys = keys.mergeSort le := by
  have hgt : ∀ a b, decide (target.order a b ≠ .gt) = true ↔ ¬target.Less b a := by
    simp [target.order_eq_gt_iff]
  have hlt : ∀ a b, decide (target.order a b ≠ .lt) = true ↔ ¬target.Less a b := by
    simp [target.order_eq_lt_iff]
  cases order with
  | descend => exact ⟨_, hlt, rfl⟩
  | none => exact ⟨_, hgt, rfl⟩
  | ascend => exact ⟨_, hgt, rfl⟩

theorem perm_sort (order : SortOrder) (target : SortTarget) (keys : List Live) :
    (order.sort target keys).Perm keys := by
  obtain ⟨le, -, hsort⟩ := order.exists_sort_eq target keys
  rw [hsort]
  exact List.mergeSort_perm keys le

theorem pairwise_sort {keys : List Live} (hkeys : keys.Pairwise fun a b => a.key < b.key) :
    (order.sort target keys).Pairwise (order.Precedes target) := by
  obtain ⟨le, hle, hsort⟩ := order.exists_sort_eq target keys
  have htrans : ∀ a b c, le a b → le b c → le a c := by
    intro a b c hab hbc
    exact (hle a c).mpr (not_less_trans ((hle a b).mp hab) ((hle b c).mp hbc))
  have htotal : ∀ a b, le a b || le b a := by
    intro a b
    rw [Bool.or_eq_true, hle, hle]
    by_cases hab : order.Less target a b
    · exact .inl (not_less_of_less hab)
    · exact .inr hab
  rw [hsort]
  -- Where the order does not decide, the keys stay as they stood, in ascending order.
  refine (pairwise_mergeSort_stable htrans htotal hkeys).imp ?_
  rintro a b ⟨hab, htie⟩
  by_cases hless : order.Less target a b
  · exact .inl hless
  · exact .inr ⟨(hle a b).mp hab, htie ((hle b a).mpr hless)⟩

theorem sort_none_key {keys : List Live} (hkeys : keys.Pairwise fun a b => a.key < b.key) :
    none.sort .key keys = keys := by
  obtain ⟨le, hle, hsort⟩ := none.exists_sort_eq .key keys
  rw [hsort]
  refine List.mergeSort_of_pairwise (hkeys.imp fun {a b} hlt => (hle a b).mpr ?_)
  exact Std.not_lt.mpr (Std.le_of_lt hlt)

end SortOrder

theorem Span.covers_iff (span : Span) (key : Bytes) :
    span.covers key = true ↔
      (span.stop = [] → key = span.start) ∧ (span.stop = [0] → span.start ≤ key) ∧
        (span.stop ≠ [] → span.stop ≠ [0] → span.start ≤ key ∧ key < span.stop) := by
  by_cases halone : span.stop = []
  · simp [covers, halone]
  · by_cases honward : span.stop = [0]
    · simp [covers, honward]
    · simp [covers, halone, honward]

namespace RangeRequest

/-- A store has the key at the revision that the request reads at, and the request asks for it. -/
structure Wants (r : RangeRequest) (s : Store) (l : Live) : Prop where
  there : (s.table.history l.key).liveAt? r.revision.toInt = some l
  alone : r.rangeEnd = [] → l.key = r.key
  onward : r.rangeEnd = [0] → r.key ≤ l.key
  between : r.rangeEnd ≠ [] → r.rangeEnd ≠ [0] → r.key ≤ l.key ∧ l.key < r.rangeEnd
  minMod : r.minModRevision ≠ 0 → r.minModRevision.toInt ≤ l.modified
  maxMod : r.maxModRevision ≠ 0 → (l.modified : Int) ≤ r.maxModRevision.toInt
  minCreate : r.minCreateRevision ≠ 0 → r.minCreateRevision.toInt ≤ l.created
  maxCreate : r.maxCreateRevision ≠ 0 → (l.created : Int) ≤ r.maxCreateRevision.toInt

/-- The limit leaves out some of so many keys. -/
def Exceeded (r : RangeRequest) (count : Nat) : Prop :=
  0 < r.limit.toInt ∧ r.limit.toInt < count

/-- The answer to a request that found the keys, in the order in which they are listed. -/
structure Answers (r : RangeRequest) (s : Store) (found : List Live) (response : RangeResponse) :
    Prop where
  header : response.header = some s.header
  count : response.count = Int64.ofNat found.length
  more : response.more = true ↔ r.countOnly = false ∧ r.Exceeded found.length
  counted : r.countOnly = true → response.kvs = []
  limited : r.countOnly = false → r.Exceeded found.length →
    response.kvs = (found.take r.limit.toInt.toNat).map r.shown
  whole : r.countOnly = false → ¬r.Exceeded found.length → response.kvs = found.map r.shown

theorem exceeded_iff (r : RangeRequest) (count : Nat) :
    r.exceeded count = true ↔ r.Exceeded count := by
  simp [exceeded, Exceeded]

end RangeRequest

namespace Store

variable {s : Store} {r : RangeRequest}

theorem mem_select_iff (hs : s.Sound) {l : Live} : l ∈ s.select r ↔ r.Wants s l := by
  have hadmits : r.admits l = true ↔
      (r.minModRevision ≠ 0 → r.minModRevision.toInt ≤ l.modified) ∧
      (r.maxModRevision ≠ 0 → (l.modified : Int) ≤ r.maxModRevision.toInt) ∧
      (r.minCreateRevision ≠ 0 → r.minCreateRevision.toInt ≤ l.created) ∧
      (r.maxCreateRevision ≠ 0 → (l.created : Int) ≤ r.maxCreateRevision.toInt) := by
    simp [RangeRequest.admits, Decidable.or_iff_not_imp_left, and_assoc]
  have hlive : l ∈ s.liveAt r.revision.toInt ↔ _ := hs.table.indexed.mem_liveAt
  rw [select, List.mem_filter, mem_scan_iff hs.table.indexed, hlive, Span.covers_iff, hadmits]
  constructor
  · rintro ⟨⟨hthere, halone, honward, hbetween⟩, hminMod, hmaxMod, hminCreate, hmaxCreate⟩
    exact ⟨hthere, halone, honward, hbetween, hminMod, hmaxMod, hminCreate, hmaxCreate⟩
  · rintro ⟨hthere, halone, honward, hbetween, hminMod, hmaxMod, hminCreate, hmaxCreate⟩
    exact ⟨⟨hthere, halone, honward, hbetween⟩, hminMod, hmaxMod, hminCreate, hmaxCreate⟩

theorem pairwise_select (hs : s.Sound) (r : RangeRequest) :
    (s.select r).Pairwise fun a b => a.key < b.key :=
  (pairwise_scan hs.table.indexed _ _).filter _

theorem range_answers {order : SortOrder} {target : SortTarget}
    (hcheck : s.checkRange r = .ok (order, target)) :
    ∃ response, s.range r = .ok response ∧
      r.Answers s (order.sort target (s.select r)) response := by
  rw [range, hcheck]
  refine ⟨_, rfl, rfl, rfl, ?_, ?_, ?_, ?_⟩
  · simp [RangeRequest.exceeded_iff]
  · intro hcount
    simp [hcount]
  · intro hcount hmore
    rw [← r.exceeded_iff] at hmore
    simp [hcount, r.cut_eq, hmore]
  · intro hcount hall
    rw [← r.exceeded_iff] at hall
    simp [hcount, r.cut_eq, hall]

theorem range_answers_ascending (hs : s.Sound)
    (hcheck : s.checkRange r = .ok (.none, .key)) :
    ∃ response, s.range r = .ok response ∧ r.Answers s (s.select r) response := by
  obtain ⟨response, hrange, hanswers⟩ := range_answers hcheck
  rw [SortOrder.sort_none_key (pairwise_select hs r)] at hanswers
  exact ⟨response, hrange, hanswers⟩

/-- A range request at a revision that can be read, with a sort order and a sort target that there
are, is answered with the keys that it wants: each of them once, in the order asked for and cut to
the limit, but all of them counted. -/
theorem range_listing (requests : List Request) (r : RangeRequest) (order : SortOrder)
    (target : SortTarget)
    (hkept : r.revision.toInt ≤ 0 ∨ (empty.run requests).compacted ≤ r.revision.toInt)
    (hreached : r.revision.toInt ≤ ((empty.run requests).revision : Int))
    (horder : SortOrder.ofWire? r.sortOrder = some order)
    (htarget : SortTarget.ofWire? r.sortTarget = some target) :
    ∃ found response, (empty.run requests).range r = .ok response ∧
      (∀ l, l ∈ found ↔ r.Wants (empty.run requests) l) ∧
      (found.map Live.key).Nodup ∧ found.Pairwise (order.Precedes target) ∧
      r.Answers (empty.run requests) found response ∧
      (r.rangeEnd ≠ [] → r.rangeEnd ≠ [0] → r.rangeEnd ≤ r.key → found = []) := by
  have hs : (empty.run requests).Sound := sound_empty.run requests
  have hreadable := (checkReadable_eq_ok_iff _ r.revision.toInt).mpr ⟨hkept, hreached⟩
  have hcheck : (empty.run requests).checkRange r = .ok (order, target) := by
    simp only [checkRange, hreadable, horder, htarget]
  obtain ⟨response, hrange, hanswers⟩ := range_answers hcheck
  have hselect := pairwise_select hs r
  have hperm := order.perm_sort target ((empty.run requests).select r)
  have hwants : ∀ l, l ∈ order.sort target ((empty.run requests).select r) ↔
      r.Wants (empty.run requests) l := fun l => hperm.mem_iff.trans (mem_select_iff hs)
  refine ⟨_, response, hrange, hwants, ?_, SortOrder.pairwise_sort hselect, hanswers, ?_⟩
  · have hnodup : (((empty.run requests).select r).map Live.key).Nodup :=
      List.pairwise_map.mpr (hselect.imp Std.ne_of_lt)
    exact (hperm.map Live.key).nodup_iff.mpr hnodup
  · intro hstop hzero hinverted
    rw [List.eq_nil_iff_forall_not_mem]
    intro l hl
    obtain ⟨hstart, hend⟩ := ((hwants l).mp hl).between hstop hzero
    exact Std.not_lt.mpr hinverted (Std.lt_of_le_of_lt hstart hend)

/-- A read in the past of two keys with the same value and one with a higher one. -/
theorem range_listing_of_equal_values :
    let requests : List Request := [.put { key := [3], value := [7] },
      .put { key := [1], value := [7] }, .put { key := [2], value := [9] },
      .put { key := [4], value := [9] }, .compact { revision := 3 }, .deleteRange { key := [2] }]
    let r : RangeRequest :=
      { key := [1], rangeEnd := [0], limit := 2, revision := 5, sortOrder := 2, sortTarget := 4,
        keysOnly := true, maxModRevision := 4 }
    (empty.run requests).compacted ≤ r.revision.toInt ∧
      r.revision.toInt ≤ ((empty.run requests).revision : Int) ∧
      ∃ found response, (empty.run requests).range r = .ok response ∧
        (∀ l, l ∈ found ↔ r.Wants (empty.run requests) l) ∧
        (found.map Live.key).Nodup ∧ found.Pairwise (SortOrder.descend.Precedes .value) ∧
        r.Answers (empty.run requests) found response := by
  intro requests r
  have hkept : (empty.run requests).compacted ≤ r.revision.toInt := by decide
  have hreached : r.revision.toInt ≤ ((empty.run requests).revision : Int) := by decide
  obtain ⟨found, response, hrange, hwants, hnodup, hsorted, hanswers, -⟩ :=
    range_listing requests r .descend .value (.inr hkept) hreached (by decide) (by decide)
  exact ⟨hkept, hreached, found, response, hrange, hwants, hnodup, hsorted, hanswers⟩

end Store

end Keyspace
