import Keyspace.Proofs.RangeListing

namespace Keyspace

theorem Bytes.append_zero_le_iff (key key' : Bytes) : key ++ [0] ≤ key' ↔ key < key' := by
  induction key generalizing key' with
  | nil =>
      cases key' with
      | nil => simp
      | cons c key' =>
          have hzero : 0 < c ∨ 0 = c := by grind
          simp [List.cons_le_cons_iff, hzero]
  | cons b key ih =>
      cases key' with
      | nil => simp
      | cons c key' => simp [List.cons_le_cons_iff, List.cons_lt_cons_iff, ih]

def RangeRequest.after (r : RangeRequest) (key : Bytes) : RangeRequest :=
  { r with key := key ++ [0] }

/-- The pages that are read by going on after the last key of each for as long as there are more. -/
inductive Store.Pages (s : Store) : RangeRequest → List RangeResponse → Prop
  | last {r : RangeRequest} {page : RangeResponse} (answered : s.range r = .ok page)
      (done : page.more = false) : s.Pages r [page]
  | next {r : RangeRequest} {page : RangeResponse} {pages : List RangeResponse} {kv : KeyValue}
      (answered : s.range r = .ok page) (more : page.more = true)
      (cursor : page.kvs.getLast? = some kv) (rest : s.Pages (r.after kv.key) pages) :
      s.Pages r (page :: pages)

theorem RangeRequest.key_shown (r : RangeRequest) (l : Live) : (r.shown l).key = l.key := by
  rw [shown]
  split <;> rfl

/-- The number of pages of so many keys. The first is read even if there are none. -/
def pageCount (size total : Nat) : Nat :=
  max 1 ((total + size - 1) / size)

theorem pageCount_of_le {size total : Nat} (hsize : 0 < size) (hle : total ≤ size) :
    pageCount size total = 1 := by
  refine Nat.max_eq_left (Nat.le_of_lt_succ ?_)
  rw [Nat.div_lt_iff_lt_mul hsize]
  omega

theorem pageCount_of_lt {size total : Nat} (hsize : 0 < size) (hlt : size < total) :
    pageCount size total = pageCount size (total - size) + 1 := by
  have hmore : 1 ≤ (total - size + size - 1) / size := by
    rw [Nat.le_div_iff_mul_le hsize]
    omega
  have hstep : (total + size - 1) / size = (total - size + size - 1) / size + 1 := by
    rw [← Nat.add_div_right _ hsize]
    congr 1
    omega
  rw [pageCount, pageCount, hstep, Nat.max_eq_right hmore, Nat.max_eq_right (Nat.le_add_left ..)]

theorem filter_above_eq {front rest : List Live} {l : Live}
    (hkeys : (front ++ l :: rest).Pairwise fun a b => a.key < b.key) :
    ((front ++ l :: rest).filter fun x => l.key < x.key) = rest := by
  obtain ⟨-, hrest, hfront⟩ := List.pairwise_append.mp hkeys
  have hbelow : ∀ x ∈ front, ¬l.key < x.key := fun x hx =>
    Std.not_lt.mpr (Std.le_of_lt (hfront x hx l List.mem_cons_self))
  have habove : ∀ x ∈ rest, l.key < x.key := (List.pairwise_cons.mp hrest).1
  rw [List.filter_append, List.filter_cons, List.filter_eq_nil_iff.mpr (by simpa using hbelow),
    List.filter_eq_self.mpr (by simpa using habove)]
  simp [Std.lt_irrefl]

namespace Store

variable {s : Store} {r : RangeRequest}

theorem Pages.unique {pages pages' : List RangeResponse} (hpages : s.Pages r pages)
    (hpages' : s.Pages r pages') : pages = pages' := by
  induction hpages generalizing pages' with
  | last answered done =>
      cases hpages' with
      | last answered' => rw [Except.ok.inj (answered.symm.trans answered')]
      | next answered' more =>
          rw [Except.ok.inj (answered.symm.trans answered'), more] at done
          cases done
  | next answered more cursor rest ih =>
      cases hpages' with
      | last answered' done =>
          rw [Except.ok.inj (answered'.symm.trans answered), more] at done
          cases done
      | next answered' more' cursor' rest' =>
          obtain rfl := Except.ok.inj (answered.symm.trans answered')
          obtain rfl := Option.some.inj (cursor.symm.trans cursor')
          rw [ih rest']

theorem covers_after_iff {key : Bytes} (hend : r.rangeEnd ≠ []) (hkey : r.key ≤ key) (x : Bytes) :
    (r.after key).span.covers x = true ↔ r.span.covers x = true ∧ key < x := by
  have hspan : r.span = { start := r.key, stop := r.rangeEnd } := rfl
  have hafter : (r.after key).span = { start := key ++ [0], stop := r.rangeEnd } := rfl
  have hstart : key < x → r.key ≤ x := fun hlt => Std.le_trans hkey (Std.le_of_lt hlt)
  rw [hspan, hafter, Span.covers_iff, Span.covers_iff]
  simp only [hend, false_imp_iff, true_and, Bytes.append_zero_le_iff]
  grind

theorem select_after (hs : s.Sound) {key : Bytes} (hend : r.rangeEnd ≠ []) (hkey : r.key ≤ key) :
    s.select (r.after key) = (s.select r).filter fun x => key < x.key := by
  rw [select, select, scan_eq hs.table.indexed, scan_eq hs.table.indexed, List.filter_filter,
    List.filter_filter, List.filter_filter]
  refine List.filter_congr fun x _ => ?_
  rw [Bool.eq_iff_iff]
  simp only [Bool.and_eq_true, decide_eq_true_eq, covers_after_iff hend hkey]
  change r.admits x = true ∧ _ ↔ _
  grind

theorem length_select_le (hs : s.Sound) (hend : r.rangeEnd = []) : (s.select r).length ≤ 1 := by
  have hkeys := pairwise_select hs r
  have halone : ∀ l ∈ s.select r, l.key = r.key := fun l hl =>
    ((mem_select_iff hs).mp hl).alone hend
  match hfound : s.select r with
  | [] => exact Nat.zero_le 1
  | [l] => exact Nat.le_refl 1
  | l :: l' :: rest =>
      rw [hfound] at hkeys halone
      have hlt : l.key < l'.key := (List.pairwise_cons.mp hkeys).1 l' List.mem_cons_self
      rw [halone l (by simp), halone l' (by simp)] at hlt
      exact absurd hlt Std.lt_irrefl

theorem start_le_of_mem_select (hs : s.Sound) {l : Live} (hl : l ∈ s.select r) : r.key ≤ l.key := by
  have hwants := (mem_select_iff hs).mp hl
  by_cases halone : r.rangeEnd = []
  · exact Std.le_of_eq (hwants.alone halone).symm
  · by_cases honward : r.rangeEnd = [0]
    · exact hwants.onward honward
    · exact (hwants.between halone honward).1

theorem exists_page (hs : s.Sound) (hcheck : s.checkRange r = .ok (.none, .key))
    (hshown : r.countOnly = false) (hlimit : 0 < r.limit.toInt) :
    ∃ page, s.range r = .ok page ∧
      page.kvs = ((s.select r).take r.limit.toInt.toNat).map r.shown ∧
        (page.more = true ↔ r.limit.toInt.toNat < (s.select r).length) := by
  obtain ⟨page, hrange, hanswers⟩ := range_answers_ascending hs hcheck
  have hexceeded : r.Exceeded (s.select r).length ↔
      r.limit.toInt.toNat < (s.select r).length := by
    rw [RangeRequest.Exceeded]
    omega
  refine ⟨page, hrange, ?_, ?_⟩
  · by_cases hmore : r.Exceeded (s.select r).length
    · exact hanswers.limited hshown hmore
    · have hshort := Nat.not_lt.mp (mt hexceeded.mpr hmore)
      rw [List.take_of_length_le hshort]
      exact hanswers.whole hshown hmore
  · rw [hanswers.more, hexceeded, and_iff_right hshown]

theorem exists_last_of_page (hs : s.Sound) {size : Nat} (hsize : 0 < size)
    (hlong : size < (s.select r).length) :
    ∃ front l, (s.select r).take size = front ++ [l] ∧
      s.select (r.after l.key) = (s.select r).drop size := by
  have hend : r.rangeEnd ≠ [] := by
    intro hend
    have := length_select_le hs hend
    omega
  have hpage : (s.select r).take size ≠ [] := by
    rw [← List.length_pos_iff, List.length_take]
    omega
  obtain ⟨front, l, hlast⟩ : ∃ front l, (s.select r).take size = front ++ [l] :=
    ⟨_, _, (List.dropLast_concat_getLast hpage).symm⟩
  refine ⟨front, l, hlast, ?_⟩
  have hsplit : front ++ l :: (s.select r).drop size = s.select r := by
    rw [List.append_cons, ← hlast, List.take_append_drop]
  have hl : l ∈ s.select r := by
    rw [← hsplit]
    simp
  rw [select_after hs hend (start_le_of_mem_select hs hl)]
  have hkeys := pairwise_select hs r
  rw [← hsplit] at hkeys
  have habove := filter_above_eq hkeys
  rwa [hsplit] at habove

/-- All pages show all that is found, from the first key to the last. -/
theorem exists_pages (hs : s.Sound) (hcheck : s.checkRange r = .ok (.none, .key))
    (hshown : r.countOnly = false) (hlimit : 0 < r.limit.toInt) :
    ∃ pages, s.Pages r pages ∧
      pages.length = pageCount r.limit.toInt.toNat (s.select r).length ∧
        pages.flatMap RangeResponse.kvs = (s.select r).map r.shown := by
  have hsize : 0 < r.limit.toInt.toNat := by omega
  -- The induction is on the number of keys that are still to be shown.
  induction hfound : (s.select r).length using Nat.strongRecOn generalizing r with
  | ind total ih =>
      obtain ⟨page, hrange, hkvs, hmore⟩ := exists_page hs hcheck hshown hlimit
      rw [hfound] at hmore
      by_cases hlong : r.limit.toInt.toNat < total
      · obtain ⟨front, l, hlast, hrest⟩ := exists_last_of_page hs hsize (hfound ▸ hlong)
        have hcursor : page.kvs.getLast? = some (r.shown l) := by
          rw [hkvs, hlast, List.map_append, List.map_singleton, List.getLast?_concat]
        have hleft : (s.select (r.after l.key)).length = total - r.limit.toInt.toNat := by
          rw [hrest, List.length_drop, hfound]
        obtain ⟨pages, hpages, hlength, hshows⟩ :=
          ih _ (Nat.sub_lt_self hsize (Nat.le_of_lt hlong)) (r := r.after l.key) hcheck hshown
            hlimit hsize hleft
        refine ⟨page :: pages, .next hrange (hmore.mpr hlong) hcursor ?_, ?_, ?_⟩
        · rw [r.key_shown]
          exact hpages
        · rw [List.length_cons, hlength, pageCount_of_lt hsize hlong]
          rfl
        · rw [List.flatMap_cons, hshows, hkvs, hrest]
          change _ ++ ((s.select r).drop _).map r.shown = _
          rw [← List.map_append, List.take_append_drop]
      · have hdone : page.more = false := Bool.eq_false_iff.mpr (mt hmore.mp hlong)
        have hshort : total ≤ r.limit.toInt.toNat := Nat.not_lt.mp hlong
        refine ⟨[page], .last hrange hdone, (pageCount_of_le hsize hshort).symm, ?_⟩
        rw [List.flatMap_singleton, hkvs, List.take_of_length_le (hfound ▸ hshort)]

/-- Whoever reads a range page by page comes to an end, with as many pages as are needed, and has
then been shown once and in order what a request without a limit shows. -/
theorem pages_complete (requests : List Request) (r : RangeRequest)
    (hkept : r.revision.toInt ≤ 0 ∨ (empty.run requests).compacted ≤ r.revision.toInt)
    (hreached : r.revision.toInt ≤ ((empty.run requests).revision : Int))
    (horder : r.sortOrder = 0) (htarget : r.sortTarget = 0) (hshown : r.countOnly = false)
    (hlimit : 0 < r.limit.toInt) :
    ∃ whole pages, (empty.run requests).range { r with limit := 0 } = .ok whole ∧
      (empty.run requests).Pages r pages ∧
      (∀ pages', (empty.run requests).Pages r pages' → pages' = pages) ∧
      pages.length =
        max 1 ((whole.kvs.length + r.limit.toInt.toNat - 1) / r.limit.toInt.toNat) ∧
      pages.flatMap RangeResponse.kvs = whole.kvs ∧
      whole.kvs.Pairwise fun a b => a.key < b.key := by
  have hs : (empty.run requests).Sound := sound_empty.run requests
  have hreadable := (checkReadable_eq_ok_iff _ r.revision.toInt).mpr ⟨hkept, hreached⟩
  have hcheck : (empty.run requests).checkRange r = .ok (.none, .key) := by
    simp only [checkRange, hreadable, horder, htarget]
    rfl
  obtain ⟨whole, hwhole, hanswers⟩ :=
    range_answers_ascending (r := { r with limit := 0 }) hs hcheck
  have hkvs : whole.kvs = ((empty.run requests).select r).map r.shown :=
    hanswers.whole hshown fun hmore => absurd hmore.1 (Int.lt_irrefl 0)
  obtain ⟨pages, hpages, hlength, hshows⟩ := exists_pages hs hcheck hshown hlimit
  refine ⟨whole, pages, hwhole, hpages, fun _ hpages' => hpages'.unique hpages, ?_, ?_, ?_⟩
  · rw [hlength, hkvs, List.length_map]
    rfl
  · rw [hshows, hkvs]
  · rw [hkvs, List.pairwise_map]
    refine (pairwise_select hs r).imp fun {a b} hlt => ?_
    rw [r.key_shown, r.key_shown]
    exact hlt

/-- Two pages of two keys each, read at a revision before some of the keys were deleted. The second
page is the last, although it is full. -/
theorem pages_complete_of_full_pages :
    let requests : List Request := [.put { key := [1] }, .put { key := [1, 0] },
      .put { key := [2] }, .put { key := [2, 255] }, .deleteRange { key := [2], rangeEnd := [0] }]
    let r : RangeRequest := { key := [1], rangeEnd := [0], limit := 2, revision := 5 }
    ∃ whole pages, (empty.run requests).range { r with limit := 0 } = .ok whole ∧
      (empty.run requests).Pages r pages ∧ pages.flatMap RangeResponse.kvs = whole.kvs ∧
      whole.kvs.length = 4 ∧ pages.length = 2 := by
  intro requests r
  obtain ⟨whole, pages, hwhole, hpages, -, hlength, hshows, -⟩ :=
    pages_complete requests r (.inr (by decide)) (by decide) rfl rfl rfl (by decide)
  obtain ⟨whole', hwhole', hanswers⟩ :=
    range_answers_ascending (r := { r with limit := 0 }) (sound_empty.run requests) rfl
  obtain rfl := Except.ok.inj (hwhole'.symm.trans hwhole)
  have hfour : whole'.kvs.length = 4 := by
    rw [hanswers.whole rfl fun hmore => absurd hmore.1 (by decide), List.length_map]
    decide
  refine ⟨whole', pages, hwhole, hpages, hshows, hfour, ?_⟩
  rw [hlength, hfour]
  decide

end Store

end Keyspace
