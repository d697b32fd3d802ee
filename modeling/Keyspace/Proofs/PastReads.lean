import Keyspace.Proofs.StoreInvariants

namespace Keyspace

def RangeResponse.body (r : RangeResponse) : RangeResponse :=
  { r with header := none }

namespace Store

variable {s s' : Store} {q : Int}

theorem Sound.liveAt_revision (hs : s.Sound) : s.liveAt s.revision = s.live := by
  apply Table.liveAt_congr
  intro p hp
  have hbounds := (hs.table.histories p hp).bounds
  have hpos : 0 < (s.revision : Int) := Int.natCast_pos.mpr hs.positive
  rw [History.liveAt?_of_nonpos (Int.le_refl 0)]
  exact History.liveAt?_eq_latest? hpos fun e he => Int.ofNat_le.mpr (hbounds e he).2

/-- No change reaches back to a revision that can still be read. -/
theorem Change.liveAt (hchange : s.Change s') (hs : s.Sound) (hq : 0 < q)
    (hreached : q ≤ (s.revision : Int)) (hkept : s'.compacted ≤ q) :
    s'.liveAt q = s.liveAt q := by
  cases hchange with
  | keep alarms => rfl
  | write grown => exact grown.liveAt hq (by omega)
  | compact r forward reached =>
      apply Table.liveAt_mapHistories
      intro p hp
      exact History.liveAt?_compact (hs.table.histories p hp).ordered (.inr hkept)
  | defragment =>
      apply Table.liveAt_filter
      intro p hp hdropped
      -- Only deletions are dropped, and they are seen at no revision.
      rw [History.liveAt?, Option.bind_eq_none_iff]
      intro e he
      have hmem : e ∈ p.2 := History.mem_of_entryAt? he
      have hdead := List.any_eq_false.mp hdropped e hmem
      simp only [Bool.or_eq_true, not_or, Bool.not_eq_true, Option.isSome_eq_false_iff,
        Option.isNone_iff_eq_none] at hdead
      exact hdead.1

theorem Change.revision_le (hchange : s.Change s') :
    s.revision ≤ s'.revision ∧ s'.revision ≤ s.revision + 1 := by
  cases hchange with
  | keep alarms => exact ⟨Nat.le_refl _, Nat.le_succ _⟩
  | write grown => exact ⟨Nat.le_succ _, Nat.le_refl _⟩
  | compact r forward reached => exact ⟨Nat.le_refl _, Nat.le_succ _⟩
  | defragment => exact ⟨Nat.le_refl _, Nat.le_succ _⟩

theorem Change.compacted_le (hchange : s.Change s') (hq : 0 < q) (hkept : s'.compacted ≤ q) :
    s.compacted ≤ q := by
  cases hchange with
  | keep alarms => exact hkept
  | write grown => exact hkept
  | compact r forward reached =>
      change r ≤ q at hkept
      omega
  | defragment => exact hkept

theorem compacted_le_of_run (hs : s.Sound) (hq : 0 < q) {requests : List Request}
    (hkept : (s.run requests).compacted ≤ q) : s.compacted ≤ q := by
  induction requests generalizing s with
  | nil => exact hkept
  | cons request requests ih =>
      exact (change_serve hs request).compacted_le hq (ih (hs.serve request) hkept)

theorem liveAt_run (hs : s.Sound) (hq : 0 < q) (hreached : q ≤ (s.revision : Int))
    {requests : List Request} (hkept : (s.run requests).compacted ≤ q) :
    (s.run requests).liveAt q = s.liveAt q := by
  induction requests generalizing s with
  | nil => rfl
  | cons request requests ih =>
      have hchange := change_serve hs request
      have hnext := hs.serve request
      have hlater : q ≤ ((s.serve request).1.revision : Int) := by
        have := hchange.revision_le.1
        omega
      rw [run_cons] at hkept ⊢
      rw [ih hnext hlater hkept]
      exact hchange.liveAt hs hq hreached (compacted_le_of_run hnext hq hkept)

theorem exists_prefix_revision (hs : s.Sound) {requests : List Request} {n : Nat}
    (hfrom : s.revision ≤ n) (hto : n ≤ (s.run requests).revision) :
    ∃ past, past <+: requests ∧ (s.run past).revision = n := by
  induction requests generalizing s with
  | nil => exact ⟨[], List.prefix_rfl, Nat.le_antisymm hfrom hto⟩
  | cons request requests ih =>
      by_cases hnow : s.revision = n
      · exact ⟨[], List.nil_prefix, hnow⟩
      · have hnext : (s.serve request).1.revision ≤ n := by
          have := (change_serve hs request).revision_le.2
          omega
        obtain ⟨past, hpast, hrevision⟩ := ih (hs.serve request) hnext hto
        exact ⟨request :: past, List.cons_prefix_cons.mpr ⟨rfl, hpast⟩, hrevision⟩

theorem live_run_of_revision_eq (hs : s.Sound) {requests : List Request}
    (hsame : (s.run requests).revision = s.revision) : (s.run requests).live = s.live := by
  have hlater := hs.run requests
  have hpos : 0 < (s.revision : Int) := Int.natCast_pos.mpr hs.positive
  have hkept : (s.run requests).compacted ≤ (s.revision : Int) := by
    rw [← hsame]
    exact hlater.compacted
  calc (s.run requests).live
      = (s.run requests).liveAt s.revision := by rw [← hsame, hlater.liveAt_revision]
    _ = s.liveAt s.revision := liveAt_run hs hpos (Int.le_refl _) hkept
    _ = s.live := hs.liveAt_revision

theorem checkReadable_eq_ok_iff (s : Store) (q : Int) :
    s.checkReadable q = .ok () ↔ (q ≤ 0 ∨ s.compacted ≤ q) ∧ q ≤ (s.revision : Int) := by
  rw [checkReadable]
  by_cases hpast : 0 < q ∧ q < s.compacted
  · simp only [if_pos hpast, reduceCtorEq, false_iff]
    omega
  · by_cases hahead : (s.revision : Int) < q
    · simp only [if_neg hpast, if_pos hahead, reduceCtorEq, false_iff]
      omega
    · simp only [if_neg hpast, if_neg hahead, true_iff]
      omega

theorem range_body_congr (hs : s.table.Indexed) (hs' : s'.table.Indexed) {r : RangeRequest}
    {q q' : Int64} (hreadable : s.checkReadable q.toInt = .ok ())
    (hreadable' : s'.checkReadable q'.toInt = .ok ())
    (hlive : s.liveAt q.toInt = s'.liveAt q'.toInt) :
    (s.range { r with revision := q }).map RangeResponse.body =
      (s'.range { r with revision := q' }).map RangeResponse.body := by
  have hcheck :
      s.checkRange { r with revision := q } = s'.checkRange { r with revision := q' } := by
    simp only [checkRange, hreadable, hreadable']
  have hselect : s.select { r with revision := q } = s'.select { r with revision := q' } := by
    simp only [select, scan_eq hs, scan_eq hs', hlive]
    rfl
  rw [range, range, hcheck, hselect]
  cases s'.checkRange { r with revision := q' } with
  | error refusal => rfl
  | ok sorting => rfl

/-- Whatever was done to a store since, a range at a revision that it has
reached and not compacted away is answered as it was when that revision was the
present one, and there was such a time. The keys that are there depend on nothing
but the revision. -/
theorem range_past (requests : List Request) (q : Int64) (hq : 1 ≤ q.toInt)
    (hkept : (empty.run requests).compacted ≤ q.toInt)
    (hreached : q.toInt ≤ ((empty.run requests).revision : Int)) :
    (∃ past, past <+: requests ∧ ((empty.run past).revision : Int) = q.toInt) ∧
      (∀ past, past <+: requests → ((empty.run past).revision : Int) = q.toInt →
        ∀ r : RangeRequest,
          ((empty.run requests).range { r with revision := q }).map RangeResponse.body =
            ((empty.run past).range { r with revision := 0 }).map RangeResponse.body) ∧
      ∀ past later, past <+: later → later <+: requests →
        (empty.run later).revision = (empty.run past).revision →
          (empty.run later).live = (empty.run past).live := by
  refine ⟨?_, ?_, ?_⟩
  · have hfrom : (empty : Store).revision ≤ q.toInt.toNat := by
      change 1 ≤ q.toInt.toNat
      omega
    have hto : q.toInt.toNat ≤ (empty.run requests).revision := by omega
    obtain ⟨past, hpast, hrevision⟩ := exists_prefix_revision sound_empty hfrom hto
    exact ⟨past, hpast, by omega⟩
  · rintro past ⟨since, rfl⟩ hrevision r
    have hs : (empty.run past).Sound := sound_empty.run past
    rw [run_append] at hkept hreached ⊢
    have hnow : (empty.run past).checkReadable 0 = .ok () :=
      (checkReadable_eq_ok_iff _ 0).mpr ⟨.inl (Int.le_refl 0), by omega⟩
    have hthen := (checkReadable_eq_ok_iff _ q.toInt).mpr ⟨.inr hkept, hreached⟩
    have hlater : ((empty.run past).run since).Sound := hs.run since
    refine range_body_congr hlater.table.indexed hs.table.indexed hthen hnow ?_
    calc ((empty.run past).run since).liveAt q.toInt
        = (empty.run past).liveAt q.toInt := liveAt_run hs (by omega) (by omega) hkept
      _ = (empty.run past).live := by rw [← hrevision, hs.liveAt_revision]
  · rintro past later ⟨since, rfl⟩ - hsame
    rw [run_append] at hsame ⊢
    exact live_run_of_revision_eq (sound_empty.run past) hsame

/-- A key that was deleted, compacted at the deletion's predecessor and written
anew is still read as it was before. -/
theorem range_past_of_recreated_key :
    let past : List Request := [.put { key := [1], value := [7] }, .put { key := [2] }]
    let since : List Request := [.deleteRange { key := [1], rangeEnd := [3] },
      .compact { revision := 3 }, .put { key := [1], value := [8] }, .defragment {}]
    let r : RangeRequest := { key := [1], rangeEnd := [0] }
    (empty.run (past ++ since)).compacted = (3 : Int64).toInt ∧
      (empty.run (past ++ since)).revision = 5 ∧
      ((empty.run (past ++ since)).range { r with revision := 3 }).map RangeResponse.body =
        ((empty.run past).range { r with revision := 0 }).map RangeResponse.body := by
  intro past since r
  refine ⟨by decide, by decide, ?_⟩
  exact (range_past (past ++ since) 3 (by decide) (by decide) (by decide)).2.1 past
    (List.prefix_append past since) (by decide) r

end Store

end Keyspace
