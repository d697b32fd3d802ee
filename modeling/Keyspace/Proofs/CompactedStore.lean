import Keyspace.Proofs.StoreInvariants

/-!
A store that was compacted next to one that was not. Every operation makes the same of both and
answers the same, as long as it reads nothing that was forgotten.
-/

namespace Keyspace

/-- The request reads at a revision before the given one. -/
def RangeRequest.ReadsBelow (r : Int) (x : RangeRequest) : Prop :=
  0 < x.revision.toInt ∧ x.revision.toInt < r

namespace Store

variable {s s' : Store} {q r : Int} {revision : Nat}

/-- The store without what its keys were before a revision. -/
def forget (r : Int) (s : Store) : Store :=
  { s with table := s.table.mapHistories (History.compact r), compacted := r }

/-- A store that has come to a revision and was not compacted there yet. Writes
may be under way, which are a revision ahead of the store. -/
structure Behind (r : Int) (s : Store) : Prop where
  table : s.table.Sound (s.revision + 1)
  reached : r ≤ (s.revision : Int)
  positive : 0 < s.revision
  forward : s.compacted ≤ 0 ∨ s.compacted < r

def BranchAbove (r : Int) (ops : List RequestOp) : Prop :=
  ∀ op ∈ ops, ∀ x, op.request = some (.range x) → ¬x.ReadsBelow r

theorem Behind.liveAt_forget (hs : s.Behind r) (hq : q ≤ 0 ∨ r ≤ q) :
    (s.forget r).liveAt q = s.liveAt q := by
  apply Table.liveAt_mapHistories
  intro p hp
  exact History.liveAt?_compact (hs.table.histories p hp).ordered hq

theorem Behind.indexed_forget (hs : s.Behind r) : (s.forget r).table.Indexed :=
  (hs.table.mapHistories fun _ hh => History.compact_sublist hh.ordered).indexed

theorem Behind.scan_forget (hs : s.Behind r) (hq : q ≤ 0 ∨ r ≤ q) (span : Span) :
    (s.forget r).scan span q = s.scan span q := by
  rw [scan_eq hs.indexed_forget, scan_eq hs.table.indexed, hs.liveAt_forget hq]

theorem Behind.latest?_forget (hs : s.Behind r) (key : Bytes) :
    (s.forget r).latest? key = s.latest? key := by
  change ((s.table.mapHistories (History.compact r)).history key).latest? = _
  rw [Table.history_mapHistories hs.table.ordered (History.compact_nil r),
    History.latest?_compact (hs.table.history key).ordered]
  rfl

theorem Behind.checkReadable_forget (hs : s.Behind r) (hq : q ≤ 0 ∨ r ≤ q) :
    (s.forget r).checkReadable q = s.checkReadable q := by
  have hforward := hs.forward
  have hpast : ¬(0 < q ∧ q < s.compacted) := by omega
  have hpast' : ¬(0 < q ∧ q < r) := by omega
  rw [checkReadable, checkReadable, if_neg hpast]
  exact if_neg hpast'

theorem Behind.checkRange_forget (hs : s.Behind r) {x : RangeRequest}
    (hx : ¬x.ReadsBelow r) : (s.forget r).checkRange x = s.checkRange x := by
  have habove : x.revision.toInt ≤ 0 ∨ r ≤ x.revision.toInt := by
    rw [RangeRequest.ReadsBelow] at hx
    omega
  rw [checkRange, checkRange, hs.checkReadable_forget habove]

theorem Behind.range_forget (hs : s.Behind r) {x : RangeRequest}
    (hx : ¬x.ReadsBelow r) : (s.forget r).range x = s.range x := by
  have habove : x.revision.toInt ≤ 0 ∨ r ≤ x.revision.toInt := by
    rw [RangeRequest.ReadsBelow] at hx
    omega
  rw [range, range, hs.checkRange_forget hx, select, select, hs.scan_forget habove]
  rfl

theorem Behind.evaluateAll_forget (hs : s.Behind r) (compare : List Compare) :
    (s.forget r).evaluateAll compare = s.evaluateAll compare := by
  induction compare with
  | nil => rfl
  | cons c cs ih =>
      have hc : (s.forget r).evaluate c = s.evaluate c := by
        rw [evaluate, evaluate, hs.scan_forget (.inl (Int.le_refl 0))]
      rw [evaluateAll, evaluateAll, hc, ih]

theorem compact_concat_deletion (hr : r < (revision : Int)) (h : History) :
    History.compact r (h ++ [.deletion revision]) = h.compact r ++ [.deletion revision] :=
  History.compact_concat hr

theorem Behind.putAt_forget (hs : s.Behind r) (hr : r < (revision : Int)) (x : PutRequest) :
    (s.forget r).putAt x revision = Prod.map (forget r) id (s.putAt x revision) := by
  rw [putAt, putAt, hs.latest?_forget]
  by_cases hkeeps : x.keepsPrevious = true ∧ (s.latest? x.key).isNone = true
  · simp only [if_pos hkeeps]
    rfl
  · simp only [if_neg hkeeps, Prod.map_apply, forget]
    rw [Table.mapHistories_push hs.table.ordered (History.compact_nil r)]
    · rfl
    · exact fun h => History.compact_concat hr

theorem Behind.deleteAt_forget (hs : s.Behind r) (hr : r < (revision : Int)) (span : Span) :
    (s.forget r).deleteAt span revision = Prod.map (forget r) id (s.deleteAt span revision) := by
  -- What is there now is left by the compaction.
  have hleft : ∀ l ∈ s.scan span 0, History.compact r (s.table.history l.key) ≠ [] := by
    intro l hl hnil
    have hlatest : (s.table.history l.key).latest? = some l :=
      latest?_of_mem_scan hs.table.indexed hl
    rw [← History.latest?_compact (r := r) (hs.table.history l.key).ordered, hnil] at hlatest
    cases hlatest
  have herased := Table.mapHistories_erased hs.table.ordered (History.compact_nil r)
    (compact_concat_deletion hr) hleft
  rw [deleteAt, deleteAt, hs.scan_forget (.inl (Int.le_refl 0))]
  simp only [Prod.map_apply, forget]
  rw [Prod.mk.injEq, Store.mk.injEq]
  exact ⟨⟨rfl, rfl, herased.symm, rfl⟩, rfl⟩

theorem Behind.checkBranch_forget (hs : s.Behind r) {ops : List RequestOp}
    (hops : BranchAbove r ops) : (s.forget r).checkBranch ops = s.checkBranch ops := by
  have hcheckOps : ∀ written, (s.forget r).checkOps written ops = s.checkOps written ops := by
    induction ops with
    | nil => exact fun _ => rfl
    | cons op ops ih =>
        obtain ⟨hhead, htail⟩ := List.forall_mem_cons.mp hops
        intro written
        have hop : (s.forget r).checkOp written op = s.checkOp written op := by
          rw [checkOp, checkOp]
          split
          · rfl
          · rw [hs.latest?_forget]
          · rename_i x hrange
            rw [hs.checkRange_forget (hhead x hrange)]
          · rfl
        rw [checkOps, checkOps, hop]
        cases s.checkOp written op with
        | error refusal => rfl
        | ok _ => exact ih htail _
  rw [checkBranch, checkBranch, hcheckOps]

theorem Behind.runOp_forget (hs : s.Behind r) (hr : r < (revision : Int)) {request : OpRequest}
    (hrequest : ∀ x, request = .range x → ¬x.ReadsBelow r) :
    (s.forget r).runOp revision request = Prod.map (forget r) id (s.runOp revision request) := by
  cases request with
  | range x =>
      rw [runOp, runOp, hs.range_forget (hrequest x rfl)]
      cases s.range x <;> rfl
  | put x =>
      rw [runOp, runOp, hs.putAt_forget hr]
      obtain ⟨s', answer⟩ := s.putAt x revision
      cases answer <;> rfl
  | deleteRange x =>
      rw [runOp, runOp, hs.deleteAt_forget hr]
      rfl

theorem Behind.runOps_forget {ops : List RequestOp} (hs : s.Behind r) (haccepts : s.Accepts ops)
    (hsettled : s.Settled (s.revision + 1) ops) (hops : BranchAbove r ops) :
    (s.forget r).runOps (s.revision + 1) ops =
      Prod.map (forget r) id (s.runOps (s.revision + 1) ops) := by
  have hr : r < ((s.revision + 1 : Nat) : Int) := by
    have := hs.reached
    omega
  induction ops generalizing s with
  | nil => rfl
  | cons op ops ih =>
      obtain ⟨hhead, htail⟩ := List.forall_mem_cons.mp hops
      obtain ⟨request, t, response, wrote, hrequest, hop, ht, hrest⟩ :=
        haccepts.runOp hs.table.indexed (s.revision + 1)
      obtain ⟨t', responses, wrote', hrun, -⟩ := hrest.runOps ht (s.revision + 1)
      obtain ⟨hgrown, hsettled'⟩ := haccepts.grown_runOp hs.table.indexed hsettled hrequest
      rw [hop] at hgrown hsettled'
      -- The branch writes to no key twice, so that histories stay ordered in between.
      have hnext : ({ s with table := t } : Store).Behind r :=
        { table := hgrown.sound hs.table (Nat.le_refl _) (Nat.succ_lt_succ hs.positive)
          reached := hs.reached
          positive := hs.positive
          forward := hs.forward }
      have hop' : (s.forget r).runOp (s.revision + 1) request =
          (forget r { s with table := t }, .ok (response, wrote)) := by
        rw [hs.runOp_forget hr fun x hx => hhead x (hx ▸ hrequest), hop]
        rfl
      have hrun' : (forget r { s with table := t }).runOps (s.revision + 1) ops =
          (forget r { s with table := t' }, .ok (responses, wrote')) := by
        rw [ih hnext hrest hsettled' htail hr, hrun]
        rfl
      rw [runOps_cons hrequest hop hrun, runOps_cons hrequest hop' hrun']
      rfl

theorem Behind.runBranch_forget (hs : s.Behind r) (hsound : s.Sound) {ops : List RequestOp}
    (hops : BranchAbove r ops) :
    (s.forget r).runBranch ops = Prod.map (forget r) id (s.runBranch ops) := by
  rw [runBranch, runBranch, hs.checkBranch_forget hops]
  cases hcheck : s.checkBranch ops with
  | error refusal => rfl
  | ok _ =>
      have haccepts := (checkBranch_eq_ok_iff s ops).mp hcheck
      have hrun := hs.runOps_forget haccepts (hsound.settled ops) hops
      obtain ⟨t, responses, wrote, hops', -⟩ := haccepts.runOps hs.table.indexed (s.revision + 1)
      rw [hops'] at hrun
      change (s.forget r).runOps ((s.forget r).revision + 1) ops = _ at hrun
      simp only [hrun, hops']
      cases wrote <;> rfl

theorem Behind.txn_forget (hs : s.Behind r) (hsound : s.Sound) {x : TxnRequest}
    (hx : BranchAbove r (x.success ++ x.failure)) :
    (s.forget r).txn x = Prod.map (forget r) id (s.txn x) := by
  rw [txn, txn, hs.evaluateAll_forget]
  cases s.evaluateAll x.compare with
  | error refusal => rfl
  | ok succeeded =>
      have hops : BranchAbove r (if succeeded then x.success else x.failure) := by
        intro op hop
        cases succeeded with
        | true => exact hx op (List.mem_append_left _ hop)
        | false => exact hx op (List.mem_append_right _ hop)
      simp only [hs.runBranch_forget hsound hops]
      obtain ⟨s', answer⟩ := s.runBranch (if succeeded then x.success else x.failure)
      cases answer <;> rfl

theorem Behind.put_forget (hs : s.Behind r) (x : PutRequest) :
    (s.forget r).put x = Prod.map (forget r) id (s.put x) := by
  have hr : r < ((s.revision + 1 : Nat) : Int) := by
    have := hs.reached
    omega
  have hputAt := hs.putAt_forget hr x
  change (s.forget r).putAt x ((s.forget r).revision + 1) = _ at hputAt
  rw [put, put, hputAt]
  by_cases hnamed : x.key = []
  · rw [if_pos hnamed, if_pos hnamed]
    rfl
  · rw [if_neg hnamed, if_neg hnamed]
    obtain ⟨s', answer⟩ := s.putAt x (s.revision + 1)
    cases answer <;> rfl

theorem Behind.deleteRange_forget (hs : s.Behind r) (x : DeleteRangeRequest) :
    (s.forget r).deleteRange x = Prod.map (forget r) id (s.deleteRange x) := by
  have hr : r < ((s.revision + 1 : Nat) : Int) := by
    have := hs.reached
    omega
  have hdeleteAt := hs.deleteAt_forget hr x.span
  change (s.forget r).deleteAt x.span ((s.forget r).revision + 1) = _ at hdeleteAt
  rw [deleteRange, deleteRange, hdeleteAt]
  by_cases hnamed : x.key = []
  · rw [if_pos hnamed, if_pos hnamed]
    rfl
  · rw [if_neg hnamed, if_neg hnamed]
    obtain ⟨s', removed⟩ := s.deleteAt x.span (s.revision + 1)
    cases removed <;> rfl

theorem alarm_forget (r : Int) (s : Store) (x : AlarmRequest) :
    (s.forget r).alarm x = Prod.map (forget r) id (s.alarm x) := by
  rw [alarm, alarm]
  split
  · rfl
  · rfl
  · rfl
  · have halarms : (s.forget r).alarms = s.alarms := rfl
    simp only [halarms, Prod.map_apply, apply_ite (forget r)]
    rfl
  · rfl

theorem Behind.defragment_forget (hs : s.Behind r) :
    (s.forget r).defragment = Prod.map (forget r) id s.defragment := by
  have hkept : (s.forget r).defragment.1.table = s.table.mapHistories (History.compact r) := by
    apply List.filter_eq_self.mpr
    intro p hp
    obtain ⟨h, -, hh⟩ := Table.mem_mapHistories hp
    have hne : p.2 ≠ [] := by simpa using (List.mem_filter.mp hp).2
    obtain ⟨e, he⟩ := List.exists_mem_of_ne_nil _ hne
    apply List.any_eq_true.mpr
    refine ⟨e, he, ?_⟩
    rw [hh] at he
    rcases History.isSome_or_lt_of_mem_compact he with hvalue | hyounger
    · simp [hvalue]
    · simp [forget, hyounger]
  have hdropped : s.defragment.1.table.mapHistories (History.compact r) =
      s.table.mapHistories (History.compact r) := by
    apply Table.mapHistories_filter
    intro p hp hdead
    apply History.compact_eq_nil
    intro e he
    have hforward := hs.forward
    have hbounds := ((hs.table.histories p hp).bounds e he).1
    have hgone := List.any_eq_false.mp hdead e he
    simp only [Bool.or_eq_true, decide_eq_true_eq, not_or, Bool.not_eq_true,
      Option.isSome_eq_false_iff, Option.isNone_iff_eq_none] at hgone
    exact ⟨hgone.1, by omega⟩
  have hstore : (s.forget r).defragment.1 = s.defragment.1.forget r := by
    change { s.forget r with table := (s.forget r).defragment.1.table } =
      { s.forget r with table := s.defragment.1.table.mapHistories (History.compact r) }
    rw [hkept, hdropped]
  exact Prod.ext hstore rfl

/-- A later compaction is refused by both stores, or makes them the same. -/
theorem Behind.compact_forget (hs : s.Behind r) {x : CompactionRequest}
    (hx : r < x.revision.toInt) :
    (∃ refusal, s.compact x = (s, .error refusal) ∧
      (s.forget r).compact x = (s.forget r, .error refusal)) ∨
        (s.forget r).compact x = s.compact x := by
  have hforward := hs.forward
  have hback : ¬(0 < s.compacted ∧ x.revision.toInt ≤ s.compacted) := by omega
  have hback' : ¬(0 < (s.forget r).compacted ∧ x.revision.toInt ≤ (s.forget r).compacted) := by
    change ¬(0 < r ∧ x.revision.toInt ≤ r)
    omega
  have htable : (s.forget r).table.mapHistories (History.compact x.revision.toInt) =
      s.table.mapHistories (History.compact x.revision.toInt) := by
    change (s.table.mapHistories (History.compact r)).mapHistories _ = _
    rw [Table.mapHistories_mapHistories (History.compact_nil _)]
    apply Table.mapHistories_congr
    intro p hp
    exact History.compact_compact (hs.table.histories p hp).ordered (Int.le_of_lt hx)
  rw [compact, compact]
  simp only [if_neg hback, if_neg hback']
  by_cases hahead : (s.revision : Int) < x.revision.toInt
  · left
    have hahead' : ((s.forget r).revision : Int) < x.revision.toInt := hahead
    simp only [if_pos hahead, if_pos hahead']
    exact ⟨_, rfl, rfl⟩
  · right
    have hahead' : ¬((s.forget r).revision : Int) < x.revision.toInt := hahead
    simp only [if_neg hahead, if_neg hahead', htable]
    rfl

end Store

end Keyspace
