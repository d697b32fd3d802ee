import Keyspace.Proofs.BranchExecution
import Keyspace.Store.Request

namespace Keyspace

/-- The branch of a transaction that the outcome of its comparisons selects. -/
def TxnRequest.branch (r : TxnRequest) (succeeded : Bool) : List RequestOp :=
  if succeeded then r.success else r.failure

namespace Store

variable {s s' : Store}

/-- All that a request can make of a store. -/
inductive Change (s : Store) : Store → Prop
  | keep (alarms : List AlarmMember) : Change s { s with alarms }
  | write {t : Table} (grown : s.table.Grown (s.revision + 1) t) :
      Change s { s with table := t, revision := s.revision + 1 }
  | compact (r : Int) (forward : s.compacted ≤ 0 ∨ s.compacted < r)
      (reached : r ≤ (s.revision : Int)) :
      Change s { s with table := s.table.mapHistories (History.compact r), compacted := r }
  | defragment : Change s s.defragment.1

/-- What holds of every store that requests lead to. -/
structure Sound (s : Store) : Prop where
  table : s.table.Sound s.revision
  positive : 0 < s.revision
  compacted : s.compacted ≤ (s.revision : Int)

theorem sound_empty : Sound empty where
  table := ⟨⟨List.Pairwise.nil, by simp [empty]⟩, by simp [empty]⟩
  positive := Nat.one_pos
  compacted := by decide

theorem Sound.mem_live_iff (hs : s.Sound) {key : Bytes} {l : Live} :
    l ∈ s.live ∧ l.key = key ↔ s.latest? key = some l := by
  rw [live, liveAt, hs.table.indexed.mem_liveAt]
  constructor
  · rintro ⟨hl, rfl⟩
    exact hl
  · intro hl
    obtain rfl : l.key = key := hs.table.indexed.key_of_liveAt? hl
    exact ⟨hl, rfl⟩

theorem Sound.settled (hs : s.Sound) (ops : List RequestOp) : s.Settled (s.revision + 1) ops :=
  fun key hstale => absurd (hs.table.fresh (Nat.lt_succ_self _) key) hstale

theorem Change.sound (hchange : s.Change s') (hs : s.Sound) : s'.Sound := by
  cases hchange with
  | keep alarms => exact ⟨hs.table, hs.positive, hs.compacted⟩
  | write grown =>
      refine ⟨grown.sound hs.table (Nat.le_succ _) ?_, Nat.succ_pos _, ?_⟩
      · have := hs.positive
        omega
      · have := hs.compacted
        change s.compacted ≤ ((s.revision + 1 : Nat) : Int)
        omega
  | compact r forward reached =>
      refine ⟨hs.table.mapHistories fun h hh => ?_, hs.positive, reached⟩
      exact History.compact_sublist hh.ordered
  | defragment => exact ⟨hs.table.filter _, hs.positive, hs.compacted⟩

theorem put_eq {r : PutRequest} (hnamed : r.key ≠ [])
    (hprev : r.keepsPrevious = true → (s.latest? r.key).isSome = true) :
    s.put r =
      ({ s with table := s.table.push r.key (r.entry (s.revision + 1) (s.latest? r.key)),
                revision := s.revision + 1 },
        .ok { header := some { s with revision := s.revision + 1 }.header,
              prevKv := if r.prevKv then (s.latest? r.key).map Live.toKeyValue else none }) := by
  rw [put, if_neg hnamed, putAt_eq _ hprev]
  rfl

theorem put_cases (s : Store) (r : PutRequest) :
    (∃ refusal, s.put r = (s, .error refusal)) ∨
      r.key ≠ [] ∧ ∃ response, s.put r =
        ({ s with table := s.table.push r.key (r.entry (s.revision + 1) (s.latest? r.key)),
                  revision := s.revision + 1 }, .ok response) := by
  by_cases hnamed : r.key = []
  · left
    rw [put, if_pos hnamed]
    exact ⟨_, rfl⟩
  · by_cases hprev : r.keepsPrevious = true → (s.latest? r.key).isSome = true
    · right
      rw [put_eq hnamed hprev]
      exact ⟨hnamed, _, rfl⟩
    · left
      have hnone : r.keepsPrevious = true ∧ (s.latest? r.key).isNone = true := by
        simpa using hprev
      rw [put, if_neg hnamed, putAt]
      simp only [if_pos hnone]
      exact ⟨_, rfl⟩

theorem deleteRange_eq (s : Store) {r : DeleteRangeRequest} (hnamed : r.key ≠ []) :
    s.deleteRange r =
      (if (s.scan r.span 0).isEmpty then s
        else { s with table := s.table.erased (s.revision + 1) (s.scan r.span 0),
                      revision := s.revision + 1 },
        .ok { r.response (s.scan r.span 0) with header := some (s.deleteRange r).1.header }) := by
  rw [deleteRange, if_neg hnamed]
  cases hscan : s.scan r.span 0 with
  | nil =>
      simp only [deleteAt, hscan]
      rfl
  | cons l removed =>
      simp only [deleteAt, hscan]
      rfl

theorem deleteRange_cases (s : Store) (r : DeleteRangeRequest) :
    (∃ refusal, s.deleteRange r = (s, .error refusal)) ∨
      r.key ≠ [] ∧ ∃ response,
        (s.scan r.span 0 = [] ∧ s.deleteRange r = (s, .ok response) ∨
          s.deleteRange r =
            ({ s with table := s.table.erased (s.revision + 1) (s.scan r.span 0),
                      revision := s.revision + 1 }, .ok response)) := by
  by_cases hnamed : r.key = []
  · left
    rw [deleteRange, if_pos hnamed]
    exact ⟨_, rfl⟩
  · right
    have hdelete := s.deleteRange_eq hnamed
    cases hscan : s.scan r.span 0 with
    | nil =>
        rw [hscan] at hdelete
        exact ⟨hnamed, _, .inl ⟨rfl, hdelete⟩⟩
    | cons l removed =>
        rw [hscan] at hdelete
        exact ⟨hnamed, _, .inr hdelete⟩

theorem compact_cases (s : Store) (r : CompactionRequest) :
    (∃ refusal, s.compact r = (s, .error refusal)) ∨
      ((s.compacted ≤ 0 ∨ s.compacted < r.revision.toInt) ∧ r.revision.toInt ≤ (s.revision : Int) ∧
        ∃ response, s.compact r =
          ({ s with table := s.table.mapHistories (History.compact r.revision.toInt),
                    compacted := r.revision.toInt }, .ok response)) := by
  rw [compact]
  by_cases hback : 0 < s.compacted ∧ r.revision.toInt ≤ s.compacted
  · left
    simp only [if_pos hback]
    exact ⟨_, rfl⟩
  · by_cases hahead : (s.revision : Int) < r.revision.toInt
    · left
      simp only [if_neg hback, if_pos hahead]
      exact ⟨_, rfl⟩
    · right
      simp only [if_neg hback, if_neg hahead]
      exact ⟨by omega, by omega, _, rfl⟩

theorem alarm_cases (s : Store) (r : AlarmRequest) :
    (∃ refusal, s.alarm r = (s, .error refusal)) ∨
      ∃ alarms response, s.alarm r = ({ s with alarms }, .ok response) := by
  rw [alarm]
  split
  · exact .inl ⟨_, rfl⟩
  · exact .inl ⟨_, rfl⟩
  · exact .inr ⟨s.alarms, _, rfl⟩
  · right
    split
    · exact ⟨s.alarms, _, rfl⟩
    · exact ⟨_, _, rfl⟩
  · exact .inr ⟨_, _, rfl⟩

/-- The store after a branch that left a table: its revision is taken over if
something was written. -/
def commit (s : Store) (t : Table) (wrote : Bool) : Store :=
  if wrote then { s with table := t, revision := s.revision + 1 } else { s with table := t }

@[simp] theorem commit_table (s : Store) (t : Table) (wrote : Bool) :
    (s.commit t wrote).table = t := by
  cases wrote <;> rfl

theorem commit_revision (s : Store) (t : Table) (wrote : Bool) :
    (s.commit t wrote).revision = if wrote then s.revision + 1 else s.revision := by
  cases wrote <;> rfl

theorem Accepts.runBranch (hs : s.table.Indexed) {ops : List RequestOp} (hops : s.Accepts ops) :
    ∃ t responses wrote,
      s.runOps (s.revision + 1) ops = ({ s with table := t }, .ok (responses, wrote)) ∧
        responses.length = ops.length ∧
          s.runBranch ops = (s.commit t wrote,
            .ok (responses.map (OpResponse.withHeader (s.commit t wrote).header))) := by
  obtain ⟨t, responses, wrote, hrun, hlength⟩ := hops.runOps hs (s.revision + 1)
  refine ⟨t, responses, wrote, hrun, hlength, ?_⟩
  rw [Store.runBranch, (checkBranch_eq_ok_iff s ops).mpr hops]
  simp only [hrun]
  cases wrote <;> rfl

theorem runBranch_refused {ops : List RequestOp} {refusal : Refusal}
    (hcheck : s.checkBranch ops = .error refusal) : s.runBranch ops = (s, .error refusal) := by
  rw [runBranch, hcheck]

theorem txn_of_compare {r : TxnRequest} {succeeded : Bool}
    (hcompare : s.evaluateAll r.compare = .ok succeeded) :
    s.txn r = ((s.runBranch (r.branch succeeded)).1,
      (s.runBranch (r.branch succeeded)).2.map fun responses =>
        { header := some (s.runBranch (r.branch succeeded)).1.header, succeeded,
          responses := responses.map fun response => { response := some response } }) := by
  rw [txn, hcompare, TxnRequest.branch]
  dsimp only
  split <;> simp_all [Except.map]

theorem Accepts.txn (hs : s.table.Indexed) {r : TxnRequest} {succeeded : Bool}
    (hcompare : s.evaluateAll r.compare = .ok succeeded) (hops : s.Accepts (r.branch succeeded)) :
    ∃ t responses wrote,
      s.runOps (s.revision + 1) (r.branch succeeded) =
        ({ s with table := t }, .ok (responses, wrote)) ∧
      s.txn r = (s.commit t wrote, .ok
        { header := some (s.commit t wrote).header, succeeded,
          responses := responses.map fun response =>
            { response := some (response.withHeader (s.commit t wrote).header) } }) := by
  obtain ⟨t, responses, wrote, hrun, -, hbranch⟩ := hops.runBranch hs
  refine ⟨t, responses, wrote, hrun, ?_⟩
  rw [TxnRequest.branch] at hbranch
  rw [Store.txn, hcompare]
  simp only [hbranch, List.map_map]
  rfl

/-- A transaction is refused, or carries out an accepted branch. -/
theorem txn_cases (hs : s.table.Indexed) (r : TxnRequest) :
    (∃ refusal, s.txn r = (s, .error refusal)) ∨
      ∃ succeeded t responses wrote response, s.evaluateAll r.compare = .ok succeeded ∧
        s.Accepts (r.branch succeeded) ∧
          s.runOps (s.revision + 1) (r.branch succeeded) =
            ({ s with table := t }, .ok (responses, wrote)) ∧
          s.txn r = (s.commit t wrote, .ok response) := by
  cases hcompare : s.evaluateAll r.compare with
  | error refusal =>
      left
      rw [txn, hcompare]
      exact ⟨refusal, rfl⟩
  | ok succeeded =>
      cases hcheck : s.checkBranch (r.branch succeeded) with
      | error refusal =>
          left
          rw [TxnRequest.branch] at hcheck
          rw [txn, hcompare]
          simp only [runBranch_refused hcheck]
          exact ⟨refusal, rfl⟩
      | ok _ =>
          have hops := (checkBranch_eq_ok_iff s _).mp hcheck
          obtain ⟨t, responses, wrote, hrun, htxn⟩ := hops.txn hs hcompare
          exact .inr ⟨succeeded, t, responses, wrote, _, rfl, hops, hrun, htxn⟩

theorem runBranch_frame (s : Store) (ops : List RequestOp) :
    (s.runBranch ops).1.compacted = s.compacted ∧ (s.runBranch ops).1.alarms = s.alarms := by
  rw [runBranch]
  split
  · exact ⟨rfl, rfl⟩
  · obtain ⟨t, hops⟩ := s.runOps_frame (s.revision + 1) ops
    split
    · rename_i hrun
      rw [hrun] at hops
      obtain rfl := hops
      exact ⟨rfl, rfl⟩
    · rename_i wrote hrun
      rw [hrun] at hops
      obtain rfl := hops
      cases wrote <;> exact ⟨rfl, rfl⟩

theorem txn_frame (s : Store) (r : TxnRequest) :
    (s.txn r).1.compacted = s.compacted ∧ (s.txn r).1.alarms = s.alarms := by
  cases hcompare : s.evaluateAll r.compare with
  | error refusal =>
      rw [txn, hcompare]
      exact ⟨rfl, rfl⟩
  | ok succeeded =>
      rw [txn_of_compare hcompare]
      exact s.runBranch_frame _

theorem serve_of_refused (hs : s.table.Indexed) {request : Request} {refusal : Refusal}
    (hrefused : (s.serve request).2 = .error refusal) : (s.serve request).1 = s := by
  cases request with
  | range r => rfl
  | put r =>
      rcases s.put_cases r with ⟨refusal', hput⟩ | ⟨-, response, hput⟩
      · rw [serve, hput]
      · rw [serve, hput] at hrefused
        simp [Except.map] at hrefused
  | deleteRange r =>
      rcases s.deleteRange_cases r with ⟨refusal', hdelete⟩ | ⟨-, response, ⟨-, hdelete⟩ | hdelete⟩
      · rw [serve, hdelete]
      · rw [serve, hdelete]
      · rw [serve, hdelete] at hrefused
        simp [Except.map] at hrefused
  | txn r =>
      rcases txn_cases hs r with ⟨refusal', htxn⟩ | ⟨b, t, _, wrote, response, -, -, -, htxn⟩
      · rw [serve, htxn]
      · rw [serve, htxn] at hrefused
        simp [Except.map] at hrefused
  | compact r =>
      rcases s.compact_cases r with ⟨refusal', hcompact⟩ | ⟨-, -, response, hcompact⟩
      · rw [serve, hcompact]
      · rw [serve, hcompact] at hrefused
        simp [Except.map] at hrefused
  | status r => rfl
  | defragment r => simp [serve] at hrefused
  | alarm r =>
      rcases s.alarm_cases r with ⟨refusal', halarm⟩ | ⟨alarms, response, halarm⟩
      · rw [serve, halarm]
      · rw [serve, halarm] at hrefused
        simp [Except.map] at hrefused

theorem change_commit (hs : s.Sound) {ops : List RequestOp} (hops : s.Accepts ops) {t : Table}
    {responses : List OpResponse} {wrote : Bool}
    (hrun : s.runOps (s.revision + 1) ops = ({ s with table := t }, .ok (responses, wrote))) :
    s.Change (s.commit t wrote) := by
  cases wrote with
  | true =>
      have hgrown := hops.grown_runOps hs.table.indexed (hs.settled ops)
      rw [hrun] at hgrown
      exact .write hgrown
  | false =>
      have hidle : { s with table := t } = s := eq_of_runOps_idle hrun
      change s.Change { s with table := t }
      rw [hidle]
      exact .keep s.alarms

/-- Whatever a request is, it changes a store in one of the four ways. -/
theorem change_serve (hs : s.Sound) (request : Request) : s.Change (s.serve request).1 := by
  have hkeep : s.Change s := .keep s.alarms
  have hfresh := hs.table.fresh (Nat.lt_succ_self _)
  cases request with
  | range r => exact hkeep
  | put r =>
      rcases s.put_cases r with ⟨refusal, hput⟩ | ⟨hnamed, response, hput⟩
      · rw [serve, hput]
        exact hkeep
      · rw [serve, hput]
        exact .write (.put r .refl hnamed (hfresh r.key))
  | deleteRange r =>
      rcases s.deleteRange_cases r with ⟨refusal, hdelete⟩ | ⟨-, response, ⟨-, hdelete⟩ | hdelete⟩
      · rw [serve, hdelete]
        exact hkeep
      · rw [serve, hdelete]
        exact hkeep
      · rw [serve, hdelete]
        have hindexed := hs.table.indexed
        refine .write (Table.grown_erased hindexed.ordered (pairwise_scan hindexed r.span 0) ?_)
        intro l hl
        exact ⟨Option.isSome_of_mem (latest?_of_mem_scan hindexed hl), hfresh l.key⟩
  | txn r =>
      rcases txn_cases hs.table.indexed r with
        ⟨refusal, htxn⟩ | ⟨b, t, _, wrote, response, -, hops, hrun, htxn⟩
      · rw [serve, htxn]
        exact hkeep
      · rw [serve, htxn]
        exact change_commit hs hops hrun
  | compact r =>
      rcases s.compact_cases r with ⟨refusal, hcompact⟩ | ⟨hforward, hreached, response, hcompact⟩
      · rw [serve, hcompact]
        exact hkeep
      · rw [serve, hcompact]
        exact .compact r.revision.toInt hforward hreached
  | status r => exact hkeep
  | defragment r => exact .defragment
  | alarm r =>
      rcases s.alarm_cases r with ⟨refusal, halarm⟩ | ⟨alarms, response, halarm⟩
      · rw [serve, halarm]
        exact hkeep
      · rw [serve, halarm]
        exact .keep alarms

theorem compacted_serve {request : Request} (hrequest : ∀ x, request ≠ .compact x) :
    (s.serve request).1.compacted = s.compacted := by
  cases request with
  | range x => rfl
  | put x =>
      rcases s.put_cases x with ⟨refusal, hput⟩ | ⟨-, response, hput⟩ <;> rw [serve, hput]
  | deleteRange x =>
      rcases s.deleteRange_cases x with ⟨refusal, hdelete⟩ | ⟨-, response, ⟨-, hdelete⟩ | hdelete⟩
      · rw [serve, hdelete]
      · rw [serve, hdelete]
      · rw [serve, hdelete]
  | txn x =>
      rw [serve]
      exact (s.txn_frame x).1
  | compact x => exact absurd rfl (hrequest x)
  | status x => rfl
  | defragment x => rfl
  | alarm x =>
      rcases s.alarm_cases x with ⟨refusal, halarm⟩ | ⟨alarms, response, halarm⟩ <;>
        rw [serve, halarm]

theorem run_cons (s : Store) (request : Request) (requests : List Request) :
    s.run (request :: requests) = (s.serve request).1.run requests := rfl

theorem run_append (s : Store) (requests more : List Request) :
    s.run (requests ++ more) = (s.run requests).run more :=
  List.foldl_append ..

theorem Sound.serve (hs : s.Sound) (request : Request) : (s.serve request).1.Sound :=
  (change_serve hs request).sound hs

theorem Sound.run (hs : s.Sound) (requests : List Request) : (s.run requests).Sound := by
  induction requests generalizing s with
  | nil => exact hs
  | cons request requests ih =>
      rw [run_cons]
      exact ih (hs.serve request)

end Store

end Keyspace
