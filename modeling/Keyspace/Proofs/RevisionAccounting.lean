import Keyspace.Proofs.BranchAdditions
import Keyspace.Proofs.SingleOperationTxn
import Keyspace.Proofs.KeyLineage

namespace Keyspace

/-- The header of an answer and, in the answer to a transaction, those of the answers to its
operations. -/
def Response.headers : Response → List (Option Header)
  | range r => [r.header]
  | put r => [r.header]
  | deleteRange r => [r.header]
  | txn r => r.header :: r.responses.map fun x => x.response.bind OpResponse.header
  | compact r => [r.header]
  | status r => [r.header]
  | defragment r => [r.header]
  | alarm r => [r.header]

theorem OpResponse.headers_single (response : OpResponse) :
    response.single.headers = [response.header] := by
  cases response <;> rfl

def OpRequest.Writes (s : Store) : OpRequest → Prop
  | put _ => True
  | deleteRange r => ∃ key, r.span.covers key = true ∧ (s.latest? key).isSome = true
  | range _ => False

/-- Some operation of the branch writes a key or finds one to delete. -/
def BranchWrites (s : Store) (ops : List RequestOp) : Prop :=
  ∃ op ∈ ops, ∃ request ∈ op.request, request.Writes s

def Request.Writes (s : Store) : Request → Prop
  | put r => (OpRequest.put r).Writes s
  | deleteRange r => (OpRequest.deleteRange r).Writes s
  | txn r => ∃ succeeded, s.evaluateAll r.compare = .ok succeeded ∧
      BranchWrites s (r.branch succeeded)
  | _ => False

namespace Store

variable {s s' : Store}

/-- The history of the key has the entry in the second store, and had it not in the first. -/
def Gains (s s' : Store) (key : Bytes) (e : Entry) : Prop :=
  e ∈ s'.table.history key ∧ e ∉ s.table.history key

/-- The revision of the second store, when it is known whether something was written. -/
structure Accounted (s s' : Store) (writes : Prop) : Prop where
  step : s'.revision = s.revision ∨ s'.revision = s.revision + 1
  gains_iff : s'.revision = s.revision + 1 ↔ ∃ key e, s.Gains s' key e
  revision_of_gains : ∀ key e, s.Gains s' key e → e.revision = s'.revision
  writes_iff : s'.revision = s.revision + 1 ↔ writes

theorem accounted_of_kept (hrevision : s'.revision = s.revision)
    (hkept : ∀ key, ∀ e ∈ s'.table.history key, e ∈ s.table.history key) :
    s.Accounted s' False where
  step := .inl hrevision
  gains_iff := by
    constructor
    · intro hnext
      omega
    · rintro ⟨key, e, hmem, hnew⟩
      exact absurd (hkept key e hmem) hnew
  revision_of_gains key e hgains := absurd (hkept key e hgains.1) hgains.2
  writes_iff := by
    rw [iff_false]
    omega

theorem exists_isSome_added?_iff (s : Store) (revision : Nat) (ops : List RequestOp) :
    (∃ key, (s.added? revision ops key).isSome = true) ↔ BranchWrites s ops := by
  have hop : ∀ op, (∃ key, (s.addition? revision key op).isSome = true) ↔
      ∃ request ∈ op.request, request.Writes s := by
    rintro ⟨request⟩
    rcases request with _ | request
    · simp [addition?]
    · cases request <;> simp [addition?, OpRequest.Writes]
  simp only [added?, List.findSome?_isSome_iff, BranchWrites, ← hop]
  grind

theorem accounted_of_adds (hs : s.Sound) {t : Table} {wrote : Bool} {adds : Bytes → Option Entry}
    (hhistory : ∀ key, t.history key = s.table.history key ++ (adds key).toList)
    (hrevision : ∀ key, ∀ e ∈ adds key, e.revision = s.revision + 1)
    (hwrote : wrote = true ↔ ∃ key, (adds key).isSome = true) :
    s.Accounted (s.commit t wrote) (∃ key, (adds key).isSome = true) := by
  -- What is added is of a later revision than all that was there.
  have hgains : ∀ key e, s.Gains (s.commit t wrote) key e ↔ e ∈ adds key := by
    intro key e
    rw [Gains, commit_table, hhistory, List.mem_append, Option.mem_toList]
    constructor
    · rintro ⟨hold | hnew, hnot⟩
      · exact absurd hold hnot
      · exact hnew
    · intro hnew
      refine ⟨.inr hnew, fun hold => ?_⟩
      have hbound := ((hs.table.history key).bounds e hold).2
      have := hrevision key e hnew
      omega
  have hnext : (s.commit t wrote).revision = s.revision + 1 ↔ wrote = true := by
    cases wrote <;> simp [commit_revision]
  refine ⟨?_, ?_, ?_, hnext.trans hwrote⟩
  · cases wrote <;> simp [commit_revision]
  · rw [hnext, hwrote]
    simp only [hgains, Option.isSome_iff_exists, Option.mem_def]
  · intro key e hadds
    rw [hgains] at hadds
    rw [hrevision key e hadds]
    exact (hnext.mpr (hwrote.mpr ⟨key, Option.isSome_of_mem hadds⟩)).symm

theorem accounted_runBranch (hs : s.Sound) {ops : List RequestOp} {responses : List OpResponse}
    (hrun : s.runBranch ops = (s', .ok responses)) : s.Accounted s' (BranchWrites s ops) := by
  cases hcheck : s.checkBranch ops with
  | error refusal =>
      rw [runBranch_refused hcheck] at hrun
      cases (Prod.mk.inj hrun).2
  | ok _ =>
      have hops := (checkBranch_eq_ok_iff s ops).mp hcheck
      obtain ⟨t, answers, wrote, hbranch, hhistory, hwrote, -⟩ :=
        hops.runBranch_adds hs.table.indexed
      obtain rfl := (Prod.mk.inj (hrun.symm.trans hbranch)).1
      rw [← exists_isSome_added?_iff s (s.revision + 1) ops]
      refine accounted_of_adds hs hhistory (fun key e he => ?_) hwrote
      obtain ⟨op, -, hadds⟩ := List.exists_of_findSome?_eq_some he
      exact revision_of_addition? hadds

theorem mem_of_mem_history_compact (hs : s.Sound) (r : Int) {key : Bytes} {e : Entry}
    (he : e ∈ (s.table.mapHistories (History.compact r)).history key) :
    e ∈ s.table.history key := by
  rw [Table.history_mapHistories hs.table.ordered rfl] at he
  exact (History.compact_sublist (hs.table.history key).ordered).mem he

theorem accounted_single (hs : s.Sound) (request : OpRequest) {response : Response}
    (hserve : (s.serve request.single).2 = .ok response) :
    s.Accounted (s.serve request.single).1 (request.Writes s) ∧
      ∀ h ∈ response.headers, h = some (s.serve request.single).1.header := by
  obtain ⟨s', answer, hbranch, hsingle, -⟩ := s.runBranch_alone request
  rw [hsingle] at hserve ⊢
  cases answer with
  | error refusal => cases hserve
  | ok x =>
      obtain rfl := Except.ok.inj hserve
      constructor
      · simpa [BranchWrites, OpRequest.alone] using accounted_runBranch hs hbranch
      · rw [x.headers_single]
        simpa using header_of_runBranch hbranch x (List.mem_singleton.mpr rfl)

theorem accounted_txn (hs : s.Sound) {r : TxnRequest} {response : Response}
    (hserve : (s.serve (.txn r)).2 = .ok response) :
    s.Accounted (s.serve (.txn r)).1 (Request.Writes s (.txn r)) ∧
      ∀ h ∈ response.headers, h = some (s.serve (.txn r)).1.header := by
  cases hcompare : s.evaluateAll r.compare with
  | error refusal =>
      rw [serve, txn, hcompare] at hserve
      cases hserve
  | ok succeeded =>
      have hwrites : Request.Writes s (.txn r) ↔ BranchWrites s (r.branch succeeded) := by
        simp [Request.Writes, hcompare]
      rw [serve, txn_of_compare hcompare] at hserve ⊢
      cases hbranch : s.runBranch (r.branch succeeded) with
      | mk s' answer =>
          rw [hbranch] at hserve
          cases answer with
          | error refusal => cases hserve
          | ok responses =>
              obtain rfl := Except.ok.inj hserve
              rw [hwrites]
              refine ⟨accounted_runBranch hs hbranch, ?_⟩
              simpa [Response.headers] using header_of_runBranch hbranch

theorem accounted_compact (hs : s.Sound) {r : CompactionRequest} {response : Response}
    (hserve : (s.serve (.compact r)).2 = .ok response) :
    s.Accounted (s.serve (.compact r)).1 False ∧
      ∀ h ∈ response.headers, h = some (s.serve (.compact r)).1.header := by
  simp only [serve, compact] at hserve ⊢
  split at hserve
  · cases hserve
  · split at hserve
    · cases hserve
    · rename_i hback hahead
      obtain rfl := Except.ok.inj hserve
      rw [if_neg hback, if_neg hahead]
      exact ⟨accounted_of_kept rfl fun key e he => mem_of_mem_history_compact hs _ he,
        List.forall_mem_singleton.mpr rfl⟩

theorem header_of_alarm {r : AlarmRequest} {response : AlarmResponse}
    (halarm : (s.alarm r).2 = .ok response) : response.header = some s.header := by
  rw [alarm] at halarm
  split at halarm
  · cases halarm
  · cases halarm
  all_goals
    obtain rfl := Except.ok.inj halarm
    rfl

theorem accounted_alarm {r : AlarmRequest} {response : Response}
    (hserve : (s.serve (.alarm r)).2 = .ok response) :
    s.Accounted (s.serve (.alarm r)).1 False ∧
      ∀ h ∈ response.headers, h = some (s.serve (.alarm r)).1.header := by
  rcases s.alarm_cases r with ⟨refusal, halarm⟩ | ⟨alarms, x, halarm⟩
  · rw [serve, halarm] at hserve
    cases hserve
  · have hheader : x.header = some s.header := header_of_alarm (by rw [halarm])
    rw [serve, halarm] at hserve ⊢
    obtain rfl := Except.ok.inj hserve
    exact ⟨accounted_of_kept rfl fun key e he => he, List.forall_mem_singleton.mpr hheader⟩

/-- A request that is carried out makes a new revision if it writes something, and only then is
anything added to a history. What is added is of the new revision, and so is everything that is
answered. -/
theorem serve_accounted (requests : List Request) (request : Request) (response : Response)
    (hserve : ((empty.run requests).serve request).2 = .ok response) :
    (empty.run requests).Accounted ((empty.run requests).serve request).1
        (request.Writes (empty.run requests)) ∧
      ∀ h ∈ response.headers, ∃ x, h = some x ∧
        x.revision = Int64.ofNat ((empty.run requests).serve request).1.revision := by
  have hs : (empty.run requests).Sound := sound_empty.run requests
  have hlineal := lineal_run sound_empty (by simp [Table.Lineal, empty]) requests
  have haccounted : (empty.run requests).Accounted ((empty.run requests).serve request).1
      (request.Writes (empty.run requests)) ∧
        ∀ h ∈ response.headers, h = some ((empty.run requests).serve request).1.header := by
    cases request with
    | range r => exact accounted_single hs (.range r) hserve
    | put r => exact accounted_single hs (.put r) hserve
    | deleteRange r => exact accounted_single hs (.deleteRange r) hserve
    | txn r => exact accounted_txn hs hserve
    | compact r => exact accounted_compact hs hserve
    | status r =>
        obtain rfl := Except.ok.inj hserve
        exact ⟨accounted_of_kept rfl fun key e he => he, List.forall_mem_singleton.mpr rfl⟩
    | defragment r =>
        obtain rfl := Except.ok.inj hserve
        refine ⟨?_, List.forall_mem_singleton.mpr rfl⟩
        rw [serve, defragment_eq_self hlineal]
        exact accounted_of_kept rfl fun key e he => he
    | alarm r => exact accounted_alarm hserve
  exact ⟨haccounted.1, fun h hh => ⟨_, haccounted.2 h hh, rfl⟩⟩

/-- A transaction whose second deletion finds nothing left makes a new revision, and a deletion of a
key that is not there makes none. -/
theorem serve_accounted_of_overlapping_deletes :
    let requests : List Request := [.put { key := [1] }, .put { key := [2] }]
    let both : Request := .txn
      { success := [{ request := some (.deleteRange { key := [1], rangeEnd := [0] }) },
          { request := some (.deleteRange { key := [2] }) }] }
    let missing : Request := .deleteRange { key := [3] }
    (∃ response, ((empty.run requests).serve both).2 = .ok response ∧
        both.Writes (empty.run requests) ∧
        ((empty.run requests).serve both).1.revision = (empty.run requests).revision + 1 ∧
        ∀ h ∈ response.headers, ∃ x, h = some x ∧ x.revision = 4) ∧
      ∃ response, ((empty.run requests).serve missing).2 = .ok response ∧
        ¬missing.Writes (empty.run requests) ∧
        ((empty.run requests).serve missing).1.revision = (empty.run requests).revision := by
  intro requests both missing
  constructor
  · obtain ⟨haccounted, hheaders⟩ := serve_accounted requests both _ rfl
    have hnext : ((empty.run requests).serve both).1.revision =
        (empty.run requests).revision + 1 := by decide
    exact ⟨_, rfl, haccounted.writes_iff.mp hnext, hnext, hheaders⟩
  · obtain ⟨haccounted, -⟩ := serve_accounted requests missing _ rfl
    have hsame : ((empty.run requests).serve missing).1.revision =
        (empty.run requests).revision := by decide
    refine ⟨_, rfl, fun hwrites => ?_, hsame⟩
    have hnext := haccounted.writes_iff.mpr hwrites
    omega

end Store

end Keyspace
