import Keyspace.Proofs.SequentialBranch

namespace Keyspace

/-- The answer to an operation as the answer to a request of its own. -/
def OpResponse.single : OpResponse → Response
  | range r => .range r
  | put r => .put r
  | deleteRange r => .deleteRange r

def OpResponse.header : OpResponse → Option Header
  | range r => r.header
  | put r => r.header
  | deleteRange r => r.header

@[simp] theorem OpResponse.header_withHeader (header : Header) (response : OpResponse) :
    (response.withHeader header).header = some header := by
  cases response <;> rfl

def OpRequest.alone (request : OpRequest) : List RequestOp :=
  [{ request := some request }]

/-- What a transaction answers that is about one operation. -/
def TxnResponse.alone (header : Header) (response : OpResponse) : TxnResponse where
  header := some header
  succeeded := true
  responses := [{ response := some response }]

namespace Store

variable {s s' : Store}

theorem header_of_runBranch {ops : List RequestOp} {responses : List OpResponse}
    (hrun : s.runBranch ops = (s', .ok responses)) :
    ∀ x ∈ responses, x.header = some s'.header := by
  rw [runBranch] at hrun
  split at hrun
  · cases (Prod.mk.inj hrun).2
  · split at hrun
    · cases (Prod.mk.inj hrun).2
    · obtain ⟨rfl, hresponses⟩ := Prod.mk.inj hrun
      rw [← Except.ok.inj hresponses]
      simp

theorem checkBranch_alone (s : Store) (request : OpRequest) :
    s.checkBranch request.alone = s.checkOp [] { request := some request } := by
  have hapart : ((request.alone.filterMap writtenKey?).any fun key =>
      (request.alone.filterMap deletedSpan?).any fun span => span.covers key) = false := by
    cases request <;> rfl
  rw [checkBranch, hapart, OpRequest.alone, checkOps]
  cases s.checkOp [] { request := some request } <;> rfl

theorem runBranch_alone_of_refused {request : OpRequest} {refusal : Refusal}
    (hcheck : s.checkOp [] { request := some request } = .error refusal) :
    s.runBranch request.alone = (s, .error refusal) := by
  rw [runBranch, checkBranch_alone, hcheck]

theorem runBranch_alone_of_run {request : OpRequest} {t : Table} {response : OpResponse}
    {wrote : Bool} (hcheck : s.checkOp [] { request := some request } = .ok ())
    (hrun : s.runOp (s.revision + 1) request =
      ({ s with table := t }, .ok (response, wrote))) :
    s.runBranch request.alone =
      (s.commit t wrote, .ok [response.withHeader (s.commit t wrote).header]) := by
  have hops : s.runOps (s.revision + 1) request.alone =
      ({ s with table := t }, .ok ([response], wrote || false)) := runOps_cons rfl hrun rfl
  rw [runBranch, checkBranch_alone, hcheck]
  simp only [hops, Bool.or_false]
  cases wrote <;> rfl

theorem header_of_range {r : RangeRequest} {response : RangeResponse}
    (hrange : s.range r = .ok response) : response.header = some s.header := by
  rw [range] at hrange
  split at hrange
  · cases hrange
  · rw [← Except.ok.inj hrange]

theorem runBranch_alone (s : Store) (request : OpRequest) :
    ∃ (s' : Store) (answer : Except Refusal OpResponse),
      s.runBranch request.alone = (s', answer.map fun response => [response]) ∧
        s.serve request.single = (s', answer.map OpResponse.single) ∧
        ∀ refusal, answer = .error refusal → s' = s := by
  cases request with
  | range r =>
      cases hcheck : s.checkRange r with
      | error refusal =>
          refine ⟨s, .error refusal, runBranch_alone_of_refused ?_, ?_, fun _ _ => rfl⟩
          · simp only [checkOp, hcheck]
          · rw [OpRequest.single, serve, range, hcheck]
            rfl
      | ok sorting =>
          obtain ⟨response, hrange⟩ := range_eq_ok hcheck
          refine ⟨s, .ok (.range response), ?_, ?_, fun _ _ => rfl⟩
          · rw [runBranch_alone_of_run (by simp [checkOp, hcheck]) (runOp_range _ hrange)]
            change (s, Except.ok [(OpResponse.range response).withHeader s.header]) = _
            rw [OpResponse.withHeader, ← header_of_range hrange]
            rfl
          · rw [OpRequest.single, serve, hrange]
            rfl
  | put r =>
      by_cases hnamed : r.key = []
      · refine ⟨s, .error .keyMissing, runBranch_alone_of_refused ?_, ?_, fun _ _ => rfl⟩
        · simp only [checkOp, if_pos hnamed]
        · simp only [OpRequest.single, serve, put, if_pos hnamed]
          rfl
      · by_cases hkeeps : r.keepsPrevious = true ∧ (s.latest? r.key).isNone = true
        · refine ⟨s, .error .keyNotFound, runBranch_alone_of_refused ?_, ?_, fun _ _ => rfl⟩
          · simp [checkOp, hnamed, hkeeps]
          · simp only [OpRequest.single, serve, put, if_neg hnamed, putAt, if_pos hkeeps]
            rfl
        · have hprev : r.keepsPrevious = true → (s.latest? r.key).isSome = true := by
            simpa [Option.isSome_iff_ne_none] using hkeeps
          refine ⟨_, .ok _, runBranch_alone_of_run ?_ (runOp_put _ hprev), ?_, by simp⟩
          · simp only [checkOp, if_neg hnamed, if_neg hkeeps]
            rfl
          · rw [OpRequest.single, serve, put_eq hnamed hprev]
            rfl
  | deleteRange r =>
      by_cases hnamed : r.key = []
      · refine ⟨s, .error .keyMissing, runBranch_alone_of_refused ?_, ?_, fun _ _ => rfl⟩
        · simp only [checkOp, if_pos hnamed]
        · simp only [OpRequest.single, serve, deleteRange, if_pos hnamed]
          rfl
      · refine ⟨_, .ok _, runBranch_alone_of_run ?_ (runOp_deleteRange s _ r), ?_, by simp⟩
        · simp [checkOp, hnamed]
        · rw [OpRequest.single, serve]
          cases hscan : s.scan r.span 0 with
          | nil =>
              simp only [deleteRange, if_neg hnamed, deleteAt, hscan]
              rfl
          | cons l removed =>
              simp only [deleteRange, if_neg hnamed, deleteAt, hscan]
              rfl

/-- A transaction of one operation without conditions is refused for the same reason as the request
for the operation by itself, or both come to the same store and have the same answer. -/
theorem txn_alone (s : Store) (request : OpRequest) (failure : List RequestOp) :
    (∃ refusal, s.serve request.single = (s, .error refusal) ∧
        s.txn { success := request.alone, failure } = (s, .error refusal)) ∨
      ∃ s' response, response.header = some s'.header ∧
        s.serve request.single = (s', .ok response.single) ∧
        s.txn { success := request.alone, failure } =
          (s', .ok (TxnResponse.alone s'.header response)) := by
  obtain ⟨s', answer, hbranch, hserve, hsame⟩ := s.runBranch_alone request
  have htxn : s.txn { success := request.alone, failure } = _ := txn_of_compare rfl
  simp only [TxnRequest.branch, if_true, hbranch] at htxn
  cases answer with
  | error refusal =>
      obtain rfl := hsame refusal rfl
      exact .inl ⟨refusal, hserve, htxn⟩
  | ok response =>
      have hheader := header_of_runBranch hbranch response (List.mem_singleton.mpr rfl)
      exact .inr ⟨s', response, hheader, hserve, htxn⟩

end Store

end Keyspace
