import Keyspace.Proofs.AwaitedReplies
import Keyspace.Proofs.BranchSelection

namespace Keyspace

/-- The result is of the kind of the operation. -/
def Operation.Gives : Operation → OperationResult → Prop
  | put .., .put _ => True
  | get .., .range _ => True
  | delete .., .delete _ => True
  | _, _ => False

def Transaction.branch (t : Transaction) (succeeded : Bool) : List Operation :=
  if succeeded then t.success else t.failure

def OperationResult.header : OperationResult → Header
  | put r => r.header
  | range r => r.header
  | delete r => r.header

/-- The result of a transaction that led from one store to another. -/
structure TxnResult.Fits (result : TxnResult) (t : Transaction) (s s' : Store) : Prop where
  succeeded_iff : result.succeeded = true ↔ ∀ c ∈ t.conditions, c.Holds s
  length : result.results.length = (t.branch result.succeeded).length
  gives : ∀ (i : Nat) op r, (t.branch result.succeeded)[i]? = some op →
    result.results[i]? = some r → op.Gives r
  header : result.header.revision = Int64.ofNat s'.revision
  headers : ∀ r ∈ result.results, r.header.revision = Int64.ofNat s'.revision

theorem OperationResult.header_ofResponse_withHeader (header : Header) (response : OpResponse) :
    (ofResponse (response.withHeader header)).header = header := by
  cases response <;> rfl

theorem Operation.gives_ofResponse_withHeader {op : Operation} {response : OpResponse}
    (h : op.Gives (.ofResponse response)) (header : Header) :
    op.Gives (.ofResponse (response.withHeader header)) := by
  cases op <;> cases response <;> exact h

theorem TxnResult.resultsFrom_map (responses : List OpResponse) (index : Nat) :
    resultsFrom index (responses.map fun response => { response := some response }) =
      .ok (responses.map .ofResponse) := by
  induction responses generalizing index with
  | nil => rfl
  | cons response responses ih =>
      rw [List.map_cons, resultsFrom]
      simp only [ih, List.map_cons]

theorem TxnResult.ofResponse_eq_ok (header : Header) (succeeded : Bool)
    (responses : List OpResponse) :
    ofResponse { header := some header, succeeded,
                 responses := responses.map fun response => { response := some response } } =
      .ok { header, succeeded, results := responses.map .ofResponse } := by
  rw [ofResponse]
  simp only [resultsFrom_map]
  rfl

namespace Store

variable {s s' : Store} {revision : Nat} {wrote : Bool}

theorem runOp_gives {op : Operation} {response : OpResponse}
    (hrun : s.runOp revision op.toRequest = (s', .ok (response, wrote))) :
    op.Gives (.ofResponse response) := by
  cases op with
  | put key value options =>
      rw [Operation.toRequest, runOp] at hrun
      split at hrun
      · obtain ⟨rfl, -⟩ := Prod.mk.inj (Except.ok.inj (Prod.mk.inj hrun).2)
        trivial
      · cases (Prod.mk.inj hrun).2
  | get key options =>
      rw [Operation.toRequest, runOp] at hrun
      split at hrun
      · obtain ⟨rfl, -⟩ := Prod.mk.inj (Except.ok.inj (Prod.mk.inj hrun).2)
        trivial
      · cases (Prod.mk.inj hrun).2
  | delete key options =>
      obtain ⟨rfl, -⟩ := Prod.mk.inj (Except.ok.inj (Prod.mk.inj hrun).2)
      trivial

theorem runOps_gives {ops : List Operation} {responses : List OpResponse}
    (hrun : s.runOps revision (ops.map fun op => { request := some op.toRequest }) =
      (s', .ok (responses, wrote))) :
    responses.length = ops.length ∧
      ∀ (i : Nat) op response, ops[i]? = some op → responses[i]? = some response →
        op.Gives (.ofResponse response) := by
  induction ops generalizing s s' responses wrote with
  | nil =>
      obtain ⟨rfl, -⟩ := Prod.mk.inj (Except.ok.inj (Prod.mk.inj hrun).2)
      exact ⟨rfl, by simp⟩
  | cons op ops ih =>
      rw [List.map_cons, runOps] at hrun
      simp only at hrun
      split at hrun
      · cases (Prod.mk.inj hrun).2
      · rename_i s₁ first wroteFirst hfirst
        split at hrun
        · cases (Prod.mk.inj hrun).2
        · rename_i s₂ rest wroteRest hrest
          obtain ⟨rfl, -⟩ := Prod.mk.inj (Except.ok.inj (Prod.mk.inj hrun).2)
          obtain ⟨hlength, hgives⟩ := ih hrest
          refine ⟨congrArg (· + 1) hlength, fun i => ?_⟩
          cases i with
          | zero =>
              intro op' response hop hresponse
              obtain rfl := Option.some.inj hop
              obtain rfl := Option.some.inj hresponse
              exact runOp_gives hfirst
          | succ i => exact hgives i

end Store

section

variable {t : Transaction} {request : TxnRequest}

theorem Transaction.compare_of_toRequest (ht : ∀ c ∈ t.conditions, c.Valid)
    (hrequest : t.toRequest = .ok request) :
    request.compare = t.conditions.map Condition.compare := by
  rw [Transaction.toRequest_eq_ok ht] at hrequest
  rw [← Except.ok.inj hrequest]

theorem Transaction.branch_of_toRequest (ht : ∀ c ∈ t.conditions, c.Valid)
    (hrequest : t.toRequest = .ok request) (succeeded : Bool) :
    request.branch succeeded =
      (t.branch succeeded).map fun op => { request := some op.toRequest } := by
  rw [Transaction.toRequest_eq_ok ht] at hrequest
  rw [← Except.ok.inj hrequest]
  cases succeeded <;> rfl

theorem Store.evaluateAll_of_toRequest {s : Store} (hs : s.Sound)
    (ht : ∀ c ∈ t.conditions, c.Valid) (hrequest : t.toRequest = .ok request) {succeeded : Bool}
    (heval : s.evaluateAll request.compare = .ok succeeded) :
    succeeded = true ↔ ∀ c ∈ t.conditions, c.Holds s := by
  have hwell : ∀ c ∈ request.compare, ¬c.Malformed := by
    rw [Transaction.compare_of_toRequest ht hrequest, List.forall_mem_map]
    exact fun c _ => c.not_malformed_compare
  obtain ⟨b, hb, hholds⟩ := evaluateAll_eq_ok hs.table.indexed hwell
  obtain rfl := Except.ok.inj (heval.symm.trans hb)
  rw [hholds, Transaction.compare_of_toRequest ht hrequest, List.forall_mem_map]
  simp only [Condition.holds_compare_iff hs]

/-- A transaction with good conditions is refused, or gives a result that fits. -/
theorem Store.reply_txn {s : Store} (hs : s.Sound) (ht : ∀ c ∈ t.conditions, c.Valid)
    (hrequest : t.toRequest = .ok request) :
    (∃ refusal, s.txn request = (s, .error refusal) ∧
        s.reply (.txn request) = .error (.transport refusal.status)) ∨
      ∃ result, s.reply (.txn request) = .ok (.txn result) ∧
        result.Fits t s (s.serve (.txn request)).1 := by
  rw [reply, serve]
  rcases txn_cases hs.table.indexed request with
    ⟨refusal, htxn⟩ | ⟨succeeded, -, -, -, -, heval, hops, -, -⟩
  · left
    rw [htxn]
    exact ⟨refusal, rfl, rfl⟩
  · right
    obtain ⟨table, responses, wrote, hrun, htxn⟩ := hops.txn hs.table.indexed heval
    rw [Transaction.branch_of_toRequest ht hrequest] at hrun
    obtain ⟨hlength, hgives⟩ := runOps_gives hrun
    rw [htxn]
    generalize s.commit table wrote = s'
    have hanswer :
        (Response.txn
          { header := some s'.header
            succeeded
            responses := responses.map fun response =>
              { response := some (response.withHeader s'.header) } }).reply =
          .ok (.txn
            { header := s'.header
              succeeded
              results := responses.map fun response =>
                .ofResponse (response.withHeader s'.header) }) := by
      have hresult := TxnResult.ofResponse_eq_ok s'.header succeeded
        (responses.map (OpResponse.withHeader s'.header))
      rw [List.map_map, List.map_map] at hresult
      exact congrArg (Except.map Reply.txn) hresult
    refine ⟨_, hanswer, evaluateAll_of_toRequest hs ht hrequest heval, ?_, ?_, rfl, ?_⟩
    · rw [List.length_map]
      exact hlength
    · intro i op r hop hr
      obtain ⟨response, hresponse, rfl⟩ := Option.map_eq_some_iff.mp
        ((List.getElem?_map ..).symm.trans hr)
      exact Operation.gives_ofResponse_withHeader (hgives i op response hop hresponse) _
    · intro r hr
      obtain ⟨response, -, rfl⟩ := List.mem_map.mp hr
      rw [OperationResult.header_ofResponse_withHeader]
      rfl

end

namespace Session

/-- The caller is told how its transaction ended, when its turn came at a store that the given one
had become: why the store refused it, or what fits the operations that ran. -/
def Commits (store : Store) (t : Transaction) (p : Session × Told) : Prop :=
  ∃ request before more, t.toRequest = .ok request ∧
    p.1.store? = some (store.run (before ++ .txn request :: more)) ∧
      ((∃ refusal, (store.run before).txn request = (store.run before, .error refusal) ∧
          p.2 = .awaited (some (.error (.transport refusal.status)))) ∨
        ∃ result, p.2 = .awaited (some (.ok (.txn result))) ∧
          result.Fits t (store.run before) (store.run (before ++ [.txn request])))

theorem Replies.commits {store : Store} (hstore : store.Sound) {t : Transaction}
    (ht : ∀ c ∈ t.conditions, c.Valid) {request : TxnRequest}
    (hrequest : t.toRequest = .ok request) {p : Session × Told}
    (h : Replies store (.txn request) p) : Commits store t p := by
  obtain ⟨before, more, hserver, htold⟩ := h
  refine ⟨request, before, more, hrequest, hserver, ?_⟩
  rw [htold, Store.run_append]
  rcases Store.reply_txn (hstore.run before) ht hrequest with ⟨refusal, hrefused, hreply⟩ |
    ⟨result, hreply, hfits⟩
  · exact .inl ⟨refusal, hrefused, by rw [hreply]⟩
  · exact .inr ⟨result, by rw [hreply], hfits⟩

/-- Whatever was done before, the caller of a transaction with good conditions that waits for it is
told of a failure or of one result for each operation that ran. The caller may wait at once, or
after other steps that leave the call alone. -/
theorem commit_gives_results (threadPrefix : String) (size : Nat) (steps : List Step)
    (t : Transaction) (ht : ∀ c ∈ t.conditions, c.Valid) :
    let s := (Session.new threadPrefix (.memory .empty) size).after steps
    s.kv.running = true → s.failures = [] →
      ∃ past, s.store? = some (Store.empty.run past) ∧
        Commits (Store.empty.run past) t (s.step (.call (.commit t) .await)) ∧
        ∀ id later,
          let s' := (s.step (.call (.commit t) (.hold id))).1
          Untouched .kv s.calls.length s' later →
            (s'.after later).held.lookup id = some s.calls.length →
              Commits (Store.empty.run past) t ((s'.after later).step (.held id .await)) := by
  intro s hrunning hfailures
  have horderly : s.Orderly .empty := (orderly_new threadPrefix .empty size).after steps
  obtain ⟨past, hserver⟩ := horderly.reached
  have hsound : (Store.empty.run past).Sound := Store.sound_empty.run past
  have htxn := Transaction.toRequest_eq_ok ht
  generalize ({ compare := _, success := _, failure := _ } : TxnRequest) = request at htxn
  have hrequest : (Command.commit t).request = .ok (.txn request) := by
    rw [Command.request, htxn]
  refine ⟨past, by rw [store?, hserver], ?_, fun id later => ?_⟩
  · exact (replies_await horderly hserver hrequest hrunning hfailures).commits hsound ht htxn
  · intro s' hlater hheld
    exact (replies_await_held horderly hserver hrequest hrunning hfailures hlater
      hheld).commits hsound ht htxn

/-- What a caller is told of a transaction that gave a result. -/
def Told.result? : Told → Option TxnResult
  | awaited (some (.ok (.txn result))) => some result
  | _ => none

/-- The caller looks for the outcome too early. A put is sent and done after the transaction, and
the other side of the client is closed. None of this is seen in the results. -/
theorem commit_gives_results_of_later_put :
    let s := (Session.new "" (.memory .empty) 0).after [.call (.put [1] [7] {}) .await]
    let t : Transaction :=
      { conditions := [⟨[1], .equal, .version 1⟩]
        success := [.put [2] [8] {}, .get [1] {}, .delete [1] {}]
        failure := [.get [2] {}] }
    let kept := (s.step (.call (.commit t) (.hold 1))).1
    let later : List Step :=
      [.held 1 .poll, .call (.put [3] [9] {}) .drop, .close [.maintenance]]
    let p := (kept.after later).step (.held 1 .await)
    let header : Header :=
      { clusterId := Store.clusterId, memberId := 1, revision := 3, raftTerm := 1 }
    let found : KeyValue :=
      { key := [1], createRevision := 2, modRevision := 2, version := 1, value := [7] }
    (∃ past, Commits (Store.empty.run past) t (s.step (.call (.commit t) .await)) ∧
      Commits (Store.empty.run past) t p) ∧
    p.1.store?.map Store.revision = some 4 ∧
      p.2.result? = some
        { header
          succeeded := true
          results := [
            .put { header, prevKv := none },
            .range { header, kvs := [found], more := false, count := 1 },
            .delete { header, deleted := 1, prevKvs := [] }] } := by
  intro s t kept later p header found
  obtain ⟨past, -, hawaited, hheld⟩ :=
    commit_gives_results "" 0 [.call (.put [1] [7] {}) .await] t (by decide)
      (by decide +kernel) (by decide +kernel)
  refine ⟨⟨past, hawaited, hheld 1 later ?_ ?_⟩, ?_, ?_⟩
  · decide +kernel
  · decide +kernel
  · decide +kernel
  · decide +kernel

end Session

end Keyspace
