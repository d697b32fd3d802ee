import Keyspace.Proofs.SingleOperationTxn
import Keyspace.Proofs.CommitResults
import Keyspace.Proofs.AnswerTurn

namespace Keyspace

def Operation.command : Operation → Command
  | put key value options => .put key value options
  | get key options => .get key options
  | delete key options => .delete key options

theorem Operation.side_command (op : Operation) : op.command.side = .kv := by
  cases op <;> rfl

theorem Operation.request_command (op : Operation) :
    op.command.request = .ok op.toRequest.single := by
  cases op <;> rfl

theorem Transaction.request_commit (op : Operation) (failure : List Operation) :
    (Command.commit { success := [op], failure }).request =
      .ok (.txn { success := op.toRequest.alone
                  failure := failure.map fun op => { request := some op.toRequest } }) :=
  rfl

def OperationResult.reply : OperationResult → Reply
  | put result => .put result
  | range result => .range result
  | delete result => .delete result

/-- One caller is given the result of an operation and the other that of a transaction of it, or
both are told of the same failure. -/
inductive Alike : Outcome Reply → Outcome Reply → Prop
  | failed (failure : Failure) : Alike (.error failure) (.error failure)
  | done (result : OperationResult) :
      Alike (.ok result.reply)
        (.ok (.txn { header := result.header, succeeded := true, results := [result] }))

theorem OpResponse.reply_single (response : OpResponse) :
    response.single.reply = .ok (OperationResult.ofResponse response).reply := by
  cases response <;> rfl

theorem OpResponse.header_ofResponse {response : OpResponse} {header : Header}
    (hheader : response.header = some header) :
    (OperationResult.ofResponse response).header = header := by
  have hresult : (OperationResult.ofResponse response).header = response.header.getD {} := by
    cases response <;> rfl
  rw [hresult, hheader, Option.getD_some]

theorem TxnResponse.reply_alone (header : Header) (response : OpResponse) :
    (Response.txn (TxnResponse.alone header response)).reply =
      .ok (.txn { header, succeeded := true, results := [.ofResponse response] }) :=
  congrArg (Except.map Reply.txn) (TxnResult.ofResponse_eq_ok header true [response])

theorem Store.alike_reply (s : Store) (request : OpRequest) (failure : List RequestOp) :
    Alike (s.reply request.single) (s.reply (.txn { success := request.alone, failure })) := by
  have htxn : s.serve (.txn { success := request.alone, failure }) =
      ((s.txn { success := request.alone, failure }).1,
        (s.txn { success := request.alone, failure }).2.map Response.txn) := rfl
  rcases s.txn_alone request failure with ⟨refusal, hdirect, halone⟩ |
    ⟨s', response, hheader, hdirect, halone⟩
  · rw [reply, reply, htxn, hdirect, halone]
    exact .failed _
  · rw [reply, reply, htxn, hdirect, halone]
    simp only [Except.map]
    rw [response.reply_single, TxnResponse.reply_alone, ← response.header_ofResponse hheader]
    exact .done _

namespace Session

theorem alike_turnReply (store : Store) (given : Option Status) (request : OpRequest)
    (failure : List RequestOp) :
    Alike (turnReply store given request.single)
      (turnReply store given (.txn { success := request.alone, failure })) := by
  cases given with
  | none => exact store.alike_reply request failure
  | some status => exact .failed _

section

variable {s : Session} {store : Store} {side : Side} {i : Nat} {command : Command}
  {request : Request} {outcome : Outcome Reply}

theorem told_await (hrequest : command.request = .ok request) :
    (s.step (.call command .await)).2 =
      .awaited ((((s.made command.side request).settleCall s.calls.length).call?
        s.calls.length).bind Call.ready?) := by
  rw [← make_eq_made hrequest, ← poll_snd]
  rfl

/-- There is a store at which the call that is made next has its turn, whatever it is. -/
theorem exists_told_of_running (hs : s.Orderly store)
    (hrunning : (s.context side).running = true) :
    ∃ before, ∀ command request, command.side = side → command.request = .ok request →
      (s.step (.call command .await)).2 =
        .awaited (some (turnReply (store.run before) s.failures.head? request)) := by
  obtain ⟨past, hserver⟩ := hs.reached
  have hasks := asks_made hs hserver hrunning (.status {})
  have hreached : (s.made side (.status {})).desk.Reached store := by
    rw [made_eq hserver]
    exact hs.reached
  obtain ⟨before, hturn⟩ := hasks.exists_turn hreached s.ahead?
  refine ⟨before, fun command request hside hrequest => ?_⟩
  subst hside
  rw [told_await hrequest, hturn request _ (desk_made hs hserver _ _ request)
    (ahead?_made hserver _ request)]

theorem told_of_stopped (hserver : s.server = .memory store)
    (hrequest : command.request = .ok request)
    (hstopped : (s.context command.side).running = false) :
    (s.step (.call command .await)).2 = .awaited (some (.error .contextShutdown)) := by
  have hready : ((s.made command.side request).call? s.calls.length).bind Call.ready? =
      some (.error .contextShutdown) := by
    rw [made_eq hserver, call?, addCall, List.getElem?_concat_length]
    simp [Call.submit, hstopped, Call.ready?]
  rw [told_await hrequest, ready?_settleCall (ready?_settle hready)]

end

/-- A transaction of one operation comes to what the request for the operation comes to by itself,
at every store. So the caller that commits it is told what it would be told if it called for the
operation, whatever was done before. -/
theorem commit_alike_call :
    (∀ (s : Store) (request : OpRequest) (failure : List RequestOp),
      let direct := s.serve request.single
      let committed := s.txn { success := request.alone, failure }
      (∃ refusal, direct = (s, .error refusal) ∧ committed = (s, .error refusal)) ∨
        ∃ s' response, response.header = some s'.header ∧ direct = (s', .ok response.single) ∧
          committed = (s', .ok (.alone s'.header response))) ∧
    ∀ threadPrefix size steps (op : Operation) (failure : List Operation),
      let s := (Session.new threadPrefix (.memory .empty) size).after steps
      ∃ direct committed, Alike direct committed ∧
        (s.step (.call op.command .await)).2 = .awaited (some direct) ∧
        (s.step (.call (.commit { success := [op], failure }) .await)).2 =
          .awaited (some committed) := by
  refine ⟨fun s request failure => s.txn_alone request failure,
    fun threadPrefix size steps op failure => ?_⟩
  intro s
  have horderly : s.Orderly .empty := (orderly_new threadPrefix .empty size).after steps
  by_cases hrunning : (s.context .kv).running = true
  · obtain ⟨before, htold⟩ := exists_told_of_running horderly hrunning
    exact ⟨_, _, alike_turnReply _ _ op.toRequest _,
      htold _ _ op.side_command op.request_command,
      htold _ _ rfl (Transaction.request_commit op failure)⟩
  · obtain ⟨past, hserver⟩ := horderly.reached
    have hstopped : (s.context .kv).running = false := Bool.eq_false_iff.mpr hrunning
    refine ⟨_, _, .failed .contextShutdown, told_of_stopped hserver op.request_command ?_,
      told_of_stopped hserver (Transaction.request_commit op failure) hstopped⟩
    rw [op.side_command]
    exact hstopped

end Session

end Keyspace
