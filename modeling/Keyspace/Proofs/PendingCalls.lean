import Keyspace.Proofs.StoreInvariants
import Keyspace.Proofs.SettledRequests
import Keyspace.Proofs.CallEvents

/-!
What the caller of a call is given that it waits for. The request is answered by the store that is
there when its turn comes, and the answer stays with the call, whatever else is done meanwhile.
-/

namespace Keyspace

namespace Store

def ending (s : Store) (request : Request) : Ending Response :=
  Session.endingOf ((s.serve request).2.mapError Refusal.status)

def reply (s : Store) (request : Request) : Outcome Reply :=
  match (s.serve request).2 with
  | .ok response => response.reply
  | .error refusal => .error (.transport refusal.status)

theorem brought_ending (s : Store) (request : Request) :
    Call.brought (fun response => some response.reply) (s.ending request) =
      .made (s.reply request) := by
  rw [ending, reply]
  cases (s.serve request).2 <;> rfl

end Store

namespace Call

/-- The caller has not been given an outcome, and has not given the call up. -/
structure Owed (c : Call Response Reply) (ending : Option (Ending Response)) : Prop where
  convert : c.convert = fun response => some response.reply
  task : c.task = some { ending }
  delivery : c.delivery = .awaited ∨ ∃ e ∈ ending, c.delivery = brought c.convert e
  stage : c.stage = .waiting
  cancelled : c.cancelled = false

variable {c : Call Response Reply} {ending : Option (Ending Response)}

theorem owed_submit {context : Context} (hrunning : context.running = true) :
    (submit context fun response : Response => some response.reply).Owed none := by
  rw [submit, if_pos hrunning]
  exact ⟨rfl, rfl, .inl rfl, rfl, rfl⟩

theorem Owed.run (h : c.Owed none) (own : Ending Response) :
    (c.onTask fun t => t.run (some own)).Owed (some own) := by
  refine ⟨h.convert, ?_, .inl ?_, h.stage, h.cancelled⟩
  · rw [onTask, h.task]
    rfl
  · rcases h.delivery with hawaited | ⟨e, he, -⟩
    · exact hawaited
    · exact absurd he (Option.not_mem_none e)

theorem Owed.run_ended {e : Ending Response} (h : c.Owed (some e))
    (own : Option (Ending Response)) : (c.onTask fun t => t.run own).Owed (some e) := by
  refine ⟨h.convert, ?_, h.delivery, h.stage, h.cancelled⟩
  rw [onTask, h.task]
  rfl

theorem Owed.deliver (h : c.Owed ending) :
    c.deliver.Owed ending ∧ ∀ e ∈ ending, c.deliver.delivery = brought c.convert e := by
  rcases h.delivery with hawaited | ⟨e, he, hmade⟩
  · have harrived : c.arrived? = ending := by
      rw [arrived?, hawaited, h.task]
      rfl
    cases ending with
    | none =>
        rw [deliver_of_not_arrived harrived]
        exact ⟨h, fun e he => absurd he (Option.not_mem_none e)⟩
    | some e =>
        rw [deliver_of_arrived harrived]
        refine ⟨⟨h.convert, h.task, .inr ⟨e, rfl, rfl⟩, h.stage, h.cancelled⟩, fun e' he' => ?_⟩
        rw [Option.some.inj he']
  · have hcame : c.deliver = c := by
      refine deliver_of_not_arrived (arrived?_of_ne_awaited ?_)
      rw [hmade]
      exact brought_ne_awaited _ _
    rw [hcame]
    refine ⟨h, fun e' he' => ?_⟩
    rw [hmade, Option.mem_unique he he']

theorem Owed.ready?_eq (h : c.Owed ending) :
    c.ready? = match c.delivery with
      | .awaited => none
      | .made outcome => some outcome
      | .lost => some (.error .contextShutdown) := by
  simp only [ready?, h.stage, h.cancelled, Bool.false_eq_true, if_false]
  cases c.delivery <;> rfl

theorem Owed.ready?_of_none (h : c.Owed none) : c.ready? = none := by
  rcases h.delivery with hawaited | ⟨e, he, -⟩
  · rw [h.ready?_eq, hawaited]
  · exact absurd he (Option.not_mem_none e)

end Call

namespace Session

def Job.isFor (i : Nat) : Job → Bool
  | .answer j _ _ => i = j
  | .feed .. => false

/-- The call at a place is owed an outcome at a context that has not stopped. -/
def Owes (s : Session) (i : Nat) (side : Side) (ending : Option (Ending Response)) : Prop :=
  (s.context side).running = true ∧ ∃ c, s.calls[i]? = some ⟨some side, c⟩ ∧ c.Owed ending

/-- The requests are answered by a store that the given one has become. -/
def Reached (s : Session) (store : Store) : Prop :=
  ∃ more, s.server = .memory (store.run more)

/-- The request of the call waits for its turn. -/
structure Pending (s : Session) (store : Store) (i : Nat) (side : Side) (request : Request) :
    Prop where
  reached : s.Reached store
  queued : ∃ q ∈ s.queue, q.job.isFor i = true
  only : ∀ q ∈ s.queue, q.job.isFor i = true → q.job = .answer i request none
  owes : s.Owes i side none

/-- The request of the call was answered by a store that the given one had become. -/
def Answered (s : Session) (store : Store) (i : Nat) (side : Side) (request : Request) : Prop :=
  ∃ before, s.Reached (store.run (before ++ [request])) ∧
    s.Owes i side (some ((store.run before).ending request))

/-- The request of the call waits for its turn, or it has had it. -/
def Stands (s : Session) (store : Store) (i : Nat) (side : Side) (request : Request) : Prop :=
  s.Pending store i side request ∨ s.Answered store i side request

/-- A session at a store, where every request is of a call that was made. -/
structure Orderly (s : Session) (store : Store) : Prop where
  reached : s.Reached store
  known : ∀ q ∈ s.queue, ∀ i, q.job.isFor i = true → i < s.calls.length

theorem Owes.lt_length {s : Session} {i : Nat} {side : Side}
    {ending : Option (Ending Response)} (h : s.Owes i side ending) : i < s.calls.length := by
  obtain ⟨-, c, hcall, -⟩ := h
  exact (List.getElem?_eq_some_iff.mp hcall).1

/-- What is done in a session leaves every call of a side where it stands or brings it on, but for
those that it touches. -/
structure Carries (s : Session) (side : Side) (touched : Nat → Prop) (s' : Session) : Prop where
  orderly : ∀ store, s.Orderly store → s'.Orderly store
  pending : ∀ store i request, ¬touched i → s.Pending store i side request →
    s'.Stands store i side request
  answered : ∀ store i request, ¬touched i → s.Answered store i side request →
    s'.Answered store i side request

section

variable {s s' s'' : Session} {store : Store} {i : Nat} {side : Side} {request : Request}
  {touched : Nat → Prop}

theorem Carries.refl (s : Session) : s.Carries side touched s where
  orderly _ h := h
  pending _ _ _ _ h := .inl h
  answered _ _ _ _ h := h

theorem Carries.stands (h : s.Carries side touched s') (hi : ¬touched i)
    (hs : s.Stands store i side request) : s'.Stands store i side request := by
  rcases hs with hs | hs
  · exact h.pending store i request hi hs
  · exact .inr (h.answered store i request hi hs)

theorem Carries.trans (h : s.Carries side touched s') (h' : s'.Carries side touched s'') :
    s.Carries side touched s'' where
  orderly store hs := h'.orderly store (h.orderly store hs)
  pending store i request hi hs := h'.stands hi (h.pending store i request hi hs)
  answered store i request hi hs :=
    h'.answered store i request hi (h.answered store i request hi hs)

theorem Carries.mono {touched' : Nat → Prop} (h : s.Carries side touched s')
    (htouched : ∀ i, touched i → touched' i) : s.Carries side touched' s' where
  orderly := h.orderly
  pending store i request hi := h.pending store i request (mt (htouched i) hi)
  answered store i request hi := h.answered store i request (mt (htouched i) hi)

theorem Carries.of_new (h : s.Carries side (· = s.calls.length) s') :
    s.Carries side touched s' where
  orderly := h.orderly
  pending store i request _ hs := h.pending store i request (Nat.ne_of_lt hs.owes.lt_length) hs
  answered store i request _ hs := by
    obtain ⟨before, hreached, howes⟩ := hs
    exact h.answered store i request (Nat.ne_of_lt howes.lt_length) ⟨before, hreached, howes⟩

theorem isAnswer_of_isFor {q : Queued} (hq : q.job.isFor i = true) : q.isAnswer = true := by
  rw [Queued.isAnswer]
  cases hjob : q.job with
  | answer j request given => rfl
  | feed listener failure feed =>
      rw [hjob] at hq
      nomatch hq

theorem Reached.of_server_eq (h : s.Reached store) (hserver : s'.server = s.server) :
    s'.Reached store := by
  obtain ⟨more, hmore⟩ := h
  exact ⟨more, hserver.trans hmore⟩

theorem carries_of_same (hserver : s'.server = s.server)
    (hqueue : ∀ q, q.isAnswer = true → (q ∈ s'.queue ↔ q ∈ s.queue))
    (hlength : s.calls.length ≤ s'.calls.length)
    (howes : ∀ i ending, ¬touched i → s.Owes i side ending → s'.Owes i side ending) :
    s.Carries side touched s' where
  orderly store h := by
    refine ⟨h.reached.of_server_eq hserver, fun q hq i hi => ?_⟩
    have hknown := h.known q ((hqueue q (isAnswer_of_isFor hi)).mp hq) i hi
    exact Nat.lt_of_lt_of_le hknown hlength
  pending store i request hi h := by
    obtain ⟨q, hq, hfor⟩ := h.queued
    refine .inl ⟨h.reached.of_server_eq hserver, ⟨q, ?_, hfor⟩, fun q hq hfor => ?_,
      howes i none hi h.owes⟩
    · exact (hqueue q (isAnswer_of_isFor hfor)).mpr hq
    · exact h.only q ((hqueue q (isAnswer_of_isFor hfor)).mp hq) hfor
  answered store i request hi h := by
    obtain ⟨before, hreached, h⟩ := h
    exact ⟨before, hreached.of_server_eq hserver, howes i _ hi h⟩

theorem carries_of_desk_eq (h : s'.desk = s.desk) : s.Carries side touched s' := by
  have hcalls : s'.calls = s.calls := (congrArg Session.calls h :)
  have hserver : s'.server = s.server := (congrArg Session.server h :)
  refine carries_of_same hserver (fun q hq => ?_) (Nat.le_of_eq (congrArg List.length hcalls.symm))
    fun i ending _ howes => ?_
  · have hqueue : s'.queue.filter Queued.isAnswer = s.queue.filter Queued.isAnswer :=
      congrArg Session.queue h
    have hmem := congrArg (q ∈ ·) hqueue
    simpa [hq] using hmem
  · rw [Owes, hcalls]
    refine ⟨?_, howes.2⟩
    rw [← howes.1]
    exact (congrArg (fun s => (s.context side).running) h :)

theorem carries_desk (s : Session) : s.Carries side touched s.desk :=
  carries_of_desk_eq s.desk_desk

theorem Aside.carries (h : s.Aside s') : s.Carries side touched s' :=
  carries_of_desk_eq h.desk

theorem carries_onCall (s : Session) (j : Nat) (f : Call Response Reply → Call Response Reply) :
    s.Carries side (· = j) (s.onCall j f) := by
  refine carries_of_same rfl (fun _ _ => .rfl) (Nat.le_of_eq (List.length_modify ..).symm)
    fun i ending hi howes => ?_
  refine ⟨howes.1, ?_⟩
  rw [onCall, List.getElem?_modify_ne _ _ (Ne.symm hi)]
  exact howes.2

theorem carries_poll (s : Session) (j : Nat) : s.Carries side (· = j) (s.poll j).1 := by
  rw [poll]
  split
  · simp only
    exact s.carries_onCall j _
  · exact .refl s

theorem carries_cancel (s : Session) (j : Nat) : s.Carries side (· = j) (s.cancel j).1 := by
  rw [cancel]
  split
  · simp only
    exact s.carries_onCall j _
  · exact .refl s

theorem carries_advance (s : Session) (due : Nat) : s.Carries side touched (s.advance due) :=
  carries_of_same rfl (fun _ _ => List.mem_mergeSort) (Nat.le_refl _) fun _ _ _ howes => howes

theorem Reached.answerOf (h : s.Reached store) (q : Queued) : (s.answerOf q).Reached store := by
  obtain ⟨past, hserver⟩ := h
  rw [Session.answerOf]
  split
  · rename_i j request given _
    rw [Session.answer.eq_def]
    simp only
    split
    · exact ⟨past, hserver⟩
    · cases given with
      | some answer => exact ⟨past, hserver⟩
      | none =>
          rw [hserver]
          exact ⟨past ++ [request], by rw [Store.run_append]; rfl⟩
  · exact ⟨past, hserver⟩

theorem calls_answerOf {q : Queued} (hq : q.job.isFor i = false) :
    (s.answerOf q).calls[i]? = s.calls[i]? := by
  rw [answerOf]
  split
  · rename_i j request given hjob
    have hne : j ≠ i := by
      rw [hjob] at hq
      exact Ne.symm (of_decide_eq_false hq)
    rw [Session.answer.eq_def]
    simp only
    split
    · exact List.getElem?_modify_ne _ _ hne
    · split
      · exact List.getElem?_modify_ne _ _ hne
      · exact List.getElem?_modify_ne _ _ hne
      · rfl
  · rfl

theorem Owes.answerOf (h : s.Owes i side none) {q : Queued} (hq : q.job.isFor i = false) :
    (s.answerOf q).Owes i side none := by
  refine ⟨?_, ?_⟩
  · rw [(s.answers_answerOf q).keeps.context]
    exact h.1
  · rw [calls_answerOf hq]
    exact h.2

theorem Owes.answerOf_ended {e : Ending Response} (h : s.Owes i side (some e)) (q : Queued) :
    (s.answerOf q).Owes i side (some e) := by
  refine ⟨?_, ?_⟩
  · rw [(s.answers_answerOf q).keeps.context]
    exact h.1
  · obtain ⟨-, c, hcall, howed⟩ := h
    have hanswers := s.answers_answerOf q
    generalize s.answerOf q = s' at hanswers
    cases hanswers with
    | unanswered => exact ⟨c, hcall, howed⟩
    | ended server j own =>
        rw [onCall, List.getElem?_modify, hcall]
        by_cases hj : j = i
        · exact ⟨c.onTask fun t => t.run own, by simp [hj], howed.run_ended own⟩
        · exact ⟨c, by simp [hj], howed⟩

theorem Owes.any_aborting {ending : Option (Ending Response)} (h : s.Owes i side ending) :
    (s.call? i).any (fun c => c.task.any Call.Task.aborting) = false := by
  obtain ⟨-, c, hcall, howed⟩ := h
  rw [call?, hcall, Option.map_some, Option.any_some, howed.task]
  rfl

theorem Owes.run (h : s.Owes i side none) (own : Ending Response) :
    (s.onCall i fun c => c.onTask fun t => t.run (some own)).Owes i side (some own) := by
  obtain ⟨hrunning, c, hcall, howed⟩ := h
  refine ⟨hrunning, _, ?_, howed.run own⟩
  rw [onCall, List.getElem?_modify_eq, hcall]
  rfl

theorem Owes.answer (h : s.Owes i side none) (hserver : s.server = .memory store)
    (request : Request) :
    (s.answer i request none).server = .memory (store.serve request).1 ∧
      (s.answer i request none).Owes i side (some (store.ending request)) := by
  rw [Session.answer.eq_def, h.any_aborting, hserver]
  have hserved : Owes { s with server := .memory (store.serve request).1 } i side none := h
  exact ⟨rfl, hserved.run (store.ending request)⟩

theorem Reached.foldl_answerOf (h : s.Reached store) (jobs : List Queued) :
    (jobs.foldl Session.answerOf s).Reached store := by
  induction jobs generalizing s with
  | nil => exact h
  | cons q jobs ih => exact ih (h.answerOf q)

theorem Owes.foldl_answerOf {jobs : List Queued} (h : s.Owes i side none)
    (hjobs : ∀ q ∈ jobs, q.job.isFor i = false) :
    (jobs.foldl Session.answerOf s).Owes i side none := by
  induction jobs generalizing s with
  | nil => exact h
  | cons q jobs ih =>
      obtain ⟨hq, hrest⟩ := List.forall_mem_cons.mp hjobs
      exact ih (h.answerOf hq) hrest

theorem Owes.foldl_answerOf_ended {e : Ending Response} (h : s.Owes i side (some e))
    (jobs : List Queued) : (jobs.foldl Session.answerOf s).Owes i side (some e) := by
  induction jobs generalizing s with
  | nil => exact h
  | cons q jobs ih => exact ih (h.answerOf_ended q)

theorem Answered.foldl_answerOf (h : s.Answered store i side request) (jobs : List Queued) :
    (jobs.foldl Session.answerOf s).Answered store i side request := by
  obtain ⟨before, hreached, howes⟩ := h
  exact ⟨before, hreached.foldl_answerOf jobs, howes.foldl_answerOf_ended jobs⟩

theorem Owes.answered_foldl {jobs : List Queued} (h : s.Owes i side none)
    (hreached : s.Reached store)
    (honly : ∀ q ∈ jobs, q.job.isFor i = true → q.job = .answer i request none)
    (hsome : ∃ q ∈ jobs, q.job.isFor i = true) :
    (jobs.foldl Session.answerOf s).Answered store i side request := by
  induction jobs generalizing s with
  | nil =>
      obtain ⟨q, hq, -⟩ := hsome
      exact absurd hq List.not_mem_nil
  | cons q jobs ih =>
      obtain ⟨hq, hrest⟩ := List.forall_mem_cons.mp honly
      rw [List.foldl_cons]
      -- A job for the call that comes after its first one finds the task ended.
      by_cases hfor : q.job.isFor i = true
      · obtain ⟨past, hserver⟩ := hreached
        obtain ⟨hserver', howes⟩ := h.answer hserver request
        have hanswer : s.answerOf q = s.answer i request none := by
          rw [Session.answerOf, hq hfor]
        rw [hanswer]
        refine Answered.foldl_answerOf ⟨past, ⟨[], ?_⟩, howes⟩ jobs
        rw [hserver', Store.run_append]
        rfl
      · refine ih (h.answerOf (Bool.eq_false_iff.mpr hfor)) (hreached.answerOf q) hrest ?_
        obtain ⟨q', hq', hfor'⟩ := hsome
        rcases List.mem_cons.mp hq' with rfl | hq'
        · exact absurd hfor' hfor
        · exact ⟨q', hq', hfor'⟩

theorem ready_or_waits (s : Session) (i : Nat) :
    (∃ q ∈ s.queue, q.job.isFor i = true ∧ s.waits q = false) ∨
      ∀ q ∈ s.queue, q.job.isFor i = true → s.waits q = true := by
  by_cases hready : ∃ q ∈ s.queue, q.job.isFor i = true ∧ s.waits q = false
  · exact .inl hready
  · refine .inr fun q hq hfor => ?_
    by_cases hwaits : s.waits q = true
    · exact hwaits
    · exact absurd ⟨q, hq, hfor, Bool.eq_false_iff.mpr hwaits⟩ hready

theorem isFor_of_waits (hwaits : ∀ q ∈ s.queue, q.job.isFor i = true → s.waits q = true) :
    ∀ q ∈ s.queue.filter (fun q => !s.waits q), q.job.isFor i = false := by
  intro q hq
  refine Bool.eq_false_iff.mpr fun hfor => ?_
  obtain ⟨hq, hready⟩ := List.mem_filter.mp hq
  simp [hwaits q hq hfor] at hready

theorem Pending.answered (h : s.Pending store i side request)
    (hready : ∃ q ∈ s.queue, q.job.isFor i = true ∧ s.waits q = false) :
    s.answered.Answered store i side request := by
  obtain ⟨q, hq, hfor, hwaits⟩ := hready
  refine h.owes.answered_foldl h.reached ?_ ⟨q, List.mem_filter.mpr ⟨hq, by simp [hwaits]⟩, hfor⟩
  exact fun q hq => h.only q (List.mem_filter.mp hq).1

theorem Pending.of_waits (h : s.Pending store i side request)
    (hwaits : ∀ q ∈ s.queue, q.job.isFor i = true → s.waits q = true) :
    s.answered.Pending store i side request where
  reached := h.reached.foldl_answerOf _
  queued := by
    obtain ⟨q, hq, hfor⟩ := h.queued
    exact ⟨q, List.mem_filter.mpr ⟨hq, hwaits q hq hfor⟩, hfor⟩
  only q hq := h.only q (List.mem_filter.mp hq).1
  owes := h.owes.foldl_answerOf (isFor_of_waits hwaits)

theorem carries_answered (s : Session) : s.Carries side touched s.answered where
  orderly store h := by
    refine ⟨h.reached.foldl_answerOf _, fun q hq i hi => ?_⟩
    rw [s.keeps_answered.calls]
    exact h.known q (List.mem_filter.mp hq).1 i hi
  pending store i request _ h := by
    rcases s.ready_or_waits i with hready | hwaits
    · exact .inr (h.answered hready)
    · exact .inl (h.of_waits hwaits)
  answered store i request _ h := h.foldl_answerOf (s.queue.filter fun q => !s.waits q)

theorem carries_of_desk (s : Session) : s.desk.answered.Carries side touched s.runAll := by
  rw [← s.desk_runAll]
  exact carries_of_desk_eq s.runAll.desk_desk.symm

theorem carries_runAll (s : Session) : s.Carries side touched s.runAll :=
  (s.carries_desk.trans s.desk.carries_answered).trans s.carries_of_desk

theorem Owes.deliver {ending : Option (Ending Response)} (h : s.Owes i side ending) :
    s.deliver.Owes i side ending := by
  obtain ⟨hrunning, c, hcall, howed⟩ := h
  refine ⟨hrunning, c.deliver, ?_, howed.deliver.1⟩
  rw [calls_deliver, List.getElem?_map, hcall]
  simp [hrunning]

theorem carries_deliver (s : Session) : s.Carries side touched s.deliver :=
  carries_of_same rfl (fun _ _ => .rfl) (by simp [calls_deliver]) fun _ _ _ howes => howes.deliver

theorem settle_eq (s : Session) :
    ∃ s', (s' = s ∨ ∃ due, s' = s.advance due) ∧ s.settle = s'.runAll.deliver := by
  rw [settle]
  split
  · split
    · exact ⟨_, .inr ⟨_, rfl⟩, rfl⟩
    · exact ⟨s, .inl rfl, rfl⟩
  · exact ⟨s, .inl rfl, rfl⟩

theorem carries_settle (s : Session) : s.Carries side touched s.settle := by
  obtain ⟨s', hs', hsettle⟩ := s.settle_eq
  rw [hsettle]
  have hrest : s'.Carries side touched s'.runAll.deliver :=
    s'.carries_runAll.trans s'.runAll.carries_deliver
  rcases hs' with rfl | ⟨due, rfl⟩
  · exact hrest
  · exact (s.carries_advance due).trans hrest

theorem carries_settleFor (s : Session) (test : Job → Bool) :
    s.Carries side touched (s.settleFor test) := by
  rw [settleFor]
  split
  · exact (s.carries_settle.trans (carries_advance _ _)).trans (carries_settle _)
  · exact s.carries_settle

/-- The caller of the call at a place would be given an outcome. -/
def isReady (s : Session) (i : Nat) : Bool :=
  (s.call? i).any fun c => c.ready?.isSome

theorem settleCall_eq (s : Session) (i : Nat) :
    s.settleCall i = if s.isReady i then s.settle else s.settleFor (Job.isFor i) := by
  rw [settleCall, isReady]
  congr 2
  funext job
  cases job <;> rfl

theorem carries_settleCall (s : Session) (j : Nat) : s.Carries side touched (s.settleCall j) := by
  rw [settleCall_eq]
  split
  · exact s.carries_settle
  · exact s.carries_settleFor _

/-- The caller of the call at a place would be given the reply of a store that the given one had
become. -/
def Gives (s : Session) (store : Store) (i : Nat) (request : Request) : Prop :=
  ∃ before, s.Reached (store.run (before ++ [request])) ∧
    (s.call? i).bind Call.ready? = some ((store.run before).reply request)

theorem Owes.ready?_deliver {e : Ending Response} (h : s.Owes i side (some e))
    {outcome : Outcome Reply}
    (hmade : Call.brought (fun response => some response.reply) e = .made outcome) :
    (s.deliver.call? i).bind Call.ready? = some outcome := by
  obtain ⟨hrunning, c, hcall, howed⟩ := h
  have hdelivered : s.deliver.call? i = some c.deliver := by
    rw [call?, calls_deliver, List.getElem?_map, hcall]
    simp [hrunning]
  obtain ⟨howed', hbrought⟩ := howed.deliver
  rw [hdelivered, Option.bind_some, howed'.ready?_eq, hbrought _ rfl, howed.convert, hmade]

theorem Answered.gives_deliver (h : s.Answered store i side request) :
    s.deliver.Gives store i request := by
  obtain ⟨before, hreached, howes⟩ := h
  exact ⟨before, hreached.of_server_eq rfl, howes.ready?_deliver (Store.brought_ending _ _)⟩

theorem Answered.carried (h : s.Answered store i side request)
    (hs : s.Carries side (fun _ => False) s') : s'.Answered store i side request :=
  hs.answered store i request not_false h

theorem Answered.gives_settle (h : s.Answered store i side request) :
    s.settle.Gives store i request := by
  obtain ⟨s', hs', hsettle⟩ := s.settle_eq
  have h' : s'.Answered store i side request := by
    rcases hs' with rfl | ⟨due, rfl⟩
    · exact h
    · exact h.carried (s.carries_advance due)
  rw [hsettle]
  exact (h'.carried s'.carries_runAll).gives_deliver

theorem Stands.carried (h : s.Stands store i side request)
    (hs : s.Carries side (fun _ => False) s') : s'.Stands store i side request :=
  hs.stands not_false h

theorem Stands.answered_runAll (h : s.Stands store i side request)
    (hdue : ∃ q ∈ s.queue, q.job.isFor i = true ∧ q.due ≤ s.now) :
    s.runAll.Answered store i side request := by
  have hback : s.desk.answered.Answered store i side request := by
    rcases h.carried s.carries_desk with h | h
    · obtain ⟨q, hq, hfor, hdue⟩ := hdue
      refine h.answered ⟨q, List.mem_filter.mpr ⟨hq, isAnswer_of_isFor hfor⟩, hfor, ?_⟩
      exact Bool.eq_false_iff.mpr fun hwaits => Nat.not_lt_of_le hdue (lt_due_of_waits hwaits)
    · exact h.carried s.desk.carries_answered
  exact hback.carried s.carries_of_desk

theorem Stands.gives_settle_of_due (h : s.Stands store i side request)
    (hdue : ∃ q ∈ s.queue, q.job.isFor i = true ∧ q.due ≤ s.now) :
    s.settle.Gives store i request := by
  obtain ⟨s', hs', hsettle⟩ := s.settle_eq
  rw [hsettle]
  rcases hs' with rfl | ⟨due, rfl⟩
  · exact (h.answered_runAll hdue).gives_deliver
  · obtain ⟨q, hq, hfor, hdue⟩ := hdue
    refine ((h.carried (s.carries_advance due)).answered_runAll
      ⟨q, List.mem_mergeSort.mpr hq, hfor, ?_⟩).gives_deliver
    exact Nat.le_trans hdue (Nat.le_max_left ..)

theorem Stands.gives_settle_of_none (h : s.Stands store i side request)
    (hnone : ∀ q ∈ s.settle.queue, q.job.isFor i = false) : s.settle.Gives store i request := by
  obtain ⟨s', hs', hsettle⟩ := s.settle_eq
  rw [hsettle] at hnone ⊢
  have h' : s'.runAll.Stands store i side request := by
    rcases hs' with rfl | ⟨due, rfl⟩
    · exact h.carried s'.carries_runAll
    · exact (h.carried (s.carries_advance due)).carried (carries_runAll _)
  rcases h' with h' | h'
  · obtain ⟨q, hq, hfor⟩ := h'.queued
    exact absurd hfor (Bool.eq_false_iff.mp (hnone q hq))
  · exact h'.gives_deliver

/-- Whoever settles until a call has an outcome finds one. -/
theorem Stands.gives_settleCall (h : s.Stands store i side request) :
    (s.settleCall i).Gives store i request := by
  rw [settleCall_eq]
  split
  · rename_i hready
    -- A call is ready only after its request was answered.
    rcases h with h | h
    · obtain ⟨-, c, hcall, howed⟩ := h.owes
      simp [isReady, call?, hcall, howed.ready?_of_none] at hready
    · exact h.gives_settle
  · rw [settleFor]
    split
    · rename_i q hq
      -- The request is put off. The time is let come at which it is due.
      have hsleeps := (h.carried s.carries_settle).carried (carries_advance _ q.due)
      have hfor := List.find?_some hq
      refine hsleeps.gives_settle_of_due ⟨q, ?_, hfor, Nat.le_max_right ..⟩
      exact List.mem_mergeSort.mpr (List.mem_of_find?_eq_some hq)
    · rename_i hnone
      refine h.gives_settle_of_none fun q hq => Bool.eq_false_iff.mpr ?_
      exact List.find?_eq_none.mp hnone q hq

end

end Session

end Keyspace
