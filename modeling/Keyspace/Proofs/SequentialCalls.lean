import Keyspace.Proofs.CallLedger

namespace Keyspace.Session

section

variable {s : Session} {store : Store}

/-- All is answered that was sent, and nothing stands in the way of what will be. -/
structure Idle (s : Session) : Prop where
  running : ∀ command : Command, (s.context command.side).running = true
  latency : s.latency = 0
  queue : s.queue = []
  failures : s.failures = []

theorem runJobs_of_answers {jobs : List Queued}
    (hjobs : ∀ q ∈ jobs, q.isAnswer = true ∧ s.waits q = false) :
    s.runJobs jobs = (jobs.foldl answerOf s, []) := by
  induction jobs generalizing s with
  | nil => rfl
  | cons q jobs ih =>
      obtain ⟨⟨hq, hnow⟩, hrest⟩ := List.forall_mem_cons.mp hjobs
      rw [← (s.answers_answerOf q).keeps.waits] at hrest
      rw [runJobs, s.runJob_eq hq, hnow, if_neg Bool.false_ne_true]
      simp only [ih hrest]
      rfl

theorem rounds_of_empty (n : Nat) (hs : s.queue = []) : rounds n s = (s, []) := by
  have hsame : s.withQueue [] = s := by rw [withQueue, ← hs]
  induction n with
  | zero => rfl
  | succ n ih =>
      rw [rounds_succ, hs, hsame, runJobs]
      simp only [ih]
      rfl

theorem queue_foldl_answerOf (jobs : List Queued) (s : Session) :
    (jobs.foldl answerOf (s.withQueue [])).queue = [] := by
  rw [foldl_answerOf_withQueue]
  rfl

theorem pass_of_answers (hjobs : ∀ q ∈ s.queue, q.isAnswer = true ∧ s.waits q = false) :
    s.pass = s.queue.foldl answerOf (s.withQueue []) := by
  have hempty := queue_foldl_answerOf s.queue s
  have hrounds : rounds (s.watch.scripted + 1) s =
      (s.queue.foldl answerOf (s.withQueue []), []) := by
    rw [rounds_succ, runJobs_of_answers (s := s.withQueue []) hjobs, rounds_of_empty _ hempty]
    rfl
  rw [pass, hrounds]
  rfl

theorem passes_of_empty (n : Nat) (hs : s.queue = []) : passes n s = s := by
  cases n with
  | zero => rfl
  | succ n => rw [passes, hs]; rfl

theorem runAll_of_answers (hjobs : ∀ q ∈ s.queue, q.isAnswer = true ∧ s.waits q = false) :
    s.runAll = s.queue.foldl answerOf (s.withQueue []) := by
  rw [runAll, pass_of_answers hjobs]
  exact passes_of_empty _ (queue_foldl_answerOf s.queue s)

/-- A session in which only requests are to be answered, all of them now. -/
structure Brisk (s : Session) : Prop where
  prompt : s.Prompt
  answers : ∀ q ∈ s.queue, q.isAnswer = true

theorem Brisk.waits (hs : s.Brisk) {q : Queued} (hq : q ∈ s.queue) : s.waits q = false :=
  Bool.eq_false_iff.mpr fun hwaits =>
    Nat.not_lt_of_le (hs.prompt.due q hq) (lt_due_of_waits hwaits)

theorem Brisk.settle_eq (hs : s.Brisk) :
    s.settle = (s.queue.foldl answerOf (s.withQueue [])).deliver := by
  rw [hs.prompt.settle_eq, runAll_of_answers fun q hq => ⟨hs.answers q hq, hs.waits hq⟩]

theorem Brisk.queue_settle (hs : s.Brisk) : s.settle.queue = [] := by
  rw [hs.settle_eq]
  exact queue_foldl_answerOf s.queue s

theorem Brisk.servedBySettle_eq (hs : s.Brisk) :
    s.servedBySettle = s.queue.filterMap fun q => s.comes? q.job := by
  have hahead : s.ahead? = none := by
    rw [ahead?, Option.filter_eq_none_iff]
    intro due hdue
    simpa using hs.prompt.feedDue?_le hdue
  have hdesk : s.desk.queue = s.queue := List.filter_eq_self.mpr hs.answers
  have hready : s.desk.queue.filter (fun q => !s.desk.waits q) = s.queue := by
    rw [hdesk, List.filter_eq_self]
    intro q hq
    rw [waits_desk, hs.waits hq]
    rfl
  rw [servedBySettle, hahead, advanceTo, Option.elim_none, servedNow, hready]
  rfl

theorem Brisk.settleCall_eq (hs : s.Brisk) (i : Nat) :
    s.settleCall i = s.settle ∧ s.servedBySettleCall i = s.servedBySettle := by
  rw [Session.settleCall_eq, servedBySettleCall, settleFor, servedBySettleFor, hs.queue_settle]
  simp

theorem failures_foldl_answerOf (jobs : List Queued) (s : Session) :
    (jobs.foldl answerOf s).failures = s.failures := by
  induction jobs generalizing s with
  | nil => rfl
  | cons q jobs ih =>
      refine (ih (s.answerOf q)).trans ?_
      have hanswers := s.answers_answerOf q
      generalize s.answerOf q = s' at hanswers
      cases hanswers <;> rfl

theorem Brisk.idle_settle (hs : s.Brisk)
    (hrunning : ∀ command : Command, (s.context command.side).running = true)
    (hfailures : s.failures = []) : s.settle.Idle where
  running command := by
    have hkeeps := keeps_foldl_answerOf s.queue (s.withQueue [])
    rw [hs.settle_eq, (keeps_deliver _).context, hkeeps.context]
    exact hrunning command
  latency := by
    have hkeeps := keeps_foldl_answerOf s.queue (s.withQueue [])
    rw [hs.settle_eq, (keeps_deliver _).latency, hkeeps.latency]
    exact hs.prompt.latency
  queue := hs.queue_settle
  failures := by
    rw [hs.settle_eq]
    exact (failures_foldl_answerOf s.queue (s.withQueue [])).trans hfailures

theorem poll_eq (s : Session) (i : Nat) : ∃ calls, (s.poll i).1 = { s with calls } := by
  rw [poll]
  split
  · exact ⟨_, rfl⟩
  · exact ⟨s.calls, rfl⟩

theorem Idle.poll (hs : s.Idle) (i : Nat) : (s.poll i).1.Idle := by
  obtain ⟨calls, hpoll⟩ := s.poll_eq i
  rw [hpoll]
  exact ⟨hs.running, hs.latency, hs.queue, hs.failures⟩

theorem Idle.make (hs : s.Idle) (hserver : s.server = .memory store) (command : Command) :
    (s.make command).Brisk ∧
      (∀ other : Command, ((s.make command).context other.side).running = true) ∧
      (s.make command).failures = [] ∧
      (s.make command).queue.filterMap (fun q => (s.make command).comes? q.job) =
        command.request.toOption.toList.map (Arrival.mk s.calls.length) := by
  cases hrequest : command.request with
  | error why =>
      have hmade : s.make command = s.addCall (some command.side) (.failed why) := by
        rw [Session.make, Session.makeAt, hrequest]
      have hqueue : (s.addCall (some command.side) (.failed why)).queue = [] := hs.queue
      rw [hmade, hqueue]
      refine ⟨⟨⟨hs.latency, ?_⟩, ?_⟩, hs.running, hs.failures, rfl⟩
      · simp [hqueue]
      · simp [hqueue]
  | ok request =>
      have haborting : (s.made command.side request).aborting? s.calls.length = some false := by
        rw [made_eq hserver, aborting?, call?, addCall, List.getElem?_concat_length]
        simp [Call.submit, hs.running]
      have hqueue : (s.made command.side request).queue =
          [{ due := s.now, delayed := false, job := .answer s.calls.length request none }] := by
        rw [made_eq hserver]
        simp only [hs.queue, hs.latency, hs.failures]
        rfl
      have hfailures : (s.made command.side request).failures = [] := by
        rw [made_eq hserver]
        exact congrArg List.tail hs.failures
      rw [make_eq_made hrequest, hqueue]
      refine ⟨⟨⟨?_, ?_⟩, ?_⟩, ?_, hfailures, ?_⟩
      · rw [made_eq hserver]
        exact hs.latency
      · rw [hqueue, made_eq hserver]
        simp [addCall]
      · rw [hqueue]
        simp [Queued.isAnswer]
      · rw [made_eq hserver]
        exact hs.running
      · rw [List.filterMap_cons, comes?, haborting]
        rfl

theorem Idle.await (hs : s.Idle) (hserver : s.server = .memory store) (command : Command) :
    (s.step (.call command .await)).1.Idle ∧
      s.servedBy (.call command .await) =
        command.request.toOption.toList.map (Arrival.mk s.calls.length) := by
  obtain ⟨hbrisk, hrunning, hfailures, hcomes⟩ := hs.make hserver command
  obtain ⟨hsettled, hserved⟩ := hbrisk.settleCall_eq s.calls.length
  constructor
  · change (((s.make command).settleCall s.calls.length).poll s.calls.length).1.Idle
    rw [hsettled]
    exact (hbrisk.idle_settle hrunning hfailures).poll _
  · change (s.make command).servedBySettleCall s.calls.length = _
    rw [hserved, hbrisk.servedBySettle_eq, hcomes]

/-- Of calls that are waited for one after the other, the requests come in the order of the calls.
-/
theorem Idle.awaits {l : Ledger} (hs : s.Idle) (h : l.Agrees s) (commands : List Command) :
    (s.after (commands.map (.call · .await))).Idle ∧
      (s.ledger l (commands.map (.call · .await))).past.map Arrival.request =
        l.past.map Arrival.request ++
          commands.filterMap fun command => command.request.toOption := by
  induction commands generalizing l s with
  | nil => exact ⟨hs, (List.append_nil _).symm⟩
  | cons command commands ih =>
      obtain ⟨hidle, hserved⟩ := hs.await h.server command
      obtain ⟨hafter, hrest⟩ := ih hidle (h.step _)
      refine ⟨hafter, ?_⟩
      rw [List.map_cons, ledger, hrest, Ledger.step, Ledger.add, hserved, List.map_append,
        List.append_assoc, List.filterMap_cons]
      cases command.request.toOption <;> rfl

theorem idle_new (threadPrefix : String) (server : Server) (size : Nat) :
    (Session.new threadPrefix server size).Idle where
  running command := by cases command <;> rfl
  latency := rfl
  queue := rfl
  failures := rfl

end

end Keyspace.Session
