import Keyspace.Proofs.StoreInvariants
import Keyspace.Proofs.SettledRequests

/-!
What the calls of a session make of the store. Books are kept of what was sent, with what was taken
back before it ran; how a caller goes on with a call is not written in them.
-/

namespace Keyspace.Session

/-- A request that was sent for a call. -/
structure Posted where
  call : Nat
  request : Request
  /-- The failure that was given to it. -/
  failure : Option Status
  /-- It was taken back before it ran, or sent when the context of its client had stopped. -/
  aborted : Bool
  deriving DecidableEq

namespace Posted

def job (p : Posted) : Job :=
  .answer p.call p.request (p.failure.map .error)

def applies (p : Posted) : Bool :=
  !p.aborted && p.failure.isNone

end Posted

structure Books where
  /-- Where a context runs. -/
  running : List Side := [.kv, .maintenance]
  /-- How many clients were started beside the first. -/
  started : Nat := 0
  /-- How many calls were made. -/
  calls : Nat := 0
  held : List (Int × Nat) := []
  /-- What was sent before the session was settled last, in order. -/
  ran : List Posted := []
  /-- What was sent since then. -/
  waiting : List Posted := []

namespace Books

def applied (b : Books) : List Request :=
  (b.ran.filter Posted.applies).map Posted.request

def post (b : Books) (request : Request) (failure : Option Status) (aborted : Bool) : Books :=
  { b with calls := b.calls + 1,
           waiting := b.waiting ++ [{ call := b.calls, request, failure, aborted }] }

/-- A call that is rejected sends nothing. -/
def make (b : Books) (side : Side) (command : Command) (failure : Option Status) : Books :=
  match command.request with
  | .ok request => b.post request failure (!b.running.contains side)
  | .error _ => { b with calls := b.calls + 1 }

def abort (b : Books) (i : Nat) : Books :=
  { b with waiting := b.waiting.map fun p => if p.call = i then { p with aborted := true } else p }

def settle (b : Books) : Books :=
  { b with ran := b.ran ++ b.waiting, waiting := [] }

def stop (b : Books) (sides : List Side) : Books :=
  { b with running := b.running.filter fun side => !sides.contains side }

def forget (b : Books) (id : Int) : Books :=
  { b with held := b.held.filter fun h => h.1 ≠ id }

/-- A call is taken back only if it is cancelled at once. Some ways to go on with it settle. -/
def call (b : Books) (side : Side) (command : Command) (failure : Option Status) : Mode → Books
  | .await => (b.make side command failure).settle
  | .cancel => ((b.make side command failure).abort b.calls).settle
  | .lateCancel => (b.make side command failure).settle
  | .drop => (b.make side command failure).settle
  | .onComplete => (b.make side command failure).settle
  | .hold id => { b.make side command failure with held := (id, b.calls) :: b.held }
  | .letGo => b.make side command failure
  | .continueWith => b.make side command failure

def useHeld (b : Books) (id : Int) (use : Use) : Books :=
  match b.held.lookup id with
  | none => b
  | some i =>
      match use with
      | .await => b.settle
      | .onComplete => (b.forget id).settle
      | .cancel => b.abort i
      | .isCancelled => b
      | .debug => b
      | .drop => b.forget id
      | .poll => b
      | .continueWith => b.forget id

/-- What is written for a step, when the given failure is next. -/
def step (b : Books) (failure : Option Status) : Step → Books
  | .call command mode => b.call command.side command failure mode
  | .callAt client command mode => b.call (.further client) command failure mode
  | .held id use => b.useHeld id use
  | .rpc request => (b.post request failure false).settle
  | .drive => b.settle
  | .failNext _ => b
  | .latency _ => b
  | .close sides => b.stop sides
  | .debug => b
  | .attach _ _ => b
  | .snapshot _ _ => b.settle
  | .detach => b
  | .observe _ => b.settle
  | .start _ =>
      { b with running := b.running ++ [.further b.started], started := b.started + 1 }
  | .cancelHandle i => b.abort i
  | .listen _ => b

end Books

def books : Session → Books → List Step → Books
  | _, b, [] => b
  | s, b, step :: steps => (s.step step).1.books (b.step s.failures.head? step) steps

/-- Nothing is put off. -/
structure Prompt (s : Session) : Prop where
  latency : s.latency = 0
  due : ∀ q ∈ s.queue, q.due ≤ s.now

section Prompt

variable {s s' : Session}

theorem Aside.prompt (h : s.Aside s') (hs : s.Prompt) : s'.Prompt ∧ s'.now = s.now := by
  obtain ⟨failures, watch, observers, sent, seen, added, hfeeds, rfl⟩ := h
  refine ⟨⟨hs.latency, fun q hq => ?_⟩, rfl⟩
  rcases List.mem_append.mp hq with hq | hq
  · exact hs.due q hq
  · have hdue := (hfeeds q hq).2
    rw [hs.latency] at hdue
    exact Nat.le_of_eq hdue

theorem Answers.prompt (h : s.Answers s') (hs : s.Prompt) : s'.Prompt ∧ s'.now = s.now := by
  cases h with
  | unanswered => exact ⟨hs, rfl⟩
  | ended server i own => exact ⟨⟨hs.latency, hs.due⟩, rfl⟩

theorem Prompt.runJob (hs : s.Prompt) {q : Queued} (hq : q.due ≤ s.now) :
    ((s.runJob q).1.Prompt ∧ (s.runJob q).1.now = s.now) ∧
      ∀ left ∈ (s.runJob q).2, left.due ≤ s.now := by
  by_cases hanswer : q.isAnswer = true
  · rw [s.runJob_eq hanswer]
    split
    · exact ⟨⟨hs, rfl⟩, fun left hleft => Option.some.inj hleft ▸ hq⟩
    · exact ⟨(s.answers_answerOf q).prompt hs, fun _ hleft => nomatch hleft⟩
  · obtain ⟨haside, hmore⟩ := s.aside_runJob (Bool.eq_false_iff.mpr hanswer)
    exact ⟨haside.prompt hs, fun left hleft => (hmore left hleft).2 ▸ hq⟩

theorem Prompt.runJobs (hs : s.Prompt) {jobs : List Queued} (hjobs : ∀ q ∈ jobs, q.due ≤ s.now) :
    ((s.runJobs jobs).1.Prompt ∧ (s.runJobs jobs).1.now = s.now) ∧
      ∀ left ∈ (s.runJobs jobs).2, left.due ≤ s.now := by
  induction jobs generalizing s with
  | nil => exact ⟨⟨hs, rfl⟩, fun _ hleft => nomatch hleft⟩
  | cons q jobs ih =>
      obtain ⟨hq, hrest⟩ := List.forall_mem_cons.mp hjobs
      obtain ⟨⟨hs', hnow⟩, hmore⟩ := hs.runJob hq
      obtain ⟨⟨hs'', hnow'⟩, hleft⟩ := ih hs' (by rwa [hnow])
      rw [hnow] at hnow' hleft
      refine ⟨⟨hs'', hnow'⟩, fun left hmem => ?_⟩
      rcases List.mem_append.mp hmem with hmem | hmem
      · exact hmore left (Option.mem_toList.mp hmem)
      · exact hleft left hmem

theorem Prompt.rounds (n : Nat) (hs : s.Prompt) :
    ((rounds n s).1.Prompt ∧ (rounds n s).1.now = s.now) ∧
      ∀ left ∈ (rounds n s).2, left.due ≤ s.now := by
  induction n generalizing s with
  | zero => exact ⟨⟨hs, rfl⟩, fun _ hleft => nomatch hleft⟩
  | succ n ih =>
      have hempty : (s.withQueue []).Prompt := ⟨hs.latency, fun _ hq => nomatch hq⟩
      obtain ⟨⟨hs', hnow⟩, hleft⟩ := hempty.runJobs hs.due
      obtain ⟨⟨hs'', hnow'⟩, hleft'⟩ := ih hs'
      rw [hnow] at hnow' hleft'
      rw [rounds_succ]
      refine ⟨⟨hs'', hnow'⟩, fun left hmem => ?_⟩
      rcases List.mem_append.mp hmem with hmem | hmem
      · exact hleft left hmem
      · exact hleft' left hmem

theorem Prompt.pass (hs : s.Prompt) : s.pass.Prompt := by
  obtain ⟨⟨hs', hnow⟩, hleft⟩ := hs.rounds (s.watch.scripted + 1)
  rw [Session.pass]
  generalize Session.rounds (s.watch.scripted + 1) s = r at hs' hnow hleft
  obtain ⟨s', left⟩ := r
  refine ⟨hs'.latency, fun q hq => ?_⟩
  simp only [List.partition_eq_filter_filter, List.mem_append, List.mem_reverse,
    List.mem_filter] at hq
  rcases hq with (hq | hq) | hq
  · exact hnow ▸ hleft q hq.1
  · exact hnow ▸ hleft q hq.1
  · exact hs'.due q hq

theorem Prompt.passes (n : Nat) (hs : s.Prompt) : (passes n s).Prompt := by
  induction n generalizing s with
  | zero => exact hs
  | succ n ih =>
      rw [Session.passes]
      split
      · exact ih hs.pass
      · exact hs

theorem Prompt.runAll (hs : s.Prompt) : s.runAll.Prompt :=
  hs.pass.passes _

end Prompt

/-- The store is what the books say was applied to it, and what they say waits is in the queue. -/
structure Books.Agrees (b : Books) (s : Session) : Prop where
  prompt : s.Prompt
  server : s.server = .memory (Store.empty.run b.applied)
  queue : (s.queue.filter Queued.isAnswer).map Queued.job = b.waiting.map Posted.job
  aborting : ∀ p ∈ b.waiting, s.aborting? p.call = some p.aborted
  calls : s.calls.length = b.calls
  held : s.held = b.held
  started : s.further.length = b.started
  running : ∀ side, (s.context side).running = b.running.contains side

def Books.posted (b : Books) : List Nat :=
  (b.ran ++ b.waiting).map Posted.call

/-- No call is posted twice. -/
structure Books.Ordered (b : Books) : Prop where
  ascending : b.posted.Pairwise (· < ·)
  made : ∀ i ∈ b.posted, i < b.calls

section Agrees

variable {b : Books} {s s' : Session}

theorem Books.Agrees.keeps (hb : b.Agrees s) (h : s.Keeps s') (hserver : s'.server = s.server)
    (hqueue : s'.queue = s.queue) : b.Agrees s' where
  prompt := by
    refine ⟨h.latency.trans hb.prompt.latency, ?_⟩
    rw [hqueue, h.now]
    exact hb.prompt.due
  server := hserver.trans hb.server
  queue := by
    rw [hqueue]
    exact hb.queue
  aborting p hp := (h.aborting p.call).trans (hb.aborting p hp)
  calls := h.calls.trans hb.calls
  held := h.held.trans hb.held
  started := (congrArg List.length h.further).trans hb.started
  running side := by
    rw [h.context]
    exact hb.running side

theorem Books.Agrees.aside (hb : b.Agrees s) (h : s.Aside s') : b.Agrees s' := by
  have hdesk := h.desk
  obtain ⟨hprompt, -⟩ := h.prompt hb.prompt
  have hqueue : s'.queue.filter Queued.isAnswer = s.queue.filter Queued.isAnswer :=
    congrArg Session.queue hdesk
  obtain ⟨failures, watch, observers, sent, seen, added, -, rfl⟩ := h
  exact ⟨hprompt, hb.server, by rw [hqueue]; exact hb.queue, hb.aborting, hb.calls, hb.held,
    hb.started, hb.running⟩

theorem server_answer {store : Store} {i : Nat} {aborted : Bool}
    (hserver : s.server = .memory store) (haborting : s.aborting? i = some aborted)
    (request : Request) (failure : Option Status) :
    (s.answer i request (failure.map .error)).server =
      .memory (if !aborted && failure.isNone then (store.serve request).1 else store) := by
  rw [answer.eq_def, any_aborting, haborting]
  cases aborted with
  | true => exact hserver
  | false =>
      cases failure with
      | some status => exact hserver
      | none =>
          rw [hserver]
          rfl

/-- What waits is applied in order, but for what was taken back and what was given a failure. -/
theorem server_foldl_answerOf {waiting : List Posted} {jobs : List Queued} {store : Store}
    (hserver : s.server = .memory store) (hjobs : jobs.map Queued.job = waiting.map Posted.job)
    (haborting : ∀ p ∈ waiting, s.aborting? p.call = some p.aborted) :
    (jobs.foldl answerOf s).server =
      .memory (store.run ((waiting.filter Posted.applies).map Posted.request)) := by
  induction waiting generalizing jobs s store with
  | nil =>
      rw [List.map_eq_nil_iff.mp hjobs]
      exact hserver
  | cons p waiting ih =>
      obtain ⟨q, jobs, rfl, hq, hrest⟩ := List.map_eq_cons_iff.mp hjobs
      obtain ⟨hp, hwaiting⟩ := List.forall_mem_cons.mp haborting
      have hkeeps := (s.answers_answerOf q).keeps
      have hone : (s.answerOf q).server =
          .memory (if p.applies then (store.serve p.request).1 else store) := by
        rw [answerOf, hq]
        exact server_answer hserver hp p.request p.failure
      rw [List.foldl_cons, ih hone hrest fun p hp => (hkeeps.aborting p.call).trans (hwaiting p hp)]
      by_cases happlies : p.applies = true
      · rw [if_pos happlies, List.filter_cons_of_pos happlies]
        rfl
      · rw [if_neg happlies, List.filter_cons_of_neg happlies]

theorem Prompt.feedDue?_le (hs : s.Prompt) {due : Nat} (hdue : s.feedDue? = some due) :
    due ≤ s.now := by
  rw [feedDue?] at hdue
  split at hdue
  · obtain ⟨q, hq, rfl⟩ := Option.map_eq_some_iff.mp hdue
    exact hs.due q (List.mem_of_find?_eq_some hq)
  · nomatch hdue

theorem Prompt.settle_eq (hs : s.Prompt) : s.settle = s.runAll.deliver := by
  rw [settle]
  split
  · rename_i due hdue
    rw [if_neg (Nat.not_lt_of_le (hs.feedDue?_le hdue))]
  · rfl

theorem task_deliver (c : Call Response Reply) : c.deliver.task = c.task := by
  rw [Call.deliver]
  split
  · split <;> rfl
  · split <;> rfl

theorem keeps_map (s : Session) {f : Submitted → Submitted}
    (hf : ∀ c, (f c).call.task = c.call.task) : s.Keeps { s with calls := s.calls.map f } := by
  refine ⟨rfl, rfl, rfl, rfl, rfl, rfl, List.length_map _, fun i => ?_⟩
  rw [aborting?, aborting?, call?, call?, List.getElem?_map]
  cases s.calls[i]? with
  | none => rfl
  | some c => simp only [Option.map_some, Option.bind_some, hf]

theorem keeps_deliver (s : Session) : s.Keeps s.deliver := by
  refine (s.keeps_map fun c => ?_).trans (keeps_resume _)
  split
  · exact task_deliver _
  · rfl

theorem Prompt.answered_desk (hs : s.Prompt) :
    s.desk.answered = (s.desk.queue.foldl answerOf s.desk).withQueue [] := by
  have hready : ∀ q ∈ s.desk.queue, s.desk.waits q = false := by
    intro q hq
    have hdue := hs.due q (List.mem_filter.mp hq).1
    exact Bool.eq_false_iff.mpr fun hwaits => Nat.not_lt_of_le hdue (lt_due_of_waits hwaits)
  have hall : s.desk.queue.filter (fun q => !s.desk.waits q) = s.desk.queue :=
    List.filter_eq_self.mpr fun q hq => by simp [hready q hq]
  have hnone : s.desk.queue.filter s.desk.waits = [] :=
    List.filter_eq_nil_iff.mpr fun q hq => by simp [hready q hq]
  rw [answered, hall, hnone]

theorem Books.Agrees.runAll (hb : b.Agrees s) : b.settle.Agrees s.runAll := by
  have hdesk := s.desk_runAll
  have hkeeps := keeps_of_desk_eq hdesk
  have hprompt := hb.prompt.runAll
  rw [hb.prompt.answered_desk] at hdesk
  have hfold : (s.desk.queue.foldl answerOf s.desk).server =
      .memory ((Store.empty.run b.applied).run
        ((b.waiting.filter Posted.applies).map Posted.request)) :=
    server_foldl_answerOf hb.server hb.queue hb.aborting
  generalize s.runAll = s' at hdesk hkeeps hprompt
  constructor
  · exact hprompt
  · have hserver : s'.desk.server = (s.desk.queue.foldl answerOf s.desk).server := by
      rw [hdesk]
      rfl
    rw [hfold, ← Store.run_append] at hserver
    rw [applied, Books.settle, List.filter_append, List.map_append]
    exact hserver
  · have hqueue : s'.queue.filter Queued.isAnswer = [] := congrArg Session.queue hdesk
    rw [hqueue]
    rfl
  · exact fun p hp => nomatch hp
  · exact hkeeps.calls.trans hb.calls
  · exact hkeeps.held.trans hb.held
  · exact (congrArg List.length hkeeps.further).trans hb.started
  · intro side
    rw [hkeeps.context]
    exact hb.running side

theorem Books.Agrees.deliver (hb : b.Agrees s) : b.Agrees s.deliver :=
  hb.keeps s.keeps_deliver rfl rfl

theorem Books.Agrees.settle (hb : b.Agrees s) : b.settle.Agrees s.settle := by
  rw [hb.prompt.settle_eq]
  exact hb.runAll.deliver

theorem settle_settle (b : Books) : b.settle.settle = b.settle := by
  rw [Books.settle, Books.settle, List.append_nil]

theorem Books.held_make (b : Books) (side : Side) (command : Command) (failure : Option Status) :
    (b.make side command failure).held = b.held := by
  rw [Books.make]
  split <;> rfl

theorem settle_abort (b : Books) (i : Nat) : b.settle.abort i = b.settle :=
  rfl

theorem Books.Agrees.advance (hb : b.Agrees s) (hwaiting : b.waiting = []) {q : Queued}
    (hq : q ∈ s.queue) : b.Agrees (s.advance q.due) := by
  have hmem : ∀ q', q' ∈ (s.advance q.due).queue ↔ q' ∈ s.queue := fun q' => List.mem_mergeSort
  have hnow : (s.advance q.due).now = s.now := Nat.max_eq_left (hb.prompt.due q hq)
  have hnone : s.queue.filter Queued.isAnswer = [] := by
    have hqueue := hb.queue
    rwa [hwaiting, List.map_nil, List.map_eq_nil_iff] at hqueue
  refine ⟨⟨hb.prompt.latency, fun q' hq' => ?_⟩, hb.server, ?_, hb.aborting, hb.calls, hb.held,
    hb.started, hb.running⟩
  · rw [hnow]
    exact hb.prompt.due q' ((hmem q').mp hq')
  · rw [hwaiting, List.map_nil, List.map_eq_nil_iff, List.filter_eq_nil_iff]
    exact fun q' hq' => List.filter_eq_nil_iff.mp hnone q' ((hmem q').mp hq')

theorem Books.Agrees.settleFor (hb : b.Agrees s) (test : Job → Bool) :
    b.settle.Agrees (s.settleFor test) := by
  rw [Session.settleFor]
  split
  · rename_i q hq
    have hagain := (hb.settle.advance rfl (List.mem_of_find?_eq_some hq)).settle
    rwa [settle_settle] at hagain
  · exact hb.settle

theorem Books.Agrees.settleCall (hb : b.Agrees s) (i : Nat) :
    b.settle.Agrees (s.settleCall i) := by
  rw [Session.settleCall]
  split
  · exact hb.settle
  · exact hb.settleFor _

theorem call?_addCall {i : Nat} (hi : i < s.calls.length) (side : Option Side)
    (call : Call Response Reply) : (s.addCall side call).call? i = s.call? i := by
  rw [call?, addCall, List.getElem?_append_left hi, call?]

theorem call?_addCall_length (s : Session) (side : Option Side) (call : Call Response Reply) :
    (s.addCall side call).call? s.calls.length = some call := by
  rw [call?, addCall, List.getElem?_concat_length]
  rfl

theorem Books.Agrees.addCall (hb : b.Agrees s) (hord : b.Ordered) (side : Option Side)
    (call : Call Response Reply) :
    ({ b with calls := b.calls + 1 } : Books).Agrees (s.addCall side call) := by
  refine ⟨⟨hb.prompt.latency, hb.prompt.due⟩, hb.server, hb.queue, fun p hp => ?_, ?_, hb.held,
    hb.started, hb.running⟩
  · have hlt : p.call < s.calls.length :=
      hb.calls ▸ hord.made _ (List.mem_map_of_mem (List.mem_append_right _ hp))
    rw [aborting?, call?_addCall hlt]
    exact hb.aborting p hp
  · rw [Session.addCall, List.length_append, hb.calls]
    rfl

theorem Books.Agrees.post (hb : b.Agrees s) (hord : b.Ordered) (side : Option Side)
    {call : Call Response Reply} {aborted : Bool}
    (hcall : call.task.map Call.Task.aborting = some aborted) (request : Request) :
    (b.post request s.failures.head? aborted).Agrees
      ((s.addCall side call).submit s.calls.length request) := by
  have hadded := hb.addCall hord side call
  have hnew : (s.addCall side call).aborting? b.calls = some aborted := by
    rw [← hb.calls, aborting?, call?_addCall_length]
    exact hcall
  rw [submit_eq hadded.server]
  refine ⟨⟨hadded.prompt.latency, fun q hq => ?_⟩, hadded.server, ?_, fun p hp => ?_, hadded.calls,
    hadded.held, hadded.started, hadded.running⟩
  · rcases List.mem_append.mp hq with hq | hq
    · exact hadded.prompt.due q hq
    · obtain rfl := List.mem_singleton.mp hq
      exact Nat.le_of_eq (by rw [hadded.prompt.latency, Nat.add_zero])
  · rw [List.filter_append, List.map_append, Books.post, List.map_append]
    rw [hadded.queue, ← hb.calls]
    rfl
  · rcases List.mem_append.mp hp with hp | hp
    · exact hadded.aborting p hp
    · obtain rfl := List.mem_singleton.mp hp
      exact hnew

theorem Books.Agrees.make (hb : b.Agrees s) (hord : b.Ordered) (side : Side) (command : Command) :
    (b.make side command s.failures.head?).Agrees (s.makeAt side command) := by
  rw [Books.make, makeAt]
  cases command.request with
  | error failure => exact hb.addCall hord _ _
  | ok request =>
      refine hb.post hord _ ?_ request
      rw [Call.submit, hb.running]
      cases b.running.contains side <;> rfl

theorem Books.Agrees.poll (hb : b.Agrees s) (i : Nat) : b.Agrees (s.poll i).1 := by
  rw [Session.poll]
  cases hcall : s.call? i with
  | none => exact hb
  | some c =>
      simp only [Option.map_some]
      refine hb.keeps (keeps_onCall s i (f := fun _ => c.poll.1) fun c' hc' => ?_) rfl rfl
      obtain rfl := Option.some.inj (hcall.symm.trans hc')
      rw [Call.poll]
      split <;> rfl

theorem aborting?_cancel (s : Session) (i j : Nat) :
    (s.cancel i).1.aborting? j =
      if i = j then (s.aborting? j).map fun _ => true else s.aborting? j := by
  rw [Session.cancel]
  cases hcall : s.call? i with
  | none =>
      by_cases hi : i = j
      · simp [aborting?, ← hi, hcall]
      · simp [hi]
  | some c =>
      simp only [Option.map_some, aborting?, call?_onCall]
      by_cases hi : i = j
      · subst hi
        cases htask : c.task <;> simp [hcall, htask, Call.cancel, Call.onTask, Call.Task.abort]
      · simp [hi]

theorem cancel_eq (s : Session) (i : Nat) :
    ∃ calls, calls.length = s.calls.length ∧ (s.cancel i).1 = { s with calls } := by
  rw [Session.cancel]
  cases s.call? i with
  | none => exact ⟨s.calls, rfl, rfl⟩
  | some c => exact ⟨_, List.length_modify .., rfl⟩

theorem Books.Agrees.cancel (hb : b.Agrees s) (i : Nat) :
    (b.abort i).Agrees (s.cancel i).1 := by
  have hjobs : (b.abort i).waiting.map Posted.job = b.waiting.map Posted.job := by
    rw [Books.abort, List.map_map]
    refine List.map_congr_left fun p _ => ?_
    simp only [Function.comp_apply]
    split <;> rfl
  have haborting : ∀ p ∈ (b.abort i).waiting, (s.cancel i).1.aborting? p.call = some p.aborted := by
    intro p' hp'
    obtain ⟨p, hp, rfl⟩ := List.mem_map.mp hp'
    rw [aborting?_cancel]
    have hwill := hb.aborting p hp
    by_cases hi : p.call = i
    · rw [hi] at hwill
      simp [hi, hwill]
    · simp [hi, Ne.symm hi, hwill]
  obtain ⟨calls, hlength, hcancel⟩ := s.cancel_eq i
  rw [hcancel] at haborting ⊢
  refine ⟨⟨hb.prompt.latency, hb.prompt.due⟩, hb.server, ?_, haborting, hlength.trans hb.calls,
    hb.held, hb.started, hb.running⟩
  rw [hjobs]
  exact hb.queue

theorem Books.Agrees.resume (hb : b.Agrees s) : b.Agrees s.resume :=
  hb.keeps s.keeps_resume rfl rfl

theorem Books.Agrees.complete (hb : b.Agrees s) (i : Nat) : b.settle.Agrees (s.complete i).1 := by
  rw [Session.complete]
  simp only
  split
  · exact (hb.settleCall i).poll i
  · exact hb.settleCall i

theorem Books.Agrees.continueWith (hb : b.Agrees s) (i : Nat) : b.Agrees (s.continueWith i) := by
  rw [Session.continueWith]
  split
  · have hgiven := s.keeps_continuations (s.continuations ++ [{ call := i }])
    exact (hb.keeps hgiven rfl rfl).resume
  · exact hb.keeps (s.keeps_continuations _) rfl rfl

theorem Books.Agrees.hold (hb : b.Agrees s) (held : List (Int × Nat)) :
    ({ b with held } : Books).Agrees { s with held } :=
  ⟨⟨hb.prompt.latency, hb.prompt.due⟩, hb.server, hb.queue, hb.aborting, hb.calls, rfl,
    hb.started, hb.running⟩

theorem task_stop (c : Call Response Reply) : c.stop.task = c.task := by
  rw [Call.stop]
  split <;> rfl

theorem keeps_stopCalls (s : Session) (side : Side) : s.Keeps (s.stopCalls side) := by
  refine (s.keeps_map fun c => ?_).trans (keeps_continuations _ _)
  split
  · exact task_stop _
  · rfl

theorem Books.Agrees.stopContext (hb : b.Agrees s) (side : Side) :
    (b.stop [side]).Agrees (s.stopContext side) := by
  have hrunning : ∀ other, ((s.stopContext side).context other).running =
      (b.stop [side]).running.contains other := by
    intro other
    rw [context_stopContext, Bool.eq_iff_iff, List.contains_iff_mem, Books.stop, List.mem_filter]
    by_cases hother : other = side
    · simp [hother, Context.stop]
    · simp [hother, hb.running]
  cases side <;>
    exact ⟨⟨hb.prompt.latency, hb.prompt.due⟩, hb.server, hb.queue, hb.aborting, hb.calls, hb.held,
      by simp [Session.stopContext, Books.stop, hb.started], hrunning⟩

theorem Books.Agrees.close (hb : b.Agrees s) (side : Side) :
    (b.stop [side]).Agrees (s.close side) := by
  have hdetached : b.Agrees (if side = .maintenance then s.detach.1 else s) := by
    split
    · exact hb.aside s.aside_detach
    · exact hb
  exact (hdetached.keeps (keeps_stopCalls _ side) rfl rfl).stopContext side

theorem Books.stop_cons (b : Books) (side : Side) (sides : List Side) :
    (b.stop [side]).stop sides = b.stop (side :: sides) := by
  rw [Books.stop, Books.stop, Books.stop, List.filter_filter]
  congr 2
  funext other
  simp [Bool.and_comm]

theorem Books.Agrees.foldl_close (hb : b.Agrees s) (sides : List Side) :
    (b.stop sides).Agrees (sides.foldl Session.close s) := by
  induction sides generalizing b s with
  | nil =>
      have hnone : b.stop [] = b := by simp [Books.stop]
      rw [hnone]
      exact hb
  | cons side sides ih =>
      have hrest := ih (hb.close side)
      rwa [Books.stop_cons] at hrest

theorem Books.Agrees.start (hb : b.Agrees s) (name : String) :
    (b.step none (.start name)).Agrees { s with further := s.further ++ [{ name }] } := by
  refine ⟨⟨hb.prompt.latency, hb.prompt.due⟩, hb.server, hb.queue, hb.aborting, hb.calls, hb.held,
    ?_, fun other => ?_⟩
  · rw [List.length_append, hb.started]
    rfl
  · rw [context_start, Books.step, List.contains_append, ← hb.running, ← hb.started]
    split
    · rename_i hother
      simp [hother]
    · rename_i hother
      simp [hother]

theorem Books.Agrees.observe (hb : b.Agrees s) (o : Observer) :
    b.settle.Agrees (s.observe o) := by
  rw [Session.observe]
  generalize ({ o with stream := _ } : Observer) = o
  have hseen := hb.aside (s.aside_observers (s.observers ++ [o]))
  exact (hseen.aside (aside_ask _ _)).settleFor _

theorem Books.Agrees.callAt (hb : b.Agrees s) (hord : b.Ordered) (side : Side) (command : Command)
    (mode : Mode) :
    (b.call side command s.failures.head? mode).Agrees (s.callAt side command mode).1 := by
  have hmade := hb.make hord side command
  cases mode with
  | await => exact (hmade.settleCall _).poll _
  | cancel =>
      rw [Books.call, ← hb.calls]
      exact ((hmade.cancel _).poll _).settle
  | lateCancel =>
      -- All has run by then, so that nothing is taken back.
      have hlate := (hmade.settle.cancel s.calls.length).poll s.calls.length
      rw [settle_abort] at hlate
      simp only [Session.callAt, Books.call]
      exact hlate
  | drop => exact hmade.settle
  | onComplete => exact hmade.complete _
  | hold id =>
      have hheld := hmade.hold ((id, s.calls.length) :: (s.makeAt side command).held)
      have hsame : (s.makeAt side command).held = b.held :=
        hmade.held.trans (b.held_make side command _)
      rw [Books.call, ← hb.calls, ← hsame]
      exact hheld
  | letGo => exact hmade
  | continueWith => exact hmade.continueWith _

theorem Books.Agrees.useHeld (hb : b.Agrees s) (id : Int) (use : Use) :
    (b.useHeld id use).Agrees (s.useHeld id use).1 := by
  rw [Books.useHeld, Session.useHeld, ← hb.held]
  cases s.held.lookup id with
  | none => exact hb
  | some i =>
      have hforgot := hb.hold (s.held.filter fun h => h.1 ≠ id)
      rw [hb.held] at hforgot
      cases use with
      | await => exact (hb.settleCall i).poll i
      | onComplete =>
          rw [hb.held]
          exact hforgot.complete i
      | cancel => exact hb.cancel i
      | isCancelled => exact hb
      | debug => exact hb
      | drop =>
          rw [hb.held]
          exact hforgot
      | poll => exact hb.poll i
      | continueWith =>
          rw [hb.held]
          exact hforgot.continueWith i

theorem Books.Agrees.rpc (hb : b.Agrees s) (hord : b.Ordered) (request : Request) :
    (b.post request s.failures.head? false).settle.Agrees (s.rpc request).1 := by
  rw [Session.rpc]
  exact (hb.post hord none rfl request).settleCall _

theorem Books.Agrees.step (hb : b.Agrees s) (hord : b.Ordered) {step : Step}
    (hstep : ∀ ms, step = .latency ms → ms = 0) :
    (b.step s.failures.head? step).Agrees (s.step step).1 := by
  cases step <;> simp only [Session.step, Books.step]
  case call command mode => exact hb.callAt hord command.side command mode
  case callAt client command mode => exact hb.callAt hord (.further client) command mode
  case held id use => exact hb.useHeld id use
  case rpc request => exact hb.rpc hord request
  case drive => exact hb.settle
  case failNext status =>
    exact ⟨⟨hb.prompt.latency, hb.prompt.due⟩, hb.server, hb.queue, hb.aborting, hb.calls, hb.held,
      hb.started, hb.running⟩
  case latency ms =>
    exact ⟨⟨hstep ms rfl, hb.prompt.due⟩, hb.server, hb.queue, hb.aborting, hb.calls, hb.held,
      hb.started, hb.running⟩
  case close sides => exact hb.foldl_close sides
  case debug => exact hb
  case attach detachAt swapAt => exact hb.aside (s.aside_attach detachAt swapAt)
  case snapshot detachAt swapAt => exact (hb.aside (s.aside_attach detachAt swapAt)).settle
  case detach => exact hb.aside s.aside_detach
  case observe o => exact hb.observe o
  case start name => exact hb.start name
  case cancelHandle i => exact (hb.cancel i).resume
  case listen i => exact hb

theorem Books.posted_settle (b : Books) : b.settle.posted = b.posted := by
  rw [posted, Books.settle, List.append_nil, posted]

theorem Books.posted_abort (b : Books) (i : Nat) : (b.abort i).posted = b.posted := by
  rw [posted, posted, abort, List.map_append, List.map_append, List.map_map]
  congr 1
  refine List.map_congr_left fun p _ => ?_
  simp only [Function.comp_apply]
  split <;> rfl

theorem Books.Ordered.of_posted {b' : Books} (hb : b.Ordered) (hposted : b'.posted = b.posted)
    (hcalls : b'.calls = b.calls) : b'.Ordered := by
  constructor
  · rw [hposted]
    exact hb.ascending
  · rw [hposted, hcalls]
    exact hb.made

theorem Books.Ordered.settle (hb : b.Ordered) : b.settle.Ordered :=
  hb.of_posted b.posted_settle rfl

theorem Books.Ordered.abort (hb : b.Ordered) (i : Nat) : (b.abort i).Ordered :=
  hb.of_posted (b.posted_abort i) rfl

theorem Books.Ordered.post (hb : b.Ordered) (request : Request) (failure : Option Status)
    (aborted : Bool) : (b.post request failure aborted).Ordered := by
  have hposted : (b.post request failure aborted).posted = b.posted ++ [b.calls] := by
    simp [posted, Books.post]
  constructor
  · rw [hposted, List.pairwise_append]
    refine ⟨hb.ascending, List.pairwise_singleton .., fun i hi j hj => ?_⟩
    obtain rfl := List.mem_singleton.mp hj
    exact hb.made i hi
  · intro i hi
    rw [hposted] at hi
    rcases List.mem_append.mp hi with hi | hi
    · exact Nat.lt_succ_of_lt (hb.made i hi)
    · obtain rfl := List.mem_singleton.mp hi
      exact Nat.lt_succ_self _

theorem Books.Ordered.make (hb : b.Ordered) (side : Side) (command : Command)
    (failure : Option Status) : (b.make side command failure).Ordered := by
  rw [Books.make]
  split
  · exact hb.post ..
  · exact ⟨hb.ascending, fun i hi => Nat.lt_succ_of_lt (hb.made i hi)⟩

theorem Books.Ordered.call (hb : b.Ordered) (side : Side) (command : Command)
    (failure : Option Status) (mode : Mode) : (b.call side command failure mode).Ordered := by
  have hmade := hb.make side command failure
  cases mode with
  | cancel => exact (hmade.abort _).settle
  | hold id => exact hmade.of_posted rfl rfl
  | letGo => exact hmade
  | continueWith => exact hmade
  | _ => exact hmade.settle

theorem Books.Ordered.step (hb : b.Ordered) (failure : Option Status) (step : Step) :
    (b.step failure step).Ordered := by
  cases step with
  | call command mode => exact hb.call command.side command failure mode
  | callAt client command mode => exact hb.call (.further client) command failure mode
  | held id use =>
      rw [Books.step, Books.useHeld]
      cases b.held.lookup id with
      | none => exact hb
      | some i =>
          cases use with
          | await => exact hb.settle
          | onComplete => exact (hb.of_posted rfl rfl : (b.forget id).Ordered).settle
          | cancel => exact hb.abort i
          | drop => exact hb.of_posted rfl rfl
          | continueWith => exact hb.of_posted rfl rfl
          | _ => exact hb
  | rpc request => exact (hb.post ..).settle
  | drive => exact hb.settle
  | snapshot detachAt swapAt => exact hb.settle
  | observe o => exact hb.settle
  | close sides => exact hb.of_posted rfl rfl
  | start name => exact hb.of_posted rfl rfl
  | cancelHandle i => exact hb.abort i
  | _ => exact hb

theorem Books.Agrees.after {steps : List Step} (hb : b.Agrees s) (hord : b.Ordered)
    (hsteps : ∀ ms, .latency ms ∈ steps → ms = 0) :
    (s.books b steps).Agrees (s.after steps) ∧ (s.books b steps).Ordered := by
  induction steps generalizing b s with
  | nil => exact ⟨hb, hord⟩
  | cons step steps ih =>
      have hstep := hb.step hord fun ms hms => hsteps ms (hms ▸ List.mem_cons_self)
      exact ih hstep (hord.step _ step) fun ms hms => hsteps ms (List.mem_cons_of_mem _ hms)

end Agrees

theorem agrees_new (threadPrefix : String) (size : Nat) :
    ({} : Books).Agrees (Session.new threadPrefix (.memory .empty) size) where
  prompt := ⟨rfl, fun _ hq => nomatch hq⟩
  server := rfl
  queue := rfl
  aborting _ hp := nomatch hp
  calls := rfl
  held := rfl
  started := rfl
  running side := by cases side <;> rfl

theorem Books.Agrees.store?_after {b : Books} {s : Session} {steps : List Step} (hb : b.Agrees s)
    (hord : b.Ordered) (hsteps : ∀ ms, .latency ms ∈ steps → ms = 0) :
    (s.after steps).store? = some (Store.empty.run (s.books b steps).applied) := by
  rw [store?, (hb.after hord hsteps).1.server]

/-- Once a session is settled, it does not matter to the store how its callers went on. -/
structure Indifferent (s : Session) : Prop where
  mode : ∀ command mode, mode ≠ .cancel →
    (s.after [.call command mode, .drive]).store? = (s.after [.call command .drop]).store?
  modeAt : ∀ client command mode, mode ≠ .cancel →
    (s.after [.callAt client command mode, .drive]).store? =
      (s.after [.callAt client command .drop]).store?
  use : ∀ id use, use ≠ .cancel →
    (s.after [.held id use, .drive]).store? = (s.after [.drive]).store?
  /-- A call that was cancelled when its request had run. -/
  late : ∀ id use, (s.after [.drive, .held id use]).store? = (s.after [.drive]).store?
  lateHandle : ∀ i, (s.after [.drive, .cancelHandle i]).store? = (s.after [.drive]).store?
  close : ∀ sides, (s.after [.close sides, .drive]).store? = (s.after [.drive]).store?

theorem Books.applied_settle_call (b : Books) (side : Side) (command : Command)
    (failure : Option Status) {mode : Mode} (hmode : mode ≠ .cancel) :
    (b.call side command failure mode).settle.applied =
      (b.make side command failure).settle.applied := by
  cases mode with
  | cancel => exact absurd rfl hmode
  | hold id => rfl
  | letGo => rfl
  | continueWith => rfl
  | _ => exact congrArg applied (settle_settle _)

theorem Books.applied_settle_useHeld (b : Books) (id : Int) {use : Use} (huse : use ≠ .cancel) :
    (b.useHeld id use).settle.applied = b.settle.applied := by
  rw [useHeld]
  cases b.held.lookup id with
  | none => rfl
  | some i =>
      cases use with
      | cancel => exact absurd rfl huse
      | await => exact congrArg applied (settle_settle b)
      | onComplete =>
          have hagain := congrArg applied (settle_settle (b.forget id))
          exact hagain
      | _ => rfl

theorem Books.applied_useHeld_settle (b : Books) (id : Int) (use : Use) :
    (b.settle.useHeld id use).applied = b.settle.applied := by
  rw [useHeld]
  cases b.settle.held.lookup id with
  | none => rfl
  | some i =>
      cases use with
      | await => exact congrArg applied (settle_settle b)
      | onComplete =>
          have hagain := congrArg applied (settle_settle (b.forget id))
          exact hagain
      | _ => rfl

theorem Books.Agrees.indifferent {b : Books} {s : Session} (hb : b.Agrees s) (hord : b.Ordered) :
    s.Indifferent := by
  constructor
  · intro command mode hmode
    rw [hb.store?_after hord (by simp), hb.store?_after hord (by simp)]
    exact congrArg (some <| Store.empty.run ·) (b.applied_settle_call _ command _ hmode)
  · intro client command mode hmode
    rw [hb.store?_after hord (by simp), hb.store?_after hord (by simp)]
    exact congrArg (some <| Store.empty.run ·) (b.applied_settle_call _ command _ hmode)
  · intro id use huse
    rw [hb.store?_after hord (by simp), hb.store?_after hord (by simp)]
    exact congrArg (some <| Store.empty.run ·) (b.applied_settle_useHeld id huse)
  · intro id use
    rw [hb.store?_after hord (by simp), hb.store?_after hord (by simp)]
    exact congrArg (some <| Store.empty.run ·) (b.applied_useHeld_settle id use)
  · intro i
    rw [hb.store?_after hord (by simp), hb.store?_after hord (by simp)]
    rfl
  · intro sides
    rw [hb.store?_after hord (by simp), hb.store?_after hord (by simp)]
    have hclosed : (s.books b [.close sides, .drive]).applied = b.settle.applied := rfl
    rw [hclosed]
    rfl

/-- Whatever steps a session takes, the store is what the requests make of it that were sent and
ran, in their order, each of them once; but those that were taken back or given a failure make
nothing of it. How a caller goes on with a call has no part in it. -/
theorem store_follows_books (threadPrefix : String) (size : Nat) (steps : List Step)
    (hsteps : ∀ ms, .latency ms ∈ steps → ms = 0) :
    let s := Session.new threadPrefix (.memory .empty) size
    (s.after steps).store? = some (Store.empty.run (s.books {} steps).applied) ∧
      (s.books {} steps).posted.Pairwise (· < ·) ∧ (s.after steps).Indifferent := by
  intro s
  have hnew : ({} : Books).Ordered := ⟨.nil, fun _ hi => nomatch hi⟩
  obtain ⟨hagrees, hordered⟩ := (agrees_new threadPrefix size).after hnew hsteps
  exact ⟨(agrees_new threadPrefix size).store?_after hnew hsteps, hordered.ascending,
    hagrees.indifferent hordered⟩

/-- Of nine writes the first is held, the second is dropped and the third given to a continuation,
and both of them are cancelled by their handles. The fourth is cancelled once it ran, the fifth
takes a failure, the sixth is made by another client, the seventh is given to a continuation before
its client is closed, and the last two come too late. -/
theorem store_follows_books_of_each_mode :
    let s := Session.new "" (.memory .empty) 0
    let write (n : UInt8) : Command := .put [n] [] {}
    let steps : List Step := [.call (write 1) (.hold 1), .call (write 2) .letGo, .cancelHandle 1,
      .call (write 3) .continueWith, .cancelHandle 2, .call (write 4) .lateCancel,
      .failNext { code := .unavailable, message := "" }, .call (write 5) .await, .start "",
      .callAt 0 (write 6) .letGo, .call (write 7) .continueWith, .close [.kv],
      .call (write 8) .drop, .close [.further 0], .callAt 0 (write 9) .drop]
    ((s.after steps).store? = some (Store.empty.run (s.books {} steps).applied) ∧
      (s.books {} steps).posted.Pairwise (· < ·) ∧ (s.after steps).Indifferent) ∧
    (s.books {} steps).applied = [.put { key := [1] }, .put { key := [4] }, .put { key := [6] },
      .put { key := [7] }] ∧
    (s.after steps).continuations.map Continuation.told =
      [some (.error .cancelled, .context), some (.error .contextShutdown, .context)] := by
  intro s write steps
  refine ⟨store_follows_books "" 0 steps (by simp [steps]), by decide +kernel, ?_⟩
  decide +kernel

end Keyspace.Session
