import Keyspace.Proofs.WatchedSlotMoves
import Keyspace.Session.Step

/-!
What settling a session makes of its calls and of the server. Snapshots leave both alone: on the
desk of a session, where nothing of them is kept, settling answers the requests that can be answered
in the order of the queue, and leaves the others.
-/

namespace Keyspace.Session

open Snapshot

def Queued.isAnswer (q : Queued) : Bool :=
  match q.job with
  | .answer .. => true
  | .feed .. => false

/-- Jobs for snapshots, to be run as soon as what is sent now. -/
def Feeds (s : Session) (added : List Queued) : Prop :=
  ∀ q ∈ added, q.isAnswer = false ∧ q.due = s.now + s.latency

theorem feeds_nil (s : Session) : s.Feeds [] :=
  fun _ hq => absurd hq List.not_mem_nil

theorem ask_eq (s : Session) (listener : Listener) :
    ∃ failures sent added, s.Feeds added ∧
      s.ask listener = { s with failures, sent, queue := s.queue ++ added } := by
  unfold ask
  cases s.server with
  | memory store =>
      refine ⟨_, _, _, ?_, rfl⟩
      intro q hq
      obtain rfl := List.mem_singleton.mp hq
      exact ⟨rfl, rfl⟩
  | script answers =>
      exact ⟨s.failures, s.sent ++ [.snapshot], [], s.feeds_nil, by rw [List.append_nil]⟩

theorem foldl_ask_eq (streams : List Nat) (s : Session) :
    ∃ failures sent added, s.Feeds added ∧
      streams.foldl (fun s i => s.ask (.slot i)) s =
        { s with failures, sent, queue := s.queue ++ added } := by
  induction streams generalizing s with
  | nil => exact ⟨s.failures, s.sent, [], s.feeds_nil, by rw [List.append_nil]; rfl⟩
  | cons i streams ih =>
      obtain ⟨failures, sent, added, hfeeds, hask⟩ := s.ask_eq (.slot i)
      rw [List.foldl_cons, hask]
      obtain ⟨failures', sent', added', hfeeds', hasks⟩ :=
        ih { s with failures, sent, queue := s.queue ++ added }
      refine ⟨failures', sent', added ++ added', ?_, ?_⟩
      · intro q hq
        rcases List.mem_append.mp hq with hq | hq
        · exact hfeeds q hq
        · exact hfeeds' q hq
      · rw [hasks, List.append_assoc]

def Seen.ofHeard (e : String × Event) : Seen :=
  .callback e.1 e.2

theorem onWatch_eq (s : Session) (f : Watch → Watch) :
    ∃ failures sent added, s.Feeds added ∧
      s.onWatch f =
        { s with watch := { f s.watch with log := [] },
                 seen := s.seen ++ (f s.watch).heard.map Seen.ofHeard,
                 failures, sent, queue := s.queue ++ added } := by
  have hseen : (f s.watch).log.filterMap Seen.ofEntry? =
      (f s.watch).heard.map Seen.ofHeard := by
    rw [Watch.heard, List.map_filterMap]
    congr 1
    funext e
    cases e <;> rfl
  obtain ⟨failures, sent, added, hfeeds, hasks⟩ := foldl_ask_eq
    ((List.range (f s.watch).slot.streams.length).drop s.watch.slot.streams.length)
    { s with watch := { f s.watch with log := [] },
             seen := s.seen ++ (f s.watch).heard.map Seen.ofHeard }
  refine ⟨failures, sent, added, hfeeds, ?_⟩
  rw [onWatch]
  simp only [hseen]
  exact hasks

/-- Only what belongs to snapshots differs: jobs for them may be added to the queue. -/
def Aside (s s' : Session) : Prop :=
  ∃ failures watch observers sent seen added, s.Feeds added ∧
    s' = { s with failures, watch, observers, sent, seen, queue := s.queue ++ added }

theorem Aside.refl (s : Session) : s.Aside s :=
  ⟨s.failures, s.watch, s.observers, s.sent, s.seen, [], s.feeds_nil, by rw [List.append_nil]⟩

theorem aside_observers (s : Session) (observers : List Observer) :
    s.Aside { s with observers } :=
  ⟨s.failures, s.watch, observers, s.sent, s.seen, [], s.feeds_nil, by rw [List.append_nil]⟩

theorem aside_ask (s : Session) (listener : Listener) : s.Aside (s.ask listener) := by
  obtain ⟨failures, sent, added, hfeeds, hask⟩ := s.ask_eq listener
  exact ⟨failures, s.watch, s.observers, sent, s.seen, added, hfeeds, hask⟩

theorem aside_onWatch (s : Session) (f : Watch → Watch) : s.Aside (s.onWatch f) := by
  obtain ⟨failures, sent, added, hfeeds, hwatch⟩ := s.onWatch_eq f
  exact ⟨failures, _, s.observers, sent, _, added, hfeeds, hwatch⟩

theorem aside_attach (s : Session) (detachAt swapAt : Option Nat) :
    s.Aside (s.attach detachAt swapAt) :=
  s.aside_onWatch _

theorem aside_detach (s : Session) : s.Aside s.detach.1 :=
  s.aside_onWatch fun w => (w.step .detach).1

theorem aside_hear (s : Session) (listener : Listener) (signal : Signal) :
    s.Aside (s.hear listener signal) := by
  cases listener with
  | slot i => exact s.aside_onWatch fun w => (w.step (.send i signal)).1
  | observer i =>
      exact ⟨s.failures, s.watch, s.observers.modify i fun o => o.hear signal, s.sent,
        s.seen ++ [.observer signal], [], s.feeds_nil, by rw [List.append_nil]; rfl⟩

theorem aside_send (s : Session) (listener : Listener) (failure : Option Status)
    (feed : Option Feed) : s.Aside (s.send listener failure feed).1 := by
  rw [send]
  split
  · exact .refl s
  · exact s.aside_hear listener _

theorem aside_runJob (s : Session) {q : Queued} (hq : q.isAnswer = false) :
    s.Aside (s.runJob q).1 ∧ ∀ left ∈ (s.runJob q).2, left.isAnswer = false ∧ left.due = q.due := by
  obtain ⟨due, delayed, job⟩ := q
  cases job with
  | answer i request given => nomatch hq
  | feed listener failure feed =>
      rw [runJob]
      simp only
      split
      · exact ⟨.refl s, fun _ hleft => nomatch hleft⟩
      · split
        · refine ⟨.refl s, fun left hleft => ?_⟩
          obtain rfl := Option.some.inj hleft
          exact ⟨rfl, rfl⟩
        · refine ⟨s.aside_send listener failure feed, fun left hleft => ?_⟩
          obtain ⟨job, hjob, rfl⟩ := Option.map_eq_some_iff.mp hleft
          rw [send] at hjob
          split at hjob
          · nomatch hjob
          · obtain ⟨rest, -, rfl⟩ := Option.map_eq_some_iff.mp hjob
            exact ⟨rfl, rfl⟩

theorem submit_eq {s : Session} {store : Store} (hserver : s.server = .memory store) (i : Nat)
    (request : Request) :
    s.submit i request =
      { s with
        sent := s.sent ++ [.request request]
        failures := s.failures.tail
        queue := s.queue ++ [{ due := s.now + s.latency, delayed := s.latency ≠ 0,
                               job := .answer i request (s.failures.head?.map .error) }] } := by
  obtain ⟨kv, maintenance, server, _, _, _, failures, _⟩ := s
  subst hserver
  cases failures <;> rfl

/-- The session without its snapshots. What they may use up is not there either. -/
def desk (s : Session) : Session :=
  { s with queue := s.queue.filter Queued.isAnswer, watch := {}, observers := [], sent := [],
           seen := [], failures := [] }

theorem desk_desk (s : Session) : s.desk.desk = s.desk := by
  simp only [desk, List.filter_filter, Bool.and_self]

theorem Aside.desk {s s' : Session} (h : s.Aside s') : s'.desk = s.desk := by
  obtain ⟨failures, watch, observers, sent, seen, added, hfeeds, rfl⟩ := h
  have hnone : added.filter Queued.isAnswer = [] := by
    rw [List.filter_eq_nil_iff]
    intro q hq
    simp [(hfeeds q hq).1]
  simp only [Session.desk, List.filter_append, hnone, List.append_nil]

/-- Whether the end of the task of the call at a place was asked for, if it has one. -/
def aborting? (s : Session) (i : Nat) : Option Bool :=
  (s.call? i).bind fun c => c.task.map Call.Task.aborting

theorem any_aborting (s : Session) (i : Nat) :
    (s.call? i).any (fun c => c.task.any Call.Task.aborting) = (s.aborting? i == some true) := by
  rw [aborting?]
  cases s.call? i with
  | none => rfl
  | some c => cases htask : c.task <;> simp [htask]

/-- The request is not answered yet. While it is put off, its task can be aborted. -/
def waits (s : Session) (q : Queued) : Bool :=
  match q.job with
  | .answer i _ _ => s.now < q.due && s.aborting? i != some true
  | .feed .. => false

def answerOf (s : Session) (q : Queued) : Session :=
  match q.job with
  | .answer i request given => s.answer i request given
  | .feed .. => s

theorem runJob_eq (s : Session) {q : Queued} (hq : q.isAnswer = true) :
    s.runJob q = if s.waits q then (s, some q) else (s.answerOf q, none) := by
  obtain ⟨due, delayed, job⟩ := q
  cases job with
  | answer i request given =>
      simp only [runJob, waits, answerOf, any_aborting]
      congr 1
      simp
  | feed listener failure feed => nomatch hq

/-- What answering a request makes of a session: at most the server changes, and a task ends. -/
inductive Answers (s : Session) : Session → Prop
  | unanswered : Answers s s
  | ended (server : Server) (i : Nat) (own : Option (Ending Response)) :
      Answers s ({ s with server }.onCall i fun c => c.onTask fun t => t.run own)

theorem answers_answerOf (s : Session) (q : Queued) : s.Answers (s.answerOf q) := by
  obtain ⟨due, delayed, job⟩ := q
  cases job with
  | feed listener failure feed => exact .unanswered
  | answer i request given =>
      simp only [answerOf, answer]
      split
      · exact .ended s.server i none
      · split
        · exact .ended s.server i _
        · exact .ended _ i _
        · exact .unanswered

theorem call?_onCall (s : Session) (i j : Nat) (f : Call Response Reply → Call Response Reply) :
    (s.onCall i f).call? j = (s.call? j).map fun c => if i = j then f c else c := by
  rw [call?, onCall, List.getElem?_modify, call?]
  cases s.calls[j]? with
  | none => rfl
  | some c => by_cases hi : i = j <;> simp [hi]

theorem aborting_run (t : Call.Task α) (own : Option (Ending α)) :
    (t.run own).aborting = t.aborting := by
  rw [Call.Task.run]
  split
  · rfl
  · split <;> rfl

/-- Neither the contexts and the time nor what is held differ, and every call is there with the
same will to end its task. -/
structure Keeps (s s' : Session) : Prop where
  kv : s'.kv = s.kv
  maintenance : s'.maintenance = s.maintenance
  further : s'.further = s.further
  latency : s'.latency = s.latency
  now : s'.now = s.now
  held : s'.held = s.held
  calls : s'.calls.length = s.calls.length
  aborting : ∀ i, s'.aborting? i = s.aborting? i

theorem Keeps.refl (s : Session) : s.Keeps s :=
  ⟨rfl, rfl, rfl, rfl, rfl, rfl, rfl, fun _ => rfl⟩

theorem Keeps.trans {s s' s'' : Session} (h : s.Keeps s') (h' : s'.Keeps s'') : s.Keeps s'' where
  kv := h'.kv.trans h.kv
  maintenance := h'.maintenance.trans h.maintenance
  further := h'.further.trans h.further
  latency := h'.latency.trans h.latency
  now := h'.now.trans h.now
  held := h'.held.trans h.held
  calls := h'.calls.trans h.calls
  aborting i := (h'.aborting i).trans (h.aborting i)

theorem Keeps.context {s s' : Session} (h : s.Keeps s') (side : Side) :
    s'.context side = s.context side := by
  cases side with
  | kv => exact h.kv
  | maintenance => exact h.maintenance
  | further client => rw [Session.context, Session.context, h.further]

theorem Keeps.waits {s s' : Session} (h : s.Keeps s') : s'.waits = s.waits := by
  funext q
  rw [Session.waits, Session.waits, h.now]
  simp only [h.aborting]

theorem keeps_continuations (s : Session) (continuations : List Continuation) :
    s.Keeps { s with continuations } :=
  ⟨rfl, rfl, rfl, rfl, rfl, rfl, rfl, fun _ => rfl⟩

theorem keeps_resume (s : Session) : s.Keeps s.resume :=
  s.keeps_continuations _

theorem keeps_onCall (s : Session) (i : Nat) {f : Call Response Reply → Call Response Reply}
    (hf : ∀ c, s.call? i = some c →
      (f c).task.map Call.Task.aborting = c.task.map Call.Task.aborting) :
    s.Keeps (s.onCall i f) := by
  refine ⟨rfl, rfl, rfl, rfl, rfl, rfl, List.length_modify .., fun j => ?_⟩
  rw [aborting?, call?_onCall, aborting?]
  cases hcall : s.call? j with
  | none => rfl
  | some c =>
      by_cases hi : i = j
      · simp [hi, hf c (hi ▸ hcall)]
      · simp [hi]

theorem Answers.keeps {s s' : Session} (h : s.Answers s') : s.Keeps s' := by
  cases h with
  | unanswered => exact .refl s
  | ended server i own =>
      have hserver : s.Keeps { s with server } := ⟨rfl, rfl, rfl, rfl, rfl, rfl, rfl, fun _ => rfl⟩
      refine hserver.trans (keeps_onCall _ i fun c _ => ?_)
      cases htask : c.task <;> simp [Call.onTask, htask, aborting_run]

theorem keeps_foldl_answerOf (jobs : List Queued) (s : Session) :
    s.Keeps (jobs.foldl answerOf s) := by
  induction jobs generalizing s with
  | nil => exact .refl s
  | cons q jobs ih => exact (s.answers_answerOf q).keeps.trans (ih _)

theorem context_stopContext (s : Session) (side other : Side) :
    (s.stopContext side).context other =
      if other = side then (s.context other).stop else s.context other := by
  cases side with
  | kv => cases other <;> simp [stopContext, context]
  | maintenance => cases other <;> simp [stopContext, context]
  | further client =>
      cases other with
      | kv => simp [stopContext, context]
      | maintenance => simp [stopContext, context]
      | further client' =>
          simp only [stopContext, context, List.getD_eq_getElem?_getD, List.getElem?_modify,
            Side.further.injEq]
          by_cases hsame : client = client'
          · subst hsame
            cases s.further[client]? <;> simp [Context.stop]
          · simp [hsame, Ne.symm hsame]

theorem context_start (s : Session) (name : String) (other : Side) :
    ({ s with further := s.further ++ [{ name }] } : Session).context other =
      if other = .further s.further.length then { name } else s.context other := by
  cases other with
  | kv => rfl
  | maintenance => rfl
  | further client =>
      simp only [context, List.getD_eq_getElem?_getD, Side.further.injEq]
      rcases Nat.lt_trichotomy client s.further.length with hlt | rfl | hgt
      · rw [List.getElem?_append_left hlt, if_neg (Nat.ne_of_lt hlt)]
      · simp
      · have hlength : (s.further ++ [({ name } : Context)]).length ≤ client := by
          rw [List.length_append]
          exact hgt
        rw [List.getElem?_eq_none hlength, List.getElem?_eq_none (Nat.le_of_lt hgt),
          if_neg (Nat.ne_of_gt hgt)]

theorem answerOf_comm (f : Session → Session) (hserver : ∀ s, (f s).server = s.server)
    (hcall : ∀ s i, (f s).call? i = s.call? i)
    (hset : ∀ s server, ({ f s with server } : Session) = f { s with server })
    (honCall : ∀ s i g, (f s).onCall i g = f (s.onCall i g)) (s : Session) (q : Queued) :
    (f s).answerOf q = f (s.answerOf q) := by
  obtain ⟨due, delayed, job⟩ := q
  cases job with
  | feed listener failure feed => rfl
  | answer i request given =>
      simp only [answerOf, answer, hcall, hserver]
      split
      · exact honCall s i _
      · cases given with
        | some answer => exact honCall s i _
        | none =>
            cases s.server with
            | memory store => simp only [hset, honCall]
            | script answers => rfl

theorem desk_answerOf (s : Session) (q : Queued) : (s.answerOf q).desk = s.desk.answerOf q :=
  (answerOf_comm desk (fun _ => rfl) (fun _ _ => rfl) (fun _ _ => rfl) (fun _ _ _ => rfl) s q).symm

theorem waits_desk (s : Session) (q : Queued) : s.desk.waits q = s.waits q :=
  rfl

def withQueue (s : Session) (queue : List Queued) : Session :=
  { s with queue }

/-- Answers what can be answered, in the order of the queue. -/
def answered (s : Session) : Session :=
  ((s.queue.filter fun q => !s.waits q).foldl answerOf s).withQueue (s.queue.filter s.waits)

theorem waits_of_desk_eq {s s' : Session} (h : s'.desk = s.desk) : s'.waits = s.waits := by
  funext q
  rw [← waits_desk, h, waits_desk]

theorem desk_runJobs (jobs : List Queued) (s : Session) :
    (s.runJobs jobs).1.desk =
        ((jobs.filter Queued.isAnswer).filter fun q => !s.waits q).foldl answerOf s.desk ∧
      (s.runJobs jobs).2.filter Queued.isAnswer =
        (jobs.filter Queued.isAnswer).filter s.waits := by
  induction jobs generalizing s with
  | nil => exact ⟨rfl, rfl⟩
  | cons q jobs ih =>
      rw [runJobs]
      by_cases hq : q.isAnswer = true
      · rw [s.runJob_eq hq, List.filter_cons_of_pos hq]
        by_cases hwaits : s.waits q = true
        · obtain ⟨hdesk, hleft⟩ := ih s
          simp [hwaits, hq, hdesk, hleft]
        · obtain ⟨hdesk, hleft⟩ := ih (s.answerOf q)
          rw [(s.answers_answerOf q).keeps.waits] at hdesk hleft
          simp [hwaits, hdesk, hleft, desk_answerOf]
      · obtain ⟨haside, hmore⟩ := s.aside_runJob (Bool.eq_false_iff.mpr hq)
        obtain ⟨hdesk, hleft⟩ := ih (s.runJob q).1
        have hnone : (s.runJob q).2.toList.filter Queued.isAnswer = [] := by
          rw [List.filter_eq_nil_iff]
          intro left hleft
          simp [(hmore left (Option.mem_toList.mp hleft)).1]
        rw [waits_of_desk_eq haside.desk] at hdesk hleft
        rw [haside.desk] at hdesk
        rw [List.filter_cons_of_neg hq, List.filter_append, hnone, List.nil_append]
        exact ⟨hdesk, hleft⟩

theorem calls_deliver (s : Session) :
    s.deliver.calls = s.calls.map fun c =>
      if c.side.any fun side => (s.context side).running then { c with call := c.call.deliver }
      else c :=
  rfl

theorem rounds_succ (n : Nat) (s : Session) :
    rounds (n + 1) s =
      ((rounds n ((s.withQueue []).runJobs s.queue).1).1,
        ((s.withQueue []).runJobs s.queue).2 ++
          (rounds n ((s.withQueue []).runJobs s.queue).1).2) :=
  rfl

theorem desk_rounds_of_idle (n : Nat) {s : Session} (hs : s.desk.queue = []) :
    (rounds n s).1.desk = s.desk ∧ (rounds n s).2.filter Queued.isAnswer = [] := by
  induction n generalizing s with
  | zero => exact ⟨rfl, rfl⟩
  | succ n ih =>
      have hnone : s.queue.filter Queued.isAnswer = [] := hs
      obtain ⟨hdesk, hleft⟩ := desk_runJobs s.queue (s.withQueue [])
      rw [hnone] at hdesk hleft
      have hsame : (s.withQueue []).desk = s.desk := by
        simp only [desk, hnone, withQueue, List.filter_nil]
      rw [hsame] at hdesk
      obtain ⟨hdesk', hleft'⟩ := ih (s := ((s.withQueue []).runJobs s.queue).1)
        (by rw [hdesk]; exact hs)
      rw [rounds_succ]
      refine ⟨hdesk'.trans hdesk, ?_⟩
      rw [List.filter_append, hleft, hleft']
      rfl

theorem foldl_answerOf_withQueue (jobs : List Queued) (s : Session) (queue : List Queued) :
    jobs.foldl answerOf (s.withQueue queue) = (jobs.foldl answerOf s).withQueue queue :=
  List.foldl_hom (withQueue · queue)
    (answerOf_comm _ (fun _ => rfl) (fun _ _ => rfl) (fun _ _ => rfl) fun _ _ _ => rfl)

theorem desk_rounds (n : Nat) (s : Session) :
    (rounds (n + 1) s).1.desk = s.desk.answered.withQueue [] ∧
      (rounds (n + 1) s).2.filter Queued.isAnswer = s.desk.answered.queue := by
  obtain ⟨hdesk, hleft⟩ := desk_runJobs s.queue (s.withQueue [])
  have hempty : (s.withQueue []).desk = s.desk.withQueue [] := rfl
  rw [hempty, foldl_answerOf_withQueue] at hdesk
  obtain ⟨hdesk', hleft'⟩ := desk_rounds_of_idle n
    (s := ((s.withQueue []).runJobs s.queue).1) (by rw [hdesk]; rfl)
  rw [rounds_succ]
  constructor
  · exact hdesk'.trans hdesk
  · rw [List.filter_append, hleft', List.append_nil]
    exact hleft

theorem keeps_answered (s : Session) : s.Keeps s.answered := by
  have hkeeps := keeps_foldl_answerOf (s.queue.filter fun q => !s.waits q) s
  exact ⟨hkeeps.kv, hkeeps.maintenance, hkeeps.further, hkeeps.latency, hkeeps.now, hkeeps.held,
    hkeeps.calls, hkeeps.aborting⟩

theorem answered_of_waits {s : Session} (hs : ∀ q ∈ s.queue, s.waits q = true) :
    s.answered = s := by
  have hnone : s.queue.filter (fun q => !s.waits q) = [] := by
    rw [List.filter_eq_nil_iff]
    intro q hq
    simp [hs q hq]
  rw [answered, hnone, List.filter_eq_self.mpr hs]
  rfl

theorem keeps_of_desk_eq {s s' : Session} (h : s'.desk = s.desk.answered) : s.Keeps s' := by
  have hkeeps := s.desk.keeps_answered
  rw [← h] at hkeeps
  exact ⟨hkeeps.kv, hkeeps.maintenance, hkeeps.further, hkeeps.latency, hkeeps.now, hkeeps.held,
    hkeeps.calls, hkeeps.aborting⟩

theorem lt_due_of_waits {s : Session} {q : Queued} (hq : s.waits q = true) : s.now < q.due := by
  rw [waits] at hq
  split at hq
  · exact of_decide_eq_true (Bool.and_eq_true_iff.mp hq).1
  · nomatch hq

theorem desk_pass (s : Session) : s.pass.desk = s.desk.answered := by
  obtain ⟨hdesk, hleft⟩ := desk_rounds s.watch.scripted s
  have hnow : (rounds (s.watch.scripted + 1) s).1.now = s.now :=
    (congrArg Session.now hdesk).trans s.desk.keeps_answered.now
  rw [pass]
  generalize rounds (s.watch.scripted + 1) s = r at hdesk hleft hnow
  obtain ⟨s', left⟩ := r
  simp only at hdesk hleft hnow ⊢
  -- What is left of the answers waits, so it is among the jobs that are asleep.
  have hasleep : ∀ q ∈ left, q.isAnswer = true → ¬q.due ≤ s'.now := by
    intro q hq hanswer
    have hwaits : q ∈ s.desk.answered.queue := hleft ▸ List.mem_filter.mpr ⟨hq, hanswer⟩
    have hlt := lt_due_of_waits (List.mem_filter.mp hwaits).2
    have hsame : s.desk.now = s.now := rfl
    omega
  have hqueue : s'.queue.filter Queued.isAnswer = [] := congrArg Session.queue hdesk
  have hgoOn : (left.filter fun q => q.due ≤ s'.now).reverse.filter Queued.isAnswer = [] := by
    rw [List.filter_reverse, List.filter_filter, List.reverse_eq_nil_iff, List.filter_eq_nil_iff]
    intro q hq
    simpa using hasleep q hq
  have hleft' : (left.filter fun q => !decide (q.due ≤ s'.now)).filter Queued.isAnswer =
      s.desk.answered.queue := by
    rw [← hleft, List.filter_filter]
    refine List.filter_congr fun q hq => ?_
    by_cases hanswer : q.isAnswer = true
    · simpa [hanswer] using hasleep q hq hanswer
    · simp [hanswer]
  rw [List.partition_eq_filter_filter]
  have hall : ∀ queue, (s'.withQueue queue).desk =
      s.desk.answered.withQueue (queue.filter Queued.isAnswer) :=
    fun queue => congrArg (withQueue · (queue.filter Queued.isAnswer)) hdesk
  refine (hall _).trans ?_
  rw [List.filter_append, List.filter_append, hgoOn, hqueue, List.nil_append, List.append_nil]
  exact congrArg s.desk.answered.withQueue hleft'

theorem desk_passes (n : Nat) {s : Session} (hs : ∀ q ∈ s.desk.queue, s.waits q = true) :
    (passes n s).desk = s.desk := by
  induction n generalizing s with
  | zero => rfl
  | succ n ih =>
      rw [passes]
      split
      · have hdesk := s.desk_pass
        rw [answered_of_waits hs] at hdesk
        rw [ih, hdesk]
        intro q hq
        rw [hdesk] at hq
        rw [waits_of_desk_eq hdesk]
        exact hs q hq
      · rfl

/-- Settling answers the requests that can be answered in the order of the queue, and no other. -/
theorem desk_runAll (s : Session) : s.runAll.desk = s.desk.answered := by
  have hdesk := s.desk_pass
  rw [runAll, ← hdesk]
  refine desk_passes _ fun q hq => ?_
  rw [hdesk] at hq
  rw [(keeps_of_desk_eq hdesk).waits]
  exact (List.mem_filter.mp hq).2

end Keyspace.Session
