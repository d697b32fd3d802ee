import Keyspace.Proofs.ServedRequests
import Mathlib.Data.List.Nodup

/-!
What is told of a call, however its caller goes on with it. A ledger has what the calls of a session
were made for, and what came of them to the store. Each caller is told the answer to its own request
in its turn, or why there is none.
-/

namespace Keyspace.Session

/-- What a call is made for: its request, unless it is rejected, and the failure that is next. -/
structure Errand where
  request : Except Failure Request
  failure : Option Status
  /-- How many requests have come to the store before the call is made. -/
  since : Nat
  deriving DecidableEq

structure Ledger where
  /-- What the calls were made for, in order. -/
  errands : List Errand := []
  /-- What came to the store. -/
  past : List Arrival := []

/-- The errand of the call that a step makes, if it makes one. -/
def errandsBy (s : Session) (since : Nat) : Step → List Errand
  | .call command _ | .callAt _ command _ =>
      [{ request := command.request, failure := s.failures.head?, since }]
  | .rpc request => [{ request := .ok request, failure := s.failures.head?, since }]
  | .held .. | .drive | .failNext _ | .latency _ | .close _ | .debug => []
  | .attach .. | .snapshot .. | .detach | .observe _ => []
  | .start _ | .cancelHandle _ | .listen _ => []

/-- The call of which a step tells. -/
def about? (s : Session) : Step → Option Nat
  | .call .. | .callAt .. => some s.calls.length
  | .held id _ => s.held.lookup id
  | .listen i => some i
  | .rpc _ | .drive | .failNext _ | .latency _ | .close _ | .debug => none
  | .attach .. | .snapshot .. | .detach | .observe _ | .start _ | .cancelHandle _ => none

def Told.outcome? : Told → Option (Outcome Reply)
  | awaited outcome | polled outcome | cancelled _ outcome | continued outcome _ => outcome
  | nothing | flag _ | text _ | response _ | shown _ => none

def Job.place? : Job → Option Nat
  | .answer i _ _ => some i
  | .feed .. => none

namespace Ledger

def add (l : Ledger) (errands : List Errand) (past : List Arrival) : Ledger where
  errands := l.errands ++ errands
  past := l.past ++ past

def step (l : Ledger) (s : Session) (step : Step) : Ledger :=
  l.add (s.errandsBy l.past.length step) (s.servedBy step)

/-- Only what calls were made for came to the store, and of each call at most once. -/
structure Fair (l : Ledger) : Prop where
  once : (l.past.map Arrival.call).Nodup
  came : ∀ a ∈ l.past, ∃ since,
    l.errands[a.call]? = some { request := .ok a.request, failure := none, since }

/-- What the caller of the call at a place can be told. -/
inductive Tells (l : Ledger) (i : Nat) : Outcome Reply → Prop
  | replied {request : Request} {since : Nat} {before more : List Arrival}
      (herrand : l.errands[i]? = some { request := .ok request, failure := none, since })
      (hturn : l.past = before ++ { call := i, request } :: more)
      (hsince : since ≤ before.length) : Tells l i ((Store.empty.given before).reply request)
  | failed {request : Request} {status : Status} {since : Nat}
      (herrand : l.errands[i]? = some { request := .ok request, failure := some status, since }) :
      Tells l i (.error (.transport status))
  | rejected {why : Failure} {failure : Option Status} {since : Nat}
      (herrand : l.errands[i]? = some { request := .error why, failure, since }) :
      Tells l i (.error why)
  | cancelled : Tells l i (.error .cancelled)
  | stopped : Tells l i (.error .contextShutdown)

end Ledger

/-- The continuation was told nothing but what its caller could have been told. -/
def Ledger.Hears (l : Ledger) (k : Continuation) : Prop :=
  ∀ told ∈ k.told, l.Tells k.call told.1

def ledger : Session → Ledger → List Step → Ledger
  | _, l, [] => l
  | s, l, step :: steps => (s.step step).1.ledger (l.step s step) steps

theorem filterMap_place? (queue : List Queued) :
    (queue.filter Queued.isAnswer).filterMap (fun q => q.job.place?) =
      queue.filterMap fun q => q.job.place? := by
  rw [List.filterMap_filter]
  congr 1
  funext q
  rw [Queued.isAnswer]
  cases q.job <;> rfl

namespace Ledger

variable {l : Ledger} {i : Nat}

theorem errand_add {errand : Errand} (h : l.errands[i]? = some errand) (errands : List Errand)
    (past : List Arrival) : (l.add errands past).errands[i]? = some errand := by
  obtain ⟨hi, -⟩ := List.getElem?_eq_some_iff.mp h
  rw [add, List.getElem?_append_left hi, h]

@[simp] theorem add_nil (l : Ledger) : l.add [] [] = l := by
  rw [add, List.append_nil, List.append_nil]

theorem add_add (l : Ledger) (errands : List Errand) (past more : List Arrival) :
    (l.add errands past).add [] more = l.add errands (past ++ more) := by
  simp only [add, List.append_nil, List.append_assoc]

theorem Tells.add {outcome : Outcome Reply} (h : l.Tells i outcome) (errands : List Errand)
    (past : List Arrival) : (l.add errands past).Tells i outcome := by
  cases h with
  | @replied request since before more herrand hturn hsince =>
      have hlater : (l.add errands past).past =
          before ++ { call := i, request } :: (more ++ past) := by
        rw [Ledger.add, hturn, List.append_assoc, List.cons_append]
      exact .replied (errand_add herrand ..) hlater hsince
  | failed herrand => exact .failed (errand_add herrand ..)
  | rejected herrand => exact .rejected (errand_add herrand ..)
  | cancelled => exact .cancelled
  | stopped => exact .stopped

theorem Hears.add {k : Continuation} (h : l.Hears k) (errands : List Errand)
    (past : List Arrival) : (l.add errands past).Hears k :=
  fun told htold => (h told htold).add ..

theorem Hears.tell {k : Continuation} (h : l.Hears k) {outcome : Outcome Reply}
    (htells : l.Tells k.call outcome) (place : Place) : l.Hears (k.tell outcome place) := by
  intro told htold
  rw [Continuation.tell] at htold
  rcases Option.or_eq_some_iff.mp htold with hbefore | ⟨-, hnow⟩
  · exact h told hbefore
  · obtain rfl := Option.some.inj hnow
    exact htells

/-- Whatever the call brings to its caller now or later, if its task has ended, can be told. -/
structure Covers (l : Ledger) (i : Nat) (c : Call Response Reply) : Prop where
  convert : ∀ response, ∀ outcome ∈ c.convert response, outcome = response.reply
  task : ∀ ending, c.task.bind Call.Task.ending = some ending →
    ∀ outcome, Call.brought c.convert ending = .made outcome → l.Tells i outcome
  delivery : ∀ outcome, c.delivery = .made outcome → l.Tells i outcome
  stage : ∀ why, c.stage = .failed why → l.Tells i (.error why)

variable {c c' : Call Response Reply}

theorem Covers.add (h : l.Covers i c) (errands : List Errand) (past : List Arrival) :
    (l.add errands past).Covers i c where
  convert := h.convert
  task ending hending outcome hmade := (h.task ending hending outcome hmade).add ..
  delivery outcome hmade := (h.delivery outcome hmade).add ..
  stage why hwhy := (h.stage why hwhy).add ..

theorem Covers.tells (h : l.Covers i c) {outcome : Outcome Reply}
    (hready : c.ready? = some outcome) : l.Tells i outcome := by
  rw [Call.ready?] at hready
  cases hstage : c.stage with
  | done => simp [hstage] at hready
  | failed why =>
      simp only [hstage, Option.some.injEq] at hready
      subst hready
      cases c.cancelled
      · exact h.stage why hstage
      · exact .cancelled
  | waiting =>
      simp only [hstage] at hready
      split at hready
      · obtain rfl := Option.some.inj hready
        exact .cancelled
      · cases hdelivery : c.delivery with
        | awaited => simp [hdelivery] at hready
        | made given =>
            simp only [hdelivery, Option.some.injEq] at hready
            subst hready
            exact h.delivery given hdelivery
        | lost =>
            simp only [hdelivery, Option.some.injEq] at hready
            subst hready
            exact .stopped

theorem Covers.of_same (h : l.Covers i c) (hconvert : c'.convert = c.convert)
    (htask : c'.task.bind Call.Task.ending = c.task.bind Call.Task.ending)
    (hdelivery : c'.delivery = c.delivery ∨ c'.delivery = .lost)
    (hstage : c'.stage = c.stage ∨ c'.stage = .done) : l.Covers i c' where
  convert := hconvert ▸ h.convert
  task := by
    rw [hconvert, htask]
    exact h.task
  delivery outcome hmade := by
    rcases hdelivery with hsame | hlost
    · exact h.delivery outcome (hsame ▸ hmade)
    · rw [hlost] at hmade
      cases hmade
  stage why hwhy := by
    rcases hstage with hsame | hdone
    · exact h.stage why (hsame ▸ hwhy)
    · rw [hdone] at hwhy
      cases hwhy

theorem Covers.poll (h : l.Covers i c) : l.Covers i c.poll.1 := by
  rw [Call.poll]
  split
  · exact h.of_same rfl rfl (.inl rfl) (.inr rfl)
  · exact h

theorem Covers.cancel (h : l.Covers i c) : l.Covers i c.cancel.1 := by
  refine h.of_same rfl ?_ (.inl rfl) (.inl rfl)
  rw [Call.cancel, Call.onTask]
  cases c.task <;> rfl

theorem Covers.stop (h : l.Covers i c) : l.Covers i c.stop := by
  rw [Call.stop]
  split
  · exact h.of_same rfl rfl (.inr rfl) (.inl rfl)
  · exact h

theorem Covers.deliver (h : l.Covers i c) : l.Covers i c.deliver := by
  cases harrived : c.arrived? with
  | none => rwa [Call.deliver_of_not_arrived harrived]
  | some ending =>
      have hended : c.task.bind Call.Task.ending = some ending := by
        rw [Call.arrived?] at harrived
        split at harrived
        · exact harrived
        · cases harrived
      rw [Call.deliver_of_arrived harrived]
      exact ⟨h.convert, h.task, h.task ending hended, h.stage⟩

theorem Covers.run (h : l.Covers i c) {own : Option (Ending Response)}
    (hown : ∀ ending ∈ own, ∀ outcome, Call.brought c.convert ending = .made outcome →
      l.Tells i outcome) : l.Covers i (c.onTask fun t => t.run own) := by
  refine ⟨h.convert, fun ending hending outcome hmade => ?_, h.delivery, h.stage⟩
  obtain ⟨t', ht', hended⟩ := Option.bind_eq_some_iff.mp hending
  obtain ⟨t, ht, rfl⟩ := Option.map_eq_some_iff.mp ht'
  rw [Call.Task.run] at hended
  split at hended
  · exact h.task ending (Option.bind_eq_some_iff.mpr ⟨t, ht, hended⟩) outcome hmade
  · split at hended
    · obtain rfl := Option.some.inj hended
      obtain rfl := Delivery.made.inj hmade
      exact .cancelled
    · exact hown ending hended outcome hmade

theorem Covers.eq_reply (h : l.Covers i c) {store : Store} {request : Request}
    {outcome : Outcome Reply}
    (hmade : Call.brought c.convert (store.ending request) = .made outcome) :
    outcome = store.reply request := by
  rw [Store.ending] at hmade
  rw [Store.reply]
  cases hserve : (store.serve request).2 with
  | error refusal =>
      rw [hserve] at hmade
      exact (Delivery.made.inj hmade).symm
  | ok response =>
      have hconvert := h.convert response
      rw [hserve] at hmade
      simp only [Except.mapError, endingOf, Call.brought, Ending.outcome] at hmade
      cases hbrought : c.convert response with
      | none => simp [hbrought] at hmade
      | some brought =>
          rw [hbrought] at hmade
          obtain rfl := Delivery.made.inj hmade
          exact hconvert _ hbrought

theorem covers_submit (l : Ledger) (i : Nat) (context : Context) :
    l.Covers i (.submit context fun response => some response.reply) := by
  rw [Call.submit]
  split <;> refine ⟨?_, ?_, ?_, ?_⟩ <;> simp

theorem covers_failed {why : Failure} (h : l.Tells i (.error why)) : l.Covers i (.failed why) := by
  refine ⟨?_, ?_, ?_, ?_⟩ <;> simp [Call.failed]
  exact h

theorem covers_task (l : Ledger) (i : Nat) : l.Covers i { task := some {} } := by
  refine ⟨?_, ?_, ?_, ?_⟩ <;> simp

/-- The session is what has come of its calls so far. -/
structure Agrees (l : Ledger) (s : Session) : Prop where
  server : s.server = .memory (Store.empty.given l.past)
  calls : s.calls.length = l.errands.length
  since : ∀ errand ∈ l.errands, errand.since ≤ l.past.length
  sent : ∀ q ∈ s.queue, ∀ i request given, q.job = .answer i request given →
    ∃ failure since, l.errands[i]? = some { request := .ok request, failure, since } ∧
      given = failure.map .error
  came : ∀ a ∈ l.past, ∃ since,
    l.errands[a.call]? = some { request := .ok a.request, failure := none, since }
  once : (l.past.map Arrival.call ++ s.queue.filterMap fun q => q.job.place?).Nodup
  covers : ∀ i c, s.call? i = some c → l.Covers i c
  hears : ∀ k ∈ s.continuations, l.Hears k

variable {s s' : Session} {q : Queued} {queue : List Queued} {request : Request}

theorem Agrees.lt_calls (h : l.Agrees s) {i : Nat}
    (hi : i ∈ l.past.map Arrival.call ++ s.queue.filterMap fun q => q.job.place?) :
    i < s.calls.length := by
  have hknown : ∃ errand, l.errands[i]? = some errand := by
    rcases List.mem_append.mp hi with hi | hi
    · obtain ⟨a, ha, rfl⟩ := List.mem_map.mp hi
      obtain ⟨since, herrand⟩ := h.came a ha
      exact ⟨_, herrand⟩
    · obtain ⟨q, hq, hplace⟩ := List.mem_filterMap.mp hi
      cases hjob : q.job with
      | feed listener failure feed =>
          rw [hjob] at hplace
          cases hplace
      | answer j request given =>
          rw [hjob] at hplace
          obtain rfl := Option.some.inj hplace
          obtain ⟨failure, since, herrand, -⟩ := h.sent q hq j request given hjob
          exact ⟨_, herrand⟩
  obtain ⟨errand, herrand⟩ := hknown
  rw [h.calls]
  exact (List.getElem?_eq_some_iff.mp herrand).1

theorem Agrees.fair (h : l.Agrees s) : l.Fair where
  once := (List.nodup_append.mp h.once).1
  came := h.came

theorem Agrees.of_same (h : l.Agrees s) (hserver : s'.server = s.server)
    (hqueue : (s'.queue.filter Queued.isAnswer).Perm (s.queue.filter Queued.isAnswer))
    (hlength : s'.calls.length = s.calls.length)
    (hcontinuations : s'.continuations = s.continuations)
    (hcalls : ∀ i c', s'.call? i = some c' →
      ∃ c, s.call? i = some c ∧ (l.Covers i c → l.Covers i c')) : l.Agrees s' where
  server := hserver.trans h.server
  calls := hlength.trans h.calls
  since := h.since
  sent q hq i request given hjob := by
    have hanswer : q.isAnswer = true := by rw [Queued.isAnswer, hjob]
    have hmem := hqueue.mem_iff.mp (List.mem_filter.mpr ⟨hq, hanswer⟩)
    exact h.sent q (List.mem_filter.mp hmem).1 i request given hjob
  came := h.came
  once := by
    have hplaces := hqueue.filterMap fun q => q.job.place?
    rw [filterMap_place?, filterMap_place?] at hplaces
    exact (hplaces.append_left _).nodup_iff.mpr h.once
  covers i c' hc' := by
    obtain ⟨c, hc, hkept⟩ := hcalls i c' hc'
    exact hkept (h.covers i c hc)
  hears := by
    rw [hcontinuations]
    exact h.hears

theorem Agrees.of_desk_eq (h : l.Agrees s) (hdesk : s'.desk = s.desk) : l.Agrees s' := by
  have hcalls : s'.calls = s.calls := (congrArg Session.calls hdesk :)
  have hserver : s'.server = s.server := (congrArg Session.server hdesk :)
  have hqueue : s'.queue.filter Queued.isAnswer = s.queue.filter Queued.isAnswer :=
    congrArg Session.queue hdesk
  have hcontinuations : s'.continuations = s.continuations :=
    (congrArg Session.continuations hdesk :)
  refine h.of_same hserver (.of_eq hqueue) (congrArg List.length hcalls) hcontinuations
    fun i c hc => ?_
  rw [call?, hcalls] at hc
  exact ⟨c, hc, id⟩

theorem Agrees.onCall (h : l.Agrees s) (i : Nat)
    {f : Call Response Reply → Call Response Reply}
    (hf : ∀ c, s.call? i = some c → l.Covers i c → l.Covers i (f c)) :
    l.Agrees (s.onCall i f) := by
  refine h.of_same rfl (.refl _) (List.length_modify ..) rfl fun j c' hc' => ?_
  rw [call?_onCall] at hc'
  obtain ⟨c, hc, rfl⟩ := Option.map_eq_some_iff.mp hc'
  refine ⟨c, hc, fun hcovers => ?_⟩
  split
  · rename_i hi
    subst hi
    exact hf c hc hcovers
  · exact hcovers

theorem Agrees.map_calls (h : l.Agrees s) {f : Submitted → Submitted}
    (hf : ∀ sub i, l.Covers i sub.call → l.Covers i (f sub).call) :
    l.Agrees { s with calls := s.calls.map f } := by
  refine h.of_same rfl (.refl _) (List.length_map _) rfl fun i c' hc' => ?_
  rw [call?, List.getElem?_map] at hc'
  obtain ⟨sub', hsub', rfl⟩ := Option.map_eq_some_iff.mp hc'
  obtain ⟨sub, hsub, rfl⟩ := Option.map_eq_some_iff.mp hsub'
  exact ⟨sub.call, by rw [call?, hsub, Option.map_some], hf sub i⟩

theorem Agrees.drop (h : l.Agrees (s.withQueue (q :: queue))) : l.Agrees (s.withQueue queue) where
  server := h.server
  calls := h.calls
  since := h.since
  sent q' hq' := h.sent q' (List.mem_cons_of_mem q hq')
  came := h.came
  once := by
    have hless : (queue.filterMap fun q => q.job.place?).Sublist
        ((q :: queue).filterMap fun q => q.job.place?) :=
      (List.sublist_cons_self q queue).filterMap _
    exact h.once.sublist (hless.append_left _)
  covers := h.covers
  hears := h.hears

theorem Agrees.arrive (h : l.Agrees (s.withQueue (q :: queue))) {i : Nat}
    (hjob : q.job = .answer i request none) {store : Store} (hserver : s.server = .memory store) :
    (l.add [] [{ call := i, request }]).Agrees
      ({ s with server := .memory (store.serve request).1 }.withQueue queue) where
  server := by
    obtain rfl := Server.memory.inj (hserver.symm.trans h.server)
    rw [add, Store.given_append]
    rfl
  calls := by
    rw [add, List.append_nil]
    exact h.calls
  since errand herrand := by
    rw [add, List.append_nil] at herrand
    rw [add, List.length_append]
    exact Nat.le_add_right_of_le (h.since errand herrand)
  sent q' hq' j request' given hjob' := by
    rw [add, List.append_nil]
    exact h.sent q' (List.mem_cons_of_mem q hq') j request' given hjob'
  came a ha := by
    simp only [add, List.append_nil]
    rcases List.mem_append.mp ha with ha | ha
    · exact h.came a ha
    · obtain rfl := List.mem_singleton.mp ha
      obtain ⟨failure, since, herrand, hfailure⟩ :=
        h.sent q List.mem_cons_self i request none hjob
      rw [Option.map_eq_none_iff.mp hfailure.symm] at herrand
      exact ⟨since, herrand⟩
  once := by
    have honce := h.once
    simp only [withQueue, List.filterMap_cons, hjob, Job.place?] at honce
    simp only [add, List.map_append, List.map_cons, List.map_nil, List.append_assoc,
      List.singleton_append]
    exact honce
  covers j c hc := (h.covers j c hc).add ..
  hears k hk := (h.hears k hk).add _ _

theorem Agrees.answerOf (h : l.Agrees (s.withQueue (q :: queue))) :
    (l.add [] (s.comes? q.job).toList).Agrees ((s.answerOf q).withQueue queue) := by
  rw [Session.answerOf]
  cases hjob : q.job with
  | feed listener failure feed =>
      rw [comes?, Option.toList_none, add_nil]
      exact h.drop
  | answer i request given =>
      obtain ⟨failure, since, herrand, rfl⟩ := h.sent q List.mem_cons_self i request given hjob
      simp only [Session.answer.eq_def, any_aborting]
      by_cases haborting : s.aborting? i = some true
      · have hnone : s.comes? (.answer i request (failure.map .error)) = none := by
          cases failure with
          | none => rw [Option.map_none, comes?, if_pos haborting]
          | some status => rfl
        rw [hnone, haborting, Option.toList_none, add_nil]
        refine h.drop.onCall i fun c hc hcovers => hcovers.run fun ending hending => ?_
        cases hending
      · simp only [beq_eq_false_iff_ne.mpr haborting, Bool.false_eq_true, if_false]
        cases failure with
        | some status =>
            have hnone : s.comes? (.answer i request (some (.error status))) = none := rfl
            rw [Option.map_some, hnone, Option.toList_none, add_nil]
            refine h.drop.onCall i fun c hc hcovers => hcovers.run fun ending hending => ?_
            obtain rfl := Option.some.inj hending
            rintro outcome hmade
            obtain rfl := Delivery.made.inj hmade
            exact .failed herrand
        | none =>
            have hserver : s.server = .memory (Store.empty.given l.past) := h.server
            rw [Option.map_none, comes?, if_neg haborting, hserver, Option.toList_some]
            refine (h.arrive hjob hserver).onCall i fun c hc hcovers =>
              hcovers.run fun ending hending outcome hmade => ?_
            obtain rfl := Option.some.inj hending
            rw [hcovers.eq_reply hmade]
            have hsince := h.since _ (List.mem_of_getElem? herrand)
            exact .replied (errand_add herrand ..) rfl hsince

theorem Agrees.foldl_answerOf {jobs : List Queued} (h : l.Agrees (s.withQueue (jobs ++ queue))) :
    (l.add [] (jobs.filterMap fun q => s.comes? q.job)).Agrees
      ((jobs.foldl Session.answerOf s).withQueue queue) := by
  induction jobs generalizing l s with
  | nil =>
      rw [List.filterMap_nil, add_nil]
      exact h
  | cons q jobs ih =>
      have hrest := ih h.answerOf
      rw [(s.answers_answerOf q).keeps.comes?, add_add] at hrest
      rw [List.foldl_cons, List.filterMap_cons]
      cases hcomes : s.comes? q.job <;> rw [hcomes] at hrest <;> exact hrest

theorem Agrees.answered (h : l.Agrees s) : (l.add [] s.servedNow).Agrees s.answered := by
  have hparts : ((s.queue.filter fun q => !s.waits q) ++ s.queue.filter s.waits).Perm s.queue :=
    List.perm_append_comm.trans (List.filter_append_perm s.waits s.queue)
  have hsorted : l.Agrees
      (s.withQueue ((s.queue.filter fun q => !s.waits q) ++ s.queue.filter s.waits)) :=
    h.of_same rfl (hparts.filter _) rfl rfl fun i c hc => ⟨c, hc, id⟩
  exact hsorted.foldl_answerOf

theorem Agrees.advanceTo (h : l.Agrees s) (due : Option Nat) : l.Agrees (s.advanceTo due) := by
  cases due with
  | none => exact h
  | some due =>
      refine h.of_same rfl ((List.mergeSort_perm _ _).filter _) rfl rfl fun i c hc => ⟨c, hc, id⟩

theorem Agrees.withContinuations (h : l.Agrees s) {continuations : List Continuation}
    (hears : ∀ k ∈ continuations, l.Hears k) : l.Agrees { s with continuations } :=
  ⟨h.server, h.calls, h.since, h.sent, h.came, h.once, h.covers, hears⟩

theorem Agrees.tells_ready? (h : l.Agrees s) {i : Nat} {outcome : Outcome Reply}
    (hready : s.ready? i = some outcome) : l.Tells i outcome := by
  obtain ⟨c, hc, hready⟩ := Option.bind_eq_some_iff.mp hready
  exact (h.covers i c hc).tells hready

theorem Agrees.resume (h : l.Agrees s) : l.Agrees s.resume := by
  refine h.withContinuations fun k' hk' => ?_
  obtain ⟨k, hk, rfl⟩ := List.mem_map.mp hk'
  cases hready : s.ready? k.call with
  | none => exact h.hears k hk
  | some outcome => exact (h.hears k hk).tell (h.tells_ready? hready) .context

theorem Agrees.deliver (h : l.Agrees s) : l.Agrees s.deliver := by
  refine Agrees.resume (h.map_calls fun sub i hcovers => ?_)
  split
  · exact hcovers.deliver
  · exact hcovers

theorem Agrees.settle (h : l.Agrees s) : (l.add [] s.servedBySettle).Agrees s.settle := by
  have hdesk : l.Agrees s.desk := h.of_desk_eq s.desk_desk
  have hsettled := (hdesk.advanceTo s.ahead?).answered.deliver
  rw [← desk_settle] at hsettled
  exact hsettled.of_desk_eq s.settle.desk_desk.symm

theorem Agrees.settleFor (h : l.Agrees s) (test : Job → Bool) :
    (l.add [] (s.servedBySettleFor test)).Agrees (s.settleFor test) := by
  have hsettled := h.settle
  rw [Session.settleFor, servedBySettleFor]
  cases s.settle.queue.find? fun q => test q.job with
  | none =>
      rw [List.append_nil]
      exact hsettled
  | some q =>
      have hagain := (hsettled.advanceTo (some q.due)).settle
      rwa [add_add] at hagain

theorem Agrees.settleCall (h : l.Agrees s) (i : Nat) :
    (l.add [] (s.servedBySettleCall i)).Agrees (s.settleCall i) := by
  rw [settleCall_eq, servedBySettleCall]
  split
  · exact h.settle
  · exact h.settleFor _

theorem getElem?_errands_length (l : Ledger) (errand : Errand) :
    (l.add [errand] []).errands[l.errands.length]? = some errand :=
  List.getElem?_concat_length

theorem Agrees.addCall (h : l.Agrees s) (side : Option Side) {errand : Errand}
    (hsince : errand.since = l.past.length) {call : Call Response Reply}
    (hcall : (l.add [errand] []).Covers s.calls.length call) :
    (l.add [errand] []).Agrees (s.addCall side call) where
  server := by
    rw [add, List.append_nil]
    exact h.server
  calls := by
    rw [Session.addCall, add, List.length_append, List.length_append, h.calls]
    rfl
  since other hother := by
    rw [add, List.append_nil]
    rcases List.mem_append.mp hother with hother | hother
    · exact h.since other hother
    · obtain rfl := List.mem_singleton.mp hother
      exact Nat.le_of_eq hsince
  sent q hq i request given hjob := by
    obtain ⟨failure, since, herrand, hgiven⟩ := h.sent q hq i request given hjob
    exact ⟨failure, since, errand_add herrand .., hgiven⟩
  came a ha := by
    rw [add, List.append_nil] at ha
    obtain ⟨since, herrand⟩ := h.came a ha
    exact ⟨since, errand_add herrand ..⟩
  once := by
    rw [add, List.append_nil]
    exact h.once
  covers i c hc := by
    have hi : i < s.calls.length + 1 := by
      obtain ⟨sub, hsub, -⟩ := Option.map_eq_some_iff.mp hc
      simpa [Session.addCall] using (List.getElem?_eq_some_iff.mp hsub).1
    rcases Nat.lt_succ_iff_lt_or_eq.mp hi with hlt | rfl
    · rw [call?_addCall hlt] at hc
      exact (h.covers i c hc).add ..
    · rw [call?_addCall_length] at hc
      exact Option.some.inj hc ▸ hcall
  hears k hk := (h.hears k hk).add _ _

theorem Agrees.send (h : l.Agrees s) (side : Option Side) {call : Call Response Reply}
    (hcall : ∀ l : Ledger, l.Covers s.calls.length call) (request : Request) :
    let errand : Errand :=
      { request := .ok request, failure := s.failures.head?, since := l.past.length }
    (l.add [errand] []).Agrees ((s.addCall side call).submit s.calls.length request) := by
  intro errand
  have hadded : (l.add [errand] []).Agrees (s.addCall side call) := h.addCall side rfl (hcall _)
  have herrand := l.getElem?_errands_length errand
  rw [← h.calls] at herrand
  rw [submit_eq hadded.server]
  refine ⟨hadded.server, hadded.calls, hadded.since, fun q hq i request' given hjob => ?_,
    hadded.came, ?_, hadded.covers, hadded.hears⟩
  · rcases List.mem_append.mp hq with hq | hq
    · exact hadded.sent q hq i request' given hjob
    · obtain rfl := List.mem_singleton.mp hq
      obtain ⟨rfl, rfl, rfl⟩ := Job.answer.inj hjob
      exact ⟨_, _, herrand, rfl⟩
  · -- Nothing has been sent for the call before.
    rw [List.filterMap_append, ← List.append_assoc]
    refine List.nodup_append.mpr ⟨hadded.once, List.nodup_singleton _, fun i hi j hj => ?_⟩
    obtain rfl := List.mem_singleton.mp hj
    rw [add, List.append_nil] at hi
    exact Nat.ne_of_lt (h.lt_calls hi)

theorem Agrees.makeAt (h : l.Agrees s) (side : Side) (command : Command) :
    let errand : Errand :=
      { request := command.request, failure := s.failures.head?, since := l.past.length }
    (l.add [errand] []).Agrees (s.makeAt side command) := by
  rw [Session.makeAt]
  cases hrequest : command.request with
  | error why =>
      intro errand
      have herrand := l.getElem?_errands_length errand
      rw [← h.calls] at herrand
      exact h.addCall _ rfl (covers_failed (.rejected herrand))
  | ok request => exact h.send _ (fun l => l.covers_submit _ _) request

theorem Agrees.poll (h : l.Agrees s) (i : Nat) :
    l.Agrees (s.poll i).1 ∧ ∀ outcome ∈ (s.poll i).2, l.Tells i outcome := by
  constructor
  · rw [Session.poll]
    cases hcall : s.call? i with
    | none => exact h
    | some c =>
        refine h.onCall i (f := fun _ => c.poll.1) fun c' hc' hcovers => ?_
        obtain rfl := Option.some.inj (hcall.symm.trans hc')
        exact hcovers.poll
  · intro outcome houtcome
    rw [poll_snd] at houtcome
    exact h.tells_ready? houtcome

theorem Agrees.cancel (h : l.Agrees s) (i : Nat) : l.Agrees (s.cancel i).1 := by
  rw [Session.cancel]
  cases hcall : s.call? i with
  | none => exact h
  | some c =>
      refine h.onCall i (f := fun _ => c.cancel.1) fun c' hc' hcovers => ?_
      obtain rfl := Option.some.inj (hcall.symm.trans hc')
      exact hcovers.cancel

theorem Agrees.hold (h : l.Agrees s) (held : List (Int × Nat)) : l.Agrees { s with held } :=
  h.of_same rfl (.refl _) rfl rfl fun _ c hc => ⟨c, hc, id⟩

theorem Agrees.continueWith (h : l.Agrees s) (i : Nat) : l.Agrees (s.continueWith i) := by
  have hnew : l.Hears { call := i } := fun told htold => nomatch htold
  rw [Session.continueWith]
  split
  · exact (h.withContinuations (List.forall_mem_append.mpr
      ⟨h.hears, List.forall_mem_singleton.mpr hnew⟩)).resume
  · exact h.withContinuations (List.forall_mem_append.mpr
      ⟨h.hears, List.forall_mem_singleton.mpr (hnew.tell .stopped .caller)⟩)

theorem Agrees.aside (h : l.Agrees s) (haside : s.Aside s') : l.Agrees s' :=
  h.of_desk_eq haside.desk

theorem Agrees.await (h : l.Agrees s) (i : Nat) :
    (l.add [] (s.servedBySettleCall i)).Agrees (s.await i).1 ∧
      ∀ outcome ∈ (s.await i).2, (l.add [] (s.servedBySettleCall i)).Tells i outcome :=
  (h.settleCall i).poll i

theorem Agrees.complete (h : l.Agrees s) (i : Nat) :
    (l.add [] (s.servedBySettleCall i)).Agrees (s.complete i).1 ∧
      ∀ outcome ∈ (s.complete i).2.outcome?,
        (l.add [] (s.servedBySettleCall i)).Tells i outcome := by
  have hsettled := h.settleCall i
  rw [Session.complete]
  simp only
  split
  · exact hsettled.poll i
  · refine ⟨hsettled, fun outcome houtcome => ?_⟩
    obtain rfl := Option.some.inj houtcome
    exact .stopped

/-- What is kept in the course of a step, and told in it of the call at a place. -/
def Follows (l : Ledger) (i : Nat) (p : Session × Told) : Prop :=
  l.Agrees p.1 ∧ ∀ outcome ∈ p.2.outcome?, l.Tells i outcome

theorem Agrees.callAt (h : l.Agrees s) (side : Side) (command : Command) (mode : Mode) :
    let errand : Errand :=
      { request := command.request, failure := s.failures.head?, since := l.past.length }
    (l.add [errand] (s.servedByCall side command mode)).Follows s.calls.length
      (s.callAt side command mode) := by
  intro errand
  have hmade := h.makeAt side command
  simp only at hmade
  have hstep : l.add [errand] (s.servedByCall side command mode) =
      (l.add [errand] []).add [] (s.servedByCall side command mode) := (l.add_add _ [] _).symm
  rw [hstep, Session.callAt.eq_def, servedByCall.eq_def]
  simp only
  generalize l.add [_] [] = l at hmade
  generalize s.makeAt side command = made at hmade
  cases mode with
  | await => exact hmade.await _
  | cancel =>
      obtain ⟨hpolled, htells⟩ := (hmade.cancel s.calls.length).poll s.calls.length
      exact ⟨hpolled.settle, fun outcome houtcome => (htells outcome houtcome).add ..⟩
  | lateCancel =>
      obtain ⟨hpolled, htells⟩ := (hmade.settle.cancel s.calls.length).poll s.calls.length
      simp only [Follows, Told.outcome?]
      exact ⟨hpolled, htells⟩
  | drop => exact ⟨hmade.settle, by simp [Told.outcome?]⟩
  | onComplete => exact hmade.complete _
  | hold id =>
      rw [add_nil]
      exact ⟨hmade.hold _, by simp [Told.outcome?]⟩
  | letGo =>
      rw [add_nil]
      exact ⟨hmade, by simp [Told.outcome?]⟩
  | continueWith =>
      rw [add_nil]
      exact ⟨hmade.continueWith _, by simp [Told.outcome?]⟩

theorem Agrees.useHeld (h : l.Agrees s) (id : Int) (use : Use) {i : Nat}
    (hi : s.held.lookup id = some i) :
    (l.step s (.held id use)).Follows i (s.useHeld id use) := by
  rw [Ledger.step, errandsBy, Session.useHeld, servedBy, hi]
  simp only
  cases use with
  | await => exact h.await i
  | onComplete => exact (h.hold (s.held.filter fun h => h.1 ≠ id)).complete i
  | cancel =>
      rw [add_nil]
      exact ⟨h.cancel i, by simp [Told.outcome?]⟩
  | isCancelled =>
      rw [add_nil]
      exact ⟨h, by simp [Told.outcome?]⟩
  | debug =>
      rw [add_nil]
      exact ⟨h, by simp [Told.outcome?]⟩
  | drop =>
      rw [add_nil]
      exact ⟨h.hold _, by simp [Told.outcome?]⟩
  | poll =>
      rw [add_nil]
      exact h.poll i
  | continueWith =>
      rw [add_nil]
      exact ⟨(h.hold _).continueWith i, by simp [Told.outcome?]⟩

theorem Agrees.stopCalls (h : l.Agrees s) (side : Side) : l.Agrees (s.stopCalls side) := by
  have hstopped : l.Agrees
      { s with calls := s.calls.map fun c =>
          if c.side = some side then { c with call := c.call.stop } else c } := by
    refine h.map_calls fun sub i hcovers => ?_
    split
    · exact hcovers.stop
    · exact hcovers
  refine hstopped.withContinuations fun k' hk' => ?_
  obtain ⟨k, hk, rfl⟩ := List.mem_map.mp hk'
  split
  · exact (h.hears k hk).tell .stopped .context
  · exact h.hears k hk

theorem Agrees.stopContext (h : l.Agrees s) (side : Side) : l.Agrees (s.stopContext side) := by
  cases side <;> exact h.of_same rfl (.refl _) rfl rfl fun _ c hc => ⟨c, hc, id⟩

theorem Agrees.close (h : l.Agrees s) (side : Side) : l.Agrees (s.close side) := by
  have hdetached : l.Agrees (if side = .maintenance then s.detach.1 else s) := by
    split
    · exact h.aside s.aside_detach
    · exact h
  exact (hdetached.stopCalls side).stopContext side

theorem Agrees.foldl_close (h : l.Agrees s) (sides : List Side) :
    l.Agrees (sides.foldl Session.close s) := by
  induction sides generalizing s with
  | nil => exact h
  | cons side sides ih => exact ih (h.close side)

theorem Agrees.observe (h : l.Agrees s) (o : Observer) :
    (l.add [] (s.servedBy (.observe o))).Agrees (s.observe o) := by
  have hasked : l.Agrees (s.observing o) :=
    (h.aside (s.aside_observers _)).aside (aside_ask _ _)
  have hobserve : s.observe o = (s.observing o).settleObserver s.observers.length := rfl
  rw [hobserve, settleObserver_eq, servedBy]
  exact hasked.settleFor _

theorem Agrees.rpc (h : l.Agrees s) (request : Request) :
    (l.step s (.rpc request)).Agrees (s.rpc request).1 := by
  have hsent := h.send none (fun l => l.covers_task s.calls.length) request
  have hsettled := hsent.settleCall s.calls.length
  rw [add_add] at hsettled
  exact hsettled

theorem Agrees.step (h : l.Agrees s) (step : Step) : (l.step s step).Agrees (s.step step).1 := by
  have hkept : ∀ {s'}, l.Agrees s' → (l.add [] []).Agrees s' := by
    intro s' h'
    rwa [add_nil]
  cases step <;> simp only [Session.step]
  case call command mode => exact (h.callAt command.side command mode).1
  case callAt client command mode => exact (h.callAt (.further client) command mode).1
  case held id use =>
    cases hi : s.held.lookup id with
    | some i => exact (h.useHeld id use hi).1
    | none =>
        rw [Ledger.step, errandsBy, Session.useHeld, servedBy, hi]
        exact hkept h
  case rpc request => exact h.rpc request
  case drive => exact h.settle
  case failNext status => exact hkept (h.of_desk_eq rfl)
  case latency ms => exact hkept (h.of_same rfl (.refl _) rfl rfl fun _ c hc => ⟨c, hc, id⟩)
  case close sides => exact hkept (h.foldl_close sides)
  case debug => exact hkept h
  case attach detachAt swapAt => exact hkept (h.aside (s.aside_attach detachAt swapAt))
  case snapshot detachAt swapAt => exact (h.aside (s.aside_attach detachAt swapAt)).settle
  case detach => exact hkept (h.aside s.aside_detach)
  case observe o => exact h.observe o
  case start name => exact hkept (h.of_same rfl (.refl _) rfl rfl fun _ c hc => ⟨c, hc, id⟩)
  case cancelHandle i => exact hkept (h.cancel i).resume
  case listen i => exact hkept h

theorem Agrees.listen (h : l.Agrees s) (i : Nat) :
    ∀ outcome ∈ (s.listen i).outcome?, l.Tells i outcome := by
  intro outcome houtcome
  rw [Session.listen] at houtcome
  split at houtcome
  · rename_i told place hfound
    obtain rfl := Option.some.inj houtcome
    obtain ⟨k, hk, htold⟩ := Option.bind_eq_some_iff.mp hfound
    have hi := List.find?_some (p := fun k : Continuation => decide (k.call = i)) hk
    obtain rfl := of_decide_eq_true hi
    exact h.hears k (List.mem_of_find?_eq_some hk) _ htold
  · cases houtcome

theorem Agrees.tells (h : l.Agrees s) {step : Step} {i : Nat} (hi : s.about? step = some i)
    {outcome : Outcome Reply} (houtcome : (s.step step).2.outcome? = some outcome) :
    (l.step s step).Tells i outcome := by
  cases step with
  | call command mode =>
      obtain rfl := Option.some.inj hi
      exact (h.callAt command.side command mode).2 outcome houtcome
  | callAt client command mode =>
      obtain rfl := Option.some.inj hi
      exact (h.callAt (.further client) command mode).2 outcome houtcome
  | held id use => exact (h.useHeld id use hi).2 outcome houtcome
  | listen j =>
      obtain rfl := Option.some.inj hi
      exact (h.listen j outcome houtcome).add ..
  | _ => simp [about?] at hi

theorem Agrees.after (h : l.Agrees s) (steps : List Step) :
    (s.ledger l steps).Agrees (s.after steps) := by
  induction steps generalizing l s with
  | nil => exact h
  | cons step steps ih => exact ih (h.step step)

theorem agrees_new (threadPrefix : String) (size : Nat) :
    ({} : Ledger).Agrees (.new threadPrefix (.memory .empty) size) where
  server := rfl
  calls := rfl
  since errand herrand := by cases herrand
  sent q hq := by cases hq
  came a ha := by cases ha
  once := .nil
  covers i c hc := by simp [call?, Session.new] at hc
  hears k hk := by cases hk

end Ledger

theorem ledger_concat (s : Session) (l : Ledger) (steps : List Step) (step : Step) :
    s.ledger l (steps ++ [step]) = (s.ledger l steps).step (s.after steps) step := by
  induction steps generalizing s l with
  | nil => rfl
  | cons first steps ih => exact ih _ _

/-- Whatever steps a session takes, its store is what came of its calls to it, of each at most once,
and each step tells of a call what can be told of it. -/
theorem told_of_ledger (threadPrefix : String) (size : Nat) (steps : List Step) :
    let start := Session.new threadPrefix (.memory .empty) size
    let s := start.after steps
    (start.ledger {} steps).Agrees s ∧
      ∀ step i outcome, s.about? step = some i → (s.step step).2.outcome? = some outcome →
        (start.ledger {} (steps ++ [step])).Tells i outcome := by
  intro start s
  have hagrees : (start.ledger {} steps).Agrees s :=
    (Ledger.agrees_new threadPrefix size).after steps
  refine ⟨hagrees, fun step i outcome hi houtcome => ?_⟩
  rw [ledger_concat]
  exact hagrees.tells hi houtcome

end Keyspace.Session
