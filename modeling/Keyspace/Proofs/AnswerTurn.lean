import Keyspace.Proofs.AwaitedReplies
import Keyspace.Proofs.StableSort

/-!
When the turn of a request comes. Which requests are answered before the one of a call does not
depend on what that one asks for, so that the store that answers it can be told beforehand.
-/

namespace Keyspace.Session

theorem le_due_trans (a b c : Queued) (hab : decide (a.due ≤ b.due) = true)
    (hbc : decide (b.due ≤ c.due) = true) : decide (a.due ≤ c.due) = true := by
  simp only [decide_eq_true_eq] at hab hbc ⊢
  exact Nat.le_trans hab hbc

theorem le_due_total (a b : Queued) :
    (decide (a.due ≤ b.due) || decide (b.due ≤ a.due)) = true := by
  simpa using Nat.le_total a.due b.due

theorem desk_advance (s : Session) (due : Nat) : (s.advance due).desk = s.desk.advance due := by
  have hqueue := filter_mergeSort le_due_trans le_due_total Queued.isAnswer s.queue
  simp only [desk, advance, hqueue]

theorem call?_desk (s : Session) (i : Nat) : s.desk.call? i = s.call? i := rfl

theorem desk_deliver (s : Session) : s.deliver.desk = s.desk.deliver := rfl

def advanceTo (s : Session) (due : Option Nat) : Session :=
  due.elim s s.advance

/-- The time that settling lets come before it runs what can run. -/
def ahead? (s : Session) : Option Nat :=
  s.feedDue?.filter fun due => s.now < due

theorem settle_eq_advanceTo (s : Session) :
    s.settle = (s.advanceTo s.ahead?).runAll.deliver := by
  rw [settle, ahead?]
  cases s.feedDue? with
  | none => rfl
  | some due => by_cases hdue : s.now < due <;> simp [hdue, advanceTo, Option.filter]

theorem desk_settle (s : Session) :
    s.settle.desk = (s.desk.advanceTo s.ahead?).answered.deliver := by
  have hdesk : (s.advanceTo s.ahead?).desk = s.desk.advanceTo s.ahead? := by
    cases s.ahead? with
    | none => rfl
    | some due => exact s.desk_advance due
  rw [settle_eq_advanceTo, desk_deliver, desk_runAll, hdesk]

section

variable {s : Session} {i : Nat} {outcome : Outcome Reply}

theorem ready?_deliver {c : Call Response Reply} (hready : c.ready? = some outcome) :
    c.deliver.ready? = some outcome := by
  cases harrived : c.arrived? with
  | none => rwa [Call.deliver_of_not_arrived harrived]
  | some e =>
      rw [Call.deliver_of_arrived harrived]
      -- What is ready before anything was delivered does not depend on what is.
      have hawaited : c.delivery = .awaited := by
        refine Classical.not_not.mp fun hne => ?_
        rw [Call.arrived?_of_ne_awaited hne] at harrived
        nomatch harrived
      rw [Call.ready?, hawaited] at hready
      rw [Call.ready?]
      cases hstage : c.stage with
      | done => simp [hstage] at hready
      | waiting => cases hcancelled : c.cancelled <;> simp_all
      | failed failure => simpa [hstage] using hready

theorem ready?_answerOf (s : Session) (i : Nat) (q : Queued) :
    ((s.answerOf q).call? i).bind Call.ready? = (s.call? i).bind Call.ready? := by
  have hanswers := s.answers_answerOf q
  generalize s.answerOf q = s' at hanswers
  cases hanswers with
  | unanswered => rfl
  | ended server j own =>
      rw [call?_onCall]
      change ((s.call? i).map _).bind _ = _
      cases s.call? i with
      | none => rfl
      | some c => by_cases hj : j = i <;> simp [hj, Call.ready?, Call.onTask]

theorem ready?_answered (s : Session) (i : Nat) :
    (s.answered.call? i).bind Call.ready? = (s.call? i).bind Call.ready? := by
  change (((s.queue.filter fun q => !s.waits q).foldl answerOf s).call? i).bind _ = _
  generalize s.queue.filter (fun q => !s.waits q) = jobs
  induction jobs generalizing s with
  | nil => rfl
  | cons q jobs ih => rw [List.foldl_cons, ih, ready?_answerOf]

theorem ready?_settle (hready : (s.call? i).bind Call.ready? = some outcome) :
    (s.settle.call? i).bind Call.ready? = some outcome := by
  have hadvanced : ((s.desk.advanceTo s.ahead?).call? i).bind Call.ready? = some outcome := by
    cases s.ahead? <;> exact hready
  rw [← ready?_answered] at hadvanced
  rw [← call?_desk, desk_settle]
  generalize (s.desk.advanceTo s.ahead?).answered = s' at hadvanced
  obtain ⟨c, hcall, hready⟩ := Option.bind_eq_some_iff.mp hadvanced
  obtain ⟨made, hmade, rfl⟩ := Option.map_eq_some_iff.mp hcall
  rw [call?, calls_deliver, List.getElem?_map, hmade]
  simp only [Option.map_some, Option.bind_some]
  split
  · exact ready?_deliver hready
  · exact hready

theorem ready?_settleCall (hready : (s.settle.call? i).bind Call.ready? = some outcome) :
    ((s.settleCall i).call? i).bind Call.ready? = some outcome := by
  rw [settleCall_eq]
  split
  · exact hready
  · rw [settleFor]
    generalize s.settle = s' at hready
    split
    · rename_i q _
      have hadvanced : ((s'.advance q.due).call? i).bind Call.ready? = some outcome := hready
      exact ready?_settle hadvanced
    · exact hready

end

/-- The job of the call at a place, if it is that, with another request. -/
def Queued.exchange (i : Nat) (request : Request) (q : Queued) : Queued :=
  match q.job with
  | .answer j _ given => if j = i then { q with job := .answer j request given } else q
  | .feed .. => q

/-- The session in which the call at a place asks for something else. -/
def asking (s : Session) (i : Nat) (request : Request) : Session :=
  s.withQueue (s.queue.map (Queued.exchange i request))

section

variable {s : Session} {i : Nat} {request : Request} {q : Queued}

theorem exchange_of_not_isFor (hq : q.job.isFor i = false) : q.exchange i request = q := by
  rw [Queued.exchange]
  split
  · rename_i j _ given hjob
    rw [hjob] at hq
    exact if_neg (Ne.symm (of_decide_eq_false hq))
  · rfl

@[simp] theorem due_exchange : (q.exchange i request).due = q.due := by
  rw [Queued.exchange]
  split
  · split <;> rfl
  · rfl

@[simp] theorem isFor_exchange (j : Nat) :
    (q.exchange i request).job.isFor j = q.job.isFor j := by
  rw [Queued.exchange]
  split
  · rename_i k _ given hjob
    split <;> simp [hjob, Job.isFor]
  · rfl

@[simp] theorem waits_exchange : s.waits (q.exchange i request) = s.waits q := by
  rw [Queued.exchange]
  split
  · rename_i k _ given hjob
    split <;> simp [hjob, waits]
  · rfl

theorem advance_asking (s : Session) (i : Nat) (request : Request) (due : Nat) :
    (s.asking i request).advance due = (s.advance due).asking i request := by
  have hsort : (s.queue.map (Queued.exchange i request)).mergeSort
      (fun a b => a.due ≤ b.due) =
        (s.queue.mergeSort fun a b => a.due ≤ b.due).map (Queued.exchange i request) :=
    (List.map_mergeSort fun a _ b _ => by simp).symm
  simp only [asking, advance, withQueue, hsort]

theorem map_exchange_of_not_isFor {jobs : List Queued}
    (hjobs : ∀ q ∈ jobs, q.job.isFor i = false) :
    jobs.map (Queued.exchange i request) = jobs := by
  calc jobs.map (Queued.exchange i request)
      = jobs.map id := List.map_congr_left fun q hq => exchange_of_not_isFor (hjobs q hq)
    _ = jobs := List.map_id jobs

theorem filter_map_exchange (s : Session) (i : Nat) (request : Request) (p : Bool → Bool)
    (jobs : List Queued) :
    (jobs.map (Queued.exchange i request)).filter (fun q => p (s.waits q)) =
      (jobs.filter fun q => p (s.waits q)).map (Queued.exchange i request) := by
  rw [List.filter_map]
  congr 2
  funext q
  simp

theorem answered_asking (hwaits : ∀ q ∈ s.queue, q.job.isFor i = true → s.waits q = true)
    (request : Request) : (s.asking i request).answered = s.answered.asking i request := by
  have hnow := s.filter_map_exchange i request (! ·) s.queue
  have hlater := s.filter_map_exchange i request id s.queue
  rw [map_exchange_of_not_isFor (isFor_of_waits hwaits)] at hnow
  have hfold := foldl_answerOf_withQueue (s.queue.filter fun q => !s.waits q) s
    (s.queue.map (Queued.exchange i request))
  rw [answered]
  change (((s.queue.map (Queued.exchange i request)).filter fun q => !s.waits q).foldl answerOf
    (s.withQueue _)).withQueue ((s.queue.map (Queued.exchange i request)).filter s.waits) = _
  rw [hnow, hfold]
  exact congrArg (withQueue _) hlater

/-- How the task of a request ends at a store, if it does not meet a failure before. -/
def turnEnding (store : Store) (failure : Option Status) (request : Request) : Ending Response :=
  failure.elim (store.ending request) .refused

/-- What the caller is given for a request at a store, if it does not meet a failure before. -/
def turnReply (store : Store) (failure : Option Status) (request : Request) : Outcome Reply :=
  failure.elim (store.reply request) fun status => .error (.transport status)

theorem brought_turnEnding (store : Store) (failure : Option Status) (request : Request) :
    Call.brought (fun response => some response.reply) (turnEnding store failure request) =
      .made (turnReply store failure request) := by
  cases failure with
  | none => exact store.brought_ending request
  | some status => rfl

variable {side : Side} {store : Store} {failure : Option Status}

theorem Owes.answer_turn (h : s.Owes i side none) (hserver : s.server = .memory store)
    (failure : Option Status) (request : Request) :
    (s.answer i request (failure.map .error)).Owes i side
      (some (turnEnding store failure request)) := by
  cases failure with
  | none => exact (h.answer hserver request).2
  | some status =>
      rw [Session.answer.eq_def, h.any_aborting]
      exact h.run (.refused status)

theorem owes_desk_iff {ending : Option (Ending Response)} :
    s.desk.Owes i side ending ↔ s.Owes i side ending :=
  .rfl

theorem Owes.withQueue {ending : Option (Ending Response)} (h : s.Owes i side ending)
    (queue : List Queued) : (s.withQueue queue).Owes i side ending := by
  refine ⟨?_, h.2⟩
  rw [← h.1]
  rfl

theorem Owes.answered_asking {pre post : List Queued} (h : s.Owes i side none)
    (hsplit : s.queue.filter (fun q => !s.waits q) = pre ++ q :: post)
    (hpre : ∀ x ∈ pre, x.job.isFor i = false)
    {first : Request} (hq : q.job = .answer i first (failure.map .error))
    (hserver : (pre.foldl Session.answerOf s).server = .memory store) (request : Request) :
    (s.asking i request).answered.Owes i side (some (turnEnding store failure request)) := by
  have hjobs : (s.queue.map (Queued.exchange i request)).filter (fun q => !s.waits q) =
      pre ++ q.exchange i request :: post.map (Queued.exchange i request) := by
    rw [s.filter_map_exchange i request (! ·), hsplit, List.map_append,
      map_exchange_of_not_isFor hpre, List.map_cons]
  have hturn : (q.exchange i request).job = .answer i request (failure.map .error) := by
    simp [Queued.exchange, hq]
  rw [Session.answered]
  refine Owes.withQueue ?_ _
  change (((s.queue.map (Queued.exchange i request)).filter fun q => !s.waits q).foldl
    Session.answerOf (s.asking i request)).Owes _ _ _
  rw [hjobs, List.foldl_append, List.foldl_cons]
  refine Owes.foldl_answerOf_ended ?_ _
  have hbefore : (pre.foldl Session.answerOf (s.asking i request)).server = .memory store := by
    rw [asking, foldl_answerOf_withQueue]
    exact hserver
  rw [Session.answerOf, hturn]
  exact ((h.withQueue _).foldl_answerOf hpre).answer_turn hbefore failure request

theorem Owes.advanceTo {ending : Option (Ending Response)} (h : s.Owes i side ending)
    (due : Option Nat) : (s.advanceTo due).Owes i side ending := by
  cases due with
  | none => exact h
  | some due => exact h

theorem foldl_answerOf_advanceTo (jobs : List Queued) (s : Session) (due : Option Nat) :
    jobs.foldl answerOf (s.advanceTo due) = (jobs.foldl answerOf s).advanceTo due := by
  cases due with
  | none => rfl
  | some due =>
      exact List.foldl_hom (advance · due)
        (answerOf_comm _ (fun _ => rfl) (fun _ _ => rfl) (fun _ _ => rfl) fun _ _ _ => rfl)

theorem queue_advanceTo (hsorted : s.queue.Pairwise fun a b => a.due ≤ b.due)
    (due : Option Nat) : (s.advanceTo due).queue = s.queue := by
  cases due with
  | none => rfl
  | some due => exact List.mergeSort_of_pairwise (hsorted.imp fun hle => decide_eq_true hle)

theorem le_now_advanceTo (s : Session) (due : Option Nat) : s.now ≤ (s.advanceTo due).now := by
  cases due with
  | none => exact Nat.le_refl _
  | some due => exact Nat.le_max_left ..

theorem asking_advanceTo (s : Session) (i : Nat) (request : Request) (due : Option Nat) :
    (s.asking i request).advanceTo due = (s.advanceTo due).asking i request := by
  cases due with
  | none => rfl
  | some due => exact s.advance_asking i request due

theorem filter_waits_of_due {pre post : List Queued}
    (hsorted : s.queue.Pairwise fun a b => a.due ≤ b.due) (hqueue : s.queue = pre ++ q :: post)
    (hdue : q.due ≤ s.now) (due : Option Nat) :
    ∃ post', (s.advanceTo due).queue.filter (fun x => !(s.advanceTo due).waits x) =
      pre ++ q :: post' := by
  have hnow := s.le_now_advanceTo due
  have hready : ∀ x : Queued, x.due ≤ s.now → (!(s.advanceTo due).waits x) = true := by
    intro x hx
    rw [Bool.not_eq_true', Bool.eq_false_iff]
    intro hwaits
    have := lt_due_of_waits hwaits
    omega
  rw [queue_advanceTo hsorted, hqueue]
  rw [hqueue] at hsorted
  have hpre : ∀ x ∈ pre, x.due ≤ q.due := fun x hx =>
    (List.pairwise_append.mp hsorted).2.2 x hx q List.mem_cons_self
  refine ⟨post.filter fun x => !(s.advanceTo due).waits x, ?_⟩
  rw [List.filter_append, List.filter_cons, if_pos (hready q hdue), List.filter_eq_self.mpr]
  exact fun x hx => hready x (Nat.le_trans (hpre x hx) hdue)

/-- The call at a place waits in a session, where it asks for something, maybe to meet a failure. -/
structure Asks (s : Session) (i : Nat) (side : Side) (failure : Option Status) : Prop where
  owes : s.Owes i side none
  queued : ∃ q ∈ s.queue, q.job.isFor i = true
  only : ∀ q ∈ s.queue, q.job.isFor i = true →
    ∃ request, q.job = .answer i request (failure.map .error)

theorem Asks.split {jobs : List Queued} (h : s.Asks i side failure)
    (hjobs : ∀ q ∈ jobs, q ∈ s.queue) (hsome : ∃ q ∈ jobs, q.job.isFor i = true) :
    ∃ pre q post request, jobs = pre ++ q :: post ∧ (∀ x ∈ pre, x.job.isFor i = false) ∧
      q.job = .answer i request (failure.map .error) := by
  obtain ⟨first, hfirst⟩ := Option.isSome_iff_exists.mp (List.find?_isSome.mpr hsome)
  obtain ⟨hfor, pre, post, rfl, hpre⟩ := List.find?_eq_some_iff_append.mp hfirst
  obtain ⟨request, hrequest⟩ := h.only first (hjobs first (by simp)) hfor
  exact ⟨pre, first, post, request, rfl, fun x hx => by simpa using hpre x hx, hrequest⟩

theorem Asks.turn_now (h : s.Asks i side failure) (hreached : s.Reached store)
    (hready : ∃ q ∈ s.queue, q.job.isFor i = true ∧ s.waits q = false) :
    ∃ before, ∀ request, (s.asking i request).answered.Owes i side
      (some (turnEnding (store.run before) failure request)) := by
  obtain ⟨q, hq, hfor, hwaits⟩ := hready
  have hsome : ∃ q ∈ s.queue.filter (fun q => !s.waits q), q.job.isFor i = true :=
    ⟨q, List.mem_filter.mpr ⟨hq, by simp [hwaits]⟩, hfor⟩
  obtain ⟨pre, first, post, request, hsplit, hpre, hjob⟩ :=
    h.split (fun q hq => (List.mem_filter.mp hq).1) hsome
  obtain ⟨before, hserver⟩ := hreached.foldl_answerOf pre
  exact ⟨before, fun request => h.owes.answered_asking hsplit hpre hjob hserver request⟩

theorem Asks.turn_due (h : s.Asks i side failure) (hreached : s.Reached store)
    (hsorted : s.queue.Pairwise fun a b => a.due ≤ b.due)
    (hdue : ∃ q ∈ s.queue, q.job.isFor i = true ∧ q.due ≤ s.now) :
    ∃ before, ∀ due request, ((s.advanceTo due).asking i request).answered.Owes i side
      (some (turnEnding (store.run before) failure request)) := by
  obtain ⟨q, hq, hfor, hdue⟩ := hdue
  obtain ⟨pre, first, post, request, hqueue, hpre, hjob⟩ := h.split (fun q hq => hq) ⟨q, hq, hfor⟩
  obtain ⟨before, hserver⟩ := hreached.foldl_answerOf pre
  have hfirst : first.due ≤ s.now := by
    rw [hqueue] at hq hsorted
    rcases List.mem_append.mp hq with hq | hq
    · simp [hpre q hq] at hfor
    · rcases List.mem_cons.mp hq with rfl | hq
      · exact hdue
      · have hrest := (List.pairwise_append.mp hsorted).2.1
        exact Nat.le_trans ((List.pairwise_cons.mp hrest).1 q hq) hdue
  refine ⟨before, fun due request => ?_⟩
  obtain ⟨post', hsplit⟩ := filter_waits_of_due hsorted hqueue hfirst due
  refine (h.owes.advanceTo due).answered_asking hsplit hpre hjob ?_ request
  rw [foldl_answerOf_advanceTo, ← hserver]
  cases due <;> rfl

theorem Asks.advanceTo (h : s.Asks i side failure) (due : Option Nat) :
    (s.advanceTo due).Asks i side failure := by
  have hqueue : ∀ q, q ∈ (s.advanceTo due).queue ↔ q ∈ s.queue := by
    cases due with
    | none => exact fun _ => .rfl
    | some due => exact fun _ => List.mem_mergeSort
  exact ⟨h.owes.advanceTo due, by simpa only [hqueue] using h.queued,
    by simpa only [hqueue] using h.only⟩

theorem Asks.answered_deliver (h : s.Asks i side failure)
    (hwaits : ∀ q ∈ s.queue, q.job.isFor i = true → s.waits q = true) :
    s.answered.deliver.Asks i side failure where
  owes := ((h.owes.foldl_answerOf (isFor_of_waits hwaits)).withQueue _).deliver
  queued := by
    obtain ⟨q, hq, hfor⟩ := h.queued
    exact ⟨q, List.mem_filter.mpr ⟨hq, hwaits q hq hfor⟩, hfor⟩
  only q hq := h.only q (List.mem_filter.mp hq).1

theorem Reached.advanceTo (h : s.Reached store) (due : Option Nat) :
    (s.advanceTo due).Reached store := by
  cases due <;> exact h

theorem find?_isFor_desk (s : Session) (i : Nat) :
    (s.desk.queue.find? fun q => q.job.isFor i) = s.queue.find? fun q => q.job.isFor i := by
  change (s.queue.filter Queued.isAnswer).find? _ = _
  rw [List.find?_filter]
  congr 1
  funext q
  by_cases hfor : q.job.isFor i = true
  · simp [hfor, isAnswer_of_isFor hfor]
  · simp [hfor]

theorem Owes.isReady_of_none (h : s.Owes i side none) : s.isReady i = false := by
  obtain ⟨-, c, hcall, howed⟩ := h
  simp [isReady, call?, hcall, howed.ready?_of_none]

theorem Asks.turn_settle {t : Session} (h : t.Asks i side failure) (hreached : t.Reached store)
    (hready : ∃ q ∈ t.queue, q.job.isFor i = true ∧ t.waits q = false) :
    ∃ before, ∀ request (s : Session), s.settle.desk = (t.asking i request).answered.deliver →
      ((s.settleCall i).call? i).bind Call.ready? =
        some (turnReply (store.run before) failure request) := by
  obtain ⟨before, hturn⟩ := h.turn_now hreached hready
  refine ⟨before, fun request s hsettled => ready?_settleCall ?_⟩
  rw [← call?_desk, hsettled]
  exact (hturn request).ready?_deliver (brought_turnEnding _ failure request)

theorem find?_isFor_asking (s : Session) (i : Nat) (request : Request) :
    ((s.asking i request).queue.find? fun q => q.job.isFor i) =
      (s.queue.find? fun q => q.job.isFor i).map (Queued.exchange i request) := by
  have hsame : ((fun q : Queued => q.job.isFor i) ∘ Queued.exchange i request) =
      fun q => q.job.isFor i := by
    funext q
    simp
  rw [asking, withQueue, List.find?_map, hsame]

theorem Asks.turn_later {t : Session} (h : t.Asks i side failure) (hreached : t.Reached store) :
    ∃ before, ∀ request (s : Session), s.isReady i = false → s.settle.desk = t.asking i request →
      ((s.settleCall i).call? i).bind Call.ready? =
        some (turnReply (store.run before) failure request) := by
  obtain ⟨first, hfirst⟩ := Option.isSome_iff_exists.mp (List.find?_isSome.mpr h.queued)
  have hfor : first.job.isFor i = true :=
    List.find?_some (p := fun q : Queued => q.job.isFor i) hfirst
  have hdue : ∃ q ∈ (t.advanceTo (some first.due)).queue, q.job.isFor i = true ∧
      q.due ≤ (t.advanceTo (some first.due)).now :=
    ⟨first, List.mem_mergeSort.mpr (List.mem_of_find?_eq_some hfirst), hfor, Nat.le_max_right ..⟩
  have hsorted : (t.advanceTo (some first.due)).queue.Pairwise fun a b => a.due ≤ b.due :=
    (List.pairwise_mergeSort le_due_trans le_due_total t.queue).imp of_decide_eq_true
  obtain ⟨before, hturn⟩ := (h.advanceTo (some first.due)).turn_due
    (hreached.advanceTo (some first.due)) hsorted hdue
  refine ⟨before, fun request s hisReady hsettled => ?_⟩
  have hfound : (s.settle.queue.find? fun q => q.job.isFor i) =
      some (first.exchange i request) := by
    rw [← find?_isFor_desk, hsettled, find?_isFor_asking, hfirst, Option.map_some]
  rw [settleCall_eq, hisReady, settleFor]
  simp only [Bool.false_eq_true, if_false, hfound, due_exchange]
  -- The time that the second settling lets come itself may differ from session to session.
  rw [← call?_desk, desk_settle, desk_advance, hsettled, advance_asking, asking_advanceTo]
  exact (hturn _ request).ready?_deliver (brought_turnEnding _ failure request)

/-- There is a store at which the turn of the call comes when its outcome is waited for. It does not
depend on what the call asks for. -/
theorem Asks.exists_turn {t : Session} (h : t.Asks i side failure) (hreached : t.Reached store)
    (due : Option Nat) :
    ∃ before, ∀ request (s : Session), s.desk = t.asking i request → s.ahead? = due →
      ((s.settleCall i).call? i).bind Call.ready? =
        some (turnReply (store.run before) failure request) := by
  have hnow := h.advanceTo due
  have hreachedNow := hreached.advanceTo due
  have hsettled : ∀ request (s : Session), s.desk = t.asking i request → s.ahead? = due →
      s.settle.desk = ((t.advanceTo due).asking i request).answered.deliver := by
    intro request s hdesk hahead
    rw [desk_settle, hdesk, hahead, asking_advanceTo]
  generalize t.advanceTo due = u at hnow hreachedNow hsettled
  -- Settling answers the request at once, or leaves it asleep until it is settled for.
  rcases u.ready_or_waits i with hready | hwaits
  · obtain ⟨before, hturn⟩ := hnow.turn_settle hreachedNow hready
    exact ⟨before, fun request s hdesk hahead =>
      hturn request s (hsettled request s hdesk hahead)⟩
  · have hreachedLater : u.answered.deliver.Reached store :=
      (hreachedNow.foldl_answerOf (u.queue.filter fun q => !u.waits q)).of_server_eq rfl
    obtain ⟨before, hturn⟩ := (hnow.answered_deliver hwaits).turn_later hreachedLater
    refine ⟨before, fun request s hdesk hahead => hturn request s ?_ ?_⟩
    · have howes : s.Owes i side none := by
        rw [← owes_desk_iff, hdesk]
        exact h.owes.withQueue _
      exact howes.isReady_of_none
    · rw [hsettled request s hdesk hahead, answered_asking hwaits]
      rfl

def made (s : Session) (side : Side) (request : Request) : Session :=
  (s.addCall (some side) (.submit (s.context side) fun response => some response.reply)).submit
    s.calls.length request

theorem make_eq_made {command : Command} (hrequest : command.request = .ok request) :
    s.make command = s.made command.side request := by
  rw [make, makeAt, hrequest]
  rfl

theorem made_eq (hserver : s.server = .memory store) (side : Side) (request : Request) :
    s.made side request =
      { s.addCall (some side) (.submit (s.context side) fun response => some response.reply) with
        sent := s.sent ++ [.request request]
        failures := s.failures.tail
        queue := s.queue ++ [{ due := s.now + s.latency, delayed := s.latency ≠ 0,
                               job := .answer s.calls.length request
                                 (s.failures.head?.map .error) }] } := by
  have hadded : (s.addCall (some side)
      (.submit (s.context side) fun response => some response.reply)).server = .memory store :=
    hserver
  rw [made, submit_eq hadded]
  rfl

theorem feedDue?_send (failures : List Status) (calls : List Submitted) (sent : List Sent)
    {q : Queued} (hq : q.isAnswer = true) :
    ({ s with failures, calls, sent, queue := s.queue ++ [q] } : Session).feedDue? =
      s.feedDue? := by
  obtain ⟨due, delayed, job⟩ := q
  cases job with
  | feed listener failure feed => nomatch hq
  | answer i request given =>
      simp only [feedDue?, isOver, List.find?_append, List.find?_singleton, Bool.false_eq_true,
        if_false, Option.or_none]

theorem ahead?_made (hserver : s.server = .memory store) (side : Side) (request : Request) :
    (s.made side request).ahead? = s.ahead? := by
  rw [made_eq hserver, ahead?, addCall, feedDue?_send _ _ _ rfl]
  rfl

theorem desk_made {past : Store} (hs : s.Orderly past) (hserver : s.server = .memory store)
    (side : Side) (first request : Request) :
    (s.made side request).desk = (s.made side first).desk.asking s.calls.length request := by
  have hold : ∀ q ∈ s.queue.filter Queued.isAnswer, q.job.isFor s.calls.length = false := by
    intro q hq
    refine Bool.eq_false_iff.mpr fun hfor => ?_
    exact Nat.lt_irrefl _ (hs.known q (List.mem_filter.mp hq).1 _ hfor)
  have hnew : ∀ due delayed given (request : Request),
      [(⟨due, delayed, .answer s.calls.length request given⟩ : Queued)].filter Queued.isAnswer =
        [⟨due, delayed, .answer s.calls.length request given⟩] :=
    fun _ _ _ _ => rfl
  rw [made_eq hserver, made_eq hserver, asking]
  simp only [desk, withQueue, addCall, List.filter_append, List.map_append,
    map_exchange_of_not_isFor hold, hnew, List.map_singleton, Queued.exchange, if_true]

theorem asks_made {past : Store} (hs : s.Orderly past) (hserver : s.server = .memory store)
    (hrunning : (s.context side).running = true) (request : Request) :
    (s.made side request).desk.Asks s.calls.length side s.failures.head? := by
  rw [made_eq hserver]
  refine ⟨⟨hrunning, _, ?_, Call.owed_submit hrunning⟩, ?_, ?_⟩
  · simp only [desk, addCall]
    rw [List.getElem?_concat_length]
  · refine ⟨_, List.mem_filter.mpr ⟨List.mem_append_right _ (List.mem_singleton_self _), rfl⟩, ?_⟩
    exact decide_eq_true rfl
  · intro q hq hfor
    rcases List.mem_append.mp (List.mem_filter.mp hq).1 with hq | hq
    · exact absurd (hs.known q hq _ hfor) (Nat.lt_irrefl _)
    · exact ⟨request, by rw [List.mem_singleton.mp hq]⟩

end

end Keyspace.Session
