import Keyspace.Call.Bridged

/-!
What happens to one call, in whatever order, and the state in which that leaves the call: how its
task ended, whether that came through before the context stopped, and whether it was cancelled.
-/

namespace Keyspace.Call

/-- One thing that happens to a call. -/
inductive Event (α : Type)
  /-- The task ends, in its own way unless its end was asked for before. -/
  | ends (own : Ending α)
  /-- The end of the task is asked for, but not by the call. -/
  | abort
  /-- The context turns to the job of the call. -/
  | job
  /-- The context stops. -/
  | stop
  /-- The call is cancelled, by its caller or through a handle. -/
  | cancel
  /-- The caller looks for the outcome. -/
  | poll
  deriving DecidableEq

def Event.isEnd : Event α → Bool
  | ends _ => true
  | _ => false

variable {α β : Type}

def happen (c : Call α β) : Event α → Call α β
  | .ends own => c.onTask fun t => t.run (some own)
  | .abort => c.onTask Task.abort
  | .job => c.deliver
  | .stop => c.stop
  | .cancel => c.cancel.1
  | .poll => c.poll.1

/-- The call after what happened to it since it was made at a context. -/
def after (context : Context) (convert : α → Option (Outcome β)) (past : List (Event α)) :
    Call α β :=
  past.foldl happen (.submit context convert)

/-- The context has stopped, maybe before the call was made. -/
def Stopped (context : Context) (past : List (Event α)) : Prop :=
  context.running = false ∨ .stop ∈ past

/-- Somebody asked for the end of the task. A context that had stopped does so at once. -/
def Asked (context : Context) (past : List (Event α)) : Prop :=
  context.running = false ∨ .abort ∈ past ∨ .cancel ∈ past

/-- The task ended in the given way, which it does once. -/
def Gave (context : Context) (past : List (Event α)) (ending : Ending α) : Prop :=
  ∃ before own, before ++ [.ends own] <+: past ∧ (∀ event ∈ before, event.isEnd = false) ∧
    (Asked context before ∧ ending = .aborted ∨ ¬Asked context before ∧ ending = own)

/-- The context turned to the job after the task had ended and before it stopped itself. -/
def Delivered (context : Context) (past : List (Event α)) (ending : Ending α) : Prop :=
  ∃ before, before ++ [.job] <+: past ∧ Gave context before ending ∧ ¬Stopped context before

section

variable {context : Context} {convert : α → Option (Outcome β)} {past : List (Event α)}
  {event : Event α} {ending : Ending α}

theorem stopped_concat :
    Stopped context (past ++ [event]) ↔ Stopped context past ∨ event = .stop := by
  rw [Stopped, Stopped, List.mem_append, List.mem_singleton, or_assoc, eq_comm (b := event)]

theorem asked_concat :
    Asked context (past ++ [event]) ↔
      Asked context past ∨ event = .abort ∨ event = .cancel := by
  simp only [Asked, List.mem_append, List.mem_singleton, eq_comm (b := event)]
  grind

theorem gave_concat :
    Gave context (past ++ [event]) ending ↔
      Gave context past ending ∨ ∃ own, event = .ends own ∧ (∀ e ∈ past, e.isEnd = false) ∧
        (Asked context past ∧ ending = .aborted ∨ ¬Asked context past ∧ ending = own) := by
  simp only [Gave, List.prefix_concat_iff, List.append_singleton_inj]
  constructor
  · rintro ⟨before, own, ⟨rfl, rfl⟩ | hpast, h⟩
    · exact .inr ⟨own, rfl, h⟩
    · exact .inl ⟨before, own, hpast, h⟩
  · rintro (⟨before, own, hpast, h⟩ | ⟨own, rfl, h⟩)
    · exact ⟨before, own, .inr hpast, h⟩
    · exact ⟨past, own, .inl ⟨rfl, rfl⟩, h⟩

theorem delivered_concat :
    Delivered context (past ++ [event]) ending ↔
      Delivered context past ending ∨
        event = .job ∧ Gave context past ending ∧ ¬Stopped context past := by
  simp only [Delivered, List.prefix_concat_iff, List.append_singleton_inj]
  constructor
  · rintro ⟨before, ⟨rfl, rfl⟩ | hpast, h⟩
    · exact .inr ⟨rfl, h⟩
    · exact .inl ⟨before, hpast, h⟩
  · rintro (⟨before, hpast, h⟩ | ⟨rfl, h⟩)
    · exact ⟨before, .inr hpast, h⟩
    · exact ⟨past, .inl ⟨rfl, rfl⟩, h⟩

/-- What a job makes of the end of its task. A conversion that panics leaves no outcome. -/
def brought (convert : α → Option (Outcome β)) (ending : Ending α) : Delivery β :=
  match ending.outcome with
  | .ok v => (convert v).elim .lost .made
  | .error failure => .made (.error failure)

theorem deliver_of_arrived {c : Call α β} (h : c.arrived? = some ending) :
    c.deliver = { c with delivery := brought c.convert ending } := by
  cases ending with
  | value v => cases hv : c.convert v <;> simp [deliver, toConvert?, h, brought, Ending.outcome, hv]
  | refused status => simp [deliver, toConvert?, h, brought, Ending.outcome]
  | panicked => simp [deliver, toConvert?, h, brought, Ending.outcome]
  | aborted => simp [deliver, toConvert?, h, brought, Ending.outcome]

theorem deliver_of_not_arrived {c : Call α β} (h : c.arrived? = none) : c.deliver = c := by
  simp [deliver, toConvert?, h]

/-- The task as the past leaves it. -/
structure TaskTracks (context : Context) (past : List (Event α)) (t : Task α) : Prop where
  aborting_iff : t.aborting = true ↔ Asked context past
  ending_iff : ∀ ending, t.ending = some ending ↔ Gave context past ending
  unfinished : t.ending = none → ∀ event ∈ past, event.isEnd = false

/-- What the past leaves on the way to the caller. -/
inductive Brings (context : Context) (convert : α → Option (Outcome β)) (past : List (Event α)) :
    Delivery β → Prop
  | awaited (running : ¬Stopped context past) (waiting : ∀ ending, ¬Delivered context past ending) :
      Brings context convert past .awaited
  | delivered {ending : Ending α} {d : Delivery β} (delivered : Delivered context past ending)
      (made : brought convert ending = d) : Brings context convert past d
  | stopped (stopped : Stopped context past) (waiting : ∀ ending, ¬Delivered context past ending) :
      Brings context convert past .lost

structure Tracks (context : Context) (convert : α → Option (Outcome β)) (past : List (Event α))
    (c : Call α β) : Prop where
  convert_eq : c.convert = convert
  cancelled_iff : c.cancelled = true ↔ .cancel ∈ past
  task : ∃ t, c.task = some t ∧ TaskTracks context past t
  delivery : Brings context convert past c.delivery
  made : ∀ failure, c.stage ≠ .failed failure

theorem TaskTracks.of_silent {t t' : Task α} (ht : TaskTracks context past t)
    (hevent : event.isEnd = false) (hending : t'.ending = t.ending)
    (haborting : t'.aborting = true ↔ t.aborting = true ∨ event = .abort ∨ event = .cancel) :
    TaskTracks context (past ++ [event]) t' where
  aborting_iff := by rw [haborting, ht.aborting_iff, asked_concat]
  ending_iff ending := by
    rw [hending, ht.ending_iff, gave_concat]
    constructor
    · exact .inl
    · rintro (hgave | ⟨own, rfl, -⟩)
      · exact hgave
      · cases hevent
  unfinished hnone := by
    rw [hending] at hnone
    rw [List.forall_mem_append, List.forall_mem_singleton]
    exact ⟨ht.unfinished hnone, hevent⟩

theorem TaskTracks.run {t : Task α} (ht : TaskTracks context past t) (own : Ending α) :
    TaskTracks context (past ++ [.ends own]) (t.run (some own)) := by
  have hasked : Asked context (past ++ [.ends own]) ↔ Asked context past := by
    simp [asked_concat]
  cases hending : t.ending with
  | some ended =>
      have hrun : t.run (some own) = t :=
        Task.run_of_isFinished (by simp [Task.isFinished, hending]) _
      have hlate : ¬∀ e ∈ past, e.isEnd = false := by
        obtain ⟨before, first, hpast, -⟩ := (ht.ending_iff ended).mp hending
        intro hnone
        have hfirst : (Event.ends first).isEnd = false := hnone _ (hpast.subset (by simp))
        cases hfirst
      rw [hrun]
      refine ⟨ht.aborting_iff.trans hasked.symm, fun ending => ?_, ?_⟩
      · rw [ht.ending_iff, gave_concat]
        exact (or_iff_left fun h => hlate h.choose_spec.2.1).symm
      · simp [hending]
  | none =>
      have hfirst := ht.unfinished hending
      have hgave : ∀ ending, ¬Gave context past ending := by
        intro ending h
        rw [← ht.ending_iff, hending] at h
        cases h
      have hrun : (t.run (some own)).aborting = t.aborting ∧
          (t.run (some own)).ending = some (if t.aborting then .aborted else own) := by
        cases haborting : t.aborting <;> simp [Task.run, Task.isFinished, hending, haborting]
      refine ⟨?_, fun ending => ?_, ?_⟩
      · rw [hrun.1, ht.aborting_iff, hasked]
      · rw [hrun.2, gave_concat, ← ht.aborting_iff]
        cases haborting : t.aborting <;>
          simpa [hgave, eq_comm (a := ending)] using fun _ => hfirst
      · simp [hrun.2]

theorem Brings.of_silent {d : Delivery β} (hd : Brings context convert past d)
    (hjob : event ≠ .job) (hstop : event ≠ .stop) :
    Brings context convert (past ++ [event]) d := by
  have hstopped : Stopped context (past ++ [event]) ↔ Stopped context past := by
    simp [stopped_concat, hstop]
  have hdelivered : ∀ ending,
      Delivered context (past ++ [event]) ending ↔ Delivered context past ending := by
    simp [delivered_concat, hjob]
  cases hd with
  | awaited running waiting =>
      exact .awaited (mt hstopped.mp running) fun ending =>
        mt (hdelivered ending).mp (waiting ending)
  | delivered delivered made => exact .delivered ((hdelivered _).mpr delivered) made
  | stopped stopped waiting =>
      exact .stopped (hstopped.mpr stopped) fun ending => mt (hdelivered ending).mp (waiting ending)

theorem arrived?_of_ne_awaited {c : Call α β} (h : c.delivery ≠ .awaited) : c.arrived? = none := by
  cases hd : c.delivery <;> simp_all [arrived?]

theorem brought_ne_awaited (convert : α → Option (Outcome β)) (ending : Ending α) :
    brought convert ending ≠ .awaited := by
  cases ending with
  | value v => cases hv : convert v <;> simp [brought, Ending.outcome, hv]
  | _ => simp [brought, Ending.outcome]

theorem Brings.deliver {c : Call α β} (hd : Brings context convert past c.delivery)
    (hconvert : c.convert = convert)
    (harrived : c.delivery = .awaited →
      ∀ ending, c.arrived? = some ending ↔ Gave context past ending) :
    Brings context convert (past ++ [.job]) c.deliver.delivery := by
  have hstopped : Stopped context (past ++ [.job]) ↔ Stopped context past := by
    simp [stopped_concat]
  generalize hdelivery : c.delivery = d at hd
  cases hd with
  | awaited running waiting =>
      have hgave := harrived hdelivery
      cases hending : c.arrived? with
      | none =>
          rw [deliver_of_not_arrived hending, hdelivery]
          refine .awaited (mt hstopped.mp running) fun ending hdelivered => ?_
          rcases delivered_concat.mp hdelivered with hdelivered | ⟨-, hending', -⟩
          · exact waiting ending hdelivered
          · rw [← hgave, hending] at hending'
            cases hending'
      | some ending =>
          rw [deliver_of_arrived hending, hconvert]
          have hnow : Delivered context (past ++ [.job]) ending :=
            delivered_concat.mpr (.inr ⟨rfl, (hgave ending).mp hending, running⟩)
          exact .delivered hnow rfl
  | delivered delivered made =>
      have hne : c.delivery ≠ .awaited := by
        rw [hdelivery, ← made]
        exact brought_ne_awaited convert _
      rw [deliver_of_not_arrived (arrived?_of_ne_awaited hne), hdelivery]
      exact .delivered (delivered_concat.mpr (.inl delivered)) made
  | stopped stopped waiting =>
      have hne : c.delivery ≠ .awaited := by
        rw [hdelivery]
        exact nofun
      rw [deliver_of_not_arrived (arrived?_of_ne_awaited hne), hdelivery]
      refine .stopped (hstopped.mpr stopped) fun ending hdelivered => ?_
      rcases delivered_concat.mp hdelivered with hdelivered | ⟨-, -, running⟩
      · exact waiting ending hdelivered
      · exact running stopped

theorem Brings.stop {c : Call α β} (hd : Brings context convert past c.delivery) :
    Brings context convert (past ++ [.stop]) c.stop.delivery := by
  have hstopped : Stopped context (past ++ [.stop]) := stopped_concat.mpr (.inr rfl)
  have hdelivered : ∀ ending,
      Delivered context (past ++ [.stop]) ending ↔ Delivered context past ending := by
    simp [delivered_concat]
  generalize hdelivery : c.delivery = d at hd
  cases hd with
  | awaited running waiting =>
      rw [Call.stop, hdelivery]
      exact .stopped hstopped fun ending => mt (hdelivered ending).mp (waiting ending)
  | delivered delivered made =>
      have hkept : c.stop = c := by
        have hne := brought_ne_awaited convert ‹Ending α›
        rw [made, ← hdelivery] at hne
        rw [Call.stop]
        cases hd : c.delivery <;> simp_all
      rw [hkept, hdelivery]
      exact .delivered ((hdelivered _).mpr delivered) made
  | stopped stopped waiting =>
      rw [Call.stop, hdelivery]
      simp only
      rw [hdelivery]
      exact .stopped hstopped fun ending => mt (hdelivered ending).mp (waiting ending)

theorem Tracks.of_task_kept {c : Call α β} (hc : Tracks context convert past c)
    (event : Event α) (hend : event.isEnd = false) (habort : event ≠ .abort)
    (hcancel : event ≠ .cancel)
    {d : Delivery β} (hd : Brings context convert (past ++ [event]) d) {stage : Stage}
    (hstage : ∀ failure, stage ≠ .failed failure) :
    Tracks context convert (past ++ [event]) { c with delivery := d, stage } := by
  obtain ⟨t, htask, ht⟩ := hc.task
  refine ⟨hc.convert_eq, ?_, ⟨t, htask, ht.of_silent hend rfl ?_⟩, hd, hstage⟩
  · simpa [hcancel.symm] using hc.cancelled_iff
  · simp [habort, hcancel]

theorem deliver_eq (c : Call α β) : c.deliver = { c with delivery := c.deliver.delivery } := by
  cases h : c.arrived? with
  | none => rw [deliver_of_not_arrived h]
  | some ending => rw [deliver_of_arrived h]

theorem stop_eq (c : Call α β) : c.stop = { c with delivery := c.stop.delivery } := by
  rw [stop]
  split <;> rfl

theorem poll_eq (c : Call α β) :
    c.poll.1 = { c with stage := if c.ready?.isSome then .done else c.stage } := by
  rw [poll]
  cases c.ready? <;> rfl

theorem Tracks.happen {c : Call α β} (hc : Tracks context convert past c) (event : Event α) :
    Tracks context convert (past ++ [event]) (c.happen event) := by
  obtain ⟨t, htask, ht⟩ := hc.task
  cases event with
  | ends own =>
      refine ⟨hc.convert_eq, ?_, ⟨t.run (some own), ?_, ht.run own⟩, ?_, hc.made⟩
      · simpa [Call.happen, onTask] using hc.cancelled_iff
      · rw [Call.happen, onTask, htask, Option.map_some]
      · exact hc.delivery.of_silent (by simp) (by simp)
  | abort =>
      refine ⟨hc.convert_eq, ?_, ⟨t.abort, ?_, ht.of_silent rfl rfl ?_⟩, ?_, hc.made⟩
      · simpa [Call.happen, onTask] using hc.cancelled_iff
      · rw [Call.happen, onTask, htask, Option.map_some]
      · simp [Task.abort]
      · exact hc.delivery.of_silent (by simp) (by simp)
  | cancel =>
      refine ⟨hc.convert_eq, ?_, ⟨t.abort, ?_, ht.of_silent rfl rfl ?_⟩, ?_, hc.made⟩
      · simp [Call.happen, cancel]
      · rw [Call.happen, cancel, onTask, htask, Option.map_some]
      · simp [Task.abort]
      · exact hc.delivery.of_silent (by simp) (by simp)
  | job =>
      have harrived : c.delivery = .awaited →
          ∀ ending, c.arrived? = some ending ↔ Gave context past ending := by
        intro hd ending
        rw [arrived?, hd]
        simp only [htask, Option.bind_some, ht.ending_iff]
      rw [Call.happen, deliver_eq]
      have hdelivery := hc.delivery.deliver hc.convert_eq harrived
      exact hc.of_task_kept .job rfl (by simp) (by simp) hdelivery hc.made
  | stop =>
      rw [Call.happen, stop_eq]
      exact hc.of_task_kept .stop rfl (by simp) (by simp) hc.delivery.stop hc.made
  | poll =>
      rw [Call.happen, poll_eq]
      have hdelivery : Brings context convert (past ++ [.poll]) c.delivery :=
        hc.delivery.of_silent (by simp) (by simp)
      refine hc.of_task_kept .poll rfl (by simp) (by simp) hdelivery fun failure => ?_
      split
      · simp
      · exact hc.made failure

theorem tracks_submit (context : Context) (convert : α → Option (Outcome β)) :
    Tracks context convert [] (.submit context convert) := by
  have hgave : ∀ ending : Ending α, ¬Gave context [] ending := by
    simp [Gave]
  have hdelivered : ∀ ending : Ending α, ¬Delivered context [] ending := by
    simp [Delivered]
  cases hrunning : context.running with
  | true =>
      rw [submit, if_pos hrunning]
      refine ⟨rfl, by simp, ⟨{}, rfl, ?_⟩, ?_, nofun⟩
      · exact ⟨by simp [Asked, hrunning], by simp [hgave], by simp⟩
      · exact .awaited (by simp [Stopped, hrunning]) hdelivered
  | false =>
      rw [submit, if_neg (by simp [hrunning])]
      refine ⟨rfl, by simp, ⟨{ aborting := true }, rfl, ?_⟩, ?_, nofun⟩
      · exact ⟨by simp [Asked, hrunning], by simp [hgave], by simp⟩
      · exact .stopped (.inl hrunning) hdelivered

theorem Tracks.play {c : Call α β} (hc : Tracks context convert past c) (events : List (Event α)) :
    Tracks context convert (past ++ events) (events.foldl Call.happen c) := by
  induction events generalizing past c with
  | nil => rwa [List.append_nil]
  | cons event events ih =>
      rw [List.foldl_cons, List.append_cons]
      exact ih (hc.happen event)

theorem tracks_after (context : Context) (convert : α → Option (Outcome β))
    (past : List (Event α)) : Tracks context convert past (after context convert past) :=
  (tracks_submit context convert).play past

end

end Keyspace.Call
