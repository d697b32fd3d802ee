import Keyspace.Proofs.PendingCalls

namespace Keyspace.Session

/-- The use gives the call up, or gives its outcome to the caller if it is there. -/
def Use.takes (ready : Bool) : Use → Bool
  | await | onComplete | cancel | continueWith => true
  | poll => ready
  | isCancelled | debug | drop => false

/-- The step uses up or gives up the outcome of the call at a place of a side. -/
def Step.Touches (s : Session) (side : Side) (i : Nat) : Step → Prop
  | .held id use => use.takes (s.isReady i) = true ∧ s.held.lookup id = some i
  | .close sides => side ∈ sides
  | .cancelHandle j => i = j
  | _ => False

instance (s : Session) (side : Side) (i : Nat) : ∀ step : Step, Decidable (step.Touches s side i)
  | .held _ _ => inferInstanceAs (Decidable (_ ∧ _))
  | .close sides => inferInstanceAs (Decidable (side ∈ sides))
  | .cancelHandle j => inferInstanceAs (Decidable (i = j))
  | .call .. | .callAt .. | .rpc _ | .drive | .failNext _ | .latency _ | .debug =>
      inferInstanceAs (Decidable False)
  | .attach .. | .snapshot .. | .detach | .observe _ | .start _ | .listen _ =>
      inferInstanceAs (Decidable False)

/-- No step touches the call. -/
def Untouched (side : Side) (i : Nat) : Session → List Step → Prop
  | _, [] => True
  | s, step :: steps => ¬step.Touches s side i ∧ Untouched side i (s.step step).1 steps

instance (side : Side) (i : Nat) : ∀ (s : Session) (steps : List Step),
    Decidable (Untouched side i s steps)
  | _, [] => inferInstanceAs (Decidable True)
  | s, step :: steps =>
      haveI := instDecidableUntouched side i (s.step step).1 steps
      inferInstanceAs (Decidable (_ ∧ _))

section

variable {s s' : Session} {store : Store} {i : Nat} {side : Side} {request : Request}
  {touched : Nat → Prop}

theorem Carries.of_memory
    (h : ∀ store, s.server = .memory store → s.Carries side touched s') :
    s.Carries side touched s' where
  orderly store hs := by
    obtain ⟨more, hserver⟩ := hs.reached
    exact (h _ hserver).orderly store hs
  pending store i request hi hs := by
    obtain ⟨more, hserver⟩ := hs.reached
    exact (h _ hserver).pending store i request hi hs
  answered store i request hi hs := by
    obtain ⟨before, ⟨more, hserver⟩, howes⟩ := hs
    exact (h _ hserver).answered store i request hi ⟨before, ⟨more, hserver⟩, howes⟩

theorem Owes.addCall {ending : Option (Ending Response)} (h : s.Owes i side ending)
    (other : Option Side) (call : Call Response Reply) :
    (s.addCall other call).Owes i side ending := by
  refine ⟨h.1, ?_⟩
  rw [Session.addCall, List.getElem?_append_left h.lt_length]
  exact h.2

theorem carries_addCall (s : Session) (other : Option Side) (call : Call Response Reply) :
    s.Carries side touched (s.addCall other call) :=
  carries_of_same rfl (fun _ _ => .rfl) (by simp [addCall]) fun _ _ _ howes =>
    howes.addCall other call

theorem carries_enqueue {j : Nat} (hj : j < s.calls.length) {q : Queued}
    (hq : ∀ i, q.job.isFor i = true → i = j) (failures : List Status) (sent : List Sent) :
    s.Carries side (· = j) { s with failures, sent, queue := s.queue ++ [q] } where
  orderly store h := by
    refine ⟨h.reached, fun q' hq' i hi => ?_⟩
    rcases List.mem_append.mp hq' with hold | hnew
    · exact h.known q' hold i hi
    · obtain rfl := List.mem_singleton.mp hnew
      exact hq i hi ▸ hj
  pending store i request hi h := by
    obtain ⟨q', hq', hfor⟩ := h.queued
    refine .inl ⟨h.reached, ⟨q', List.mem_append_left _ hq', hfor⟩, fun q' hq' hfor => ?_, h.owes⟩
    rcases List.mem_append.mp hq' with hold | hnew
    · exact h.only q' hold hfor
    · obtain rfl := List.mem_singleton.mp hnew
      exact absurd (hq i hfor) hi
  answered _ _ _ _ h := h

theorem carries_send (s : Session) (other : Option Side) (call : Call Response Reply)
    (request : Request) :
    s.Carries side touched ((s.addCall other call).submit s.calls.length request) := by
  refine Carries.of_new ((s.carries_addCall other call).trans ?_)
  refine Carries.of_memory fun store hserver => ?_
  rw [submit_eq hserver]
  refine carries_enqueue (by simp [addCall]) (fun i hi => ?_) _ _
  exact of_decide_eq_true hi

theorem carries_makeAt (s : Session) (other : Side) (command : Command) :
    s.Carries side touched (s.makeAt other command) := by
  rw [makeAt]
  cases command.request with
  | error failure => exact s.carries_addCall _ _
  | ok request => exact s.carries_send _ _ request

theorem pending_make {past : Store} (hs : s.Orderly past) (hserver : s.server = .memory store)
    {command : Command} (hrequest : command.request = .ok request)
    (hrunning : (s.context command.side).running = true) (hfailures : s.failures = []) :
    (s.make command).Pending store s.calls.length command.side request := by
  have hadded : ∀ call, (s.addCall (some command.side) call).server = .memory store :=
    fun _ => hserver
  rw [make, makeAt, hrequest]
  simp only
  rw [submit_eq (hadded _)]
  constructor
  · exact ⟨[], hserver⟩
  · refine ⟨_, List.mem_append_right _ (List.mem_singleton_self _), ?_⟩
    exact decide_eq_true rfl
  · intro q hq hfor
    rcases List.mem_append.mp hq with hq | hq
    · exact absurd (hs.known q hq _ hfor) (Nat.lt_irrefl _)
    · obtain rfl := List.mem_singleton.mp hq
      simp [addCall, hfailures]
  · refine ⟨hrunning, _, ?_, Call.owed_submit hrunning⟩
    simp only [addCall]
    rw [List.getElem?_concat_length]

theorem carries_complete (s : Session) (j : Nat) :
    s.Carries side (· = j) (s.complete j).1 := by
  rw [complete]
  simp only
  split
  · exact (s.carries_settleCall j).trans (carries_poll _ j)
  · exact s.carries_settleCall j

theorem carries_held (s : Session) (held : List (Int × Nat)) :
    s.Carries side touched { s with held } :=
  carries_of_same rfl (fun _ _ => .rfl) (Nat.le_refl _) fun _ _ _ howes => howes

theorem carries_continuations (s : Session) (continuations : List Continuation) :
    s.Carries side touched { s with continuations } :=
  carries_of_same rfl (fun _ _ => .rfl) (Nat.le_refl _) fun _ _ _ howes => howes

theorem carries_continueWith (s : Session) (j : Nat) :
    s.Carries side touched (s.continueWith j) := by
  rw [continueWith]
  split
  · have hgiven : s.Carries side touched
        { s with continuations := s.continuations ++ [{ call := j }] } :=
      s.carries_continuations _
    exact hgiven.trans (carries_continuations _ _)
  · exact s.carries_continuations _

theorem carries_cancelHandle (s : Session) (j : Nat) :
    s.Carries side (· = j) (s.cancelHandle j).1 :=
  (s.carries_cancel j).trans (carries_continuations _ _)

theorem carries_callAt (s : Session) (other : Side) (command : Command) (mode : Mode) :
    s.Carries side touched (s.callAt other command mode).1 := by
  refine Carries.of_new ?_
  have hmade : s.Carries side (· = s.calls.length) (s.makeAt other command) :=
    s.carries_makeAt other command
  rw [Session.callAt.eq_def]
  simp only
  generalize s.makeAt other command = s' at hmade ⊢
  refine hmade.trans ?_
  cases mode with
  | await => exact (s'.carries_settleCall _).trans (carries_poll _ _)
  | cancel => exact ((s'.carries_cancel _).trans (carries_poll _ _)).trans (carries_settle _)
  | lateCancel =>
      simp only
      exact (s'.carries_settle.trans (carries_cancel _ _)).trans (carries_poll _ _)
  | drop => exact s'.carries_settle
  | onComplete => exact s'.carries_complete _
  | hold id => exact s'.carries_held _
  | letGo => exact .refl s'
  | continueWith => exact s'.carries_continueWith _

theorem carries_poll_of_waiting {j : Nat} (hj : s.isReady j = false) :
    s.Carries side touched (s.poll j).1 := by
  rw [isReady] at hj
  rw [poll]
  cases hcall : s.call? j with
  | none => exact .refl s
  | some c =>
      have hkept : c.poll = (c, none) := by
        rw [hcall, Option.any_some] at hj
        rw [Call.poll, Option.isNone_iff_eq_none.mp (Option.isSome_eq_false_iff.mp hj)]
      simp only [Option.map_some, hkept]
      refine carries_of_same rfl (fun _ _ => .rfl) (Nat.le_of_eq (List.length_modify ..).symm)
        fun i ending _ howes => ⟨howes.1, ?_⟩
      obtain ⟨-, c', hcall', howed⟩ := howes
      refine ⟨c', ?_, howed⟩
      rw [onCall, List.getElem?_modify, hcall']
      by_cases hi : j = i
      · have hsame : c' = c := by simpa [call?, hi, hcall'] using hcall
        simp [hi, hsame]
      · simp [hi]

theorem carries_useHeld (s : Session) (id : Int) (use : Use) :
    s.Carries side (fun i => (Step.held id use).Touches s side i) (s.useHeld id use).1 := by
  rw [useHeld]
  simp only [Step.Touches]
  cases hlookup : s.held.lookup id with
  | none => exact .refl s
  | some j =>
      have hforgot : s.Carries side (· = j) { s with held := s.held.filter fun h => h.1 ≠ id } :=
        s.carries_held _
      have htouched : ∀ use : Use, use.takes (s.isReady j) = true → ∀ i, i = j →
          use.takes (s.isReady i) = true ∧ some j = some i := by
        rintro use huse i rfl
        exact ⟨huse, rfl⟩
      -- The uses that take nothing leave every call alone, the others all but the call itself.
      cases use with
      | await => exact ((s.carries_settleCall j).trans (carries_poll _ j)).mono (htouched _ rfl)
      | onComplete => exact (hforgot.trans (carries_complete _ j)).mono (htouched _ rfl)
      | cancel => exact (s.carries_cancel j).mono (htouched _ rfl)
      | isCancelled => exact .refl s
      | debug => exact .refl s
      | drop => exact s.carries_held _
      | poll =>
          by_cases hready : s.isReady j = true
          · exact (s.carries_poll j).mono (htouched _ hready)
          · exact carries_poll_of_waiting (Bool.eq_false_iff.mpr hready)
      | continueWith => exact (hforgot.trans (carries_continueWith _ j)).mono (htouched _ rfl)

theorem carries_stopCalls (s : Session) (other : Side) :
    s.Carries side (fun _ => side = other) (s.stopCalls other) := by
  refine carries_of_same rfl (fun _ _ => .rfl) (by simp [stopCalls]) fun i ending hside howes => ?_
  obtain ⟨hrunning, c, hcall, howed⟩ := howes
  refine ⟨hrunning, c, ?_, howed⟩
  rw [stopCalls, List.getElem?_map, hcall]
  simp [hside]

theorem carries_stopContext (s : Session) (other : Side) :
    s.Carries side (fun _ => side = other) (s.stopContext other) := by
  have howes : ∀ i ending, ¬side = other → s.Owes i side ending →
      (s.stopContext other).Owes i side ending := by
    intro i ending hside h
    refine ⟨?_, ?_⟩
    · rw [context_stopContext, if_neg hside]
      exact h.1
    · cases other <;> exact h.2
  cases other <;> exact carries_of_same rfl (fun _ _ => .rfl) (Nat.le_refl _) howes

theorem carries_close (s : Session) (other : Side) :
    s.Carries side (fun _ => side = other) (s.close other) := by
  have hdetached : s.Carries side (fun _ => side = other)
      (if other = .maintenance then s.detach.1 else s) := by
    split
    · exact s.aside_detach.carries
    · exact .refl s
  exact (hdetached.trans (carries_stopCalls _ other)).trans (carries_stopContext _ other)

theorem carries_start (s : Session) (name : String) :
    s.Carries side touched { s with further := s.further ++ [{ name }] } :=
  carries_of_same rfl (fun _ _ => .rfl) (Nat.le_refl _) fun i ending _ h => by
    refine ⟨?_, h.2⟩
    rw [context_start]
    split
    · rfl
    · exact h.1

theorem carries_foldl_close (s : Session) (sides : List Side) :
    s.Carries side (fun _ => side ∈ sides) (sides.foldl close s) := by
  induction sides generalizing s with
  | nil => exact .refl s
  | cons other sides ih =>
      exact ((s.carries_close other).mono fun _ => List.mem_cons.mpr ∘ .inl).trans
        ((ih (s.close other)).mono fun _ => List.mem_cons_of_mem _)

theorem carries_observe (s : Session) (o : Observer) :
    s.Carries side touched (s.observe o) := by
  rw [observe]
  generalize ({ o with stream := _ } : Observer) = o
  have hseen := s.aside_observers (s.observers ++ [o])
  exact (hseen.carries.trans (aside_ask _ _).carries).trans (carries_settleFor _ _)

/-- Where the calls stand after a step. -/
theorem carries_step (s : Session) (step : Step) :
    s.Carries side (step.Touches s side) (s.step step).1 := by
  cases step <;> simp only [Session.step]
  case call command mode => exact s.carries_callAt command.side command mode
  case callAt client command mode => exact s.carries_callAt (.further client) command mode
  case held id use => exact s.carries_useHeld id use
  case rpc request => exact (s.carries_send _ _ request).trans (carries_settleCall _ _)
  case drive => exact s.carries_settle
  case failNext status => exact carries_of_desk_eq rfl
  case latency ms =>
    exact carries_of_same rfl (fun _ _ => .rfl) (Nat.le_refl _) fun _ _ _ howes => howes
  case close sides => exact s.carries_foldl_close sides
  case debug => exact .refl s
  case attach detachAt swapAt => exact (s.aside_attach detachAt swapAt).carries
  case snapshot detachAt swapAt =>
    exact (s.aside_attach detachAt swapAt).carries.trans (carries_settle _)
  case detach => exact s.aside_detach.carries
  case observe o => exact s.carries_observe o
  case start name => exact s.carries_start name
  case cancelHandle j => exact s.carries_cancelHandle j
  case listen j => exact .refl s

theorem Orderly.after (hs : s.Orderly store) (steps : List Step) :
    (s.after steps).Orderly store := by
  induction steps generalizing s with
  | nil => exact hs
  | cons step steps ih =>
      have hcarries : s.Carries .kv (step.Touches s .kv) (s.step step).1 := s.carries_step step
      exact ih (hcarries.orderly store hs)

theorem Stands.after {steps : List Step} (h : s.Stands store i side request)
    (hsteps : Untouched side i s steps) : (s.after steps).Stands store i side request := by
  induction steps generalizing s with
  | nil => exact h
  | cons step steps ih =>
      obtain ⟨hstep, hrest⟩ := hsteps
      exact ih ((s.carries_step step).stands hstep h) hrest

/-- The caller is told the reply to its request of a store that the given one had become. What is
done after it is done to the store that the request left. -/
def Replies (store : Store) (request : Request) (p : Session × Told) : Prop :=
  ∃ before more, p.1.store? = some (store.run (before ++ request :: more)) ∧
    p.2 = .awaited (some ((store.run before).reply request))

theorem poll_snd (s : Session) (i : Nat) : (s.poll i).2 = (s.call? i).bind Call.ready? := by
  rw [poll]
  cases s.call? i with
  | none => rfl
  | some c => exact c.poll_outcome

theorem server_poll (s : Session) (i : Nat) : (s.poll i).1.server = s.server := by
  rw [poll]
  split <;> rfl

theorem Stands.replies (h : s.Stands store i side request) :
    Replies store request ((s.await i).1, .awaited (s.await i).2) := by
  obtain ⟨before, ⟨more, hserver⟩, hready⟩ := h.gives_settleCall
  rw [← Store.run_append, List.append_assoc, List.singleton_append] at hserver
  refine ⟨before, more, ?_, ?_⟩
  · rw [await, store?, server_poll, hserver]
  · rw [await, poll_snd, hready]

variable {past : Store} {command : Command}

theorem replies_await (hs : s.Orderly past) (hserver : s.server = .memory store)
    (hrequest : command.request = .ok request)
    (hrunning : (s.context command.side).running = true) (hfailures : s.failures = []) :
    Replies store request (s.step (.call command .await)) :=
  Stands.replies (.inl (pending_make hs hserver hrequest hrunning hfailures))

theorem replies_await_held (hs : s.Orderly past) (hserver : s.server = .memory store)
    (hrequest : command.request = .ok request)
    (hrunning : (s.context command.side).running = true) (hfailures : s.failures = [])
    {id : Int} {later : List Step}
    (hlater : Untouched command.side s.calls.length (s.step (.call command (.hold id))).1 later)
    (hheld : ((s.step (.call command (.hold id))).1.after later).held.lookup id =
      some s.calls.length) :
    Replies store request
      (((s.step (.call command (.hold id))).1.after later).step (.held id .await)) := by
  have hmade : (s.make command).Stands store s.calls.length command.side request :=
    .inl (pending_make hs hserver hrequest hrunning hfailures)
  have hkept : (s.step (.call command (.hold id))).1.Stands store s.calls.length command.side
      request := hmade.carried (carries_held _ _)
  have hthen := hkept.after hlater
  generalize (s.step (.call command (.hold id))).1.after later = s' at hheld hthen
  rw [Session.step, useHeld, hheld]
  exact hthen.replies

end

theorem orderly_new (threadPrefix : String) (store : Store) (size : Nat) :
    (Session.new threadPrefix (.memory store) size).Orderly store where
  reached := ⟨[], rfl⟩
  known _ hq := nomatch hq

end Keyspace.Session
