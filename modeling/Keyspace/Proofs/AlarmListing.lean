import Keyspace.Proofs.SequentialCalls
import Keyspace.Proofs.RaisedAlarms

namespace Keyspace

theorem Command.request_listAlarms :
    listAlarms.request = .ok (RaisedAlarm.request ⟨0, .none⟩ .get) :=
  rfl

theorem Command.request_alarm {member : UInt64} (hmember : member ≠ 0) (type : AlarmType)
    (action : AlarmAction) :
    (alarm member type action).request = .ok (RaisedAlarm.request ⟨member, type⟩ action) := by
  rw [request, if_neg hmember]
  rfl

theorem Store.alarms_of_other_command (s : Store) {command : Command} {request : Request}
    (hrequest : command.request = .ok request)
    (hother : ∀ member type action, command ≠ .alarm member type action) :
    (s.serve request).1.alarms = s.alarms := by
  have hserve : (∀ x, request ≠ .alarm x) → (s.serve request).1.alarms = s.alarms := alarms_serve
  cases command with
  | listAlarms =>
      obtain rfl := Except.ok.inj hrequest
      rfl
  | alarm member type action => exact absurd rfl (hother member type action)
  | commit transaction =>
      rw [Command.request] at hrequest
      split at hrequest
      · obtain rfl := Except.ok.inj hrequest
        exact hserve (by simp)
      · cases hrequest
  | _ =>
      obtain rfl := Except.ok.inj hrequest
      exact hserve (by simp)

theorem Command.side_eq_of_request {command : Command} {a : RaisedAlarm} {action : AlarmAction}
    (hrequest : command.request = .ok (a.request action)) : command.side = .maintenance := by
  cases command with
  | commit transaction =>
      rw [Command.request] at hrequest
      split at hrequest <;> simp [RaisedAlarm.request] at hrequest
  | _ => first | rfl | simp [Command.request, RaisedAlarm.request] at hrequest

namespace Session

/-- What the caller of a call about an alarm can be told. In its turn the request is answered for
the alarms that were raised before it and not taken back, and does nothing but to leave those that
it leaves. What had come when the call was made comes before it. -/
inductive AlarmsTold (l : Ledger) (i : Nat) (errand : Errand) (a : RaisedAlarm)
    (action : AlarmAction) : Outcome Reply → Prop
  | answered {before more : List Arrival} {list : List RaisedAlarm}
      (hfailure : errand.failure = none) (hsince : errand.since ≤ before.length)
      (hturn : l.past = before ++ { call := i, request := a.request action } :: more)
      (hlisted : Roster (before.map Arrival.request) list)
      (hleft : Roster (before.map Arrival.request ++ [a.request action]) (action.relist a list))
      (hstore : ((Store.empty.given before).serve (a.request action)).1 =
        { Store.empty.given before with alarms := (action.relist a list).map RaisedAlarm.member }) :
      AlarmsTold l i errand a action (.ok (.alarms
        { header := (Store.empty.given before).header, alarms := action.named a list }))
  | failed {status : Status} (hfailure : errand.failure = some status) :
      AlarmsTold l i errand a action (.error (.transport status))
  | cancelled : AlarmsTold l i errand a action (.error .cancelled)
  | stopped : AlarmsTold l i errand a action (.error .contextShutdown)

section

variable {s : Session} {l : Ledger} {command : Command} {a : RaisedAlarm} {action : AlarmAction}
  {i : Nat} {outcome : Outcome Reply}

theorem alarmsTold {errand : Errand} (h : l.Tells i outcome) (herrand : l.errands[i]? = some errand)
    (hrequest : errand.request = .ok (a.request action)) :
    AlarmsTold l i errand a action outcome := by
  cases h with
  | @replied request since before more hreplied hturn hsince =>
      obtain rfl := Option.some.inj (herrand.symm.trans hreplied)
      obtain rfl := Except.ok.inj hrequest
      obtain ⟨list, hlist, halarms⟩ := Store.exists_roster (before.map Arrival.request)
      have hreply : (Store.empty.given before).reply (a.request action) = _ :=
        Store.reply_request halarms hlist.nodup a action
      have hserve : (Store.empty.given before).serve (a.request action) = _ :=
        Store.serve_request halarms hlist.nodup a action
      rw [hreply]
      refine .answered rfl hsince hturn hlist (hlist.request a action) ?_
      rw [hserve]
      rfl
  | failed hfailed =>
      obtain rfl := Option.some.inj (herrand.symm.trans hfailed)
      exact .failed rfl
  | rejected hrejected =>
      obtain rfl := Option.some.inj (herrand.symm.trans hrejected)
      cases hrequest
  | cancelled => exact .cancelled
  | stopped => exact .stopped

theorem told_awaited (hs : s.Orderly .empty) (hrequest : command.request = .ok (a.request action)) :
    ∃ outcome, (s.step (.call command .await)).2 = .awaited (some outcome) ∧
      outcome ≠ .error .cancelled ∧
        (outcome = .error .contextShutdown ↔ s.maintenance.running = false) := by
  have hside := Command.side_eq_of_request hrequest
  have hcontext : s.context command.side = s.maintenance := by rw [hside]; rfl
  by_cases hrunning : s.maintenance.running = true
  · obtain ⟨before, htold⟩ := exists_told_of_running hs (hcontext ▸ hrunning)
    obtain ⟨list, hlist, halarms⟩ := Store.exists_roster before
    refine ⟨_, htold command _ rfl hrequest, ?_⟩
    rw [turnReply, Store.reply_request halarms hlist.nodup]
    cases s.failures.head? <;> simp [hrunning]
  · have hstopped : s.maintenance.running = false := Bool.eq_false_iff.mpr hrunning
    obtain ⟨past, hserver⟩ := hs.reached
    exact ⟨_, told_of_stopped hserver hrequest (hcontext ▸ hstopped), by simp, by simp [hstopped]⟩

theorem Idle.told_listAlarms (hidle : s.Idle) (hs : s.Orderly .empty) (h : l.Agrees s) :
    ∃ list, Roster (l.past.map Arrival.request) list ∧
      (s.step (.call .listAlarms .await)).2 = .awaited (some (.ok (.alarms
        { header := (Store.empty.given l.past).header, alarms := list }))) := by
  have hrequest := Command.request_listAlarms
  obtain ⟨outcome, htold, hcancelled, hstopped⟩ := told_awaited hs hrequest
  have hcomes := (hidle.await h.server .listAlarms).2
  have hpast : (l.step s (.call .listAlarms .await)).past =
      l.past ++ [{ call := s.calls.length, request := RaisedAlarm.request ⟨0, .none⟩ .get }] := by
    rw [Ledger.step, Ledger.add, hcomes, hrequest]
    rfl
  have herrand : (l.step s (.call .listAlarms .await)).errands[s.calls.length]? =
      some ⟨Command.listAlarms.request, s.failures.head?, l.past.length⟩ := by
    rw [h.calls]
    exact List.getElem?_concat_length
  have htells : (l.step s (.call .listAlarms .await)).Tells s.calls.length outcome :=
    h.tells rfl (by rw [htold]; rfl)
  cases alarmsTold htells herrand hrequest with
  | cancelled => exact absurd rfl hcancelled
  | stopped =>
      have hrunning := hidle.running .listAlarms
      have hnone := hstopped.mp rfl
      rw [Command.side, context, hnone] at hrunning
      cases hrunning
  | failed hfailure => simp [hidle.failures] at hfailure
  | @answered before more list hfailure hsince hturn hlisted hleft hstore =>
      -- All that came before the call was made comes before its turn, and nothing comes after it.
      rw [hpast] at hturn
      have hlength := congrArg List.length hturn
      simp only [List.length_append, List.length_cons, List.length_nil] at hlength hsince
      obtain ⟨rfl, -⟩ := List.append_inj hturn (by omega)
      exact ⟨list, hlisted, htold⟩

theorem told_of_no_member (hs : s.Orderly .empty) (type : AlarmType) (action : AlarmAction) :
    let why : Failure := .invalidArgument "member id must not be 0"
    let step : Step := .call (.alarm 0 type action) .await
    s.make (.alarm 0 type action) = s.addCall (some .maintenance) (.failed why) ∧
      (s.step step).2 = .awaited (some (.error why)) ∧ s.servedBy step = s.servedBy .drive := by
  intro why step
  have hmade : s.make (.alarm 0 type action) = s.addCall (some .maintenance) (.failed why) := rfl
  have hready : ((s.addCall (some .maintenance) (.failed why)).call? s.calls.length).bind
      Call.ready? = some (.error why) := by
    rw [call?_addCall_length]
    rfl
  have hsettled := ready?_settleCall (ready?_settle hready)
  refine ⟨hmade, ?_, ?_⟩
  · change Told.awaited ((((s.make (.alarm 0 type action)).settleCall s.calls.length).poll
      s.calls.length).2) = _
    rw [poll_snd, hmade, hsettled]
  · exact servedBySettleCall_failed hs _ why

end

/-- Alarms behave as an ordered set. However a session has come about, the alarms of its store are
those that were raised and not taken back, in order. Who lists them, raises one or takes one back is
told of those at the turn of its request, or why there is none; a call for no member sends nothing,
and no other command makes a difference. When calls are waited for one after the other, their own
requests determine the alarms. -/
theorem alarms_listed_in_order :
    (Command.listAlarms.request = .ok (RaisedAlarm.request ⟨0, .none⟩ .get) ∧
      ∀ member type action, member ≠ 0 →
        (Command.alarm member type action).request =
          .ok (RaisedAlarm.request ⟨member, type⟩ action)) ∧
    (∀ (s : Store) (command : Command) (request : Request), command.request = .ok request →
      (∀ member type action, command ≠ .alarm member type action) →
        (s.serve request).1.alarms = s.alarms) ∧
    (∀ threadPrefix size steps,
      let start := Session.new threadPrefix (.memory .empty) size
      let s := start.after steps
      let l := start.ledger {} steps
      l.Fair ∧
      (∃ list, s.store? = some (Store.empty.given l.past) ∧
        Roster (l.past.map Arrival.request) list ∧
        (∀ list', Roster (l.past.map Arrival.request) list' → list' = list) ∧
        (Store.empty.given l.past).alarms = list.map RaisedAlarm.member) ∧
      (∀ step i outcome errand a action,
        let l := start.ledger {} (steps ++ [step])
        s.about? step = some i → (s.step step).2.outcome? = some outcome →
          l.errands[i]? = some errand → errand.request = .ok (RaisedAlarm.request a action) →
            AlarmsTold l i errand a action outcome) ∧
      (∀ command a action, command.request = .ok (RaisedAlarm.request a action) →
        ∃ outcome, (s.step (.call command .await)).2 = .awaited (some outcome) ∧
          outcome ≠ .error .cancelled ∧
          (outcome = .error .contextShutdown ↔ s.maintenance.running = false)) ∧
      ∀ type action,
        let why : Failure := .invalidArgument "member id must not be 0"
        let step : Step := .call (.alarm 0 type action) .await
        s.make (.alarm 0 type action) = s.addCall (some .maintenance) (.failed why) ∧
          (s.step step).2 = .awaited (some (.error why)) ∧
          s.servedBy step = s.servedBy .drive) ∧
    ∀ threadPrefix size (commands : List Command),
      let start := Session.new threadPrefix (.memory .empty) size
      let s := start.after (commands.map (.call · .await))
      let past := commands.filterMap fun command => command.request.toOption
      ∃ list, Roster past list ∧ (s.step (.call .listAlarms .await)).2 =
        .awaited (some (.ok (.alarms
          { header := (Store.empty.run past).header, alarms := list }))) := by
  refine ⟨⟨Command.request_listAlarms, fun member type action hmember =>
    Command.request_alarm hmember type action⟩, fun s command request =>
    s.alarms_of_other_command, fun threadPrefix size steps => ?_,
    fun threadPrefix size commands => ?_⟩
  · intro start s l
    have hs : s.Orderly .empty := (orderly_new threadPrefix .empty size).after steps
    obtain ⟨hagrees, htells⟩ := told_of_ledger threadPrefix size steps
    obtain ⟨list, hlist, halarms⟩ := Store.exists_roster (l.past.map Arrival.request)
    refine ⟨hagrees.fair, ⟨list, ?_, hlist, fun list' hlist' => hlist'.unique hlist, halarms⟩,
      fun step i outcome errand a action hi houtcome herrand hrequest => ?_,
      fun command a action hrequest => told_awaited hs hrequest,
      fun type action => told_of_no_member hs type action⟩
    · rw [store?, hagrees.server]
    · exact alarmsTold (htells step i outcome hi houtcome) herrand hrequest
  · intro start s past
    have hs : s.Orderly .empty := (orderly_new threadPrefix .empty size).after _
    have hagrees := (Ledger.agrees_new threadPrefix size).after (commands.map (.call · .await))
    have hidle : start.Idle := idle_new threadPrefix _ size
    obtain ⟨hsidle, hpast⟩ := hidle.awaits (Ledger.agrees_new threadPrefix size) commands
    obtain ⟨list, hlist, htold⟩ := hsidle.told_listAlarms hs hagrees
    rw [Store.given] at htold
    rw [hpast] at hlist htold
    exact ⟨list, hlist, htold⟩

/-- Of two alarms the first is raised once more to no effect, taken back, and raised anew, so that
it comes after the second. What else is called for leaves them as they are. Then a call for the list
is held back, and looked at when the second has been taken back. -/
theorem alarms_listed_in_order_of_raised_anew :
    let raise (a : RaisedAlarm) : Command := .alarm a.memberId a.alarm .activate
    let first : RaisedAlarm := ⟨1, .noSpace⟩
    let second : RaisedAlarm := ⟨2, .corrupt⟩
    let commands : List Command := [raise first, raise second, raise first, .put [1] [] {},
      .disarm 1 .noSpace, .disarm 1 .corrupt, raise first, .alarm 0 .corrupt .deactivate,
      .compact { revision := 2 }, .defragment]
    let start := Session.new "" (.memory .empty) 0
    let steps : List Step := commands.map (.call · .await)
    let s := start.after steps
    let later : List Step :=
      steps ++ [.call .listAlarms (.hold 7), .call (.disarm 2 .corrupt) .await]
    (∃ header, (s.step (.call .listAlarms .await)).2 =
      .awaited (some (.ok (.alarms { header, alarms := [second, first] })))) ∧
    ∃ outcome, ((start.after later).step (.held 7 .poll)).2.outcome? = some outcome ∧
      AlarmsTold (start.ledger {} (later ++ [.held 7 .poll])) 10
        { request := .ok (RaisedAlarm.request ⟨0, .none⟩ .get), failure := none, since := 9 }
        ⟨0, .none⟩ .get outcome := by
  intro raise first second commands start steps s later
  obtain ⟨-, -, hsessions, hcalls⟩ := alarms_listed_in_order
  constructor
  · obtain ⟨l, hl, htold⟩ := hcalls "" 0 commands
    obtain ⟨l', hl', halarms⟩ :=
      Store.exists_roster (commands.filterMap fun command => command.request.toOption)
    have hstored : l'.map RaisedAlarm.member = [second, first].map RaisedAlarm.member :=
      halarms.symm.trans (by decide +kernel)
    have hlisted : l = [second, first] :=
      (hl.unique hl').trans (List.map_injective_iff.mpr RaisedAlarm.member_injective hstored)
    rw [hlisted] at htold
    exact ⟨_, htold⟩
  · obtain ⟨-, -, htold, -⟩ := hsessions "" 0 later
    have hsome : (((start.after later).step (.held 7 .poll)).2.outcome?).isSome = true := by
      decide +kernel
    obtain ⟨outcome, houtcome⟩ := Option.isSome_iff_exists.mp hsome
    exact ⟨outcome, houtcome,
      htold (.held 7 .poll) 10 outcome _ _ _ (by decide +kernel) houtcome (by decide +kernel) rfl⟩

end Session

end Keyspace
