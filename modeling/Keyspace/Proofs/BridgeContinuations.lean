import Keyspace.Call.Bridge
import Keyspace.Proofs.CallEvents
import Mathlib.Data.List.Induction
import Mathlib.Data.List.Infix

/-!
Continuations at a bridge, under every order of what happens to its calls. A continuation waits,
or was told an outcome, but never both: the two are counted together, and each event keeps the
count.
-/

namespace Keyspace.Bridge

/-- One thing that happens at a bridge. The calls are named by their places. -/
inductive Event (ι α β : Type)
  | call (id : ι) (own : Option (Ending α)) (convert : α → Option (Outcome β))
  | failed (id : ι) (failure : Failure)
  /-- The task runs, and ends if it ends by itself or if its end was asked for. -/
  | task (i : Nat)
  /-- The end of the task is asked for, but not by the call. -/
  | abort (i : Nat)
  /-- The context turns to the job of the call. -/
  | job (i : Nat)
  /-- The context turns to the continuation that waits for the call. -/
  | resume (i : Nat)
  /-- The call is cancelled, by its caller or through a handle. -/
  | cancel (i : Nat)
  | poll (i : Nat)
  | drop (i : Nat)
  /-- The caller gives the call away for a continuation. -/
  | register (i : Nat)
  | shutdown

variable {ι α β : Type}

/-- What comes of an event. A call that its caller has no more is not polled by it, not dropped,
and not given away again. -/
def happen (b : Bridge ι α β) : Event ι α β → Bridge ι α β
  | .call id own convert => b.call id own convert
  | .failed id failure => b.failed id failure
  | .task i => b.runTask i
  | .abort i => b.onCall i fun c => c.onTask Call.Task.abort
  | .job i => b.runJob i
  | .resume i => b.resume i
  | .cancel i => b.onCall i fun c => c.cancel.1
  | .poll i => if b.has i then b.onCall i fun c => c.poll.1 else b
  | .drop i => if b.has i then b.release i else b
  | .register i => if b.has i then b.register i else b
  | .shutdown => b.shutdown

/-- The bridge after what happened since it was made at a context. -/
def after (context : Context) (past : List (Event ι α β)) : Bridge ι α β :=
  past.foldl happen { context }

/-- How many continuations of the call at a place there were: those that wait, and those that were
told. -/
def owed (b : Bridge ι α β) (i : Nat) : Nat :=
  b.waiting.count i + (b.told i).length

def outcome? (b : Bridge ι α β) (i : Nat) : Option (Outcome β) :=
  (b.at? i).bind fun c => c.poll.2

theorem drive_eq (b : Bridge ι α β) :
    let all := List.range b.calls.length
    b.drive = (all.map Event.task ++ all.map Event.job ++ all.map Event.resume).foldl happen b := by
  simp only [drive, List.foldl_append, List.foldl_map, happen]

theorem complete_eq {b : Bridge ι α β} {i : Nat} (h : b.has i = true) :
    (b.complete i).2 = (((b.happen (.register i)).told i).head?).or
      ((b.happen (.register i)).drive.told i).head? := by
  rw [happen, if_pos h, complete]
  dsimp only
  cases htold : (b.register i).told i with
  | nil => rfl
  | cons first rest => simp [htold]

theorem continueWith_eq {b : Bridge ι α β} {i : Nat} (h : b.has i = true) :
    b.continueWith i = [Event.register i, .resume i].foldl happen b := by
  simp [continueWith, happen, h]

/-- An event came for which the test holds, together with what was before it. -/
def Came (past : List (Event ι α β)) (test : List (Event ι α β) → Event ι α β → Prop) : Prop :=
  ∃ before event, before ++ [event] <+: past ∧ test before event

theorem came_concat {past : List (Event ι α β)} {event : Event ι α β}
    {test : List (Event ι α β) → Event ι α β → Prop} :
    Came (past ++ [event]) test ↔ Came past test ∨ test past event := by
  simp only [Came, List.prefix_concat_iff, List.append_singleton_inj]
  constructor
  · rintro ⟨before, e, ⟨rfl, rfl⟩ | hpast, h⟩
    · exact .inr h
    · exact .inl ⟨before, e, hpast, h⟩
  · rintro (⟨before, e, hpast, h⟩ | h)
    · exact ⟨before, e, .inr hpast, h⟩
    · exact ⟨past, event, .inl ⟨rfl, rfl⟩, h⟩

theorem not_came_nil {test : List (Event ι α β) → Event ι α β → Prop} : ¬Came [] test := by
  rintro ⟨before, event, hpast, -⟩
  simp at hpast

/-- The context has stopped, maybe before there was a bridge. -/
def Stopped (context : Context) (past : List (Event ι α β)) : Prop :=
  context.running = false ∨ .shutdown ∈ past

def Asked (context : Context) (past : List (Event ι α β)) (i : Nat) : Prop :=
  Came past fun before event => event = .register i ∧ (after context before).has i = true

def Cancelled (context : Context) (past : List (Event ι α β)) (i : Nat) : Prop :=
  Came past fun before event => event = .cancel i ∧ i < (after context before).calls.length

/-- The caller polled the call itself, and was given the outcome. -/
def Polled (context : Context) (past : List (Event ι α β)) (i : Nat) : Prop :=
  Came past fun before event => event = .poll i ∧ (after context before).has i = true ∧
    ((after context before).outcome? i).isSome = true

/-- There is a continuation for the call, which has been told nothing yet. -/
def Waits (context : Context) (past : List (Event ι α β)) (i : Nat) : Prop :=
  Asked context past i ∧ (after context past).told i = []

@[simp] theorem after_concat (context : Context) (past : List (Event ι α β))
    (event : Event ι α β) :
    after context (past ++ [event]) = (after context past).happen event := by
  simp [after]

section

variable {b : Bridge ι α β} {i j : Nat} {event : Event ι α β}

theorem told_hear (outcome : Outcome β) (place : Place) :
    (b.hear j outcome place).told i =
      b.told i ++ if i = j then [(outcome, place)] else [] := by
  by_cases h : i = j
  · simp [told, hear, h]
  · simp [told, hear, h, Ne.symm h]

theorem count_hear (outcome : Outcome β) (place : Place) :
    (b.hear j outcome place).waiting.count i = if i = j then 0 else b.waiting.count i := by
  by_cases h : i = j
  · simp [hear, h, List.count_eq_zero]
  · simp [hear, h, List.count_filter]

theorem told_foldl_hear (l : List Nat) (outcome : Outcome β) (place : Place) :
    (l.foldl (fun b i => b.hear i outcome place) b).told i =
      b.told i ++ List.replicate (l.count i) (outcome, place) := by
  induction l generalizing b with
  | nil => simp
  | cons j l ih =>
      rw [List.foldl_cons, ih, told_hear]
      by_cases h : i = j
      · simp [h, List.replicate_succ]
      · simp [h, Ne.symm h]

theorem count_foldl_hear (l : List Nat) (outcome : Outcome β) (place : Place) :
    (l.foldl (fun b i => b.hear i outcome place) b).waiting.count i =
      if i ∈ l then 0 else b.waiting.count i := by
  induction l generalizing b with
  | nil => simp
  | cons j l ih =>
      rw [List.foldl_cons, ih, count_hear]
      by_cases h : i = j <;> simp [h]

theorem foldl_hear_eq (l : List Nat) (outcome : Outcome β) (place : Place) :
    let all := l.foldl (fun b i => b.hear i outcome place) b
    all = { b with waiting := all.waiting, heard := all.heard } := by
  induction l generalizing b with
  | nil => rfl
  | cons j l ih => exact ih

theorem told_shutdown :
    b.shutdown.told i = b.told i ++ if b.context.running then
      List.replicate (b.waiting.count i) (.error .contextShutdown, .context) else [] := by
  rw [shutdown]
  split
  · exact told_foldl_hear ..
  · exact (List.append_nil _).symm

theorem count_shutdown :
    b.shutdown.waiting.count i = if b.context.running then 0 else b.waiting.count i := by
  rw [shutdown]
  split
  · rw [count_foldl_hear]
    split
    · rfl
    · exact List.count_eq_zero.mpr ‹_›
  · rfl

theorem running_shutdown : b.shutdown.context.running = false := by
  rw [shutdown]
  split
  · rw [foldl_hear_eq]
    rfl
  · exact Bool.eq_false_iff.mpr ‹_›

theorem calls_shutdown :
    b.shutdown.calls = b.calls.map fun m =>
      if b.context.running then { m with call := m.call.stop } else m := by
  rw [shutdown]
  split
  · rw [foldl_hear_eq]
  · simp

theorem told_register :
    (b.register i).told i = b.told i ++
      if b.context.running then [] else [(.error .contextShutdown, .caller)] := by
  rw [register]
  show (if b.context.running then _ else _ : Bridge ι α β).told i = _
  split
  · exact (List.append_nil _).symm
  · rw [told_hear, if_pos rfl]
    rfl

theorem count_register :
    (b.register i).waiting.count i = if b.context.running then b.waiting.count i + 1 else 0 := by
  rw [register]
  show (if b.context.running then _ else _ : Bridge ι α β).waiting.count i = _
  split
  · simp [release]
  · rw [count_hear, if_pos rfl]

theorem calls_register : (b.register i).calls = (b.release i).calls := by
  rw [register]
  split <;> rfl

theorem resume_cases (b : Bridge ι α β) (i : Nat) :
    (∃ c outcome, i ∈ b.waiting ∧ b.at? i = some c ∧ c.ready? = some outcome ∧
        b.resume i = (b.put i c.poll.1).hear i outcome .context) ∨
      (i ∈ b.waiting → b.outcome? i = none) ∧ b.resume i = b := by
  simp only [resume, List.contains_iff_mem]
  split
  · cases hcall : b.at? i with
    | none => exact .inr ⟨fun _ => by rw [outcome?, hcall, Option.bind_none], rfl⟩
    | some c =>
        rw [Option.map_some]
        cases houtcome : c.ready? with
        | none =>
            have hpoll : c.poll = (c, none) := by rw [Call.poll, houtcome]
            refine .inr ⟨fun _ => ?_, ?_⟩
            · rw [outcome?, hcall, Option.bind_some, hpoll]
            · rw [hpoll]
        | some outcome =>
            have hpoll : c.poll = (c.poll.1, some outcome) := by
              rw [← houtcome, ← Call.poll_outcome]
            refine .inl ⟨c, outcome, ‹_›, rfl, houtcome, ?_⟩
            rw [hpoll]
  · exact .inr ⟨fun h => absurd h ‹_›, rfl⟩

theorem told_resume :
    (b.resume i).told i = b.told i ++
      if i ∈ b.waiting then (b.outcome? i).toList.map fun o => (o, .context) else [] := by
  rcases resume_cases b i with ⟨c, outcome, hwaits, hcall, hready, hresume⟩ | ⟨hnone, hresume⟩
  · rw [hresume, told_hear, if_pos rfl, if_pos hwaits, outcome?, hcall, Option.bind_some,
      Call.poll_outcome, hready]
    rfl
  · rw [hresume]
    split
    · rw [hnone ‹_›]
      exact (List.append_nil _).symm
    · exact (List.append_nil _).symm

theorem count_resume :
    (b.resume i).waiting.count i =
      if (b.outcome? i).isSome then 0 else b.waiting.count i := by
  rcases resume_cases b i with ⟨c, outcome, hwaits, hcall, hready, hresume⟩ | ⟨hnone, hresume⟩
  · rw [hresume, count_hear, if_pos rfl, outcome?, hcall, Option.bind_some, Call.poll_outcome,
      hready]
    rfl
  · rw [hresume]
    by_cases hwaits : i ∈ b.waiting
    · rw [hnone hwaits]
      rfl
    · rw [List.count_eq_zero.mpr hwaits, ite_self]

theorem continuation_happen (hshutdown : event ≠ .shutdown) (hresume : event ≠ .resume i)
    (hregister : event ≠ .register i) :
    (b.happen event).told i = b.told i ∧
      (b.happen event).waiting.count i = b.waiting.count i := by
  cases event with
  | call | failed | task | abort | cancel => exact ⟨rfl, rfl⟩
  | job j =>
      rw [happen, runJob]
      split <;> exact ⟨rfl, rfl⟩
  | poll j | drop j =>
      rw [happen]
      split <;> exact ⟨rfl, rfl⟩
  | resume j =>
      have hne : i ≠ j := fun h => hresume (h ▸ rfl)
      rw [happen]
      rcases resume_cases b j with ⟨c, outcome, -, -, -, heq⟩ | ⟨-, heq⟩
      · rw [heq, told_hear, count_hear, if_neg hne, if_neg hne]
        exact ⟨List.append_nil _, rfl⟩
      · rw [heq]
        exact ⟨rfl, rfl⟩
  | register j =>
      have hne : i ≠ j := fun h => hregister (h ▸ rfl)
      rw [happen, register]
      split
      · split
        · simp [told, release, hne.symm]
        · rw [told_hear, count_hear, if_neg hne, if_neg hne]
          exact ⟨List.append_nil _, rfl⟩
      · exact ⟨rfl, rfl⟩
  | shutdown => exact absurd rfl hshutdown

theorem owed_happen (hone : b.owed i ≤ 1)
    (hregister : event = .register i → b.has i = false) :
    (b.happen event).owed i = b.owed i := by
  by_cases hshutdown : event = .shutdown
  · rw [hshutdown, happen, owed, told_shutdown, count_shutdown]
    split
    · simp [owed, Nat.add_comm]
    · simp [owed]
  by_cases hresume : event = .resume i
  · rw [owed] at hone
    rw [hresume, happen, owed, told_resume, count_resume, owed]
    cases houtcome : b.outcome? i with
    | none => simp
    | some outcome =>
        by_cases hwaits : i ∈ b.waiting
        · -- One outcome is told for all that wait, so the count needs that only one does.
          have hpos : 0 < b.waiting.count i := List.count_pos_iff.mpr hwaits
          rw [if_pos hwaits, List.length_append]
          show 0 + (_ + 1) = _
          omega
        · simp [hwaits, List.count_eq_zero.mpr hwaits]
  by_cases hasked : event = .register i
  · rw [hasked, happen, if_neg (by simp [hregister hasked])]
  · obtain ⟨htold, hcount⟩ := continuation_happen hshutdown hresume hasked
    rw [owed, htold, hcount, owed]

theorem owed_register (hnone : b.owed i = 0) : (b.register i).owed i = 1 := by
  obtain ⟨hcount, htold⟩ := Nat.add_eq_zero_iff.mp hnone
  rw [owed, told_register, count_register, hcount, List.length_append, htold]
  split <;> rfl

theorem running_happen :
    (b.happen event).context.running = true ↔ b.context.running = true ∧ event ≠ .shutdown := by
  have hsilent (h : (b.happen event).context = b.context) (hne : event ≠ .shutdown) :
      (b.happen event).context.running = true ↔ b.context.running = true ∧ event ≠ .shutdown := by
    rw [h, and_iff_left hne]
  cases event with
  | call | failed | task | abort | cancel => exact hsilent rfl nofun
  | job j =>
      refine hsilent ?_ nofun
      rw [happen, runJob]
      split <;> rfl
  | poll j | drop j =>
      refine hsilent ?_ nofun
      rw [happen]
      split <;> rfl
  | resume j =>
      refine hsilent ?_ nofun
      rw [happen]
      rcases resume_cases b j with ⟨c, outcome, -, -, -, heq⟩ | ⟨-, heq⟩
      · rw [heq]
        rfl
      · rw [heq]
  | register j =>
      refine hsilent ?_ nofun
      rw [happen, register]
      split
      · split <;> rfl
      · rfl
  | shutdown =>
      rw [happen, running_shutdown]
      exact iff_of_false nofun fun h => h.2 rfl

/-- What an event makes of the call at a place. -/
structure Leaves (b : Bridge ι α β) (i : Nat) (event : Event ι α β) (m m' : Made ι α β) :
    Prop where
  kept : m'.kept = true → m.kept = true ∧ event ≠ .register i
  cancelled : m.call.cancelled = true ∨ event = .cancel i → m'.call.cancelled = true
  done_iff : m'.call.stage = .done ↔ m.call.stage = .done ∨
    m.call.ready?.isSome = true ∧
      (event = .poll i ∧ m.kept = true ∨ event = .resume i ∧ i ∈ b.waiting)

theorem getElem?_modify_of {l : List (Made ι α β)} {m : Made ι α β} (h : l[i]? = some m)
    (f : Made ι α β → Made ι α β) : (l.modify j f)[i]? = some (if j = i then f m else m) := by
  rw [List.getElem?_modify, h]
  split <;> rfl

theorem has_eq {m : Made ι α β} (h : b.calls[i]? = some m) : b.has i = m.kept := by
  rw [has, h]
  rfl

theorem at?_eq {m : Made ι α β} (h : b.calls[i]? = some m) : b.at? i = some m.call := by
  rw [at?, h]
  rfl

theorem outcome?_eq {m : Made ι α β} (h : b.calls[i]? = some m) :
    b.outcome? i = m.call.ready? := by
  rw [outcome?, at?_eq h, Option.bind_some, Call.poll_outcome]

theorem leaves_polled {m : Made ι α β}
    (hpolls : event = .poll i ∧ m.kept = true ∨ event = .resume i ∧ i ∈ b.waiting)
    (hregister : event ≠ .register i) (hcancel : event ≠ .cancel i) :
    Leaves b i event m { m with call := m.call.poll.1 } where
  kept h := ⟨h, hregister⟩
  cancelled h := by
    rw [Call.poll_eq]
    exact h.resolve_right hcancel
  done_iff := by
    rw [Call.poll_eq, and_iff_left hpolls]
    cases m.call.ready?.isSome <;> simp

theorem Leaves.refl {m : Made ι α β}
    (hregister : m.kept = true → event ≠ .register i) (hcancel : event ≠ .cancel i)
    (hpoll : m.call.ready?.isSome = true → m.kept = true → event ≠ .poll i)
    (hresume : m.call.ready?.isSome = true → i ∈ b.waiting → event ≠ .resume i) :
    Leaves b i event m m where
  kept h := ⟨h, hregister h⟩
  cancelled h := h.resolve_right hcancel
  done_iff := by
    refine ⟨.inl, fun h => h.resolve_right ?_⟩
    rintro ⟨hready, ⟨heq, hkept⟩ | ⟨heq, hwaits⟩⟩
    · exact hpoll hready hkept heq
    · exact hresume hready hwaits heq

/-- The call that an event cancels, polls, takes from its caller or continues. -/
def Event.touched? : Event ι α β → Option Nat
  | .cancel i | .poll i | .register i | .resume i => some i
  | _ => none

theorem Leaves.other {m : Made ι α β} (h : event.touched? ≠ some i) : Leaves b i event m m := by
  apply Leaves.refl
  · rintro - rfl
    exact h rfl
  · rintro rfl
    exact h rfl
  · rintro - - rfl
    exact h rfl
  · rintro - - rfl
    exact h rfl

theorem Leaves.silent {m : Made ι α β} (h : event.touched? = none) : Leaves b i event m m :=
  .other (by simp [h])

theorem leaves_modify {m : Made ι α β} (h : b.calls[i]? = some m)
    {f : Made ι α β → Made ι α β} (hself : j = i → Leaves b i event m (f m))
    (hother : j ≠ i → Leaves b i event m m) :
    ∃ m', (b.calls.modify j f)[i]? = some m' ∧ Leaves b i event m m' := by
  by_cases hij : j = i
  · exact ⟨f m, by rw [getElem?_modify_of h, if_pos hij], hself hij⟩
  · exact ⟨m, by rw [getElem?_modify_of h, if_neg hij], hother hij⟩

theorem exists_of_has (h : b.has i = true) :
    ∃ m, b.calls[i]? = some m ∧ m.kept = true := by
  rw [has] at h
  cases hm : b.calls[i]? with
  | none => simp [hm] at h
  | some m => exact ⟨m, rfl, by simpa [hm] using h⟩

theorem calls_happen {m : Made ι α β} (h : b.calls[i]? = some m) (event : Event ι α β) :
    ∃ m', (b.happen event).calls[i]? = some m' ∧ Leaves b i event m m' := by
  have hlt : i < b.calls.length := (List.getElem?_eq_some_iff.mp h).1
  cases event with
  | call id own convert =>
      exact ⟨m, (List.getElem?_append_left hlt).trans h, .silent rfl⟩
  | failed id failure =>
      exact ⟨m, (List.getElem?_append_left hlt).trans h, .silent rfl⟩
  | task j | abort j =>
      refine leaves_modify h ?_ fun _ => .silent rfl
      rintro rfl
      constructor <;> simp [Call.onTask]
  | job j =>
      rw [happen, runJob]
      split
      · refine leaves_modify h ?_ fun _ => .silent rfl
        rintro rfl
        constructor <;> rw [Call.deliver_eq] <;> simp
      · exact ⟨m, h, .silent rfl⟩
  | cancel j =>
      refine leaves_modify h ?_ fun hne => .other (mt Option.some.inj hne)
      rintro rfl
      constructor <;> simp [Call.cancel, Call.onTask]
  | poll j =>
      rw [happen]
      by_cases hhas : b.has j = true
      · rw [if_pos hhas]
        refine leaves_modify h ?_ fun hne => .other (mt Option.some.inj hne)
        rintro rfl
        rw [has_eq h] at hhas
        exact leaves_polled (.inl ⟨rfl, hhas⟩) (by simp) (by simp)
      · rw [if_neg hhas]
        refine ⟨m, h, .refl (by simp) (by simp) ?_ (by simp)⟩
        rintro - hkept ⟨⟩
        exact hhas ((has_eq h).trans hkept)
  | drop j =>
      rw [happen]
      split
      · refine leaves_modify h ?_ fun _ => .silent rfl
        rintro rfl
        constructor <;> simp
      · exact ⟨m, h, .silent rfl⟩
  | register j =>
      rw [happen]
      by_cases hhas : b.has j = true
      · rw [if_pos hhas, calls_register]
        refine leaves_modify h ?_ fun hne => .other (mt Option.some.inj hne)
        rintro rfl
        constructor <;> simp
      · rw [if_neg hhas]
        refine ⟨m, h, .refl ?_ (by simp) (by simp) (by simp)⟩
        rintro hkept ⟨⟩
        exact hhas ((has_eq h).trans hkept)
  | resume j =>
      rw [happen]
      rcases resume_cases b j with ⟨c, outcome, hwaits, hcall, hready, heq⟩ | ⟨hnone, heq⟩
      · rw [heq]
        refine leaves_modify h ?_ fun hne => .other (mt Option.some.inj hne)
        rintro rfl
        rw [at?_eq h, Option.some.injEq] at hcall
        subst hcall
        exact leaves_polled (.inr ⟨rfl, hwaits⟩) (by simp) (by simp)
      · rw [heq]
        refine ⟨m, h, .refl (by simp) (by simp) (by simp) ?_⟩
        rintro hready hwaits ⟨⟩
        rw [← outcome?_eq h, hnone hwaits] at hready
        cases hready
  | shutdown =>
      rw [happen, calls_shutdown]
      refine ⟨_, by rw [List.getElem?_map, h, Option.map_some], ?_⟩
      split
      · constructor <;> rw [Call.stop_eq] <;> simp
      · exact .silent rfl

theorem calls_happen_of_none (h : b.calls[i]? = none) (event : Event ι α β) :
    (b.happen event).calls[i]? = none ∨
      ∃ m : Made ι α β, (b.happen event).calls = b.calls ++ [m] ∧ m.call.stage ≠ .done := by
  have hmodify (j : Nat) (f : Made ι α β → Made ι α β) : (b.calls.modify j f)[i]? = none := by
    rw [List.getElem?_modify, h]
    rfl
  cases event with
  | call id own convert =>
      refine .inr ⟨_, rfl, ?_⟩
      dsimp only
      rw [Call.submit]
      split <;> simp
  | failed id failure => exact .inr ⟨_, rfl, by simp [Call.failed]⟩
  | task j | abort j | cancel j => exact .inl (hmodify j _)
  | job j =>
      rw [happen, runJob]
      split
      · exact .inl (hmodify j _)
      · exact .inl h
  | poll j | drop j =>
      rw [happen]
      split
      · exact .inl (hmodify j _)
      · exact .inl h
  | register j =>
      rw [happen]
      split
      · rw [calls_register]
        exact .inl (hmodify j _)
      · exact .inl h
  | resume j =>
      rw [happen]
      rcases resume_cases b j with ⟨c, outcome, -, -, -, heq⟩ | ⟨-, heq⟩ <;> rw [heq]
      · exact .inl (hmodify j _)
      · exact .inl h
  | shutdown =>
      rw [happen, calls_shutdown, List.getElem?_map, h]
      exact .inl rfl

theorem stage_of_new (h : b.calls[i]? = none) {m : Made ι α β}
    (hmade : (b.happen event).calls[i]? = some m) : m.call.stage ≠ .done := by
  rcases calls_happen_of_none h event with hnone | ⟨new, hcalls, hstage⟩
  · rw [hnone] at hmade
    cases hmade
  · rw [hcalls, List.getElem?_append_right (List.getElem?_eq_none_iff.mp h),
      List.getElem?_singleton] at hmade
    split at hmade
    · cases hmade
      exact hstage
    · cases hmade

theorem waiting_happen (hstopped : b.context.running = false → b.waiting.count i = 0)
    (h : (b.happen event).context.running = false) : (b.happen event).waiting.count i = 0 := by
  by_cases hshutdown : event = .shutdown
  · rw [hshutdown, happen, count_shutdown]
    split
    · rfl
    · exact hstopped (Bool.eq_false_iff.mpr ‹_›)
  have hbefore : b.context.running = false := by
    rw [Bool.eq_false_iff, ne_eq, running_happen, not_and] at h
    exact Bool.eq_false_iff.mpr fun hrunning => h hrunning hshutdown
  by_cases hresume : event = .resume i
  · rw [hresume, happen, count_resume, hstopped hbefore, ite_self]
  by_cases hregister : event = .register i
  · rw [hregister, happen]
    split
    · rw [count_register, hbefore]
      rfl
    · exact hstopped hbefore
  · rw [(continuation_happen hshutdown hresume hregister).2, hstopped hbefore]

end

section

variable {context : Context} {past : List (Event ι α β)} {event : Event ι α β} {i : Nat}

theorem stopped_concat :
    Stopped context (past ++ [event]) ↔ Stopped context past ∨ event = .shutdown := by
  rw [Stopped, Stopped, List.mem_append, List.mem_singleton, or_assoc, eq_comm (b := event)]

theorem asked_concat :
    Asked context (past ++ [event]) i ↔
      Asked context past i ∨ event = .register i ∧ (after context past).has i = true :=
  came_concat

theorem running_after (context : Context) (past : List (Event ι α β)) :
    (after context past).context.running = true ↔ ¬Stopped context past := by
  induction past using List.reverseRecOn with
  | nil => simp [after, Stopped]
  | append_singleton past event ih =>
      rw [after_concat, running_happen, ih, stopped_concat, not_or]

theorem gone_of_asked (h : Asked context past i) :
    ∃ m, (after context past).calls[i]? = some m ∧ m.kept = false := by
  induction past using List.reverseRecOn with
  | nil => exact absurd h not_came_nil
  | append_singleton past event ih =>
      rw [after_concat]
      rcases asked_concat.mp h with hasked | ⟨rfl, hhas⟩
      · obtain ⟨m, hm, hkept⟩ := ih hasked
        obtain ⟨m', hm', hleaves⟩ := calls_happen hm event
        refine ⟨m', hm', Bool.eq_false_iff.mpr fun hkept' => ?_⟩
        rw [(hleaves.kept hkept').1] at hkept
        cases hkept
      · obtain ⟨m, hm, -⟩ := exists_of_has hhas
        obtain ⟨m', hm', hleaves⟩ := calls_happen hm (.register i)
        exact ⟨m', hm', Bool.eq_false_iff.mpr fun hkept' => (hleaves.kept hkept').2 rfl⟩

theorem not_has_of_asked (h : Asked context past i) : (after context past).has i = false := by
  obtain ⟨m, hm, hkept⟩ := gone_of_asked h
  rw [has_eq hm, hkept]

/-- A continuation that was asked for waits or was told, and there is never another. -/
theorem owed_after (context : Context) (past : List (Event ι α β)) (i : Nat) :
    (Asked context past i → (after context past).owed i = 1) ∧
      (¬Asked context past i → (after context past).owed i = 0) := by
  induction past using List.reverseRecOn with
  | nil => exact ⟨fun h => absurd h not_came_nil, fun _ => rfl⟩
  | append_singleton past event ih =>
      rw [after_concat, asked_concat]
      by_cases hasked : Asked context past i
      · have howed := ih.1 hasked
        have hsame : ((after context past).happen event).owed i = (after context past).owed i :=
          owed_happen howed.le fun _ => not_has_of_asked hasked
        exact ⟨fun _ => hsame.trans howed, fun h => absurd (.inl hasked) h⟩
      · have howed := ih.2 hasked
        constructor
        · rintro (h | ⟨rfl, hhas⟩)
          · exact absurd h hasked
          · rw [happen, if_pos hhas, owed_register howed]
        · intro h
          rw [owed_happen (by omega) fun hregister => ?_, howed]
          exact Bool.eq_false_iff.mpr fun hhas => h (.inr ⟨hregister, hhas⟩)

theorem waiting_after (h : (after context past).context.running = false) :
    (after context past).waiting.count i = 0 := by
  induction past using List.reverseRecOn with
  | nil => rfl
  | append_singleton past event ih =>
      rw [after_concat] at h ⊢
      exact waiting_happen ih h

theorem told_happen (b : Bridge ι α β) (event : Event ι α β) (i : Nat) :
    b.told i <+: (b.happen event).told i := by
  by_cases hshutdown : event = .shutdown
  · rw [hshutdown, happen, told_shutdown]
    exact List.prefix_append ..
  by_cases hresume : event = .resume i
  · rw [hresume, happen, told_resume]
    exact List.prefix_append ..
  by_cases hregister : event = .register i
  · rw [hregister, happen]
    split
    · rw [told_register]
      exact List.prefix_append ..
    · exact List.prefix_rfl
  · rw [(continuation_happen hshutdown hresume hregister).1]

theorem cancelled_after (h : Cancelled context past i) :
    ∃ m, (after context past).calls[i]? = some m ∧ m.call.cancelled = true := by
  induction past using List.reverseRecOn with
  | nil => exact absurd h not_came_nil
  | append_singleton past event ih =>
      rw [after_concat]
      rcases came_concat.mp h with hcancelled | ⟨heq, hmade⟩
      · obtain ⟨m, hm, hcancelled⟩ := ih hcancelled
        obtain ⟨m', hm', hleaves⟩ := calls_happen hm event
        exact ⟨m', hm', hleaves.cancelled (.inl hcancelled)⟩
      · obtain ⟨m', hm', hleaves⟩ := calls_happen (List.getElem?_eq_getElem hmade) event
        exact ⟨m', hm', hleaves.cancelled (.inr heq)⟩

theorem polled_after (h : Polled context past i) :
    ∃ m, (after context past).calls[i]? = some m ∧ m.call.stage = .done := by
  induction past using List.reverseRecOn with
  | nil => exact absurd h not_came_nil
  | append_singleton past event ih =>
      rw [after_concat]
      rcases came_concat.mp h with hpolled | ⟨heq, hhas, houtcome⟩
      · obtain ⟨m, hm, hdone⟩ := ih hpolled
        obtain ⟨m', hm', hleaves⟩ := calls_happen hm event
        exact ⟨m', hm', hleaves.done_iff.mpr (.inl hdone)⟩
      · obtain ⟨m, hm, hkept⟩ := exists_of_has hhas
        obtain ⟨m', hm', hleaves⟩ := calls_happen hm event
        rw [outcome?_eq hm] at houtcome
        exact ⟨m', hm', hleaves.done_iff.mpr (.inr ⟨houtcome, .inl ⟨heq, hkept⟩⟩)⟩

theorem polled_or_told_of_done {m : Made ι α β} (hm : (after context past).calls[i]? = some m)
    (hdone : m.call.stage = .done) :
    Polled context past i ∨ (after context past).told i ≠ [] := by
  induction past using List.reverseRecOn generalizing m with
  | nil => cases hm
  | append_singleton past event ih =>
      rw [after_concat] at hm ⊢
      cases hbefore : (after context past).calls[i]? with
      | none => exact absurd hdone (stage_of_new hbefore hm)
      | some before =>
          obtain ⟨m', hm', hleaves⟩ := calls_happen hbefore event
          obtain rfl := Option.some.inj (hm.symm.trans hm')
          rcases hleaves.done_iff.mp hdone with hdone | ⟨hready, ⟨heq, hkept⟩ | ⟨heq, hwaits⟩⟩
          · rcases ih hbefore hdone with hpolled | htold
            · exact .inl (came_concat.mpr (.inl hpolled))
            · exact .inr fun hnil => htold (List.prefix_nil.mp (hnil ▸ told_happen _ event i))
          · refine .inl (came_concat.mpr (.inr ⟨heq, ?_, ?_⟩))
            · rw [has_eq hbefore, hkept]
            · rw [outcome?_eq hbefore, hready]
          · obtain ⟨outcome, houtcome⟩ := Option.isSome_iff_exists.mp hready
            refine .inr ?_
            rw [heq, happen, told_resume, if_pos hwaits, outcome?_eq hbefore, houtcome]
            simp

theorem Waits.mem (h : Waits context past i) : i ∈ (after context past).waiting := by
  have howed := (owed_after context past i).1 h.1
  rw [owed, h.2] at howed
  exact List.count_pos_iff.mp (by simpa using howed.ge)

theorem Waits.running (h : Waits context past i) :
    (after context past).context.running = true := by
  apply Bool.of_not_eq_false
  intro hstopped
  exact List.count_eq_zero.mp (waiting_after hstopped) h.mem

theorem Waits.resume (h : Waits context past i) :
    (after context (past ++ [.resume i])).told i =
      ((after context past).outcome? i).toList.map fun o => (o, .context) := by
  rw [after_concat, happen, told_resume, h.2, if_pos h.mem, List.nil_append]

/-- The continuation of a call is told one outcome at most, and has been told one when the context
has stopped. It is the shutdown if the context had stopped before, or stops before the continuation
goes on; else what polling the call gives when the continuation goes on. -/
structure Continues (context : Context) (past : List (Event ι α β)) (i : Nat) : Prop where
  once : ((after context past).told i).length ≤ 1
  unasked : ¬Asked context past i → (after context past).told i = []
  by_stop : Asked context past i → Stopped context past →
    ((after context past).told i).length = 1
  /-- At a context that has stopped, who asks for the continuation is who runs it. -/
  late : Stopped context past → (after context past).has i = true →
    (after context (past ++ [.register i])).told i = [(.error .contextShutdown, .caller)]
  dropped : Waits context past i →
    (after context (past ++ [.shutdown])).told i = [(.error .contextShutdown, .context)]
  resumed : Waits context past i → (after context (past ++ [.resume i])).told i =
    ((after context past).outcome? i).toList.map fun o => (o, .context)
  cancelled : Waits context past i → Cancelled context past i → ¬Polled context past i →
    (after context (past ++ [.resume i])).told i = [(.error .cancelled, .context)]
  polled : Waits context past i → Polled context past i →
    (after context (past ++ [.resume i])).told i = []
  otherwise : ∀ event, (after context (past ++ [event])).told i ≠ (after context past).told i →
    event = .register i ∧ Stopped context past ∧ (after context past).has i = true ∨
      (event = .shutdown ∨ event = .resume i) ∧ Waits context past i

theorem ready?_of_cancelled {c : Call α β} (hcancelled : c.cancelled = true)
    (hstage : c.stage ≠ .done) : c.ready? = some (.error .cancelled) := by
  rw [Call.ready?]
  cases h : c.stage with
  | waiting => simp [hcancelled]
  | failed failure => simp [hcancelled]
  | done => exact absurd h hstage

theorem Waits.outcome?_of_cancelled (h : Waits context past i)
    (hcancelled : Cancelled context past i) (hpolled : ¬Polled context past i) :
    (after context past).outcome? i = some (.error .cancelled) := by
  obtain ⟨m, hm, hflag⟩ := cancelled_after hcancelled
  rw [outcome?_eq hm]
  refine ready?_of_cancelled hflag fun hdone => ?_
  exact (polled_or_told_of_done hm hdone).elim hpolled fun htold => htold h.2

theorem outcome?_of_polled (h : Polled context past i) :
    (after context past).outcome? i = none := by
  obtain ⟨m, hm, hdone⟩ := polled_after h
  rw [outcome?_eq hm, Call.ready?, hdone]

theorem waits_of_mem (h : i ∈ (after context past).waiting) : Waits context past i := by
  have hpos : 0 < (after context past).waiting.count i := List.count_pos_iff.mpr h
  have howed := owed_after context past i
  have hasked : Asked context past i := by
    by_contra hasked
    exact hpos.ne' (Nat.add_eq_zero_iff.mp (howed.2 hasked)).1
  refine ⟨hasked, List.length_eq_zero_iff.mp ?_⟩
  have hone := howed.1 hasked
  rw [owed] at hone
  omega

/-- Whatever happens at a bridge, and in whatever order, the continuation of each of its calls runs
once. -/
theorem continues_once (context : Context) (past : List (Event ι α β)) (i : Nat) :
    Continues context past i where
  once := by
    have hle : ((after context past).told i).length ≤ (after context past).owed i :=
      Nat.le_add_left ..
    refine hle.trans ?_
    by_cases h : Asked context past i
    · exact ((owed_after context past i).1 h).le
    · exact ((owed_after context past i).2 h).trans_le (Nat.zero_le 1)
  unasked h :=
    List.length_eq_zero_iff.mp (Nat.add_eq_zero_iff.mp ((owed_after context past i).2 h)).2
  by_stop hasked hstopped := by
    have howed := (owed_after context past i).1 hasked
    rw [owed, waiting_after ?_, Nat.zero_add] at howed
    · exact howed
    · exact Bool.eq_false_iff.mpr fun hrunning => (running_after ..).mp hrunning hstopped
  late hstopped hhas := by
    have hasked : ¬Asked context past i := by
      intro hasked
      rw [not_has_of_asked hasked] at hhas
      cases hhas
    have htold := (Nat.add_eq_zero_iff.mp ((owed_after context past i).2 hasked)).2
    have hrunning : (after context past).context.running ≠ true := fun hrunning =>
      (running_after ..).mp hrunning hstopped
    rw [after_concat, happen, if_pos hhas, told_register, List.length_eq_zero_iff.mp htold,
      if_neg hrunning, List.nil_append]
  dropped h := by
    have hcount : (after context past).waiting.count i = 1 := by
      have howed := (owed_after context past i).1 h.1
      rw [owed, h.2] at howed
      exact howed
    rw [after_concat, happen, told_shutdown, h.2, if_pos h.running, hcount]
    rfl
  resumed h := h.resume
  cancelled h hcancelled hpolled := by
    rw [h.resume, h.outcome?_of_cancelled hcancelled hpolled]
    rfl
  polled h hpolled := by
    rw [h.resume, outcome?_of_polled hpolled]
    rfl
  otherwise event hne := by
    rw [after_concat] at hne
    by_cases hshutdown : event = .shutdown
    · refine .inr ⟨.inl hshutdown, waits_of_mem ?_⟩
      by_contra hnone
      rw [hshutdown, happen, told_shutdown, List.count_eq_zero.mpr hnone] at hne
      simp at hne
    by_cases hresume : event = .resume i
    · refine .inr ⟨.inr hresume, waits_of_mem ?_⟩
      by_contra hnone
      rw [hresume, happen, told_resume, if_neg hnone] at hne
      exact hne (List.append_nil _)
    by_cases hregister : event = .register i
    · rw [hregister, happen] at hne
      refine .inl ⟨hregister, ?_⟩
      split at hne
      · refine ⟨?_, ‹_›⟩
        by_contra hrunning
        rw [told_register, if_pos ((running_after ..).mpr hrunning)] at hne
        exact hne (List.append_nil _)
      · exact absurd rfl hne
    · exact absurd (continuation_happen hshutdown hresume hregister).1 hne

end

/-- A continuation that waits for the outcome, one that the context drops, one that a cancel comes
before, one for a call that was polled to its end, and one that comes too late. -/
theorem continues_once_in_each_order :
    let context : Context := { name := "context" }
    let made : Event Nat Nat Nat := .call 0 (some (.value 1)) fun n => some (.ok (n + 1))
    let fired := [made, .register 0, .resume 0, .task 0, .job 0, .resume 0, .shutdown]
    let dropped := [made, .task 0, .register 0, .shutdown, .job 0, .resume 0]
    let cancelled := [made, .task 0, .job 0, .register 0, .cancel 0, .resume 0, .shutdown]
    let polled := [made, .task 0, .job 0, .poll 0, .register 0, .resume 0]
    let late := [made, .task 0, .job 0, .shutdown, .register 0]
    Continues context fired 0 ∧ (after context fired).told 0 = [(.ok 2, .context)] ∧
      Continues context dropped 0 ∧
      (after context dropped).told 0 = [(.error .contextShutdown, .context)] ∧
      Continues context cancelled 0 ∧
      (after context cancelled).told 0 = [(.error .cancelled, .context)] ∧
      Continues context polled 0 ∧ (after context polled).told 0 = [] ∧
      (after context (polled ++ [.shutdown])).told 0 = [(.error .contextShutdown, .context)] ∧
      Continues context late 0 ∧
      (after context late).told 0 = [(.error .contextShutdown, .caller)] := by
  intro context made fired dropped cancelled polled late
  exact ⟨continues_once context fired 0, by decide, continues_once context dropped 0, by decide,
    continues_once context cancelled 0, by decide, continues_once context polled 0, by decide,
    by decide, continues_once context late 0, by decide⟩

end Keyspace.Bridge
