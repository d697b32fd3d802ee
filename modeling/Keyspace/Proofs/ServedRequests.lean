import Keyspace.Proofs.CallBookkeeping
import Keyspace.Proofs.CommittedOperation
import Mathlib.Data.List.Basic

namespace Keyspace

/-- A request that comes to a store, with the place of its call. -/
structure Arrival where
  call : Nat
  request : Request
  deriving DecidableEq

namespace Store

def given (s : Store) (arrivals : List Arrival) : Store :=
  s.run (arrivals.map Arrival.request)

theorem given_append (s : Store) (arrivals more : List Arrival) :
    s.given (arrivals ++ more) = (s.given arrivals).given more := by
  rw [given, List.map_append, run_append]
  rfl

end Store

namespace Session

/-- What comes to the store when a job runs, unless a failure was given to it or its task is to be
aborted. -/
def comes? (s : Session) : Job → Option Arrival
  | .answer i request none =>
      if s.aborting? i = some true then none else some { call := i, request }
  | .answer _ _ (some _) => none
  | .feed .. => none

def servedNow (s : Session) : List Arrival :=
  (s.queue.filter fun q => !s.waits q).filterMap fun q => s.comes? q.job

def servedBySettle (s : Session) : List Arrival :=
  (s.desk.advanceTo s.ahead?).servedNow

def servedBySettleFor (s : Session) (test : Job → Bool) : List Arrival :=
  s.servedBySettle ++
    match s.settle.queue.find? fun q => test q.job with
    | some q => (s.settle.advance q.due).servedBySettle
    | none => []

def servedBySettleCall (s : Session) (i : Nat) : List Arrival :=
  if s.isReady i then s.servedBySettle else s.servedBySettleFor (Job.isFor i)

def Job.isObservedBy (i : Nat) : Job → Bool
  | .feed (.observer j) _ _ => i = j
  | .feed (.slot _) _ _ => false
  | .answer .. => false

/-- The session once an observer has asked for its snapshot. -/
def observing (s : Session) (o : Observer) : Session :=
  let stream :=
    if o.stopAfter = some 0 then if o.byDrop then o.stream.drop else o.stream.complete
    else o.stream
  ({ s with observers := s.observers ++ [{ o with stream }] } : Session).ask
    (.observer s.observers.length)

theorem settleObserver_eq (s : Session) (i : Nat) :
    s.settleObserver i = s.settleFor (Job.isObservedBy i) := by
  rw [settleObserver]
  congr 1
  funext job
  cases job with
  | answer j request given => rfl
  | feed listener failure feed => cases listener <;> rfl

def servedByCall (s : Session) (side : Side) (command : Command) (mode : Mode) : List Arrival :=
  let i := s.calls.length
  let made := s.makeAt side command
  match mode with
  | .await => made.servedBySettleCall i
  | .cancel => ((made.cancel i).1.poll i).1.servedBySettle
  | .lateCancel => made.servedBySettle
  | .drop => made.servedBySettle
  | .onComplete => made.servedBySettleCall i
  | .hold _ | .letGo | .continueWith => []

/-- What comes in the course of a step. Only what settles the session lets anything come. -/
def servedBy (s : Session) : Step → List Arrival
  | .call command mode => s.servedByCall command.side command mode
  | .callAt client command mode => s.servedByCall (.further client) command mode
  | .held id use =>
      match s.held.lookup id with
      | none => []
      | some i =>
          match use with
          | .await => s.servedBySettleCall i
          | .onComplete =>
              ({ s with held := s.held.filter fun h => h.1 ≠ id } : Session).servedBySettleCall i
          | .cancel | .isCancelled | .debug | .drop | .poll | .continueWith => []
  | .rpc request =>
      let i := s.calls.length
      ((s.addCall none { task := some {} }).submit i request).servedBySettleCall i
  | .drive => s.servedBySettle
  | .snapshot detachAt swapAt => (s.attach detachAt swapAt).servedBySettle
  | .observe o => (s.observing o).servedBySettleFor (Job.isObservedBy s.observers.length)
  | .failNext _ | .latency _ | .close _ | .debug | .attach .. | .detach => []
  | .start _ | .cancelHandle _ | .listen _ => []

section

variable {s s' : Session}

theorem Keeps.comes? (h : s.Keeps s') : s'.comes? = s.comes? := by
  funext job
  cases job with
  | answer i request given =>
      cases given with
      | none => rw [Session.comes?, Session.comes?, h.aborting]
      | some answer => rfl
  | feed listener failure feed => rfl

theorem mem_queue_advanceTo {q : Queued} (due : Option Nat) :
    q ∈ (s.advanceTo due).queue ↔ q ∈ s.queue := by
  cases due with
  | none => exact .rfl
  | some due => exact List.mem_mergeSort

theorem servedNow_addCall
    (hknown : ∀ q ∈ s.queue, ∀ i, q.job.isFor i = true → i < s.calls.length)
    (other : Option Side) (call : Call Response Reply) :
    (s.addCall other call).servedNow = s.servedNow := by
  have hjobs : ∀ q ∈ s.queue, (s.addCall other call).waits q = s.waits q ∧
      (s.addCall other call).comes? q.job = s.comes? q.job := by
    intro q hq
    have hsame : ∀ i, q.job.isFor i = true → (s.addCall other call).aborting? i = s.aborting? i :=
      fun i hi => by rw [aborting?, aborting?, call?_addCall (hknown q hq i hi)]
    obtain ⟨due, delayed, job⟩ := q
    cases job with
    | feed listener failure feed => exact ⟨rfl, rfl⟩
    | answer i request given =>
        have hi := hsame i (decide_eq_true rfl)
        refine ⟨by simp only [waits, hi]; rfl, ?_⟩
        cases given with
        | none => rw [comes?, comes?, hi]
        | some answer => rfl
  have hready : (s.addCall other call).queue.filter (fun q => !(s.addCall other call).waits q) =
      s.queue.filter fun q => !s.waits q :=
    List.filter_congr fun q hq => by rw [(hjobs q hq).1]
  rw [servedNow, servedNow, hready]
  exact List.filterMap_congr fun q hq => (hjobs q (List.mem_filter.mp hq).1).2

theorem servedBySettleCall_failed {past : Store} (hs : s.Orderly past) (other : Option Side)
    (why : Failure) :
    (s.addCall other (.failed why)).servedBySettleCall s.calls.length = s.servedBySettle := by
  have hready : (s.addCall other (.failed why)).isReady s.calls.length = true := by
    rw [isReady, call?_addCall_length]
    rfl
  have hadded : (s.addCall other (.failed why)).desk.advanceTo s.ahead? =
      (s.desk.advanceTo s.ahead?).addCall other (.failed why) := by
    cases s.ahead? <;> rfl
  have hcalls : (s.desk.advanceTo s.ahead?).calls = s.calls := by
    cases s.ahead? <;> rfl
  have hahead : (s.addCall other (.failed why)).ahead? = s.ahead? := rfl
  rw [servedBySettleCall, if_pos hready, servedBySettle, hahead, hadded, servedBySettle]
  refine servedNow_addCall (fun q hq i hi => ?_) _ _
  rw [hcalls]
  exact hs.known q (List.mem_filter.mp ((mem_queue_advanceTo _).mp hq)).1 i hi

end

end Session

end Keyspace
