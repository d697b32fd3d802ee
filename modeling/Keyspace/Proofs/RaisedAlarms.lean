import Keyspace.Proofs.PendingCalls
import Mathlib.Data.List.Induction
import Mathlib.Data.List.Nodup

namespace Keyspace

@[simp] theorem AlarmAction.ofWire?_wire (action : AlarmAction) :
    ofWire? action.wire = some action := by
  cases action <;> rfl

@[simp] theorem AlarmType.ofWire?_wire (type : AlarmType) : ofWire? type.wire = some type := by
  cases type <;> rfl

theorem AlarmAction.wire_of_ofWire? {n : Int32} {action : AlarmAction}
    (h : ofWire? n = some action) : action.wire = n :=
  of_decide_eq_true (List.find?_some (p := fun action : AlarmAction => action.wire = n) h)

theorem AlarmType.wire_of_ofWire? {n : Int32} {type : AlarmType} (h : ofWire? n = some type) :
    type.wire = n :=
  of_decide_eq_true (List.find?_some (p := fun type : AlarmType => type.wire = n) h)

namespace RaisedAlarm

def member (a : RaisedAlarm) : AlarmMember where
  memberId := a.memberId
  alarm := a.alarm.wire

def request (a : RaisedAlarm) (action : AlarmAction) : Request :=
  .alarm { action := action.wire, memberId := a.memberId, alarm := a.alarm.wire }

theorem ofMember_member (a : RaisedAlarm) : ofMember a.member = .ok a := by
  rw [ofMember, member, AlarmType.ofWire?_wire]

theorem member_injective : Function.Injective member := by
  intro a b h
  have hsame : ofMember a.member = ofMember b.member := congrArg ofMember h
  rw [ofMember_member, ofMember_member] at hsame
  exact Except.ok.inj hsame

theorem request_inj {a b : RaisedAlarm} {action action' : AlarmAction} :
    a.request action = b.request action' ↔ a = b ∧ action = action' := by
  constructor
  · intro h
    simp only [request, Request.alarm.injEq, AlarmRequest.mk.injEq] at h
    obtain ⟨haction, hmember, htype⟩ := h
    have hread := congrArg AlarmAction.ofWire? haction
    rw [AlarmAction.ofWire?_wire, AlarmAction.ofWire?_wire] at hread
    have hsame : a.member = b.member := by rw [member, member, hmember, htype]
    exact ⟨member_injective hsame, Option.some.inj hread⟩
  · rintro ⟨rfl, rfl⟩
    rfl

theorem mapM_ofMember (l : List RaisedAlarm) : (l.map member).mapM ofMember = .ok l := by
  induction l with
  | nil => rfl
  | cons a l ih =>
      rw [List.map_cons, List.mapM_cons, ih, ofMember_member]
      rfl

end RaisedAlarm

theorem Request.alarm_cases (r : AlarmRequest) :
    (∃ a action, Request.alarm r = RaisedAlarm.request a action) ∨
      AlarmAction.ofWire? r.action = none ∨ AlarmType.ofWire? r.alarm = none := by
  cases haction : AlarmAction.ofWire? r.action with
  | none => exact .inr (.inl rfl)
  | some action =>
      cases htype : AlarmType.ofWire? r.alarm with
      | none => exact .inr (.inr rfl)
      | some type =>
          refine .inl ⟨⟨r.memberId, type⟩, action, ?_⟩
          rw [RaisedAlarm.request, AlarmAction.wire_of_ofWire? haction,
            AlarmType.wire_of_ofWire? htype]

/-- The alarm was raised by the request at a place, and was not taken back after it. -/
def RaisedAlarm.HoldsFrom (a : RaisedAlarm) (past : List Request) (i : Nat) : Prop :=
  past[i]? = some (a.request .activate) ∧ a.request .deactivate ∉ past.drop (i + 1)

/-- The first alarm has been raised for longer than the second. -/
def RaisedAlarm.Before (past : List Request) (a b : RaisedAlarm) : Prop :=
  ∃ i, a.HoldsFrom past i ∧ ∀ j, b.HoldsFrom past j → i < j

/-- The list has the alarms that were raised and not taken back since, each of them once. They
stand in the order in which they were raised; that one was raised again while it was raised does
not count. -/
structure Roster (past : List Request) (l : List RaisedAlarm) : Prop where
  nodup : l.Nodup
  mem_iff : ∀ a, a ∈ l ↔ ∃ i, a.HoldsFrom past i
  ordered : l.Pairwise (RaisedAlarm.Before past)

namespace AlarmAction

/-- What is left of the alarms. -/
def relist : AlarmAction → RaisedAlarm → List RaisedAlarm → List RaisedAlarm
  | get, _, l => l
  | activate, a, l => if a ∈ l then l else l ++ [a]
  | deactivate, a, l => l.filter (· ≠ a)

def named : AlarmAction → RaisedAlarm → List RaisedAlarm → List RaisedAlarm
  | get, _, l => l
  | activate, a, _ => [a]
  | deactivate, a, l => if a ∈ l then [a] else []

end AlarmAction

section

variable {past : List Request} {l l' : List RaisedAlarm} {a b : RaisedAlarm} {r : Request} {i : Nat}

theorem RaisedAlarm.HoldsFrom.lt_length (h : a.HoldsFrom past i) : i < past.length :=
  (List.getElem?_eq_some_iff.mp h.1).1

theorem RaisedAlarm.holdsFrom_concat_iff :
    a.HoldsFrom (past ++ [r]) i ↔
      a.HoldsFrom past i ∧ r ≠ a.request .deactivate ∨
        i = past.length ∧ r = a.request .activate := by
  rcases Nat.lt_trichotomy i past.length with hlt | rfl | hgt
  · have hne : i ≠ past.length := Nat.ne_of_lt hlt
    rw [HoldsFrom, HoldsFrom, List.getElem?_append_left hlt,
      List.drop_append_of_le_length (Nat.succ_le_of_lt hlt)]
    simp [hne, and_assoc, eq_comm (a := r)]
  · simp [HoldsFrom, eq_comm (a := r)]
  · have hnone : ¬a.HoldsFrom past i := fun h => Nat.lt_asymm hgt h.lt_length
    have hne : i ≠ past.length := Nat.ne_of_gt hgt
    simp only [hnone, hne, false_and, or_self, iff_false]
    intro h
    have hle := h.lt_length
    rw [List.length_append, List.length_singleton] at hle
    omega

theorem RaisedAlarm.Before.ne (h : Before past a b) : a ≠ b := by
  rintro rfl
  obtain ⟨i, hi, hlt⟩ := h
  exact Nat.lt_irrefl i (hlt i hi)

theorem RaisedAlarm.Before.concat (h : Before past a b) (hr : r ≠ a.request .deactivate) :
    Before (past ++ [r]) a b := by
  obtain ⟨i, hi, hlt⟩ := h
  refine ⟨i, holdsFrom_concat_iff.mpr (.inl ⟨hi, hr⟩), fun j hj => ?_⟩
  rcases holdsFrom_concat_iff.mp hj with ⟨hj, -⟩ | ⟨rfl, -⟩
  · exact hlt j hj
  · exact hi.lt_length

namespace Roster

theorem of_ordered (hmem : ∀ a, a ∈ l ↔ ∃ i, a.HoldsFrom past i)
    (hordered : l.Pairwise (RaisedAlarm.Before past)) : Roster past l where
  nodup := hordered.imp RaisedAlarm.Before.ne
  mem_iff := hmem
  ordered := hordered

theorem unique (h : Roster past l) (h' : Roster past l') : l = l' := by
  have hperm : l.Perm l' := by
    refine (List.perm_ext_iff_of_nodup h.nodup h'.nodup).mpr fun a => ?_
    rw [h.mem_iff, h'.mem_iff]
  refine hperm.eq_of_pairwise (fun a b _ _ hab hba => ?_) h.ordered h'.ordered
  obtain ⟨i, hi, hlt⟩ := hab
  obtain ⟨j, hj, hgt⟩ := hba
  exact absurd (hlt j hj) (Nat.lt_asymm (hgt i hi))

theorem nil : Roster [] [] := by
  refine of_ordered (fun a => ?_) .nil
  simp [RaisedAlarm.HoldsFrom]

theorem idle (h : Roster past l) (hraises : ∀ a, r ≠ RaisedAlarm.request a .activate)
    (hclears : ∀ a, r ≠ RaisedAlarm.request a .deactivate) : Roster (past ++ [r]) l := by
  refine of_ordered (fun a => ?_) (h.ordered.imp fun hab => hab.concat (hclears _))
  simp only [h.mem_iff, RaisedAlarm.holdsFrom_concat_iff, hraises, hclears, ne_eq,
    not_false_eq_true, and_true, and_false, or_false]

theorem activate (h : Roster past l) (a : RaisedAlarm) :
    Roster (past ++ [a.request .activate]) (AlarmAction.activate.relist a l) := by
  have hkept : ∀ b : RaisedAlarm, a.request .activate ≠ b.request .deactivate := by
    simp [RaisedAlarm.request_inj]
  have hholds : ∀ b : RaisedAlarm,
      (∃ i, b.HoldsFrom (past ++ [a.request .activate]) i) ↔ b ∈ l ∨ a = b := by
    intro b
    simp only [RaisedAlarm.holdsFrom_concat_iff, h.mem_iff, RaisedAlarm.request_inj, hkept b,
      ne_eq, not_false_eq_true, and_true, exists_or, exists_eq_left]
  have hordered := h.ordered.imp fun hab => hab.concat (hkept _)
  rw [AlarmAction.relist]
  split
  · rename_i hmem
    refine of_ordered (fun b => ?_) hordered
    rw [hholds]
    exact ⟨.inl, fun hb => hb.elim id fun heq => heq ▸ hmem⟩
  · rename_i hmem
    refine of_ordered (fun b => ?_) (List.pairwise_append.mpr
      ⟨hordered, List.pairwise_singleton .., fun b hb c hc => ?_⟩)
    · rw [hholds, List.mem_append, List.mem_singleton, eq_comm (a := b)]
    · -- The alarm holds from its last request on only, so after all the others.
      obtain rfl := List.mem_singleton.mp hc
      obtain ⟨i, hi⟩ := (h.mem_iff b).mp hb
      refine ⟨i, RaisedAlarm.holdsFrom_concat_iff.mpr (.inl ⟨hi, hkept b⟩), fun j hj => ?_⟩
      rcases RaisedAlarm.holdsFrom_concat_iff.mp hj with ⟨hj, -⟩ | ⟨rfl, -⟩
      · exact absurd ((h.mem_iff c).mpr ⟨j, hj⟩) hmem
      · exact hi.lt_length

theorem deactivate (h : Roster past l) (a : RaisedAlarm) :
    Roster (past ++ [a.request .deactivate]) (AlarmAction.deactivate.relist a l) := by
  rw [AlarmAction.relist]
  refine of_ordered (fun b => ?_) ?_
  · simp only [List.mem_filter, h.mem_iff, RaisedAlarm.holdsFrom_concat_iff,
      RaisedAlarm.request_inj, ne_eq, decide_not, Bool.not_eq_true', decide_eq_false_iff_not,
      reduceCtorEq, and_true, and_false, or_false, exists_and_right, eq_comm (a := b)]
  · refine (h.ordered.filter _).imp_of_mem fun hb _ hbc => hbc.concat ?_
    have hne : _ ≠ a := of_decide_eq_true (List.mem_filter.mp hb).2
    simpa [RaisedAlarm.request_inj] using Ne.symm hne

theorem request (h : Roster past l) (a : RaisedAlarm) (action : AlarmAction) :
    Roster (past ++ [a.request action]) (action.relist a l) := by
  cases action with
  | get => exact h.idle (by simp [RaisedAlarm.request_inj]) (by simp [RaisedAlarm.request_inj])
  | activate => exact h.activate a
  | deactivate => exact h.deactivate a

end Roster

end

namespace Store

variable {s : Store} {past : List Request} {l : List RaisedAlarm}

theorem alarms_serve {request : Request} (hrequest : ∀ x, request ≠ .alarm x) :
    (s.serve request).1.alarms = s.alarms := by
  cases request with
  | range x => rfl
  | put x =>
      rcases s.put_cases x with ⟨refusal, hput⟩ | ⟨-, response, hput⟩ <;> rw [serve, hput]
  | deleteRange x =>
      rcases s.deleteRange_cases x with ⟨refusal, hdelete⟩ | ⟨-, response, ⟨-, hdelete⟩ | hdelete⟩
      · rw [serve, hdelete]
      · rw [serve, hdelete]
      · rw [serve, hdelete]
  | txn x =>
      rw [serve]
      exact (s.txn_frame x).2
  | compact x =>
      rcases s.compact_cases x with ⟨refusal, hcompact⟩ | ⟨-, -, response, hcompact⟩ <;>
        rw [serve, hcompact]
  | status x => rfl
  | defragment x => rfl
  | alarm x => exact absurd rfl (hrequest x)

theorem serve_unknown_alarm {r : AlarmRequest}
    (hr : AlarmAction.ofWire? r.action = none ∨ AlarmType.ofWire? r.alarm = none) :
    (s.serve (.alarm r)).1 = s := by
  rw [serve, alarm]
  rcases hr with hr | hr
  · rw [hr]
  · rw [hr]
    cases AlarmAction.ofWire? r.action <;> rfl

/-- What is done for a request about an alarm is done to the list of alarms, and to nothing else. -/
theorem serve_request (hs : s.alarms = l.map RaisedAlarm.member) (hnodup : l.Nodup)
    (a : RaisedAlarm) (action : AlarmAction) :
    s.serve (a.request action) =
      ({ s with alarms := (action.relist a l).map RaisedAlarm.member },
        .ok (.alarm { header := some s.header,
                      alarms := (action.named a l).map RaisedAlarm.member })) := by
  have hcontains : s.alarms.contains a.member = decide (a ∈ l) := by
    rw [hs, List.contains_eq_mem]
    exact decide_eq_decide.mpr (List.mem_map_of_injective RaisedAlarm.member_injective)
  have hsame : ∀ b : RaisedAlarm, b.member = a.member ↔ b = a :=
    fun b => RaisedAlarm.member_injective.eq_iff
  have hnamed : ({ memberId := a.memberId, alarm := a.alarm.wire } : AlarmMember) = a.member := rfl
  rw [RaisedAlarm.request, serve]
  simp only [alarm, AlarmAction.ofWire?_wire, AlarmType.ofWire?_wire, hnamed]
  cases action with
  | get =>
      simp only [AlarmAction.relist, AlarmAction.named, ← hs]
      rfl
  | activate =>
      rw [hcontains]
      by_cases ha : a ∈ l
      · simp only [AlarmAction.relist, AlarmAction.named, ha, decide_true, if_true, ← hs]
        rfl
      · simp only [AlarmAction.relist, AlarmAction.named, ha, decide_false, Bool.false_eq_true,
          if_false, hs, List.map_append]
        rfl
  | deactivate =>
      have hrest : s.alarms.filter (fun m => decide (m ≠ a.member)) =
          (l.filter fun b => decide (b ≠ a)).map RaisedAlarm.member := by
        rw [hs, List.filter_map]
        congr 2
        funext b
        simp [hsame]
      have htaken : s.alarms.filter (fun m => decide (m = a.member)) =
          (if a ∈ l then [a] else []).map RaisedAlarm.member := by
        rw [hs, List.filter_map]
        congr 1
        have hone : ((fun m => decide (m = a.member)) ∘ RaisedAlarm.member) = (· == a) := by
          funext b
          simp [hsame, beq_eq_decide]
        rw [hone, List.filter_beq, hnodup.count]
        split <;> rfl
      simp only [AlarmAction.relist, AlarmAction.named, hrest, htaken]
      rfl

theorem reply_request (hs : s.alarms = l.map RaisedAlarm.member) (hnodup : l.Nodup)
    (a : RaisedAlarm) (action : AlarmAction) :
    s.reply (a.request action) =
      .ok (.alarms { header := s.header, alarms := action.named a l }) := by
  rw [reply, serve_request hs hnodup]
  simp only [Response.reply, AlarmList.ofResponse, RaisedAlarm.mapM_ofMember]
  rfl

theorem exists_roster_serve (hl : Roster past l) (hs : s.alarms = l.map RaisedAlarm.member)
    (request : Request) :
    ∃ l', Roster (past ++ [request]) l' ∧
      (s.serve request).1.alarms = l'.map RaisedAlarm.member := by
  by_cases hknown : ∃ a action, request = RaisedAlarm.request a action
  · obtain ⟨a, action, rfl⟩ := hknown
    refine ⟨_, hl.request a action, ?_⟩
    rw [serve_request hs hl.nodup]
  · have hkept : (s.serve request).1.alarms = s.alarms := by
      by_cases halarm : ∃ x, request = .alarm x
      · obtain ⟨x, rfl⟩ := halarm
        rw [serve_unknown_alarm ((Request.alarm_cases x).resolve_left hknown)]
      · exact alarms_serve fun x hx => halarm ⟨x, hx⟩
    exact ⟨l, hl.idle (fun a ha => hknown ⟨a, _, ha⟩) fun a ha => hknown ⟨a, _, ha⟩,
      hkept.trans hs⟩

/-- The store has the alarms that the requests have left, in their order. -/
theorem exists_roster (past : List Request) :
    ∃ l, Roster past l ∧ (empty.run past).alarms = l.map RaisedAlarm.member := by
  induction past using List.reverseRecOn with
  | nil => exact ⟨[], .nil, rfl⟩
  | append_singleton past request ih =>
      obtain ⟨l, hl, halarms⟩ := ih
      rw [run_append]
      exact exists_roster_serve hl halarms request

end Store

end Keyspace
