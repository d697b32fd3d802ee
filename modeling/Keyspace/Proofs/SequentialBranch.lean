import Keyspace.Proofs.CappedHistory
import Keyspace.Proofs.PastReads

/-!
Branches of transactions as runs of single requests. All that a branch writes is written at one
revision, which is not yet that of the store; single requests move on by one revision after the
other. But for the revisions both come to the same.
-/

namespace Keyspace

def OpRequest.single : OpRequest → Request
  | range r => .range r
  | put r => .put r
  | deleteRange r => .deleteRange r

theorem OpRequest.single_ne_compact (request : OpRequest) (x : CompactionRequest) :
    request.single ≠ .compact x := by
  cases request <;> simp [single]

def singles (ops : List RequestOp) : List Request :=
  ops.filterMap fun op => op.request.map OpRequest.single

def PutResponse.undated (r : PutResponse) : PutResponse where
  prevKv := r.prevKv.map KeyValue.undated

def DeleteRangeResponse.undated (r : DeleteRangeResponse) : DeleteRangeResponse where
  deleted := r.deleted
  prevKvs := r.prevKvs.map KeyValue.undated

namespace Store

variable {s s' : Store} {t : Table}

/-- The answers to requests that are served one after the other. -/
def answers (s : Store) : List Request → List (Except Refusal Response)
  | [] => []
  | request :: requests => (s.serve request).2 :: (s.serve request).1.answers requests

/-- What an operation of a branch and the request for it by itself have in
common. A range at an explicit revision answers as it would before the branch. -/
def Agrees (s : Store) : OpRequest → OpResponse → Except Refusal Response → Prop
  | .put _, .put x, .ok (.put y) => x.undated = y.undated
  | .deleteRange _, .deleteRange x, .ok (.deleteRange y) => x.undated = y.undated
  | .range r, .range x, .ok (.range y) =>
      (r.Timeless → x.undated = y.undated) ∧
        (0 < r.revision.toInt → x.body = y.body ∧ ∃ z, s.range r = .ok z ∧ x.body = z.body)
  | _, _, _ => False

/-- The operations of a branch have the answers of single requests. -/
inductive Agreeing (s : Store) :
    List RequestOp → List ResponseOp → List (Except Refusal Response) → Prop
  | nil : Agreeing s [] [] []
  | cons {op : RequestOp} {ops : List RequestOp} {request : OpRequest} {response : OpResponse}
      {responses : List ResponseOp} {answer : Except Refusal Response}
      {answers : List (Except Refusal Response)} (operation : op.request = some request)
      (agrees : s.Agrees request response answer) (rest : Agreeing s ops responses answers) :
      Agreeing s (op :: ops) ({ response := some response } :: responses) (answer :: answers)

/-- A table that a branch has come to, and the store that single requests have
come to. -/
structure Abreast (s : Store) (t : Table) (s' : Store) : Prop where
  table : t = s'.table.cap (s.revision + 1)
  sound : s'.Sound
  later : s.revision ≤ s'.revision
  compacted : s'.compacted = s.compacted
  past : ∀ q, 0 < q → s.compacted ≤ q → q ≤ (s.revision : Int) → s'.liveAt q = s.liveAt q

/-- The operation answers like the request for it by itself, and both come to a
table and a store that are abreast again. -/
def StaysAbreast (s : Store) (t : Table) (s' : Store) (request : OpRequest) : Prop :=
  ∃ t' response wrote,
    ({ s with table := t } : Store).runOp (s.revision + 1) request =
      ({ s with table := t' }, .ok (response, wrote)) ∧
    s.Abreast t' (s'.serve request.single).1 ∧
    ∀ header, s.Agrees request (response.withHeader header) (s'.serve request.single).2

theorem eq_of_step_eq {α : Type} {t t' : Table} {x y : α}
    (hstep : (({ s with table := t }, .ok x) : Step α) = ({ s with table := t' }, .ok y)) :
    t = t' ∧ x = y := by
  obtain ⟨hstore, hanswer⟩ := Prod.mk.inj hstep
  exact ⟨congrArg Store.table hstore, Except.ok.inj hanswer⟩

namespace Abreast

theorem start (hs : s.Sound) : s.Abreast s.table s where
  table := (Table.cap_eq_self hs.table (Nat.le_succ _)).symm
  sound := hs
  later := Nat.le_refl _
  compacted := rfl
  past _ _ _ _ := rfl

theorem serve (habreast : s.Abreast t s') {request : OpRequest} {t' : Table}
    (htable : t' = (s'.serve request.single).1.table.cap (s.revision + 1)) :
    s.Abreast t' (s'.serve request.single).1 := by
  have hchange := change_serve habreast.sound request.single
  have hlater := habreast.later
  have hcompacted : (s'.serve request.single).1.compacted = s.compacted :=
    (compacted_serve request.single_ne_compact).trans habreast.compacted
  refine ⟨htable, habreast.sound.serve request.single, ?_, hcompacted, ?_⟩
  · exact Nat.le_trans hlater hchange.revision_le.1
  · intro q hq hkept hreached
    rw [hchange.liveAt habreast.sound hq (by omega) (by omega)]
    exact habreast.past q hq hkept hreached

theorem liveAt (habreast : s.Abreast t s') {q : Int} (hq : q ≤ (s.revision : Int)) :
    t.liveAt q = (s'.liveAt q).map (Live.cap (s.revision + 1)) := by
  rw [habreast.table]
  exact Table.liveAt_cap (by omega) s'.table

theorem live (habreast : s.Abreast t s') :
    (t.liveAt 0).map Live.undated = s'.live.map Live.undated := by
  rw [habreast.liveAt (by omega), List.map_map]
  rfl

theorem latest? (habreast : s.Abreast t s') (key : Bytes) :
    t.latest? key = (s'.latest? key).map (Live.cap (s.revision + 1)) := by
  rw [habreast.table]
  exact Table.latest?_cap _ s'.table key

theorem indexed (habreast : s.Abreast t s') : t.Indexed := by
  rw [habreast.table]
  exact habreast.sound.table.indexed.cap _

theorem scan (habreast : s.Abreast t s') (span : Span) :
    ({ s with table := t } : Store).scan span 0 =
      (s'.scan span 0).map (Live.cap (s.revision + 1)) := by
  have hlive : ({ s with table := t } : Store).liveAt 0 = _ := habreast.liveAt (by omega)
  rw [scan_eq (s := { s with table := t }) habreast.indexed,
    scan_eq habreast.sound.table.indexed, hlive, List.filter_map]
  rfl

theorem put (habreast : s.Abreast t s') {r : PutRequest} (hnamed : r.key ≠ [])
    (hprev : r.keepsPrevious = true → (t.latest? r.key).isSome = true) :
    s.StaysAbreast t s' (.put r) := by
  have hlatest := habreast.latest? r.key
  have hprev' : r.keepsPrevious = true → (s'.latest? r.key).isSome = true := by
    simpa [hlatest] using hprev
  have hput := put_eq hnamed hprev'
  refine ⟨_, _, _, runOp_put (s.revision + 1) hprev, habreast.serve ?_, ?_⟩
  · have hlater : s.revision + 1 ≤ s'.revision + 1 := Nat.succ_le_succ habreast.later
    change t.push r.key (r.entry (s.revision + 1) (t.latest? r.key)) = _
    rw [OpRequest.single, Store.serve, hput, Table.push_cap, PutRequest.entry_cap hlater,
      ← hlatest, habreast.table]
  · intro header
    rw [OpRequest.single, Store.serve, hput]
    change PutResponse.undated { prevKv := if r.prevKv then (t.latest? r.key).map _ else none } =
      PutResponse.undated _
    rw [hlatest]
    cases r.prevKv with
    | true => simp [PutResponse.undated, Function.comp_def]
    | false => rfl

theorem deleteRange (habreast : s.Abreast t s') {r : DeleteRangeRequest} (hnamed : r.key ≠ []) :
    s.StaysAbreast t s' (.deleteRange r) := by
  have hscan := habreast.scan r.span
  have hdelete := s'.deleteRange_eq hnamed
  have hlater : s.revision + 1 ≤ s'.revision + 1 := Nat.succ_le_succ habreast.later
  refine ⟨_, _, _, runOp_deleteRange _ _ r, habreast.serve ?_, ?_⟩
  · have htable : (s'.serve (.deleteRange r)).1.table =
        s'.table.erased (s'.revision + 1) (s'.scan r.span 0) := by
      rw [Store.serve, hdelete]
      cases s'.scan r.span 0 <;> rfl
    rw [OpRequest.single, htable, Table.erased_cap hlater, ← hscan, ← habreast.table]
  · intro header
    rw [OpRequest.single, Store.serve, hdelete, hscan]
    change DeleteRangeResponse.undated _ = DeleteRangeResponse.undated _
    cases hprevKv : r.prevKv <;>
      simp [DeleteRangeRequest.response, DeleteRangeResponse.undated, hprevKv, Function.comp_def]

theorem liveAt_past (habreast : s.Abreast t s') (hs : s.Sound) {q : Int} (hq : 0 < q)
    (hkept : s.compacted ≤ q) (hreached : q ≤ (s.revision : Int)) : t.liveAt q = s.liveAt q := by
  have hnone : s.table.cap (s.revision + 1) = s.table :=
    Table.cap_eq_self hs.table (Nat.le_succ _)
  calc t.liveAt q
      = (s.liveAt q).map (Live.cap (s.revision + 1)) := by
        rw [habreast.liveAt hreached, habreast.past q hq hkept hreached]
    _ = (s.table.cap (s.revision + 1)).liveAt q := (Table.liveAt_cap (by omega) s.table).symm
    _ = s.liveAt q := by rw [hnone, Store.liveAt]

theorem range (habreast : s.Abreast t s') (hs : s.Sound) {r : RangeRequest}
    {sorting : SortOrder × SortTarget}
    (hcheck : ({ s with table := t } : Store).checkRange r = .ok sorting) :
    s.StaysAbreast t s' (.range r) := by
  have hreadable : s.checkReadable r.revision.toInt = .ok () := readable_of_checkRange hcheck
  obtain ⟨hkept, hreached⟩ := (checkReadable_eq_ok_iff s _).mp hreadable
  have hreadable' : s'.checkReadable r.revision.toInt = .ok () := by
    have hlater := habreast.later
    rw [checkReadable_eq_ok_iff, habreast.compacted]
    omega
  have hcheck' : ({ s with table := t } : Store).checkRange r = s'.checkRange r := by
    have hsame : ({ s with table := t } : Store).checkReadable r.revision.toInt = .ok () :=
      hreadable
    rw [checkRange, checkRange, hsame, hreadable']
  obtain ⟨x, hx⟩ := range_eq_ok hcheck
  obtain ⟨y, hy⟩ := range_eq_ok (hcheck'.symm.trans hcheck)
  obtain ⟨z, hz⟩ := range_eq_ok (s := s) hcheck
  refine ⟨t, _, _, runOp_range _ hx, habreast.serve habreast.table, ?_⟩
  intro header
  rw [OpRequest.single, Store.serve, hy]
  constructor
  · intro htimeless
    have hundated : (({ s with table := t } : Store).range r).map RangeResponse.undated =
        (s'.range r).map RangeResponse.undated :=
      range_undated_of_cap htimeless habreast.indexed habreast.sound.table.indexed
        (habreast.liveAt hreached) hcheck'
    rw [hx, hy] at hundated
    exact Except.ok.inj hundated
  · intro hq
    have hlive := habreast.liveAt_past hs hq (by omega) hreached
    have hbody : (s.range r).map RangeResponse.body = (s'.range r).map RangeResponse.body :=
      range_body_congr hs.table.indexed habreast.sound.table.indexed hreadable hreadable'
        (habreast.past _ hq (by omega) hreached).symm
    have hbody' : (({ s with table := t } : Store).range r).map RangeResponse.body =
        (s.range r).map RangeResponse.body :=
      range_body_congr habreast.indexed hs.table.indexed hreadable hreadable hlive
    rw [hx, hz] at hbody'
    rw [hz, hy] at hbody
    have hxz : x.body = z.body := Except.ok.inj hbody'
    exact ⟨hxz.trans (Except.ok.inj hbody), z, hz, hxz⟩

theorem runOp (habreast : s.Abreast t s') (hs : s.Sound) {op : RequestOp}
    (hvalid : ({ s with table := t } : Store).Valid op) {request : OpRequest}
    (hrequest : op.request = some request) :
    s.StaysAbreast t s' request := by
  rw [Valid, hrequest] at hvalid
  cases request with
  | put r => exact habreast.put hvalid.1 hvalid.2
  | deleteRange r => exact habreast.deleteRange hvalid
  | range r =>
      obtain ⟨sorting, hcheck⟩ := hvalid
      exact habreast.range hs hcheck

theorem runOps (habreast : s.Abreast t s') (hs : s.Sound) {ops : List RequestOp}
    (hops : ({ s with table := t } : Store).Accepts ops) :
    ∃ t' responses wrote,
      ({ s with table := t } : Store).runOps (s.revision + 1) ops =
        ({ s with table := t' }, .ok (responses, wrote)) ∧
      s.Abreast t' (s'.run (singles ops)) ∧
      ∀ header, s.Agreeing ops
        (responses.map fun response => { response := some (response.withHeader header) })
        (s'.answers (singles ops)) := by
  induction ops generalizing t s' with
  | nil => exact ⟨t, [], false, rfl, habreast, fun _ => .nil⟩
  | cons op ops ih =>
      obtain ⟨request, t₁, response, wrote, hrequest, hop, -, htail⟩ :=
        hops.runOp habreast.indexed (s.revision + 1)
      obtain ⟨t₂, response', wrote', hop', hnext, hagrees⟩ :=
        habreast.runOp hs (hops.valid op List.mem_cons_self) hrequest
      -- Both facts are about the same step of the branch.
      obtain ⟨rfl, hanswer⟩ := eq_of_step_eq (hop.symm.trans hop')
      obtain ⟨rfl, rfl⟩ := Prod.mk.inj hanswer
      obtain ⟨t', responses, wrote', hrun, hlast, hrest⟩ := ih hnext htail
      have hsingles : singles (op :: ops) = request.single :: singles ops := by
        simp [singles, hrequest]
      rw [hsingles]
      exact ⟨t', response :: responses, wrote || wrote', runOps_cons hrequest hop hrun, hlast,
        fun header => .cons hrequest (hagrees header) (hrest header)⟩

end Abreast

/-- A branch answers like the requests for its operations by themselves, all of
which succeed, and leaves the same keys, but for revisions. So does every part of
it from the start, which is what a later operation of the branch reads. -/
theorem txn_sequence (requests : List Request) (r : TxnRequest) (succeeded : Bool)
    (hcompare : (empty.run requests).evaluateAll r.compare = .ok succeeded)
    (hcheck : (empty.run requests).checkBranch (r.branch succeeded) = .ok ()) :
    let s := empty.run requests
    (∃ header responses, (s.txn r).2 = .ok { header, succeeded, responses } ∧
      s.Agreeing (r.branch succeeded) responses (s.answers (singles (r.branch succeeded)))) ∧
    (s.txn r).1.live.map Live.undated =
      (s.run (singles (r.branch succeeded))).live.map Live.undated ∧
    ∀ done, done <+: r.branch succeeded →
      ∃ s' answer, s.runOps (s.revision + 1) done = (s', .ok answer) ∧
        s'.live.map Live.undated = (s.run (singles done)).live.map Live.undated := by
  intro s
  have hs : s.Sound := sound_empty.run requests
  have hops : s.Accepts (r.branch succeeded) := (checkBranch_eq_ok_iff s _).mp hcheck
  have hstart : s.Abreast s.table s := .start hs
  obtain ⟨t, responses, wrote, hrun, htxn⟩ := hops.txn hs.table.indexed hcompare
  obtain ⟨t', responses', wrote', hrun', habreast, hagreeing⟩ := hstart.runOps hs hops
  obtain ⟨rfl, hanswer⟩ := eq_of_step_eq (hrun.symm.trans hrun')
  obtain ⟨rfl, rfl⟩ := Prod.mk.inj hanswer
  refine ⟨?_, ?_, ?_⟩
  · rw [htxn]
    exact ⟨_, _, rfl, hagreeing _⟩
  · rw [htxn, ← habreast.live]
    cases wrote <;> rfl
  · rintro done ⟨rest, hdone⟩
    rw [← hdone] at hops
    obtain ⟨t', responses', wrote', hrun', hlater, -⟩ := hstart.runOps hs hops.of_append
    exact ⟨{ s with table := t' }, _, hrun', hlater.live⟩

/-- A branch that deletes, reads, writes and reads the past takes one revision
where the single requests take two. -/
theorem txn_sequence_of_mixed_branch :
    let requests : List Request := [.put { key := [1], value := [7] }, .put { key := [2] }]
    let ops : List RequestOp := [
      { request := some (.deleteRange { key := [1], prevKv := true }) },
      { request := some (.range { key := [1], rangeEnd := [0] }) },
      { request := some (.put { key := [2], lease := 5, ignoreValue := true, prevKv := true }) },
      { request := some (.range { key := [1], revision := 3 }) }]
    let s := empty.run requests
    s.evaluateAll [] = .ok true ∧
      s.checkBranch ops = .ok () ∧
      (s.txn { success := ops }).1.revision + 1 = (s.run (singles ops)).revision ∧
      (∃ header responses,
        (s.txn { success := ops }).2 = .ok { header, succeeded := true, responses } ∧
          s.Agreeing ops responses (s.answers (singles ops))) ∧
      (s.txn { success := ops }).1.live.map Live.undated =
        (s.run (singles ops)).live.map Live.undated := by
  intro requests ops s
  have hcompare : s.evaluateAll [] = .ok true := rfl
  have hcheck : s.checkBranch ops = .ok () := rfl
  obtain ⟨hanswers, hlive, -⟩ := txn_sequence requests { success := ops } true hcompare hcheck
  exact ⟨hcompare, hcheck, by decide, hanswers, hlive⟩

end Store

end Keyspace
