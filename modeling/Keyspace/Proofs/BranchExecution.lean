import Keyspace.Proofs.TableGrowth
import Keyspace.Proofs.SpanWalk
import Keyspace.Store.Txn

namespace Keyspace.Store

variable {s : Store} {op : RequestOp} {ops : List RequestOp} {revision : Nat}

def Valid (s : Store) (op : RequestOp) : Prop :=
  match op.request with
  | none => False
  | some (.put r) => r.key ≠ [] ∧ (r.keepsPrevious = true → (s.latest? r.key).isSome = true)
  | some (.range r) => ∃ sorting, s.checkRange r = .ok sorting
  | some (.deleteRange r) => r.key ≠ []

/-- A branch of valid operations, none of which writes to a key that another
one writes to or deletes. -/
structure Accepts (s : Store) (ops : List RequestOp) : Prop where
  valid : ∀ op ∈ ops, s.Valid op
  distinct : (ops.filterMap writtenKey?).Nodup
  apart : ∀ key ∈ ops.filterMap writtenKey?, ∀ span ∈ ops.filterMap deletedSpan?,
    span.covers key = false

theorem checkOp_eq_ok_iff (s : Store) (written : List Bytes) (op : RequestOp) :
    s.checkOp written op = .ok () ↔ s.Valid op ∧ ∀ key ∈ writtenKey? op, key ∉ written := by
  obtain ⟨request⟩ := op
  cases request with
  | none => simp [checkOp, Valid]
  | some request =>
      cases request with
      | put r =>
          by_cases hnamed : r.key = []
          · simp [checkOp, Valid, hnamed]
          · by_cases hwritten : r.key ∈ written
            · simp [checkOp, Valid, writtenKey?, hnamed, hwritten]
            · cases hprev : s.latest? r.key <;>
                simp [checkOp, Valid, writtenKey?, hnamed, hwritten, hprev]
      | range r => cases hcheck : s.checkRange r <;> simp [checkOp, Valid, writtenKey?, hcheck]
      | deleteRange r => simp [checkOp, Valid, writtenKey?]

theorem checkOps_eq_ok_iff (s : Store) (written : List Bytes) (ops : List RequestOp) :
    s.checkOps written ops = .ok () ↔
      (∀ op ∈ ops, s.Valid op) ∧ (ops.filterMap writtenKey?).Nodup ∧
        ∀ key ∈ ops.filterMap writtenKey?, key ∉ written := by
  induction ops generalizing written with
  | nil => simp [checkOps]
  | cons op ops ih =>
      have hop := checkOp_eq_ok_iff s written op
      rw [checkOps]
      cases hcheck : s.checkOp written op with
      | error refusal =>
          simp only [hcheck, reduceCtorEq, false_iff] at hop ⊢
          rintro ⟨hvalid, -, hfresh⟩
          refine hop ⟨hvalid op List.mem_cons_self, fun key hkey => hfresh key ?_⟩
          exact List.mem_filterMap.mpr ⟨op, List.mem_cons_self, hkey⟩
      | ok _ =>
          simp only [hcheck, true_iff] at hop
          obtain ⟨hvalid, hfresh⟩ := hop
          simp only [ih, List.forall_mem_cons, hvalid, true_and]
          cases hkey : writtenKey? op with
          | none =>
              rw [List.filterMap_cons_none hkey]
              simp
          | some key =>
              have hkeyFresh : key ∉ written := hfresh key hkey
              rw [List.filterMap_cons_some hkey]
              simp only [Option.toList_some, List.nodup_cons, List.mem_append,
                List.mem_singleton, not_or, List.forall_mem_cons]
              constructor
              · rintro ⟨hrest, hnodup, hnew⟩
                exact ⟨hrest, ⟨fun hmem => (hnew key hmem).2 rfl, hnodup⟩, hkeyFresh,
                  fun k hk => (hnew k hk).1⟩
              · rintro ⟨hrest, ⟨hnot, hnodup⟩, -, hnew⟩
                refine ⟨hrest, hnodup, fun k hk => ⟨hnew k hk, ?_⟩⟩
                rintro rfl
                exact hnot hk

theorem checkBranch_eq_ok_iff (s : Store) (ops : List RequestOp) :
    s.checkBranch ops = .ok () ↔ s.Accepts ops := by
  have hops := checkOps_eq_ok_iff s [] ops
  rw [checkBranch]
  cases hcheck : s.checkOps [] ops with
  | error refusal =>
      simp only [hcheck, reduceCtorEq, false_iff] at hops ⊢
      intro haccepts
      exact hops ⟨haccepts.valid, haccepts.distinct, fun _ _ => List.not_mem_nil⟩
  | ok _ =>
      simp only [hcheck, true_iff] at hops
      obtain ⟨hvalid, hdistinct, -⟩ := hops
      simp only [ite_eq_right_iff, reduceCtorEq, imp_false, Bool.not_eq_true, List.any_eq_false]
      constructor
      · intro hapart
        refine ⟨hvalid, hdistinct, fun key hkey span hspan => ?_⟩
        simpa using hapart key hkey span hspan
      · intro haccepts key hkey span hspan
        simp [haccepts.apart key hkey span hspan]

theorem runOp_deleteRange (s : Store) (revision : Nat) (r : DeleteRangeRequest) :
    s.runOp revision (.deleteRange r) =
      ({ s with table := s.table.erased revision (s.scan r.span 0) },
        .ok (.deleteRange (r.response (s.scan r.span 0)), !(s.scan r.span 0).isEmpty)) := rfl

theorem putAt_eq (revision : Nat) {r : PutRequest}
    (hprev : r.keepsPrevious = true → (s.latest? r.key).isSome = true) :
    s.putAt r revision =
      ({ s with table := s.table.push r.key (r.entry revision (s.latest? r.key)) },
        .ok { prevKv := if r.prevKv then (s.latest? r.key).map Live.toKeyValue else none }) := by
  have hnot : ¬(r.keepsPrevious = true ∧ (s.latest? r.key).isNone = true) := by
    rintro ⟨hkeeps, hnone⟩
    have hsome := hprev hkeeps
    simp_all
  rw [putAt]
  exact if_neg hnot

theorem runOp_put (revision : Nat) {r : PutRequest}
    (hprev : r.keepsPrevious = true → (s.latest? r.key).isSome = true) :
    s.runOp revision (.put r) =
      ({ s with table := s.table.push r.key (r.entry revision (s.latest? r.key)) },
        .ok (.put { prevKv := if r.prevKv then (s.latest? r.key).map Live.toKeyValue else none },
          true)) := by
  rw [runOp, putAt_eq revision hprev]

theorem runOp_range (revision : Nat) {r : RangeRequest} {response : RangeResponse}
    (hrange : s.range r = .ok response) :
    s.runOp revision (.range r) = (s, .ok (.range response, false)) := by
  rw [runOp, hrange]

theorem range_eq_ok {r : RangeRequest} {sorting : SortOrder × SortTarget}
    (hcheck : s.checkRange r = .ok sorting) : ∃ response, s.range r = .ok response := by
  rw [range, hcheck]
  exact ⟨_, rfl⟩

theorem history_ne_nil_of_mem_scan (hs : s.table.Indexed) {span : Span} :
    ∀ l ∈ s.scan span 0, s.table.history l.key ≠ [] := by
  intro l hl
  apply Table.history_ne_nil_of_latest?
  exact Option.isSome_of_mem (latest?_of_mem_scan hs hl)

theorem history_erased_scan (hs : s.table.Indexed) (revision : Nat) (span : Span) (key : Bytes) :
    (s.table.erased revision (s.scan span 0)).history key = s.table.history key ++
      if span.covers key = true ∧ (s.latest? key).isSome = true then [.deletion revision]
      else [] := by
  simp only [← exists_mem_scan_iff hs]
  exact Table.history_erased hs.ordered (history_ne_nil_of_mem_scan hs) (pairwise_scan hs span 0)
    key

theorem latest?_erased_scan (hs : s.table.Indexed) (revision : Nat) (span : Span) (key : Bytes) :
    (s.table.erased revision (s.scan span 0)).latest? key =
      if span.covers key then none else s.latest? key := by
  rw [Table.latest?, history_erased_scan hs]
  cases hlive : s.latest? key with
  | none =>
      have hgone : (s.table.history key).latest? = none := hlive
      simp [hgone]
  | some l =>
      have hlatest : (s.table.history key).latest? = some l := hlive
      cases hcovers : span.covers key <;> simp [hlatest, Entry.deletion]

theorem indexed_erased_scan (hs : s.table.Indexed) (revision : Nat) (span : Span) :
    (s.table.erased revision (s.scan span 0)).Indexed :=
  hs.erased hs.ordered (history_ne_nil_of_mem_scan hs)

theorem mem_writtenKeys {r : PutRequest} (hop : op ∈ ops) (hput : op.request = some (.put r)) :
    r.key ∈ ops.filterMap writtenKey? :=
  List.mem_filterMap.mpr ⟨op, hop, by simp [writtenKey?, hput]⟩

theorem mem_deletedSpans {r : DeleteRangeRequest} (hop : op ∈ ops)
    (hdelete : op.request = some (.deleteRange r)) : r.span ∈ ops.filterMap deletedSpan? :=
  List.mem_filterMap.mpr ⟨op, hop, by simp [deletedSpan?, hdelete]⟩

theorem Accepts.tail (hops : s.Accepts (op :: ops)) {t : Table}
    (hlatest : ∀ key ∈ ops.filterMap writtenKey?, t.latest? key = s.latest? key) :
    ({ s with table := t } : Store).Accepts ops where
  valid op' hop' := by
    have hvalid := hops.valid op' (List.mem_cons_of_mem _ hop')
    rw [Valid] at hvalid ⊢
    split at hvalid
    · exact hvalid
    · rename_i r hput
      refine ⟨hvalid.1, fun hkeeps => ?_⟩
      rw [latest?, hlatest r.key (mem_writtenKeys hop' hput)]
      exact hvalid.2 hkeeps
    · exact hvalid
    · exact hvalid
  distinct := by
    refine hops.distinct.sublist ?_
    exact (List.sublist_cons_self op ops).filterMap _
  apart key hkey span hspan := by
    refine hops.apart key ?_ span ?_
    · exact ((List.sublist_cons_self op ops).filterMap _).mem hkey
    · exact ((List.sublist_cons_self op ops).filterMap _).mem hspan

theorem Accepts.of_append {done rest : List RequestOp} (hops : s.Accepts (done ++ rest)) :
    s.Accepts done where
  valid op hop := hops.valid op (List.mem_append_left _ hop)
  distinct := hops.distinct.sublist ((List.sublist_append_left done rest).filterMap _)
  apart key hkey span hspan := by
    refine hops.apart key ?_ span ?_
    · exact ((List.sublist_append_left done rest).filterMap _).mem hkey
    · exact ((List.sublist_append_left done rest).filterMap _).mem hspan

theorem Accepts.ne_of_put (hops : s.Accepts (op :: ops)) {r : PutRequest}
    (hput : op.request = some (.put r)) {key : Bytes} (hkey : key ∈ ops.filterMap writtenKey?) :
    key ≠ r.key := by
  have hwritten : writtenKey? op = some r.key := by simp [writtenKey?, hput]
  have hdistinct := hops.distinct
  rw [List.filterMap_cons_some hwritten, List.nodup_cons] at hdistinct
  rintro rfl
  exact hdistinct.1 hkey

theorem Accepts.runOp (hs : s.table.Indexed) (hops : s.Accepts (op :: ops)) (revision : Nat) :
    ∃ request t response wrote, op.request = some request ∧
      s.runOp revision request = ({ s with table := t }, .ok (response, wrote)) ∧
        t.Indexed ∧ ({ s with table := t } : Store).Accepts ops := by
  have hvalid := hops.valid op List.mem_cons_self
  rw [Valid] at hvalid
  split at hvalid
  · exact hvalid.elim
  · rename_i r hput
    have hpushed := hs.push (r.filed_entry revision (s.latest? r.key))
    refine ⟨_, _, _, _, hput, runOp_put revision hvalid.2, hpushed, hops.tail fun key hkey => ?_⟩
    exact Table.latest?_push_of_ne s.table _ (hops.ne_of_put hput hkey)
  · rename_i r hrange
    obtain ⟨sorting, hcheck⟩ := hvalid
    obtain ⟨response, hresponse⟩ := range_eq_ok hcheck
    exact ⟨_, s.table, _, _, hrange, runOp_range revision hresponse, hs, hops.tail fun _ _ => rfl⟩
  · rename_i r hdelete
    refine ⟨_, _, _, _, hdelete, runOp_deleteRange s revision r,
      indexed_erased_scan hs revision r.span, hops.tail fun key hkey => ?_⟩
    have happart : r.span.covers key = false := by
      refine hops.apart key ?_ r.span (mem_deletedSpans List.mem_cons_self hdelete)
      exact ((List.sublist_cons_self op ops).filterMap _).mem hkey
    rw [latest?_erased_scan hs, happart]
    rfl

theorem runOps_cons {request : OpRequest} (hrequest : op.request = some request) {s' s'' : Store}
    {response : OpResponse} {responses : List OpResponse} {wrote wrote' : Bool}
    (hop : s.runOp revision request = (s', .ok (response, wrote)))
    (hops : s'.runOps revision ops = (s'', .ok (responses, wrote'))) :
    s.runOps revision (op :: ops) = (s'', .ok (response :: responses, wrote || wrote')) := by
  rw [runOps, hrequest]
  simp only [hop, hops]

theorem runOp_frame (s : Store) (revision : Nat) (request : OpRequest) :
    ∃ t, (s.runOp revision request).1 = { s with table := t } := by
  cases request with
  | range r =>
      rw [runOp]
      split <;> exact ⟨s.table, rfl⟩
  | put r =>
      by_cases hprev : r.keepsPrevious = true → (s.latest? r.key).isSome = true
      · rw [runOp_put revision hprev]
        exact ⟨_, rfl⟩
      · have hnone : r.keepsPrevious = true ∧ (s.latest? r.key).isNone = true := by
          simpa using hprev
        simp only [runOp, putAt, if_pos hnone]
        exact ⟨s.table, rfl⟩
  | deleteRange r => exact ⟨_, rfl⟩

theorem runOps_frame (s : Store) (revision : Nat) (ops : List RequestOp) :
    ∃ t, (s.runOps revision ops).1 = { s with table := t } := by
  induction ops generalizing s with
  | nil => exact ⟨s.table, rfl⟩
  | cons op ops ih =>
      rw [runOps]
      split
      · exact ih s
      · rename_i request hrequest
        obtain ⟨t, hop⟩ := s.runOp_frame revision request
        generalize s.runOp revision request = ran at hop
        obtain ⟨s', answer⟩ := ran
        obtain rfl : s' = { s with table := t } := hop
        cases answer with
        | error refusal => exact ⟨t, rfl⟩
        | ok answer =>
            obtain ⟨t', hops⟩ := ih { s with table := t }
            dsimp only
            generalize ({ s with table := t } : Store).runOps revision ops = rest at hops
            obtain ⟨s'', answers⟩ := rest
            obtain rfl : s'' = { s with table := t' } := hops
            cases answers <;> exact ⟨t', rfl⟩

theorem Accepts.runOps_append (hs : s.table.Indexed) {done rest : List RequestOp}
    (hops : s.Accepts (done ++ rest)) (revision : Nat) :
    ∃ t responses wrote,
      s.runOps revision done = ({ s with table := t }, .ok (responses, wrote)) ∧
        responses.length = done.length ∧ t.Indexed ∧
          ({ s with table := t } : Store).Accepts rest := by
  induction done generalizing s with
  | nil => exact ⟨s.table, [], false, rfl, rfl, hs, hops⟩
  | cons op done ih =>
      obtain ⟨request, t, response, wrote, hrequest, hop, ht, htail⟩ := hops.runOp hs revision
      obtain ⟨t', responses, wrote', hrest, hlength, ht', haccepts⟩ := ih ht htail
      exact ⟨t', response :: responses, wrote || wrote', runOps_cons hrequest hop hrest,
        by simp [hlength], ht', haccepts⟩

theorem Accepts.runOps (hs : s.table.Indexed) (hops : s.Accepts ops) (revision : Nat) :
    ∃ t responses wrote,
      s.runOps revision ops = ({ s with table := t }, .ok (responses, wrote)) ∧
        responses.length = ops.length := by
  rw [← List.append_nil ops] at hops
  obtain ⟨t, responses, wrote, hrun, hlength, -⟩ := hops.runOps_append hs revision
  exact ⟨t, responses, wrote, hrun, hlength⟩

theorem eq_of_runOp_idle {request : OpRequest} {s' : Store} {response : OpResponse}
    (hrun : s.runOp revision request = (s', .ok (response, false))) : s' = s := by
  cases request with
  | range r =>
      rw [runOp] at hrun
      split at hrun
      · exact (Prod.mk.inj hrun).1.symm
      · simp at hrun
  | put r =>
      rw [runOp] at hrun
      split at hrun <;> simp at hrun
  | deleteRange r =>
      rw [runOp_deleteRange] at hrun
      obtain ⟨hstore, hanswer⟩ := Prod.mk.inj hrun
      have hempty : s.scan r.span 0 = [] := by simp_all
      rw [← hstore, hempty]
      rfl

theorem eq_of_runOps_idle {s' : Store} {responses : List OpResponse}
    (hrun : s.runOps revision ops = (s', .ok (responses, false))) : s' = s := by
  induction ops generalizing s responses with
  | nil => exact (Prod.mk.inj hrun).1.symm
  | cons op ops ih =>
      rw [runOps] at hrun
      split at hrun
      · exact ih hrun
      · rename_i request hrequest
        split at hrun
        · simp at hrun
        · rename_i s₁ response wrote hop
          split at hrun
          · simp at hrun
          · rename_i s₂ rest wrote' hrest
            simp only [Prod.mk.injEq, Except.ok.injEq, Bool.or_eq_false_iff] at hrun
            obtain ⟨rfl, -, rfl, rfl⟩ := hrun
            rw [ih hrest, eq_of_runOp_idle hop]

/-- A key that was already written to at the revision is not touched again by
the operations: it is not written to, and no deletion finds it. -/
def Settled (revision : Nat) (s : Store) (ops : List RequestOp) : Prop :=
  ∀ key, ¬s.table.Fresh revision key →
    key ∉ ops.filterMap writtenKey? ∧
      (s.latest? key = none ∨ ∀ span ∈ ops.filterMap deletedSpan?, span.covers key = false)

theorem Settled.tail (hsettled : s.Settled revision (op :: ops)) {s' : Store}
    (htouched : ∀ key, s'.table.history key = s.table.history key ∨
      key ∉ ops.filterMap writtenKey? ∧
        (s'.latest? key = none ∨ ∀ span ∈ ops.filterMap deletedSpan?, span.covers key = false)) :
    s'.Settled revision ops := by
  have hsub := List.sublist_cons_self op ops
  intro key hkey
  rcases htouched key with hsame | htouched
  · rw [Table.Fresh, hsame] at hkey
    obtain ⟨hwritten, hgone⟩ := hsettled key hkey
    refine ⟨fun hmem => hwritten ((hsub.filterMap _).mem hmem), ?_⟩
    rcases hgone with hnone | hcovers
    · left
      rwa [latest?, Table.latest?, hsame]
    · exact .inr fun span hspan => hcovers span ((hsub.filterMap _).mem hspan)
  · exact htouched

theorem fresh_of_put (hsettled : s.Settled revision (op :: ops)) {r : PutRequest}
    (hput : op.request = some (.put r)) : s.table.Fresh revision r.key := by
  apply Classical.byContradiction
  intro hstale
  exact (hsettled r.key hstale).1 (mem_writtenKeys List.mem_cons_self hput)

theorem fresh_of_mem_scan (hs : s.table.Indexed)
    (hsettled : s.Settled revision (op :: ops)) {r : DeleteRangeRequest}
    (hdelete : op.request = some (.deleteRange r)) {l : Live} (hl : l ∈ s.scan r.span 0) :
    (s.latest? l.key).isSome = true ∧ s.table.Fresh revision l.key := by
  have hlive := latest?_of_mem_scan hs hl
  refine ⟨by simp [hlive], ?_⟩
  apply Classical.byContradiction
  intro hstale
  rcases (hsettled l.key hstale).2 with hnone | hcovers
  · simp [hlive] at hnone
  · have := hcovers r.span (mem_deletedSpans List.mem_cons_self hdelete)
    simp [((mem_scan_iff hs).mp hl).2] at this

theorem Accepts.grown_runOp (hs : s.table.Indexed) (hops : s.Accepts (op :: ops))
    (hsettled : s.Settled revision (op :: ops)) {request : OpRequest}
    (hrequest : op.request = some request) :
    s.table.Grown revision (s.runOp revision request).1.table ∧
      (s.runOp revision request).1.Settled revision ops := by
  have hvalid := hops.valid op List.mem_cons_self
  have hsub := List.sublist_cons_self op ops
  rw [Valid, hrequest] at hvalid
  cases request with
  | range r =>
      obtain ⟨sorting, hcheck⟩ := hvalid
      obtain ⟨response, hresponse⟩ := range_eq_ok hcheck
      rw [runOp_range revision hresponse]
      exact ⟨.refl, hsettled.tail fun _ => .inl rfl⟩
  | put r =>
      rw [runOp_put revision hvalid.2]
      refine ⟨.put r .refl hvalid.1 (fresh_of_put hsettled hrequest), hsettled.tail fun key => ?_⟩
      by_cases hkey : key = r.key
      · right
        refine ⟨fun hmem => hops.ne_of_put hrequest hmem hkey, .inr fun span hspan => ?_⟩
        rw [hkey]
        exact hops.apart _ (mem_writtenKeys List.mem_cons_self hrequest) span
          ((hsub.filterMap _).mem hspan)
      · exact .inl (Table.history_push_of_ne s.table _ hkey)
  | deleteRange r =>
      rw [runOp_deleteRange]
      constructor
      · exact Table.grown_erased hs.ordered (pairwise_scan hs r.span 0) fun l hl =>
          fresh_of_mem_scan hs hsettled hrequest hl
      · refine hsettled.tail fun key => ?_
        have hlatest := latest?_erased_scan hs revision r.span key
        have hhistory := history_erased_scan hs revision r.span key
        cases hcovers : r.span.covers key with
        | true =>
            right
            rw [hcovers] at hlatest
            refine ⟨fun hmem => ?_, .inl hlatest⟩
            have hapart := hops.apart key ((hsub.filterMap _).mem hmem) r.span
              (mem_deletedSpans List.mem_cons_self hrequest)
            simp [hcovers] at hapart
        | false =>
            left
            simpa [hcovers] using hhistory

/-- An accepted branch writes to each key at most once. -/
theorem Accepts.grown_runOps (hs : s.table.Indexed) (hops : s.Accepts ops)
    (hsettled : s.Settled revision ops) :
    s.table.Grown revision (s.runOps revision ops).1.table := by
  induction ops generalizing s with
  | nil => exact .refl
  | cons op ops ih =>
      obtain ⟨request, t, response, wrote, hrequest, hop, ht, htail⟩ := hops.runOp hs revision
      obtain ⟨t', responses, wrote', hrest, -⟩ := htail.runOps ht revision
      obtain ⟨hgrown, hsettled'⟩ := hops.grown_runOp hs hsettled hrequest
      rw [hop] at hgrown hsettled'
      have hmore := ih ht htail hsettled'
      rw [hrest] at hmore
      rw [runOps_cons hrequest hop hrest]
      exact hgrown.trans hmore

end Keyspace.Store
