import Keyspace.Proofs.MessageKindFields
import Keyspace.Proofs.StoreInvariants

namespace Keyspace

open Wire

def OpRequest.variants : List (Variant OpRequest) := [
  ⟨RangeRequest, 1, RangeRequest.codec, range, range?⟩,
  ⟨PutRequest, 2, PutRequest.codec, put, put?⟩,
  ⟨DeleteRangeRequest, 3, DeleteRangeRequest.codec, deleteRange, deleteRange?⟩]

theorem OpRequest.distinct_variants : Variant.Distinct variants := by
  refine ⟨by decide, ?_, ?_, ?_⟩ <;> simp only [variants, List.forall_mem_cons]
  · exact ⟨RangeRequest.steady_codec, PutRequest.steady_codec, DeleteRangeRequest.steady_codec,
      List.forall_mem_nil _⟩
  · exact ⟨fun _ => rfl, fun _ => rfl, fun _ => rfl, List.forall_mem_nil _⟩
  · simp [range?, put?, deleteRange?]

theorem RequestOp.chosen {rs : List Record} {op : RequestOp}
    (h : merged codec.mergeField {} rs = .ok op) :
    Chosen OpRequest.variants (tagged [1, 2, 3] rs) op.request := by
  have hlawful : member.part.Lawful := ⟨fun _ _ => rfl, fun _ => rfl, fun _ _ _ => rfl⟩
  apply chosen_merged OpRequest.distinct_variants
  exact Codec.merged_single (by decide) rfl hlawful h

/-- A transaction that comes before all members has no part in the request. -/
theorem RequestOp.chosen_of_last {rs txns members : List Record} {op : RequestOp}
    (h : merged codec.mergeField {} rs = .ok op) (hrs : tagged [1, 2, 3, 4] rs = txns ++ members)
    (htxns : ∀ r ∈ txns, r.tag = 4) (hmembers : ∀ r ∈ members, r.tag ≠ 4) :
    Chosen OpRequest.variants (tagged [1, 2, 3, 4] rs) op.request := by
  have htags : ∀ r ∈ members, r.tag ∈ [1, 2, 3] := by
    intro r hr
    have hmem : r ∈ tagged [1, 2, 3, 4] rs := hrs ▸ List.mem_append_right _ hr
    have htag := of_decide_eq_true (List.mem_filter.mp hmem).2
    simpa [hmembers r hr] using htag
  have hown : tagged [1, 2, 3] rs = members := by
    have hnone : tagged [1, 2, 3] txns = [] :=
      List.filter_eq_nil_iff.mpr fun r hr => by simp [htxns r hr]
    have hall : tagged [1, 2, 3] members = members :=
      List.filter_eq_self.mpr fun r hr => decide_eq_true (htags r hr)
    have hsub : [1, 2, 3] ⊆ [1, 2, 3, 4] := by decide
    rw [← tagged_tagged hsub rs, hrs, tagged_append, hnone, hall, List.nil_append]
  rw [hrs]
  refine (hown ▸ chosen h).append_left fun r hr k hk => ?_
  rw [htxns r hr]
  revert k
  decide

theorem RequestOp.request_eq_none_iff {rs : List Record} {op : RequestOp}
    (h : merged codec.mergeField {} rs = .ok op) :
    op.request = none ↔ tagged [1, 2, 3] rs = [] := by
  have hchosen := chosen h
  constructor
  · intro hnone
    rw [hnone] at hchosen
    cases hchosen with
    | nothing last =>
        rw [← List.getLast?_eq_none_iff, Option.eq_none_iff_forall_ne_some]
        intro r hr
        have htag := of_decide_eq_true (List.mem_filter.mp (List.mem_of_getLast? hr)).2
        have hother := last r hr
        simp only [OpRequest.variants, List.forall_mem_cons] at hother
        simp only [List.mem_cons, List.not_mem_nil, or_false] at htag
        omega
  · intro hrs
    by_contra hsome
    obtain ⟨last, hlast, -⟩ := hchosen.last hsome
    rw [hrs] at hlast
    cases hlast

namespace Store

variable {s : Store} {done rest : List RequestOp} {op : RequestOp}

theorem checkOps_of_missing {written : List Bytes} (hdone : s.checkOps written done = .ok ())
    (hop : op.request = none) :
    s.checkOps written (done ++ op :: rest) = .error .unsupportedOperation := by
  induction done generalizing written with
  | nil => rw [List.nil_append, checkOps, checkOp, hop]
  | cons first done ih =>
      rw [checkOps] at hdone
      rw [List.cons_append, checkOps]
      cases hfirst : s.checkOp written first with
      | error refusal =>
          rw [hfirst] at hdone
          cases hdone
      | ok _ =>
          rw [hfirst] at hdone
          exact ih hdone

theorem txn_of_missing {r : TxnRequest} {succeeded : Bool}
    (hcompare : s.evaluateAll r.compare = .ok succeeded)
    (hbranch : r.branch succeeded = done ++ op :: rest) (hdone : s.checkOps [] done = .ok ())
    (hop : op.request = none) : s.txn r = (s, .error .unsupportedOperation) := by
  have hcheck : s.checkBranch (r.branch succeeded) = .error .unsupportedOperation := by
    rw [checkBranch, hbranch, checkOps_of_missing hdone hop]
  rw [txn_of_compare hcompare, runBranch_refused hcheck]
  rfl

end Store

namespace RequestOp

/-- What an operation asks for is what the last run of its members' records holds. A transaction
counts for nothing, so that an operation is refused if it holds nothing else, but not if a member
comes before the transaction. -/
theorem request_of_decode {s : Bytes} {op : RequestOp} (h : codec.decode s = .ok op) :
    ∃ rs, records s = .ok rs ∧ Chosen OpRequest.variants (tagged [1, 2, 3] rs) op.request ∧
      (∀ txns members, tagged [1, 2, 3, 4] rs = txns ++ members → (∀ r ∈ txns, r.tag = 4) →
        (∀ r ∈ members, r.tag ≠ 4) →
          Chosen OpRequest.variants (tagged [1, 2, 3, 4] rs) op.request) ∧
      (op.request = none ↔ tagged [1, 2, 3] rs = []) ∧
      ∀ (store : Store) (r : TxnRequest) succeeded done rest,
        store.evaluateAll r.compare = .ok succeeded → r.branch succeeded = done ++ op :: rest →
          store.checkOps [] done = .ok () → tagged [1, 2, 3] rs = [] →
            store.txn r = (store, .error .unsupportedOperation) := by
  obtain ⟨rs, hrs, hmerged⟩ := steady_codec.decode_eq_ok.mp h
  have hnone := request_eq_none_iff hmerged
  refine ⟨rs, hrs, chosen hmerged, fun _ _ => chosen_of_last hmerged, hnone, ?_⟩
  intro store r succeeded done rest hcompare hbranch hdone hempty
  exact Store.txn_of_missing hcompare hbranch hdone (hnone.mpr hempty)

/-- A put in two pieces with a transaction before them and an unknown record between them, and an
operation that holds a transaction only. -/
theorem request_of_decode_of_two_pieces :
    let s : Bytes := [34, 0, 18, 3, 10, 1, 107, 56, 1, 18, 3, 18, 1, 118]
    let op : RequestOp := { request := some (.put { key := [107], value := [118] }) }
    codec.decode s = .ok op ∧
      (∃ rs, records s = .ok rs ∧ Chosen OpRequest.variants (tagged [1, 2, 3] rs) op.request ∧
        Chosen OpRequest.variants (tagged [1, 2, 3, 4] rs) op.request) ∧
      codec.decode [34, 0] = .ok {} ∧ ∃ rs, records [34, 0] = .ok rs ∧ tagged [1, 2, 3] rs = [] ∧
        Store.empty.txn { success := [op, {}] } = (Store.empty, .error .unsupportedOperation) := by
  intro s op
  have hs : codec.decode s = .ok op := by rfl
  have htxn : codec.decode [34, 0] = .ok {} := by rfl
  obtain ⟨rs, hrs, hchosen, hlast, -⟩ := request_of_decode hs
  obtain ⟨rs', hrs', -, -, hnone, hrefused⟩ := request_of_decode htxn
  refine ⟨hs, ⟨rs, hrs, hchosen, ?_⟩, htxn, rs', hrs', hnone.mp rfl,
    hrefused Store.empty { success := [op, {}] } true [op] [] rfl rfl (by rfl) (hnone.mp rfl)⟩
  cases hrs
  exact hlast [⟨4, .lengthDelimited, [0]⟩]
    [⟨2, .lengthDelimited, [3, 10, 1, 107]⟩, ⟨2, .lengthDelimited, [3, 18, 1, 118]⟩] (by rfl)
    (by decide) (by decide)

/-- A put that has a transaction after it is asked for and carried out. A response in the same form
says nothing. -/
theorem put_before_transaction :
    let s : Bytes := [18, 4, 10, 2, 8, 1, 34, 0]
    let op : RequestOp := { request := some (.put { key := [8, 1] }) }
    let r : TxnRequest := { success := [op] }
    let header : Header := { Store.empty.header with revision := 2 }
    codec.decode s = .ok op ∧ ResponseOp.codec.decode s = .ok { response := none } ∧
      (¬∃ rs, records s = .ok rs ∧
        Chosen OpRequest.variants (tagged [1, 2, 3, 4] rs) op.request) ∧
      TxnRequest.codec.decode (18 :: 8 :: s) = .ok r ∧
      (Store.empty.txn r).2 = .ok {
        header := some header, succeeded := true
        responses := [{ response := some (.put { header := some header }) }] } := by
  intro s op r header
  refine ⟨by rfl, by rfl, ?_, by rfl, by rfl⟩
  rintro ⟨rs, hrs, hchosen⟩
  obtain ⟨last, hlast, k, hk, htag⟩ := hchosen.last nofun
  cases hrs
  cases hlast
  revert k
  decide

end RequestOp

end Keyspace
