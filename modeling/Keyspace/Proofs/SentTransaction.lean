import Keyspace.Proofs.MessageOverlay
import Keyspace.Proofs.PrefixFreeEncoding
import Keyspace.Proofs.BranchSelection

namespace Keyspace

open Wire

theorem RangeRequest.encode_injective : Function.Injective codec.encode := by
  apply Codec.encode_injective
  · simp only [codec, List.forall_mem_cons]
    exact ⟨Field.distinct_bytes _, Field.distinct_bytes _, Field.distinct_int32 _,
      Field.distinct_int32 _, Field.distinct_bool _, Field.distinct_bool _, Field.distinct_bool _,
      Field.distinct_int64 _, Field.distinct_int64 _, Field.distinct_int64 _,
      Field.distinct_int64 _, Field.distinct_int64 _, Field.distinct_int64 _, List.forall_mem_nil _⟩
  · decide
  · rintro ⟨⟩ ⟨⟩ h
    simp only [codec, Field.scalar, List.forall_mem_cons] at h
    simp only [h]

theorem PutRequest.encode_injective : Function.Injective codec.encode := by
  apply Codec.encode_injective
  · simp only [codec, List.forall_mem_cons]
    exact ⟨Field.distinct_bytes _, Field.distinct_bytes _, Field.distinct_int64 _,
      Field.distinct_bool _, Field.distinct_bool _, Field.distinct_bool _, List.forall_mem_nil _⟩
  · decide
  · rintro ⟨⟩ ⟨⟩ h
    simp only [codec, Field.scalar, List.forall_mem_cons] at h
    simp only [h]

theorem DeleteRangeRequest.encode_injective : Function.Injective codec.encode := by
  apply Codec.encode_injective
  · simp only [codec, List.forall_mem_cons]
    exact ⟨Field.distinct_bytes _, Field.distinct_bytes _, Field.distinct_bool _,
      List.forall_mem_nil _⟩
  · decide
  · rintro ⟨⟩ ⟨⟩ h
    simp only [codec, Field.scalar, List.forall_mem_cons] at h
    simp only [h]

theorem Operand.writes (operand : Operand) :
    ∃ member : Member Operand, member.Writes members operand := by
  cases operand with
  | version n =>
      refine ⟨.scalar 4 .int64 version version?, Member.writes_scalar (by simp [members]) ?_ ?_
        Scalar.prefixFree_int64⟩
      · simp [members, Member.scalar, createRevision?, modRevision?, value?, lease?]
      · rintro ⟨⟩ v <;> simp [version?]
  | createRevision n =>
      refine ⟨.scalar 5 .int64 createRevision createRevision?,
        Member.writes_scalar (by simp [members]) ?_ ?_ Scalar.prefixFree_int64⟩
      · simp [members, Member.scalar, version?, modRevision?, value?, lease?]
      · rintro ⟨⟩ v <;> simp [createRevision?]
  | modRevision n =>
      refine ⟨.scalar 6 .int64 modRevision modRevision?,
        Member.writes_scalar (by simp [members]) ?_ ?_ Scalar.prefixFree_int64⟩
      · simp [members, Member.scalar, version?, createRevision?, value?, lease?]
      · rintro ⟨⟩ v <;> simp [modRevision?]
  | value bytes =>
      refine ⟨.scalar 7 .bytes value value?, Member.writes_scalar (by simp [members]) ?_ ?_
        Scalar.prefixFree_bytes⟩
      · simp [members, Member.scalar, version?, createRevision?, modRevision?, lease?]
      · rintro ⟨⟩ v <;> simp [value?]
  | lease n =>
      refine ⟨.scalar 8 .int64 lease lease?, Member.writes_scalar (by simp [members]) ?_ ?_
        Scalar.prefixFree_int64⟩
      · simp [members, Member.scalar, version?, createRevision?, modRevision?, value?]
      · rintro ⟨⟩ v <;> simp [lease?]

theorem Compare.encode_injective : Function.Injective codec.encode := by
  apply Codec.encode_injective
  · simp only [codec, List.forall_mem_cons]
    exact ⟨Field.distinct_int32 _, Field.distinct_int32 _, Field.distinct_bytes _,
      Field.distinct_choice (by decide) Operand.writes, Field.distinct_bytes _,
      List.forall_mem_nil _⟩
  · decide
  · rintro ⟨⟩ ⟨⟩ h
    simp only [codec, Field.scalar, Field.choice, List.forall_mem_cons] at h
    simp only [h]

theorem OpRequest.writes (request : OpRequest) :
    ∃ member : Member OpRequest, member.Writes members request := by
  cases request with
  | range r =>
      refine ⟨.message 1 RangeRequest.codec range range?, Member.writes_message (by simp [members])
        ?_ ?_ (Codec.prefixFree_encodeDelimited RangeRequest.encode_injective
          (RangeRequest.lawful_codec 0).length_encode)⟩
      · simp [members, Member.message, put?, deleteRange?]
      · rintro ⟨⟩ v <;> simp [range?]
  | put r =>
      refine ⟨.message 2 PutRequest.codec put put?, Member.writes_message (by simp [members])
        ?_ ?_ (Codec.prefixFree_encodeDelimited PutRequest.encode_injective
          (PutRequest.lawful_codec 0).length_encode)⟩
      · simp [members, Member.message, range?, deleteRange?]
      · rintro ⟨⟩ v <;> simp [put?]
  | deleteRange r =>
      refine ⟨.message 3 DeleteRangeRequest.codec deleteRange deleteRange?,
        Member.writes_message (by simp [members]) ?_ ?_
          (Codec.prefixFree_encodeDelimited DeleteRangeRequest.encode_injective
            (DeleteRangeRequest.lawful_codec 0).length_encode)⟩
      · simp [members, Member.message, range?, put?]
      · rintro ⟨⟩ v <;> simp [deleteRange?]

theorem RequestOp.encode_injective : Function.Injective codec.encode := by
  apply Codec.encode_injective
  · simp only [codec, List.forall_mem_cons]
    exact ⟨Field.distinct_choice (by decide) OpRequest.writes, List.forall_mem_nil _⟩
  · decide
  · rintro ⟨⟩ ⟨⟩ h
    simp only [codec, Field.choice, List.forall_mem_cons] at h
    simp only [h]

theorem TxnRequest.encode_injective : Function.Injective codec.encode := by
  have hcompare : PrefixFree Compare.codec.encodeDelimited :=
    Codec.prefixFree_encodeDelimited Compare.encode_injective
      (Compare.lawful_codec 0).length_encode
  have hop : PrefixFree RequestOp.codec.encodeDelimited :=
    Codec.prefixFree_encodeDelimited RequestOp.encode_injective
      (RequestOp.lawful_codec 0).length_encode
  apply Codec.encode_injective
  · simp only [codec, List.forall_mem_cons]
    exact ⟨Field.distinct_repeated hcompare, Field.distinct_repeated hop,
      Field.distinct_repeated hop, List.forall_mem_nil _⟩
  · decide
  · rintro ⟨⟩ ⟨⟩ h
    simp only [codec, Field.repeated, List.forall_mem_cons] at h
    simp only [h]

theorem Relation.wire_injective : Function.Injective fun r : Relation => r.toResult.wire := by
  intro a b
  cases a <;> cases b <;> decide

theorem SortOrder.wire_injective : Function.Injective wire := by
  intro a b
  cases a <;> cases b <;> decide

theorem SortTarget.wire_injective : Function.Injective wire := by
  intro a b
  cases a <;> cases b <;> decide

theorem Bound.operand_injective : Function.Injective operand := by
  intro a b h
  cases a <;> cases b <;> simp_all [operand]

theorem Condition.compare_injective : Function.Injective compare := by
  rintro ⟨key, relation, bound⟩ ⟨key', relation', bound'⟩ h
  simp only [compare, Compare.mk.injEq, Option.some.injEq] at h
  obtain ⟨hrelation, -, rfl, hoperand, -⟩ := h
  obtain rfl := Relation.wire_injective hrelation
  obtain rfl := Bound.operand_injective hoperand
  rfl

/-- The options without an end of the range that is empty. -/
def GetOptions.plain (o : GetOptions) : GetOptions :=
  { o with endKey := o.endKey.filter (· ≠ []) }

def DeleteOptions.plain (o : DeleteOptions) : DeleteOptions :=
  { o with endKey := o.endKey.filter (· ≠ []) }

/-- The operation without an end of the range that is empty. -/
def Operation.plain : Operation → Operation
  | put key value options => put key value options
  | get key options => get key options.plain
  | delete key options => delete key options.plain

/-- The transaction without ends of ranges that are empty. -/
def Transaction.plain (t : Transaction) : Transaction where
  conditions := t.conditions
  success := t.success.map Operation.plain
  failure := t.failure.map Operation.plain

theorem getD_eq_iff_filter_eq (a b : Option Bytes) :
    a.getD [] = b.getD [] ↔ a.filter (· ≠ []) = b.filter (· ≠ []) := by
  cases a with
  | none =>
      cases b with
      | none => simp
      | some b => cases b <;> simp [Option.filter]
  | some a =>
      cases b with
      | none => cases a <;> simp [Option.filter]
      | some b => cases a <;> cases b <;> simp [Option.filter]

theorem GetOptions.toRequest_eq_iff {a b : GetOptions} {key key' : Bytes} :
    a.toRequest key = b.toRequest key' ↔ key = key' ∧ a.plain = b.plain := by
  simp only [toRequest, plain, RangeRequest.mk.injEq, GetOptions.mk.injEq,
    getD_eq_iff_filter_eq, SortOrder.wire_injective.eq_iff, SortTarget.wire_injective.eq_iff]
  tauto

theorem DeleteOptions.toRequest_eq_iff {a b : DeleteOptions} {key key' : Bytes} :
    a.toRequest key = b.toRequest key' ↔ key = key' ∧ a.plain = b.plain := by
  simp only [toRequest, plain, DeleteRangeRequest.mk.injEq, DeleteOptions.mk.injEq,
    getD_eq_iff_filter_eq]

theorem PutOptions.toRequest_eq_iff {a b : PutOptions} {key key' value value' : Bytes} :
    a.toRequest key value = b.toRequest key' value' ↔ key = key' ∧ value = value' ∧ a = b := by
  obtain ⟨lease, prevKv⟩ := a
  obtain ⟨lease', prevKv'⟩ := b
  simp [toRequest]

theorem Operation.toRequest_eq_iff {a b : Operation} :
    a.toRequest = b.toRequest ↔ a.plain = b.plain := by
  cases a with
  | put key value options =>
      cases b <;> simp [toRequest, plain, PutOptions.toRequest_eq_iff]
  | get key options =>
      cases b <;> simp [toRequest, plain, GetOptions.toRequest_eq_iff]
  | delete key options =>
      cases b <;> simp [toRequest, plain, DeleteOptions.toRequest_eq_iff]

namespace Condition

variable {c : Condition}

theorem check_eq_error (hc : ¬c.Valid) : ∃ reason, c.check = .error (.invalidArgument reason) := by
  rw [check]
  split
  · exact ⟨_, rfl⟩
  · rename_i hkey
    obtain ⟨key, relation, bound⟩ := c
    have hbound := not_and.mp hc hkey
    cases bound with
    | version n => exact ⟨_, if_pos (Int64.not_le.mp hbound)⟩
    | createRevision n => exact ⟨_, if_pos (Int64.not_le.mp hbound)⟩
    | modRevision n => exact ⟨_, if_pos (Int64.not_le.mp hbound)⟩
    | value bytes => exact absurd trivial hbound

theorem make_eq (c : Condition) :
    make c.key c.relation c.bound = c.check.map fun _ => c := by
  obtain ⟨key, relation, bound⟩ := c
  rw [make]
  cases check { key, relation, bound } <;> rfl

theorem make_eq_ok_iff : make c.key c.relation c.bound = .ok c ↔ c.Valid := by
  rw [make_eq]
  by_cases hc : c.Valid
  · rw [check_eq_ok hc]
    exact iff_of_true rfl hc
  · obtain ⟨reason, hcheck⟩ := check_eq_error hc
    rw [hcheck]
    exact iff_of_false (by simp [Except.map]) hc

theorem make_eq_error_iff {failure : Failure} :
    make c.key c.relation c.bound = .error failure ↔ c.check = .error failure := by
  rw [make_eq]
  cases c.check <;> simp [Except.map]

end Condition

namespace Transaction

variable {t : Transaction}

theorem toRequest_eq_error {before after : List Condition} {c : Condition} {failure : Failure}
    (hsplit : t.conditions = before ++ c :: after) (hbefore : ∀ b ∈ before, b.Valid)
    (hcheck : c.check = .error failure) : t.toRequest = .error failure := by
  have hc : c.toCompare = .error failure := by rw [Condition.toCompare, hcheck]
  have hmapM : (before ++ c :: after).mapM Condition.toCompare = .error failure := by
    clear hsplit
    induction before with
    | nil =>
        rw [List.nil_append, List.mapM_cons, hc]
        rfl
    | cons b before ih =>
        obtain ⟨hb, hrest⟩ := List.forall_mem_cons.mp hbefore
        rw [List.cons_append, List.mapM_cons, Condition.toCompare_eq_ok hb, ih hrest]
        rfl
  rw [toRequest, hsplit, hmapM]

theorem forall_valid_or_exists_first (cs : List Condition) :
    (∀ c ∈ cs, c.Valid) ∨ ∃ before c after reason, cs = before ++ c :: after ∧
      (∀ b ∈ before, b.Valid) ∧ c.check = .error (.invalidArgument reason) := by
  cases hfind : cs.find? fun c => ¬c.Valid with
  | none =>
      left
      intro c hc
      simpa using List.find?_eq_none.mp hfind c hc
  | some c =>
      right
      obtain ⟨hc, before, after, hsplit, hbefore⟩ := List.find?_eq_some_iff_append.mp hfind
      obtain ⟨reason, hcheck⟩ := Condition.check_eq_error (of_decide_eq_true hc)
      exact ⟨before, c, after, reason, hsplit, by simpa using hbefore, hcheck⟩

theorem toRequest_eq_error_iff {failure : Failure} :
    t.toRequest = .error failure ↔
      ∃ before c after reason, t.conditions = before ++ c :: after ∧ (∀ b ∈ before, b.Valid) ∧
        failure = .invalidArgument reason ∧ c.check = .error failure := by
  constructor
  · intro hfailure
    rcases forall_valid_or_exists_first t.conditions with hvalid | ⟨before, c, after, reason,
      hsplit, hbefore, hcheck⟩
    · rw [t.toRequest_eq_ok hvalid] at hfailure
      nomatch hfailure
    · rw [toRequest_eq_error hsplit hbefore hcheck] at hfailure
      obtain rfl := Except.error.inj hfailure
      exact ⟨before, c, after, reason, hsplit, hbefore, rfl, hcheck⟩
  · rintro ⟨before, c, after, reason, hsplit, hbefore, -, hcheck⟩
    exact toRequest_eq_error hsplit hbefore hcheck

theorem toRequest_eq_ok_iff : (∃ r, t.toRequest = .ok r) ↔ ∀ c ∈ t.conditions, c.Valid := by
  constructor
  · rintro ⟨r, hr⟩
    rcases forall_valid_or_exists_first t.conditions with hvalid | ⟨before, c, after, reason,
      hsplit, hbefore, hcheck⟩
    · exact hvalid
    · rw [toRequest_eq_error hsplit hbefore hcheck] at hr
      nomatch hr
  · intro hvalid
    exact ⟨_, t.toRequest_eq_ok hvalid⟩

theorem map_toRequest_eq_iff {ops ops' : List Operation} :
    (ops.map fun op => ({ request := some op.toRequest } : RequestOp)) =
        ops'.map (fun op => { request := some op.toRequest }) ↔
      ops.map Operation.plain = ops'.map Operation.plain := by
  induction ops generalizing ops' with
  | nil => cases ops' <;> simp
  | cons op ops ih =>
      cases ops' with
      | nil => simp
      | cons op' ops' => simp [ih, Operation.toRequest_eq_iff]

theorem toRequest_inj_iff {t₁ t₂ : Transaction} {r₁ r₂ : TxnRequest} (h₁ : t₁.toRequest = .ok r₁)
    (h₂ : t₂.toRequest = .ok r₂) : r₁ = r₂ ↔ t₁.plain = t₂.plain := by
  rw [t₁.toRequest_eq_ok (toRequest_eq_ok_iff.mp ⟨r₁, h₁⟩)] at h₁
  rw [t₂.toRequest_eq_ok (toRequest_eq_ok_iff.mp ⟨r₂, h₂⟩)] at h₂
  obtain rfl := Except.ok.inj h₁
  obtain rfl := Except.ok.inj h₂
  simp only [plain, TxnRequest.mk.injEq, Transaction.mk.injEq, map_toRequest_eq_iff,
    (List.map_injective_iff.mpr Condition.compare_injective).eq_iff]

/-- A transaction is sent if each of its conditions can be made, and else the first one that cannot
is reported as it would be when it is made. What is sent tells the transaction from any other one,
but for ends of ranges that are empty. -/
theorem sent_faithfully :
    (∀ t : Transaction, (∃ r, t.toRequest = .ok r) ↔
      ∀ c ∈ t.conditions, Condition.make c.key c.relation c.bound = .ok c) ∧
    (∀ c : Condition, Condition.make c.key c.relation c.bound = .ok c ↔ c.Valid) ∧
    (∀ (t : Transaction) (failure : Failure), t.toRequest = .error failure ↔
      ∃ before c after reason, t.conditions = before ++ c :: after ∧
        (∀ b ∈ before, Condition.make b.key b.relation b.bound = .ok b) ∧
        failure = .invalidArgument reason ∧
        Condition.make c.key c.relation c.bound = .error failure) ∧
    ∀ (t₁ t₂ : Transaction) (r₁ r₂ : TxnRequest), t₁.toRequest = .ok r₁ → t₂.toRequest = .ok r₂ →
      (TxnRequest.codec.encode r₁ = TxnRequest.codec.encode r₂ ↔ t₁.plain = t₂.plain) := by
  refine ⟨?_, ?_, ?_, ?_⟩
  · intro t
    simp only [toRequest_eq_ok_iff, Condition.make_eq_ok_iff]
  · intro c
    exact Condition.make_eq_ok_iff
  · intro t failure
    simp only [toRequest_eq_error_iff, Condition.make_eq_ok_iff, Condition.make_eq_error_iff]
  · intro t₁ t₂ r₁ r₂ h₁ h₂
    rw [TxnRequest.encode_injective.eq_iff, toRequest_inj_iff h₁ h₂]

/-- A range with an empty end is sent as one without an end, and not as one that is open to the
right. Of two conditions that cannot be made the first is reported. -/
theorem sent_faithfully_of_empty_end :
    let get (stop : Option Bytes) : Transaction :=
      { conditions := [⟨[1], .less, .version 0⟩], success := [.get [2] { endKey := stop }] }
    let bad : Transaction :=
      { conditions := [⟨[1], .less, .version 0⟩, ⟨[], .less, .version 0⟩,
          ⟨[1], .less, .modRevision (-1)⟩] }
    ∃ r₁ r₂ r₃, (get none).toRequest = .ok r₁ ∧ (get (some [])).toRequest = .ok r₂ ∧
      (get (some [0])).toRequest = .ok r₃ ∧
      TxnRequest.codec.encode r₁ = TxnRequest.codec.encode r₂ ∧
      TxnRequest.codec.encode r₁ ≠ TxnRequest.codec.encode r₃ ∧
      bad.toRequest = .error (.invalidArgument "compare key must not be empty") := by
  intro get bad
  obtain ⟨-, -, hbad, hsame⟩ := sent_faithfully
  refine ⟨_, _, _, rfl, rfl, rfl, ?_, ?_, ?_⟩
  · exact (hsame (get none) (get (some [])) _ _ rfl rfl).mpr (by decide)
  · exact mt (hsame (get none) (get (some [0])) _ _ rfl rfl).mp (by decide)
  · refine (hbad bad _).mpr ⟨[_], _, [_], _, rfl, ?_, rfl, rfl⟩
    intro b hb
    rw [List.mem_singleton.mp hb]
    rfl

end Transaction

end Keyspace
