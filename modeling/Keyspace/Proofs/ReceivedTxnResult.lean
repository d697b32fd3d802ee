import Keyspace.Proofs.FieldRecords
import Keyspace.Transaction
import Mathlib.Data.List.Forall2

namespace Keyspace

open Wire

theorem Header.steady_codec : codec.Steady := by
  simp only [Codec.Steady, codec, List.forall_mem_cons]
  exact ⟨Field.steady_scalar Scalar.steady_number, Field.steady_scalar Scalar.steady_number,
    Field.steady_scalar Scalar.steady_number, Field.steady_scalar Scalar.steady_number,
    List.forall_mem_nil _⟩

theorem KeyValue.steady_codec : codec.Steady := by
  simp only [Codec.Steady, codec, List.forall_mem_cons]
  exact ⟨Field.steady_scalar Scalar.steady_bytes, Field.steady_scalar Scalar.steady_number,
    Field.steady_scalar Scalar.steady_number, Field.steady_scalar Scalar.steady_number,
    Field.steady_scalar Scalar.steady_bytes, Field.steady_scalar Scalar.steady_number,
    List.forall_mem_nil _⟩

theorem RangeResponse.steady_codec : codec.Steady := by
  simp only [Codec.Steady, codec, List.forall_mem_cons]
  exact ⟨Field.steady_optional Header.steady_codec, Field.steady_repeated KeyValue.steady_codec,
    Field.steady_scalar Scalar.steady_number, Field.steady_scalar Scalar.steady_number,
    List.forall_mem_nil _⟩

theorem PutResponse.steady_codec : codec.Steady := by
  simp only [Codec.Steady, codec, List.forall_mem_cons]
  exact ⟨Field.steady_optional Header.steady_codec, Field.steady_optional KeyValue.steady_codec,
    List.forall_mem_nil _⟩

theorem DeleteRangeResponse.steady_codec : codec.Steady := by
  simp only [Codec.Steady, codec, List.forall_mem_cons]
  exact ⟨Field.steady_optional Header.steady_codec, Field.steady_scalar Scalar.steady_number,
    Field.steady_repeated KeyValue.steady_codec, List.forall_mem_nil _⟩

/-- The field of an operation's response, and of the transaction that may stand in its place. -/
def ResponseOp.member : Wire.Field ResponseOp :=
  .choice OpResponse.members [4] ⟨response, fun v m => { m with response := v }⟩

theorem ResponseOp.steady_member : SteadyMerge member.merge := by
  apply Field.steady_choice
  simp only [OpResponse.members, List.forall_mem_cons]
  exact ⟨Member.steady_message RangeResponse.steady_codec,
    Member.steady_message PutResponse.steady_codec,
    Member.steady_message DeleteRangeResponse.steady_codec, List.forall_mem_nil _⟩

theorem ResponseOp.steady_codec : codec.Steady := by
  simp only [Codec.Steady, codec, List.forall_mem_cons]
  exact ⟨steady_member, List.forall_mem_nil _⟩

theorem TxnResponse.steady_codec : codec.Steady := by
  simp only [Codec.Steady, codec, List.forall_mem_cons]
  exact ⟨Field.steady_optional Header.steady_codec, Field.steady_scalar Scalar.steady_number,
    Field.steady_repeated ResponseOp.steady_codec, List.forall_mem_nil _⟩

/-- What the records of an operation say of its response. The tags are those of its message, and
the last of them is that of a transaction. -/
inductive Says (rs : List Record) : Option OpResponse → Prop
  | nothing (last : ∀ r, rs.getLast? = some r → r.tag = 4) : Says rs none
  | range {response : RangeResponse} (run : EndsIn 1 RangeResponse.codec rs response) :
      Says rs (some (.range response))
  | put {response : PutResponse} (run : EndsIn 2 PutResponse.codec rs response) :
      Says rs (some (.put response))
  | deleteRange {response : DeleteRangeResponse}
      (run : EndsIn 3 DeleteRangeResponse.codec rs response) :
      Says rs (some (.deleteRange response))

/-- The tag of the member that is set, and that of a transaction if none is. -/
def OpResponse.tagOf : Option OpResponse → Nat
  | some (range _) => 1
  | some (put _) => 2
  | some (deleteRange _) => 3
  | none => 4

def OpResponse.variants : List (Variant OpResponse) := [
  ⟨RangeResponse, 1, RangeResponse.codec, range, range?⟩,
  ⟨PutResponse, 2, PutResponse.codec, put, put?⟩,
  ⟨DeleteRangeResponse, 3, DeleteRangeResponse.codec, deleteRange, deleteRange?⟩]

theorem OpResponse.distinct_variants : Variant.Distinct variants := by
  refine ⟨by decide, ?_, ?_, ?_⟩ <;> simp only [variants, List.forall_mem_cons]
  · exact ⟨RangeResponse.steady_codec, PutResponse.steady_codec, DeleteRangeResponse.steady_codec,
      List.forall_mem_nil _⟩
  · exact ⟨fun _ => rfl, fun _ => rfl, fun _ => rfl, List.forall_mem_nil _⟩
  · simp [range?, put?, deleteRange?]

section

variable {rs : List Record} {r : Record} {old new : Option OpResponse}

theorem Says.tag_eq (h : Says rs old) (hlast : rs.getLast? = some r) :
    r.tag = OpResponse.tagOf old := by
  cases h with
  | nothing last => exact last r hlast
  | range run | put run | deleteRange run =>
      obtain ⟨last, heq, htag⟩ := run.last
      rw [heq] at hlast
      cases hlast
      exact htag

theorem says_merged (htags : ∀ r ∈ rs, r.tag ∈ [1, 2, 3, 4])
    (h : merged ResponseOp.member.merge none rs = .ok new) : Says rs new := by
  cases chosen_merged OpResponse.distinct_variants h with
  | nothing last =>
      refine .nothing fun r hr => ?_
      have htag := htags r (List.mem_of_getLast? hr)
      have hnone := last r hr
      simp only [OpResponse.variants, List.forall_mem_cons] at hnone
      simp only [List.mem_cons, List.not_mem_nil, or_false] at htag
      omega
  | run own ends =>
      simp only [OpResponse.variants, List.mem_cons, List.not_mem_nil, or_false] at own
      rcases own with rfl | rfl | rfl
      · exact .range ends
      · exact .put ends
      · exact .deleteRange ends

end

/-- The records of an operation that tell what its response is. -/
def ResponseOp.outline (r : Record) : Except Fault (List Record) :=
  r.content.bind fun s => (records s).map (tagged [1, 2, 3, 4])

/-- The records of a response that mean something. -/
structure TxnResponse.Outline where
  header : List Record
  succeeded : List Record
  ops : List (List Record)

def TxnResponse.outline (s : Bytes) : Except Fault Outline :=
  (records s).bind fun rs => ((tagged [3] rs).mapM ResponseOp.outline).map fun ops =>
    { header := tagged [1] rs, succeeded := tagged [2] rs, ops }

namespace TxnResponse

def headerField : Wire.Field TxnResponse :=
  .optional 1 Header.codec ⟨header, fun v m => { m with header := v }⟩

def succeededField : Wire.Field TxnResponse :=
  .scalar 2 .bool ⟨succeeded, fun v m => { m with succeeded := v }⟩

def responsesField : Wire.Field TxnResponse :=
  .repeated 3 ResponseOp.codec ⟨responses, fun v m => { m with responses := v }⟩

theorem fields_codec : codec.fields = [headerField, succeededField, responsesField] :=
  rfl

/-- The response is made of the records in the outline. -/
structure Outlined (o : Outline) (r : TxnResponse) : Prop where
  header : merged headerField.merge none o.header = .ok r.header
  succeeded : merged succeededField.merge false o.succeeded = .ok r.succeeded
  ops : List.Forall₂ (fun rs op => (∀ r ∈ rs, r.tag ∈ [1, 2, 3, 4]) ∧
    merged ResponseOp.member.merge none rs = .ok op.response) o.ops r.responses

theorem Outlined.unique {o : Outline} {r r' : TxnResponse} (h : Outlined o r)
    (h' : Outlined o r') : r = r' := by
  have hheader := Except.ok.inj (h.header.symm.trans h'.header)
  have hsucceeded := Except.ok.inj (h.succeeded.symm.trans h'.succeeded)
  have hops : r.responses = r'.responses := by
    refine List.right_unique_forall₂' ?_ h.ops h'.ops
    rintro rs ⟨response⟩ ⟨response'⟩ ⟨-, hresponse⟩ ⟨-, hresponse'⟩
    obtain rfl : response = response' := Except.ok.inj (hresponse.symm.trans hresponse')
    rfl
  cases r
  cases r'
  congr

end TxnResponse

theorem ResponseOp.outlined {rs : List Record} {op : ResponseOp}
    (h : merged codec.mergeField {} rs = .ok op) :
    merged member.merge none (tagged [1, 2, 3, 4] rs) = .ok op.response :=
  Codec.merged_single (f := member) (by decide) rfl
    ⟨fun _ _ => rfl, fun _ => rfl, fun _ _ _ => rfl⟩ h

theorem ResponseOp.mapM_outline {rs : List Record} {ops : List ResponseOp}
    (h : List.Forall₂ (fun r op => ∃ s inner, r.content = .ok s ∧ records s = .ok inner ∧
      merged codec.mergeField {} inner = .ok op) rs ops) :
    ∃ outlines, rs.mapM outline = .ok outlines ∧
      List.Forall₂ (fun rs op => (∀ r ∈ rs, r.tag ∈ [1, 2, 3, 4]) ∧
        merged member.merge none rs = .ok op.response) outlines ops := by
  induction h with
  | nil => exact ⟨[], rfl, .nil⟩
  | cons hop _ ih =>
      obtain ⟨s, inner, hs, hinner, hmerged⟩ := hop
      obtain ⟨outlines, hmapM, houtlines⟩ := ih
      have htags : ∀ r ∈ tagged [1, 2, 3, 4] inner, r.tag ∈ [1, 2, 3, 4] := fun r hr =>
        of_decide_eq_true (List.mem_filter.mp hr).2
      refine ⟨tagged [1, 2, 3, 4] inner :: outlines, ?_,
        .cons ⟨htags, outlined hmerged⟩ houtlines⟩
      have hfirst : outline _ = _ := bind_eq_ok.mpr ⟨s, hs, map_eq_ok.mpr ⟨inner, hinner, rfl⟩⟩
      rw [List.mapM_cons, hfirst, hmapM]
      rfl

theorem TxnResponse.merged_field {f : Wire.Field TxnResponse} (hf : f ∈ codec.fields)
    {rs : List Record} {r : TxnResponse} (h : merged codec.mergeField {} rs = .ok r) :
    merged f.merge (f.part.get {}) (tagged f.tags rs) = .ok (f.part.get r) := by
  refine Codec.merged_field (by decide) hf ?_ ?_ h
  · simp only [fields_codec, List.mem_cons, List.not_mem_nil, or_false] at hf
    rcases hf with rfl | rfl | rfl <;> exact ⟨fun _ _ => rfl, fun _ => rfl, fun _ _ _ => rfl⟩
  · intro g hg tag hown hother v m
    simp only [fields_codec, List.mem_cons, List.not_mem_nil, or_false] at hf hg
    rcases hf with rfl | rfl | rfl <;> rcases hg with rfl | rfl | rfl <;>
      first | rfl | exact absurd hown hother

theorem TxnResponse.outlined {s : Bytes} {r : TxnResponse} (h : codec.decode s = .ok r) :
    ∃ o, outline s = .ok o ∧ Outlined o r := by
  obtain ⟨rs, hrs, hmerged⟩ := steady_codec.decode_eq_ok.mp h
  have hheader : merged headerField.merge none (tagged [1] rs) = .ok r.header :=
    merged_field (f := headerField) (by simp [fields_codec]) hmerged
  have hsucceeded : merged succeededField.merge false (tagged [2] rs) = .ok r.succeeded :=
    merged_field (f := succeededField) (by simp [fields_codec]) hmerged
  have hresponses : merged responsesField.merge [] (tagged [3] rs) = .ok r.responses :=
    merged_field (f := responsesField) (by simp [fields_codec]) hmerged
  obtain ⟨ops, hops, hread⟩ := merged_repeated ResponseOp.steady_codec hresponses
  rw [List.nil_append] at hops
  subst hops
  obtain ⟨outlines, hmapM, houtlines⟩ := ResponseOp.mapM_outline hread
  refine ⟨{ header := tagged [1] rs, succeeded := tagged [2] rs, ops := outlines }, ?_,
    hheader, hsucceeded, houtlines⟩
  exact bind_eq_ok.mpr ⟨rs, hrs, map_eq_ok.mpr ⟨outlines, hmapM, rfl⟩⟩

/-- The last record of an operation that tells of a response is that of a transaction, or there is
none. -/
def Silent (rs : List Record) : Prop :=
  ∀ last, rs.getLast? = some last → last.tag = 4

/-- The result is what the last run of records holds. -/
inductive Tells (rs : List Record) : OperationResult → Prop
  | range {response : RangeResponse} (run : EndsIn 1 RangeResponse.codec rs response) :
      Tells rs (.range (.ofResponse response))
  | put {response : PutResponse} (run : EndsIn 2 PutResponse.codec rs response) :
      Tells rs (.put (.ofResponse response))
  | delete {response : DeleteRangeResponse} (run : EndsIn 3 DeleteRangeResponse.codec rs response) :
      Tells rs (.delete (.ofResponse response))

theorem Says.tells {rs : List Record} {response : OpResponse} (h : Says rs (some response)) :
    Tells rs (.ofResponse response) := by
  cases h with
  | range run => exact .range run
  | put run => exact .put run
  | deleteRange run => exact .delete run

theorem Says.not_silent {rs : List Record} {response : OpResponse} (h : Says rs (some response)) :
    ¬Silent rs := by
  have hlast : ∃ last, rs.getLast? = some last := by
    cases h with
    | range run | put run | deleteRange run =>
        obtain ⟨last, hlast, -⟩ := run.last
        exact ⟨last, hlast⟩
  intro hsilent
  obtain ⟨last, hlast⟩ := hlast
  have htag := h.tag_eq hlast
  rw [hsilent last hlast] at htag
  cases response <;> cases htag

theorem Says.silent {rs : List Record} (h : Says rs none) : Silent rs := by
  cases h with
  | nothing last => exact last

/-- The operation is the first one that says nothing. -/
def FirstSilent (ops : List (List Record)) (i : Nat) : Prop :=
  (∃ rs, ops[i]? = some rs ∧ Silent rs) ∧ ∀ j < i, ∀ rs, ops[j]? = some rs → ¬Silent rs

theorem FirstSilent.unique {ops : List (List Record)} {i j : Nat} (hi : FirstSilent ops i)
    (hj : FirstSilent ops j) : i = j := by
  have hle {i j : Nat} (hi : FirstSilent ops i) (hj : FirstSilent ops j) : i ≤ j := by
    apply Nat.le_of_not_lt
    intro hlt
    obtain ⟨rs, hrs, hsilent⟩ := hj.1
    exact hi.2 j hlt rs hrs hsilent
  exact Nat.le_antisymm (hle hi hj) (hle hj hi)

theorem FirstSilent.cons {rs : List Record} {ops : List (List Record)} {i : Nat}
    (hrs : ¬Silent rs) (h : FirstSilent ops i) : FirstSilent (rs :: ops) (i + 1) := by
  refine ⟨by simpa using h.1, fun j hj => ?_⟩
  cases j with
  | zero => simpa using hrs
  | succ j => simpa using h.2 j (Nat.lt_of_succ_lt_succ hj)

namespace TxnResult

def unrecognized (index : Nat) : Failure :=
  .protocolViolation s!"txn response op {index} has no recognized tag"

theorem unrecognized_injective : Function.Injective unrecognized := by
  intro i j h
  have htext : i.repr = j.repr := by
    simpa [toString] using Failure.protocolViolation.inj h
  have hdigits := congrArg String.toList htext
  rw [Nat.toList_repr, Nat.toList_repr] at hdigits
  rw [← Nat.ofDigitChars_ten_toDigits (n := i), hdigits, Nat.ofDigitChars_ten_toDigits]

theorem resultsFrom_of_says {ops : List (List Record)} {responses : List ResponseOp}
    (h : List.Forall₂ (fun rs op => Says rs op.response) ops responses) (index : Nat) :
    (∃ i, FirstSilent ops i ∧ resultsFrom index responses = .error (unrecognized (index + i))) ∨
      (∀ rs ∈ ops, ¬Silent rs) ∧
        ∃ results, resultsFrom index responses = .ok results ∧ List.Forall₂ Tells ops results := by
  induction h generalizing index with
  | nil => exact .inr ⟨nofun, [], rfl, .nil⟩
  | @cons rs op ops responses hop _ ih =>
      cases hresponse : op.response with
      | none =>
          rw [hresponse] at hop
          refine .inl ⟨0, ⟨⟨rs, rfl, hop.silent⟩, nofun⟩, ?_⟩
          rw [resultsFrom, hresponse]
          rfl
      | some response =>
          rw [hresponse] at hop
          rcases ih (index + 1) with ⟨i, hfirst, hresults⟩ | ⟨hnone, results, hresults, htells⟩
          · refine .inl ⟨i + 1, hfirst.cons hop.not_silent, ?_⟩
            rw [resultsFrom, hresponse]
            simp only [hresults]
            rw [Nat.add_assoc, Nat.add_comm 1]
          · refine .inr ⟨List.forall_mem_cons.mpr ⟨hop.not_silent, hnone⟩,
              .ofResponse response :: results, ?_, .cons hop.tells htells⟩
            rw [resultsFrom, hresponse]
            simp only [hresults]

/-- The result of a transaction says what the outline of its response says. -/
structure Reflects (o : TxnResponse.Outline) (r : TxnResponse) : Prop where
  unrecognized_iff : ∀ i, ofResponse r = .error (unrecognized i) ↔ FirstSilent o.ops i
  recognized : (∀ rs ∈ o.ops, ¬Silent rs) → ∃ results, ofResponse r = .ok
      { header := r.header.getD {}, succeeded := r.succeeded, results } ∧
    List.Forall₂ Tells o.ops results
  /-- A header that is absent is like an empty one. -/
  header : Holds Header.codec o.header (r.header.getD {})
  succeeded : o.succeeded = [] ∧ r.succeeded = false ∨ ∃ last n rest,
    o.succeeded.getLast? = some last ∧ Varint.decode last.payload = .ok (n, rest) ∧
      r.succeeded = (n != 0)

theorem ofResponse_of_says {ops : List (List Record)} {r : TxnResponse}
    (h : List.Forall₂ (fun rs op => Says rs op.response) ops r.responses) :
    (∃ i, FirstSilent ops i ∧ ofResponse r = .error (unrecognized i)) ∨
      (∀ rs ∈ ops, ¬Silent rs) ∧ ∃ results, ofResponse r = .ok
          { header := r.header.getD {}, succeeded := r.succeeded, results } ∧
        List.Forall₂ Tells ops results := by
  rw [ofResponse]
  rcases resultsFrom_of_says h 0 with ⟨i, hfirst, hresults⟩ | ⟨hnone, results, hresults, htells⟩
  · refine .inl ⟨i, hfirst, ?_⟩
    rw [hresults, Nat.zero_add]
  · refine .inr ⟨hnone, results, ?_, htells⟩
    rw [hresults]

theorem reflects_of_outlined {o : TxnResponse.Outline} {r : TxnResponse}
    (h : TxnResponse.Outlined o r) : Reflects o r := by
  have hsays : List.Forall₂ (fun rs op => Says rs op.response) o.ops r.responses :=
    h.ops.imp fun _ _ hop => says_merged hop.1 hop.2
  have hresult := ofResponse_of_says hsays
  refine ⟨fun i => ⟨fun herror => ?_, fun hfirst => ?_⟩, fun hnone => ?_,
    merged_optional Header.steady_codec h.header, ?_⟩
  · rcases hresult with ⟨j, hfirst, heq⟩ | ⟨-, results, heq, -⟩
    · rw [herror] at heq
      exact unrecognized_injective (Except.error.inj heq) ▸ hfirst
    · rw [herror] at heq
      cases heq
  · rcases hresult with ⟨j, hfirst', heq⟩ | ⟨hnone, -⟩
    · rw [heq, hfirst.unique hfirst']
    · obtain ⟨rs, hrs, hsilent⟩ := hfirst.1
      exact absurd hsilent (hnone rs (List.mem_of_getElem? hrs))
  · rcases hresult with ⟨i, hfirst, -⟩ | ⟨-, hresults⟩
    · obtain ⟨rs, hrs, hsilent⟩ := hfirst.1
      exact absurd hsilent (hnone rs (List.mem_of_getElem? hrs))
    · exact hresults
  · rcases merged_scalar h.succeeded with hnone | ⟨last, rest, hlast, hread⟩
    · exact .inl hnone
    · obtain ⟨⟨n, rest'⟩, hn, heq⟩ := map_eq_ok.mp hread
      exact .inr ⟨last, n, rest', hlast, hn, (Prod.mk.inj heq).1.symm⟩

/-- A response that can be read is reflected in its results, and the records that are not in its
outline have no part in them. -/
theorem received {s : Bytes} {r : TxnResponse} (h : TxnResponse.codec.decode s = .ok r) :
    ∃ o, TxnResponse.outline s = .ok o ∧ Reflects o r ∧
      ∀ s' r', TxnResponse.codec.decode s' = .ok r' → TxnResponse.outline s' = .ok o →
        ofResponse r' = ofResponse r := by
  obtain ⟨o, ho, houtlined⟩ := TxnResponse.outlined h
  refine ⟨o, ho, reflects_of_outlined houtlined, fun s' r' h' ho' => ?_⟩
  obtain ⟨o', ho'', houtlined'⟩ := TxnResponse.outlined h'
  obtain rfl := Except.ok.inj (ho''.symm.trans ho')
  rw [houtlined'.unique houtlined]

/-- An operation whose put is followed by a transaction and then by a delete in two pieces, with
unknown records between them, and an operation that ends with a transaction. -/
theorem received_of_switching_members :
    let s : Bytes := [72, 5, 16, 1, 26, 18, 18, 0, 34, 0, 56, 1, 26, 2, 16, 3, 56, 2, 26, 4, 10, 2,
      24, 7, 10, 2, 24, 9]
    let r : TxnResponse := {
      header := some { revision := 9 }, succeeded := true
      responses := [
        { response := some (.deleteRange { header := some { revision := 7 }, deleted := 3 }) }] }
    let s' : Bytes := [26, 2, 18, 0, 26, 4, 18, 0, 34, 0]
    let r' : TxnResponse := { responses := [{ response := some (.put {}) }, { response := none }] }
    (TxnResponse.codec.decode s = .ok r ∧ ∃ o, TxnResponse.outline s = .ok o ∧ Reflects o r ∧
      ∀ s' r', TxnResponse.codec.decode s' = .ok r' → TxnResponse.outline s' = .ok o →
        ofResponse r' = ofResponse r) ∧
      ofResponse r = .ok {
        header := { revision := 9 }, succeeded := true
        results := [.delete (.ofResponse { header := some { revision := 7 }, deleted := 3 })] } ∧
      (TxnResponse.codec.decode s' = .ok r' ∧ ∃ o, TxnResponse.outline s' = .ok o ∧ Reflects o r' ∧
        ∀ s r, TxnResponse.codec.decode s = .ok r → TxnResponse.outline s = .ok o →
          ofResponse r = ofResponse r') ∧
      ofResponse r' = .error (.protocolViolation "txn response op 1 has no recognized tag") := by
  intro s r s' r'
  have hs : TxnResponse.codec.decode s = .ok r := by rfl
  have hs' : TxnResponse.codec.decode s' = .ok r' := by rfl
  exact ⟨⟨hs, received hs⟩, rfl, ⟨hs', received hs'⟩, rfl⟩

end TxnResult

end Keyspace
