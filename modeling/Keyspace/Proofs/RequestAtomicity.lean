import Keyspace.Proofs.StoreInvariants

namespace Keyspace.Store

variable {s : Store}

theorem Accepts.runOp_after (hs : s.table.Indexed) {done rest : List RequestOp} {op : RequestOp}
    (hops : s.Accepts (done ++ op :: rest)) (revision : Nat) :
    ∃ s' responses wrote request answer,
      s.runOps revision done = (s', .ok (responses, wrote)) ∧ op.request = some request ∧
        (s'.runOp revision request).2 = .ok answer := by
  obtain ⟨t, responses, wrote, hdone, -, ht, hrest⟩ := hops.runOps_append hs revision
  obtain ⟨request, t', response, wrote', hrequest, hop, -⟩ := hrest.runOp ht revision
  exact ⟨_, responses, wrote, request, (response, wrote'), hdone, hrequest, by rw [hop]⟩

/-- A refused request leaves the whole store as it was. No operation of a
branch that was accepted fails, whatever those before it did, so that a
transaction with such a branch succeeds. -/
theorem serve_atomic (requests : List Request) :
    let s := empty.run requests
    (∀ request refusal, (s.serve request).2 = .error refusal → (s.serve request).1 = s) ∧
      (∀ done op rest, s.checkBranch (done ++ op :: rest) = .ok () →
        ∃ s' responses wrote request answer,
          s.runOps (s.revision + 1) done = (s', .ok (responses, wrote)) ∧
            op.request = some request ∧ (s'.runOp (s.revision + 1) request).2 = .ok answer) ∧
      ∀ (r : TxnRequest) (succeeded : Bool), s.evaluateAll r.compare = .ok succeeded →
        s.checkBranch (r.branch succeeded) = .ok () →
          ∃ response, (s.txn r).2 = .ok response := by
  intro s
  have hs : s.table.Indexed := (sound_empty.run requests).table.indexed
  refine ⟨?_, ?_, ?_⟩
  · intro request refusal hrefused
    exact serve_of_refused hs hrefused
  · intro done op rest hcheck
    exact ((checkBranch_eq_ok_iff s _).mp hcheck).runOp_after hs (s.revision + 1)
  · intro r succeeded hcompare hcheck
    have hops := (checkBranch_eq_ok_iff s _).mp hcheck
    obtain ⟨t, responses, wrote, -, htxn⟩ := hops.txn hs hcompare
    rw [htxn]
    exact ⟨_, rfl⟩

/-- A transaction whose second write keeps the value of a key that is not
there does not write the first either. One that deletes a key before it keeps the
value of another succeeds. -/
theorem serve_atomic_of_missing_key :
    let requests : List Request :=
      [.put { key := [1], value := [7] }, .put { key := [2], value := [8] }]
    let s := empty.run requests
    let first : RequestOp := { request := some (.deleteRange { key := [1] }) }
    let keep (key : Bytes) : RequestOp :=
      { request := some (.put { key, ignoreValue := true, lease := 5 }) }
    (s.serve (.txn { success := [first, keep [3]] })).2 = .error .keyNotFound ∧
      (s.serve (.txn { success := [first, keep [3]] })).1 = s ∧
      s.checkBranch [first, keep [2]] = .ok () ∧
      (∃ s' responses wrote request answer,
        s.runOps (s.revision + 1) [first] = (s', .ok (responses, wrote)) ∧
          (keep [2]).request = some request ∧
            (s'.runOp (s.revision + 1) request).2 = .ok answer) ∧
      ∃ response, (s.txn { success := [first, keep [2]] }).2 = .ok response := by
  intro requests s first keep
  have hrefused : (s.serve (.txn { success := [first, keep [3]] })).2 = .error .keyNotFound :=
    rfl
  have hcheck : s.checkBranch [first, keep [2]] = .ok () := rfl
  obtain ⟨hsame, hbranch, htxn⟩ := serve_atomic requests
  exact ⟨hrefused, hsame _ _ hrefused, hcheck, hbranch [first] (keep [2]) [] hcheck,
    htxn { success := [first, keep [2]] } true rfl hcheck⟩

end Keyspace.Store
