import Keyspace.Proofs.BranchAdditions
import Keyspace.Proofs.KeyLineage
import Mathlib.Data.List.Pairwise

namespace Keyspace

theorem findSome?_eq_of_perm {α β : Type} {f : α → Option β} {l l' : List α} (hperm : l.Perm l')
    (hunique : ∀ a ∈ l, ∀ b ∈ l, ∀ x ∈ f a, ∀ y ∈ f b, x = y) :
    l.findSome? f = l'.findSome? f := by
  cases hfirst : l.findSome? f with
  | none =>
      rw [List.findSome?_eq_none_iff] at hfirst
      symm
      rw [List.findSome?_eq_none_iff]
      exact fun a ha => hfirst a (hperm.mem_iff.mpr ha)
  | some x =>
      obtain ⟨a, ha, hx⟩ := List.exists_of_findSome?_eq_some hfirst
      have hsome : (l'.findSome? f).isSome = true :=
        List.findSome?_isSome_iff.mpr ⟨a, hperm.mem_iff.mp ha, by simp [hx]⟩
      obtain ⟨y, hsecond⟩ := Option.isSome_iff_exists.mp hsome
      obtain ⟨b, hb, hy⟩ := List.exists_of_findSome?_eq_some hsecond
      rw [hsecond, hunique a ha b (hperm.mem_iff.mpr hb) x hx y hy]

/-- The comparisons of the transaction select the branch. -/
def TxnRequest.Runs (r : TxnRequest) (s : Store) (ops : List RequestOp) : Prop :=
  ∃ succeeded, s.evaluateAll r.compare = .ok succeeded ∧ r.branch succeeded = ops

namespace Store

variable {s : Store} {ops ops' : List RequestOp} {revision : Nat} {key : Bytes}

def WritesApart (a b : RequestOp) : Prop :=
  ∀ p q, a.request = some (.put p) → b.request = some (.put q) → p.key ≠ q.key

/-- The second operation does not delete what the first one writes. -/
def Spares (a b : RequestOp) : Prop :=
  ∀ p d, a.request = some (.put p) → b.request = some (.deleteRange d) →
    d.span.covers p.key = false

instance : Std.Symm WritesApart where
  symm _ _ hapart p q hp hq heq := hapart q p hq hp heq.symm

theorem writtenKey?_eq_some_iff {op : RequestOp} :
    writtenKey? op = some key ↔ ∃ p, op.request = some (.put p) ∧ p.key = key := by
  rw [writtenKey?]
  split <;> simp_all

theorem deletedSpan?_eq_some_iff {op : RequestOp} {span : Span} :
    deletedSpan? op = some span ↔ ∃ d, op.request = some (.deleteRange d) ∧ d.span = span := by
  rw [deletedSpan?]
  split <;> simp_all

theorem accepts_iff (s : Store) (ops : List RequestOp) :
    s.Accepts ops ↔ (∀ op ∈ ops, s.Valid op) ∧ ops.Pairwise WritesApart ∧
      ∀ a ∈ ops, ∀ b ∈ ops, Spares a b := by
  have hdistinct : (ops.filterMap writtenKey?).Nodup ↔ ops.Pairwise WritesApart := by
    rw [List.Nodup, List.pairwise_filterMap]
    simp only [writtenKey?_eq_some_iff]
    constructor
    · exact fun h => h.imp fun hne p q hp hq => hne _ ⟨p, hp, rfl⟩ _ ⟨q, hq, rfl⟩
    · refine fun h => h.imp ?_
      rintro a b hapart _ ⟨p, hp, rfl⟩ _ ⟨q, hq, rfl⟩
      exact hapart p q hp hq
  constructor
  · intro hops
    refine ⟨hops.valid, hdistinct.mp hops.distinct, fun a ha b hb p d hp hd => ?_⟩
    exact hops.apart p.key (mem_writtenKeys ha hp) d.span (mem_deletedSpans hb hd)
  · rintro ⟨hvalid, hpairs, hspares⟩
    refine ⟨hvalid, hdistinct.mpr hpairs, fun key hkey span hspan => ?_⟩
    obtain ⟨a, ha, hwritten⟩ := List.mem_filterMap.mp hkey
    obtain ⟨b, hb, hdeleted⟩ := List.mem_filterMap.mp hspan
    obtain ⟨p, hp, rfl⟩ := writtenKey?_eq_some_iff.mp hwritten
    obtain ⟨d, hd, rfl⟩ := deletedSpan?_eq_some_iff.mp hdeleted
    exact hspares a ha b hb p d hp hd

theorem Accepts.perm (hops : s.Accepts ops) (hperm : ops.Perm ops') : s.Accepts ops' where
  valid op hop := hops.valid op (hperm.mem_iff.mpr hop)
  distinct := (hperm.filterMap writtenKey?).nodup_iff.mp hops.distinct
  apart key hkey span hspan := by
    refine hops.apart key ?_ span ?_
    · exact (hperm.filterMap writtenKey?).mem_iff.mpr hkey
    · exact (hperm.filterMap deletedSpan?).mem_iff.mpr hspan

theorem Accepts.eq_of_put (hops : s.Accepts ops) {a b : RequestOp} (ha : a ∈ ops) (hb : b ∈ ops)
    {p q : PutRequest} (hput : a.request = some (.put p)) (hput' : b.request = some (.put q))
    (hkey : p.key = q.key) : a = b := by
  have hpairs := ((s.accepts_iff ops).mp hops).2.1
  apply Classical.byContradiction
  intro hne
  exact hpairs.forall ha hb hne p q hput hput' hkey

theorem Accepts.addition?_unique (hops : s.Accepts ops) {a b : RequestOp} (ha : a ∈ ops)
    (hb : b ∈ ops) {x y : Entry} (hx : s.addition? revision key a = some x)
    (hy : s.addition? revision key b = some y) : x = y := by
  have happart := ((s.accepts_iff ops).mp hops).2.2
  rcases addition?_eq_some_iff.mp hx with ⟨p, hput, rfl, -⟩ | ⟨d, hdelete, ⟨hcovers, -⟩, rfl⟩
  · rcases addition?_eq_some_iff.mp hy with ⟨q, hput', hkey, -⟩ | ⟨d, hdelete, ⟨hcovers, -⟩, -⟩
    · obtain rfl := hops.eq_of_put ha hb hput hput' hkey.symm
      exact Option.some.inj (hx.symm.trans hy)
    · simp [happart a ha b hb p d hput hdelete] at hcovers
  · rcases addition?_eq_some_iff.mp hy with ⟨q, hput, rfl, -⟩ | ⟨-, -, -, rfl⟩
    · simp [happart b hb a ha q d hput hdelete] at hcovers
    · rfl

theorem Accepts.added?_perm (hops : s.Accepts ops) (hperm : ops.Perm ops') (revision : Nat)
    (key : Bytes) : s.added? revision ops key = s.added? revision ops' key :=
  findSome?_eq_of_perm hperm fun _ ha _ hb _ hx _ hy => hops.addition?_unique ha hb hx hy

/-- A transaction that runs an accepted branch adds what the branch adds and answers each put with
what was there before. -/
theorem Accepts.txn_adds (hs : s.table.Indexed) (hops : s.Accepts ops) {r : TxnRequest}
    (hr : r.Runs s ops) :
    ∃ t wrote response, s.txn r = (s.commit t wrote, .ok response) ∧
      (∀ key, t.history key = s.table.history key ++ (s.added? (s.revision + 1) ops key).toList) ∧
      (wrote = true ↔ ∃ key, (s.added? (s.revision + 1) ops key).isSome = true) ∧
      ∀ (i : Nat) op p, ops[i]? = some op → op.request = some (.put p) →
        response.responses[i]? = some { response := some (.put
          { s.putAnswer p with header := some (s.commit t wrote).header }) } := by
  obtain ⟨succeeded, hcompare, rfl⟩ := hr
  obtain ⟨t, responses, wrote, hbranch, hhistory, hwrote, hanswers⟩ := hops.runBranch_adds hs
  have htxn := txn_of_compare hcompare
  rw [hbranch] at htxn
  refine ⟨t, wrote, _, htxn, hhistory, hwrote, fun i op p hop hput => ?_⟩
  rw [List.getElem?_map, List.getElem?_map, hanswers i op p hop hput]
  rfl

theorem table_of_txn (hs : s.Sound) (hlineal : s.table.Lineal s.compacted) {r : TxnRequest}
    {t : Table} {wrote : Bool} {response : TxnResponse}
    (htxn : s.txn r = (s.commit t wrote, .ok response)) : t.Ordered ∧ ∀ p ∈ t, p.2 ≠ [] := by
  have hstore : (s.serve (.txn r)).1 = s.commit t wrote := by rw [serve, htxn]
  have hsound := hs.serve (.txn r)
  have hkept := (change_serve hs (.txn r)).lineal hs hlineal
  rw [hstore] at hsound hkept
  rw [commit_table] at hkept
  have hordered := hsound.table.ordered
  rw [commit_table] at hordered
  exact ⟨hordered, fun p hp => (hkept p hp).2.ne_nil⟩

/-- Whether a branch is accepted does not depend on the order of its operations. If it is,
transactions that run it in either order end in the same store, and each put has the same answer. -/
theorem txn_reordered (requests : List Request) {ops ops' : List RequestOp}
    (hperm : ops.Perm ops') :
    ((empty.run requests).checkBranch ops = .ok () ↔
      (empty.run requests).checkBranch ops' = .ok ()) ∧
    ((empty.run requests).checkBranch ops = .ok () ↔
      (∀ op ∈ ops, (empty.run requests).Valid op) ∧ ops.Pairwise WritesApart ∧
        ∀ a ∈ ops, ∀ b ∈ ops, Spares a b) ∧
    ((empty.run requests).checkBranch ops = .ok () →
      ∀ r r' : TxnRequest, r.Runs (empty.run requests) ops → r'.Runs (empty.run requests) ops' →
        ∃ s' response response', (empty.run requests).txn r = (s', .ok response) ∧
          (empty.run requests).txn r' = (s', .ok response') ∧
          ∀ (i j : Nat) op p, ops[i]? = some op → ops'[j]? = some op →
            op.request = some (.put p) → ∃ x : PutResponse,
              x.prevKv = (if p.prevKv then
                ((empty.run requests).latest? p.key).map Live.toKeyValue else none) ∧
              response.responses[i]? = some { response := some (.put x) } ∧
              response'.responses[j]? = some { response := some (.put x) }) := by
  have hs : (empty.run requests).Sound := sound_empty.run requests
  have hlineal := lineal_run sound_empty (by simp [Table.Lineal, empty]) requests
  simp only [checkBranch_eq_ok_iff]
  refine ⟨⟨fun h => h.perm hperm, fun h => h.perm hperm.symm⟩, accepts_iff _ ops, ?_⟩
  intro hops r r' hr hr'
  have hadded := hops.added?_perm hperm ((empty.run requests).revision + 1)
  obtain ⟨t, wrote, response, htxn, hhistory, hwrote, hanswers⟩ :=
    hops.txn_adds hs.table.indexed hr
  obtain ⟨t', wrote', response', htxn', hhistory', hwrote', hanswers'⟩ :=
    (hops.perm hperm).txn_adds hs.table.indexed hr'
  obtain rfl : wrote = wrote' := by
    rw [Bool.eq_iff_iff, hwrote, hwrote']
    simp only [hadded]
  -- Both orders add the same to every key, and the histories of its keys make a table.
  obtain rfl : t = t' := by
    obtain ⟨hordered, hne⟩ := table_of_txn hs hlineal htxn
    obtain ⟨hordered', hne'⟩ := table_of_txn hs hlineal htxn'
    refine Table.eq_of_history_eq hordered hordered' hne hne' fun key => ?_
    rw [hhistory, hhistory', hadded]
  refine ⟨_, response, response', htxn, htxn', fun i j op p hop hop' hput => ?_⟩
  exact ⟨_, rfl, hanswers i op p hop hput, hanswers' j op p hop' hput⟩

/-- Two deletions that overlap, a write that keeps the value of a key, one to a new key, and a read,
in two orders. -/
theorem txn_reordered_of_overlapping_deletes :
    let requests : List Request :=
      [.put { key := [1] }, .put { key := [2] }, .put { key := [3], value := [7] }]
    let low : RequestOp := { request := some (.deleteRange { key := [1], rangeEnd := [3] }) }
    let one : RequestOp := { request := some (.deleteRange { key := [2] }) }
    let keep : RequestOp :=
      { request := some (.put { key := [3], ignoreValue := true, prevKv := true }) }
    let new : RequestOp := { request := some (.put { key := [4], prevKv := true }) }
    let all : RequestOp := { request := some (.range { key := [1], rangeEnd := [0] }) }
    [low, one, keep, new, all].Perm [all, new, keep, one, low] ∧
      (empty.run requests).checkBranch [low, one, keep, new, all] = .ok () ∧
      (empty.run requests).checkBranch [all, new, keep, one, low] = .ok () ∧
      ∃ s' response response',
        (empty.run requests).txn { success := [low, one, keep, new, all] } = (s', .ok response) ∧
        (empty.run requests).txn { success := [all, new, keep, one, low] } =
          (s', .ok response') := by
  intro requests low one keep new all
  have hperm : [low, one, keep, new, all].Perm [all, new, keep, one, low] :=
    (List.reverse_perm _).symm
  have hcheck : (empty.run requests).checkBranch [low, one, keep, new, all] = .ok () := by rfl
  obtain ⟨haccepted, -, htxn⟩ := txn_reordered requests hperm
  obtain ⟨s', response, response', hfirst, hsecond, -⟩ :=
    htxn hcheck { success := [low, one, keep, new, all] }
      { success := [all, new, keep, one, low] } ⟨true, rfl, rfl⟩ ⟨true, rfl, rfl⟩
  exact ⟨hperm, hcheck, haccepted.mp hcheck, s', response, response', hfirst, hsecond⟩

end Store

end Keyspace
