import Keyspace.Proofs.CompactedStore
import Keyspace.Proofs.PastReads
import Keyspace.Snapshot.Feed

namespace Keyspace.Store

variable {s s' : Store} {r : Int}

/-- What is asked of a store. -/
inductive Query
  | request (request : Request)
  | snapshot

/-- What a store answers, to be sent as it is or piece by piece. -/
inductive Report
  | response (answer : Except Refusal Response)
  | snapshot (feed : Snapshot.Feed)

def Report.unsized : Report → Report
  | response (.ok (.status x)) => response (.ok (.status { x with dbSize := 0 }))
  | report => report

/-- Nothing is read before a revision, and compacted only after it. -/
def Query.Above (r : Int) : Query → Prop
  | request (.range x) => ¬x.ReadsBelow r
  | request (.txn x) => BranchAbove r (x.success ++ x.failure)
  | request (.compact x) => r < x.revision.toInt
  | _ => True

def ask (s : Store) : Query → Store × Report
  | .request x => let (s', answer) := s.serve x; (s', .response answer)
  | .snapshot => (s, .snapshot (Snapshot.Feed.ofStore s))

/-- The answers to queries that are asked one after the other. -/
def reports (s : Store) : List Query → List Report
  | [] => []
  | query :: queries => (s.ask query).2 :: (s.ask query).1.reports queries

/-- The second store is the first one after a compaction at a revision. A
compaction of both at a later one makes them the same. -/
inductive Compacted (r : Int) (s : Store) : Store → Prop
  | same : Compacted r s s
  | forgetful (sound : s.Sound) (reached : r ≤ (s.revision : Int))
      (forward : s.compacted ≤ 0 ∨ s.compacted < r) : Compacted r s (s.forget r)

theorem Sound.behind (hs : s.Sound) (hreached : r ≤ (s.revision : Int))
    (hforward : s.compacted ≤ 0 ∨ s.compacted < r) : s.Behind r where
  table := hs.table.mono (Nat.le_succ _)
  reached := hreached
  positive := hs.positive
  forward := hforward

/-- What is asked of both stores is answered alike, but for the size, and they
differ afterwards as they did before. -/
theorem Behind.serve_forget (hs : s.Behind r) (hsound : s.Sound) {request : Request}
    (hrequest : ∀ x, request ≠ .compact x) (habove : (Query.request request).Above r) :
    ((s.forget r).serve request).1 = (s.serve request).1.forget r ∧
      (Report.response ((s.forget r).serve request).2).unsized =
        (Report.response (s.serve request).2).unsized := by
  cases request with
  | range x =>
      rw [serve, serve, hs.range_forget habove]
      exact ⟨rfl, rfl⟩
  | put x =>
      rw [serve, serve, hs.put_forget]
      exact ⟨rfl, rfl⟩
  | deleteRange x =>
      rw [serve, serve, hs.deleteRange_forget]
      exact ⟨rfl, rfl⟩
  | txn x =>
      rw [serve, serve, hs.txn_forget hsound habove]
      exact ⟨rfl, rfl⟩
  | compact x => exact absurd rfl (hrequest x)
  | status x => exact ⟨rfl, rfl⟩
  | defragment x =>
      rw [serve, serve, hs.defragment_forget]
      exact ⟨rfl, rfl⟩
  | alarm x =>
      rw [serve, serve, alarm_forget]
      exact ⟨rfl, rfl⟩

theorem Behind.snapshot_forget (hs : s.Behind r) :
    Snapshot.Feed.ofStore (s.forget r) = Snapshot.Feed.ofStore s := by
  have hlive : (s.forget r).live = s.live := hs.liveAt_forget (.inl (Int.le_refl 0))
  have hsnapshot : (s.forget r).snapshot = s.snapshot := by
    rw [snapshot, snapshot, size, size, hlive]
    rfl
  rw [Snapshot.Feed.ofStore, Snapshot.Feed.ofStore, hsnapshot]
  rfl

theorem Compacted.ask (hcompacted : s.Compacted r s') {query : Query} (habove : query.Above r) :
    (s.ask query).1.Compacted r (s'.ask query).1 ∧
      (s'.ask query).2.unsized = (s.ask query).2.unsized := by
  cases hcompacted with
  | same => exact ⟨.same, rfl⟩
  | forgetful sound reached forward =>
      have hbehind := sound.behind reached forward
      cases query with
      | snapshot =>
          rw [Store.ask, Store.ask, hbehind.snapshot_forget]
          exact ⟨.forgetful sound reached forward, rfl⟩
      | request request =>
          by_cases hcompact : ∃ x, request = .compact x
          · obtain ⟨x, rfl⟩ := hcompact
            rcases hbehind.compact_forget habove with ⟨refusal, hrefused, hrefused'⟩ | hsame
            · rw [Store.ask, Store.ask, serve, serve, hrefused, hrefused']
              exact ⟨.forgetful sound reached forward, rfl⟩
            · rw [Store.ask, Store.ask, serve, serve, hsame]
              exact ⟨.same, rfl⟩
          · have hother : ∀ x, request ≠ .compact x := fun x hx => hcompact ⟨x, hx⟩
            obtain ⟨hstore, hreport⟩ := hbehind.serve_forget sound hother habove
            refine ⟨?_, hreport⟩
            change (s.serve request).1.Compacted r ((s.forget r).serve request).1
            rw [hstore]
            refine .forgetful (sound.serve request) ?_ ?_
            · have := (change_serve sound request).revision_le.1
              omega
            · rwa [compacted_serve hother]

theorem Compacted.reports (hcompacted : s.Compacted r s') {queries : List Query}
    (habove : ∀ query ∈ queries, query.Above r) :
    (s'.reports queries).map Report.unsized = (s.reports queries).map Report.unsized := by
  induction queries generalizing s s' with
  | nil => rfl
  | cons query queries ih =>
      obtain ⟨hhead, htail⟩ := List.forall_mem_cons.mp habove
      obtain ⟨hnext, hreport⟩ := hcompacted.ask hhead
      rw [Store.reports, Store.reports, List.map_cons, List.map_cons, hreport, ih hnext htail]

theorem range_refused_of_readsBelow {x : RangeRequest} (hs : s.Sound) (hx : x.ReadsBelow r)
    (hcompacted : r ≤ s.compacted) (later : List Request) :
    (s.run later).range x = .error .compacted := by
  obtain ⟨hpos, hbelow⟩ := hx
  have hpast : x.revision.toInt < (s.run later).compacted := by
    apply Int.not_le.mp
    intro hkept
    have := compacted_le_of_run hs hpos hkept
    omega
  rw [range, checkRange, checkReadable, if_pos ⟨hpos, hpast⟩]

/-- A compaction makes no difference to what is asked afterwards, unless it is
read or compacted before its revision. What is read there is refused from then on,
and what is read at the revision itself is answered as before. -/
theorem compact_invisible (requests : List Request) (r : CompactionRequest) {s' : Store}
    {response : CompactionResponse}
    (hcompact : (empty.run requests).compact r = (s', .ok response)) :
    (∀ queries : List Query, (∀ query ∈ queries, query.Above r.revision.toInt) →
      (s'.reports queries).map Report.unsized =
        ((empty.run requests).reports queries).map Report.unsized) ∧
      (∀ (later : List Request) (x : RangeRequest), x.ReadsBelow r.revision.toInt →
        ∃ refusal, (s'.run later).range x = .error refusal ∧ refusal.code = .outOfRange) ∧
      ∀ x : RangeRequest, x.revision = r.revision → s'.range x = (empty.run requests).range x := by
  have hs : (empty.run requests).Sound := sound_empty.run requests
  rcases (empty.run requests).compact_cases r with
    ⟨refusal, hrefused⟩ | ⟨hforward, hreached, response', hdone⟩
  · simp [hrefused] at hcompact
  · rw [hdone] at hcompact
    have hstore : s' = (empty.run requests).forget r.revision.toInt :=
      (Prod.mk.inj hcompact).1.symm
    subst hstore
    refine ⟨?_, ?_, ?_⟩
    · intro queries habove
      exact (Compacted.forgetful hs hreached hforward).reports habove
    · intro later x hx
      have hs' : ((empty.run requests).forget r.revision.toInt).Sound :=
        (Change.compact r.revision.toInt hforward hreached).sound hs
      exact ⟨.compacted, range_refused_of_readsBelow hs' hx (Int.le_refl _) later, rfl⟩
    · intro x hx
      apply (hs.behind hreached hforward).range_forget
      rw [RangeRequest.ReadsBelow, hx]
      omega

/-- A deletion that stands at the revision of a compaction is forgotten, and
the key is created anew in both stores alike. -/
theorem compact_invisible_of_deleted_key :
    let requests : List Request := [.put { key := [1], value := [7] }, .put { key := [2] },
      .deleteRange { key := [1] }]
    let queries : List Query := [.request (.put { key := [1], prevKv := true }),
      .request (.range { key := [1], rangeEnd := [0], revision := 4 }),
      .request (.compact { revision := 5 }), .request (.status {}), .snapshot]
    let s := empty.run requests
    let s' := (s.compact { revision := 4 }).1
    (∃ response, s.compact { revision := 4 } = (s', .ok response)) ∧
      s'.table.map Prod.fst = [[2]] ∧
      (∀ query ∈ queries, query.Above 4) ∧
      (s'.reports queries).map Report.unsized = (s.reports queries).map Report.unsized ∧
      RangeRequest.ReadsBelow 4 { key := [1], revision := 3 } ∧
      (∃ refusal, s'.range { key := [1], revision := 3 } = .error refusal ∧
        refusal.code = .outOfRange) ∧
      s'.range { key := [1], revision := 4 } = s.range { key := [1], revision := 4 } := by
  intro requests queries s s'
  have hdone : ∃ response, s.compact { revision := 4 } = (s', .ok response) := ⟨_, rfl⟩
  have habove : ∀ query ∈ queries, query.Above 4 := by
    simp [queries, Query.Above, RangeRequest.ReadsBelow]
  have hbelow : RangeRequest.ReadsBelow 4 { key := [1], revision := 3 } := by
    simp [RangeRequest.ReadsBelow]
  obtain ⟨response, hcompact⟩ := hdone
  obtain ⟨hreports, hpast, hnow⟩ := compact_invisible requests { revision := 4 } hcompact
  exact ⟨⟨response, hcompact⟩, by decide, habove, hreports queries habove, hbelow,
    hpast [] _ hbelow, hnow _ rfl⟩

end Keyspace.Store
