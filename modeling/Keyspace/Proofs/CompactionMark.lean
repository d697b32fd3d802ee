import Keyspace.Proofs.StoreInvariants

namespace Keyspace.Store

variable {s : Store} {r : Int} {requests : List Request}

/-- The revision of the compaction that a request is, if it is carried out. -/
def compaction? (s : Store) (request : Request) : Option Int :=
  match request, (s.serve request).2 with
  | .compact r, .ok _ => some r.revision.toInt
  | _, _ => none

/-- The revisions of the compactions that a run carries out, one after the other. -/
def compactions (s : Store) : List Request → List Int
  | [] => []
  | request :: requests =>
      (s.compaction? request).toList ++ (s.serve request).1.compactions requests

theorem compactions_append (s : Store) (past more : List Request) :
    s.compactions (past ++ more) = s.compactions past ++ (s.run past).compactions more := by
  induction past generalizing s with
  | nil => rfl
  | cons request past ih =>
      rw [List.cons_append, compactions, compactions, ih, run_cons, List.append_assoc]

theorem compaction?_cases (s : Store) (request : Request) :
    s.compaction? request = none ∧ (s.serve request).1.compacted = s.compacted ∨
      ∃ r, s.compaction? request = some r ∧ (s.serve request).1.compacted = r ∧
        (s.compacted ≤ 0 ∨ s.compacted < r) := by
  by_cases hcompact : ∃ x, request = .compact x
  · obtain ⟨x, rfl⟩ := hcompact
    rcases s.compact_cases x with ⟨refusal, hrefused⟩ | ⟨hforward, -, response, hdone⟩
    · left
      simp [compaction?, serve, hrefused, Except.map]
    · right
      simp [compaction?, serve, hdone, Except.map, hforward]
  · left
    have hother : ∀ x, request ≠ .compact x := fun x hx => hcompact ⟨x, hx⟩
    refine ⟨?_, compacted_serve hother⟩
    cases request with
    | compact x => exact absurd rfl (hother x)
    | _ => rfl

/-- The mark is the revision of the last compaction. -/
theorem compacted_run (s : Store) (requests : List Request) :
    (s.run requests).compacted = (s.compactions requests).getLastD s.compacted := by
  induction requests generalizing s with
  | nil => rfl
  | cons request requests ih =>
      rw [run_cons, ih, compactions]
      rcases s.compaction?_cases request with ⟨hnone, hmark⟩ | ⟨r, hsome, hmark, -⟩
      · rw [hnone, hmark]
        rfl
      · rw [hsome, hmark]
        exact (List.getLastD_cons ..).symm

theorem pairwise_compactions (s : Store) (requests : List Request) :
    (s.compacted :: s.compactions requests).Pairwise fun r r' => r ≤ 0 ∨ r < r' := by
  induction requests generalizing s with
  | nil => exact List.pairwise_singleton ..
  | cons request requests ih =>
      have hnext := ih (s.serve request).1
      rw [compactions]
      rcases s.compaction?_cases request with ⟨hnone, hmark⟩ | ⟨r, hsome, hmark, hforward⟩
      · rwa [hnone, ← hmark]
      · rw [hsome]
        rw [hmark] at hnext
        refine List.pairwise_cons.mpr ⟨fun r' hr' => ?_, hnext⟩
        rcases List.mem_cons.mp hr' with rfl | hlater
        · exact hforward
        · have hpassed := (List.pairwise_cons.mp hnext).1 r' hlater
          omega

theorem compacted_run_mem (s : Store) (requests : List Request) :
    (s.run requests).compacted ∈ s.compacted :: s.compactions requests := by
  rw [compacted_run]
  exact List.getLastD_mem_cons ..

theorem compacted_le_run (s : Store) (requests : List Request) :
    s.compacted ≤ 0 ∨ s.compacted ≤ (s.run requests).compacted := by
  rcases List.mem_cons.mp (s.compacted_run_mem requests) with hsame | hlater
  · exact .inr (Int.le_of_eq hsame.symm)
  · have hpassed := (List.pairwise_cons.mp (s.pairwise_compactions requests)).1 _ hlater
    omega

theorem compacted_run_nonneg (hs : 0 ≤ s.compacted) (hall : ∀ r ∈ s.compactions requests, 0 ≤ r) :
    0 ≤ (s.run requests).compacted := by
  rcases List.mem_cons.mp (s.compacted_run_mem requests) with hsame | hlater
  · omega
  · exact hall _ hlater

theorem le_compacted_run (hr : r ∈ s.compactions requests) (hpos : 0 < r) :
    r ≤ (s.run requests).compacted := by
  induction requests generalizing s with
  | nil => cases hr
  | cons request requests ih =>
      rw [compactions, List.mem_append, Option.mem_toList] at hr
      rcases hr with hnow | hlater
      · rcases s.compaction?_cases request with ⟨hnone, -⟩ | ⟨r', hsome, hmark, -⟩
        · rw [hnone] at hnow
          cases hnow
        · rw [hsome] at hnow
          cases hnow
          have hforward := (s.serve request).1.compacted_le_run requests
          rw [run_cons]
          omega
      · exact ih hlater

theorem compact_of_le {x : CompactionRequest} (hpos : 0 < s.compacted)
    (hle : x.revision.toInt ≤ s.compacted) :
    s.serve (.compact x) = (s, .error .compacted) := by
  rw [serve, compact]
  simp only [if_pos (And.intro hpos hle)]
  rfl

theorem compact_of_pos {x : CompactionRequest} (hpos : 0 < x.revision.toInt) :
    (∃ response, (s.serve (.compact x)).2 = .ok response) ↔
      s.compacted < x.revision.toInt ∧ x.revision.toInt ≤ (s.revision : Int) := by
  rw [serve, compact]
  by_cases hback : 0 < s.compacted ∧ x.revision.toInt ≤ s.compacted
  · simp only [if_pos hback, Except.map, reduceCtorEq, exists_false, false_iff]
    omega
  · by_cases hahead : (s.revision : Int) < x.revision.toInt
    · simp only [if_neg hback, if_pos hahead, Except.map, reduceCtorEq, exists_false, false_iff]
      omega
    · simp only [if_neg hback, if_neg hahead, Except.map, Except.ok.injEq, exists_eq', true_iff]
      omega

/-- The mark is the revision of the last compaction and not beyond that of the store. It never goes
back, once it is positive or as long as no compaction is at a negative revision. A compaction at a
positive revision is carried out if it goes beyond the mark, and one that does not go beyond an
earlier positive one is refused. -/
theorem compacted_forward (past more : List Request) :
    let s := empty.run past
    let t := empty.run (past ++ more)
    let all := empty.compactions (past ++ more)
    (t.compacted = all.getLastD 0 ∧ t.compacted ≤ (t.revision : Int)) ∧
      max 0 s.compacted ≤ max 0 t.compacted ∧
      ((∀ r ∈ all, 0 ≤ r) → 0 ≤ s.compacted ∧ s.compacted ≤ t.compacted) ∧
      all.Pairwise (fun r r' => r ≤ 0 ∨ r < r') ∧
      (∀ r ∈ empty.compactions past, 0 < r → ∀ x : CompactionRequest, x.revision.toInt ≤ r →
        ∃ refusal, t.serve (.compact x) = (t, .error refusal) ∧ refusal.code = .outOfRange) ∧
      ∀ x : CompactionRequest, 0 < x.revision.toInt →
        ((∃ response, (t.serve (.compact x)).2 = .ok response) ↔
          t.compacted < x.revision.toInt ∧ x.revision.toInt ≤ (t.revision : Int)) := by
  intro s t all
  have hforward : s.compacted ≤ 0 ∨ s.compacted ≤ t.compacted := by
    change s.compacted ≤ 0 ∨ s.compacted ≤ (empty.run (past ++ more)).compacted
    rw [run_append]
    exact s.compacted_le_run more
  have hmem : ∀ r ∈ empty.compactions past, r ∈ all := by
    intro r hr
    change r ∈ empty.compactions (past ++ more)
    rw [compactions_append]
    exact List.mem_append_left _ hr
  refine ⟨⟨empty.compacted_run _, (sound_empty.run _).compacted⟩, by omega, fun hall => ?_,
    (List.pairwise_cons.mp (empty.pairwise_compactions _)).2, fun r hr hpos x hx => ?_,
    fun x => compact_of_pos⟩
  · have hs : 0 ≤ s.compacted :=
      compacted_run_nonneg (Int.le_refl 0) fun r hr => hall r (hmem r hr)
    have ht : 0 ≤ t.compacted := compacted_run_nonneg (Int.le_refl 0) hall
    omega
  · have hreached : r ≤ t.compacted := le_compacted_run (hmem r hr) hpos
    exact ⟨.compacted, compact_of_le (by omega) (by omega), rfl⟩

/-- A compaction that is repeated after a later one is refused, and one beyond both is not. -/
theorem compacted_forward_of_repeated :
    let past : List Request := [.compact {}, .put { key := [1] }, .compact { revision := 2 }]
    let more : List Request := [.put { key := [1] }, .compact { revision := -1 },
      .compact { revision := 3 }, .put { key := [2] }]
    let t := empty.run (past ++ more)
    empty.compactions past = [0, 2] ∧ empty.compactions (past ++ more) = [0, 2, 3] ∧
      (0 ≤ (empty.run past).compacted ∧ (empty.run past).compacted ≤ t.compacted) ∧
      (∃ refusal, t.serve (.compact { revision := 2 }) = (t, .error refusal) ∧
        refusal.code = .outOfRange) ∧
      ∃ response, (t.serve (.compact { revision := 4 })).2 = .ok response := by
  intro past more t
  have hpast : empty.compactions past = [0, 2] := by rfl
  have hall : empty.compactions (past ++ more) = [0, 2, 3] := by rfl
  obtain ⟨-, -, hnonneg, -, hrefused, hdone⟩ := compacted_forward past more
  refine ⟨hpast, hall, hnonneg ?_, hrefused 2 ?_ (by decide) { revision := 2 } (by decide),
    (hdone { revision := 4 } (by decide)).mpr (by decide)⟩
  · rw [hall]
    decide
  · rw [hpast]
    decide

/-- A compaction at zero can be repeated, and one at a negative revision takes the mark back. -/
theorem compacted_back_of_nonpositive :
    let s := empty.run [.compact {}]
    let t := empty.run [.compact { revision := -5 }]
    empty.compactions [.compact {}, .compact {}] = [0, 0] ∧
      (¬∃ refusal, (s.serve (.compact {})).2 = .error refusal) ∧
      t.compacted = -5 ∧ (t.serve (.compact { revision := -7 })).1.compacted = -7 := by
  refine ⟨by rfl, ?_, by rfl, by rfl⟩
  rintro ⟨refusal, hrefused⟩
  cases hrefused

end Keyspace.Store
