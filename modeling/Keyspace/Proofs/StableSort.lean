namespace Keyspace

open List

variable {α : Type} {le : α → α → Bool} (htrans : ∀ a b c, le a b → le b c → le a c)
  (htotal : ∀ a b, le a b || le b a)

include htrans htotal

theorem mergeSort_cons_eq (a : α) (l : List α) :
    (a :: l).mergeSort le =
      (l.mergeSort le).filter (fun b => !le a b) ++ a :: (l.mergeSort le).filter (le a) := by
  obtain ⟨l₁, l₂, hcons, hl, hbefore⟩ := mergeSort_cons htrans htotal a l
  have hsorted := pairwise_mergeSort htrans htotal (a :: l)
  rw [hcons] at hsorted
  have hafter : ∀ b ∈ l₂, le a b = true :=
    (pairwise_cons.mp (pairwise_append.mp hsorted).2.1).1
  have h₁ : l₁.filter (fun b => !le a b) = l₁ := filter_eq_self.mpr hbefore
  have h₂ : l₂.filter (fun b => !le a b) = [] := by
    simpa [filter_eq_nil_iff] using hafter
  have h₁' : l₁.filter (le a) = [] := by
    simpa [filter_eq_nil_iff] using hbefore
  have h₂' : l₂.filter (le a) = l₂ := filter_eq_self.mpr hafter
  rw [hcons, hl, filter_append, filter_append, h₁, h₂, h₁', h₂', append_nil, nil_append]

theorem filter_mergeSort (p : α → Bool) (l : List α) :
    (l.mergeSort le).filter p = (l.filter p).mergeSort le := by
  induction l with
  | nil => simp
  | cons a l ih =>
      by_cases ha : p a = true
      · rw [mergeSort_cons_eq htrans htotal, filter_append, filter_cons_of_pos ha,
          filter_cons_of_pos ha, mergeSort_cons_eq htrans htotal, ← ih]
        simp only [filter_filter, Bool.and_comm]
      · obtain ⟨l₁, l₂, hcons, hl, -⟩ := mergeSort_cons htrans htotal a l
        rw [filter_cons_of_neg ha, ← ih, hcons, hl, filter_append, filter_append,
          filter_cons_of_neg ha]

theorem pairwise_mergeSort_stable {r : α → α → Prop} {l : List α} (hl : l.Pairwise r) :
    (l.mergeSort le).Pairwise fun a b => le a b ∧ (le b a → r a b) := by
  induction hl with
  | nil => simp
  | @cons a l hhead _ ih =>
      rw [mergeSort_cons_eq htrans htotal, pairwise_append, pairwise_cons]
      refine ⟨ih.filter _, ⟨?_, ih.filter _⟩, ?_⟩
      · intro c hc
        obtain ⟨hc, hac⟩ := mem_filter.mp hc
        exact ⟨hac, fun _ => hhead c (mem_mergeSort.mp hc)⟩
      · intro b hb c hc
        have hab : le a b = false := by simpa using (mem_filter.mp hb).2
        have hba : le b a = true := by simpa [hab] using htotal a b
        have hac : le a c = true := by
          rcases mem_cons.mp hc with rfl | hc
          · simpa using htotal c c
          · exact (mem_filter.mp hc).2
        refine ⟨htrans b a c hba hac, fun hcb => ?_⟩
        rw [htrans a c b hac hcb] at hab
        cases hab

end Keyspace
