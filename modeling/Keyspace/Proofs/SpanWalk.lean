import Keyspace.Proofs.TableInvariants
import Keyspace.Store.Basic
import Mathlib.Data.List.Basic

namespace Keyspace

section

variable {α : Type} {p : α → Bool} {l : List α}

theorem filter_eq_dropWhile (hl : l.Pairwise fun a b => p a = true → p b = true) :
    l.filter p = l.dropWhile fun a => !p a := by
  induction l with
  | nil => rfl
  | cons a l ih =>
      obtain ⟨hhead, htail⟩ := List.pairwise_cons.mp hl
      cases ha : p a with
      | true =>
          have hall : ∀ b ∈ a :: l, p b = true :=
            List.forall_mem_cons.mpr ⟨ha, fun b hb => hhead b hb ha⟩
          rw [List.filter_eq_self.mpr hall, List.dropWhile_cons_of_neg (by simp [ha])]
      | false =>
          rw [List.filter_cons_of_neg (by simp [ha]), List.dropWhile_cons_of_pos (by simp [ha]),
            ih htail]

theorem filter_eq_takeWhile (hl : l.Pairwise fun a b => p b = true → p a = true) :
    l.filter p = l.takeWhile p := by
  induction l with
  | nil => rfl
  | cons a l ih =>
      obtain ⟨hhead, htail⟩ := List.pairwise_cons.mp hl
      cases ha : p a with
      | true => rw [List.filter_cons_of_pos ha, List.takeWhile_cons_of_pos ha, ih htail]
      | false =>
          have hnone : ∀ b ∈ a :: l, ¬p b = true := by
            refine List.forall_mem_cons.mpr ⟨by simp [ha], fun b hb hpb => ?_⟩
            simp [hhead b hb hpb] at ha
          rw [List.filter_eq_nil_iff.mpr hnone, List.takeWhile_cons_of_neg (by simp [ha])]

end

namespace Table

variable {t : Table}

theorem filter_eq_lookup (hordered : t.Ordered) (key : Bytes) :
    t.filter (fun p => p.1 = key) = (t.lookup key).toList.map (key, ·) := by
  induction t with
  | nil => rfl
  | cons p t ih =>
      obtain ⟨k, h⟩ := p
      obtain ⟨hhead, htail⟩ := List.pairwise_cons.mp hordered
      by_cases hkey : k = key
      · subst hkey
        have hrest : ∀ p ∈ t, ¬p.1 = k := fun p hp => (Std.ne_of_lt (hhead p hp)).symm
        simpa [List.filter_eq_nil_iff] using fun k' h' hp => hrest (k', h') hp
      · have hbeq : (key == k) = false := beq_eq_false_iff_ne.mpr (Ne.symm hkey)
        rw [List.filter_cons_of_neg (by simpa using hkey), List.lookup_cons, hbeq]
        exact ih htail

theorem filter_onward_eq (hordered : t.Ordered) (start : Bytes) :
    t.filter (fun p => start ≤ p.1) = t.dropWhile fun p => p.1 < start := by
  have hmono : t.Pairwise fun a b => decide (start ≤ a.1) = true → decide (start ≤ b.1) = true := by
    refine hordered.imp fun hlt hle => ?_
    exact decide_eq_true (Std.le_trans (of_decide_eq_true hle) (Std.le_of_lt hlt))
  rw [filter_eq_dropWhile hmono]
  congr 1
  funext p
  rw [← decide_not, decide_eq_decide]
  exact Std.not_le

theorem filter_below_eq (hordered : t.Ordered) (stop : Bytes) :
    t.filter (fun p => p.1 < stop) = t.takeWhile fun p => p.1 < stop := by
  apply filter_eq_takeWhile
  refine hordered.imp fun hlt hbelow => ?_
  exact decide_eq_true (Std.lt_trans hlt (of_decide_eq_true hbelow))

/-- A walk meets exactly the keys that the span covers, of all forms of it. -/
theorem walk_eq_filter (hordered : t.Ordered) (span : Span) :
    t.walk span = t.filter fun p => span.covers p.1 := by
  rw [walk]
  split
  · rename_i halone
    rw [← filter_eq_lookup hordered]
    simp [Span.covers, halone]
  · rename_i hend
    split
    · rename_i honward
      rw [← filter_onward_eq hordered]
      simp [Span.covers, honward]
    · rename_i hbounded
      split
      · -- Nothing is at or after the start and before an end that comes no later.
        rename_i hinverted
        refine (List.filter_eq_nil_iff.mpr fun p _ hcovers => ?_).symm
        have hbetween : span.start ≤ p.1 ∧ p.1 < span.stop := by
          simpa [Span.covers, hend, hbounded] using hcovers
        exact Std.not_lt.mpr hinverted (Std.lt_of_le_of_lt hbetween.1 hbetween.2)
      · have hsplit : (fun p : Bytes × History => span.covers p.1) =
            fun p => decide (p.1 < span.stop) && decide (span.start ≤ p.1) := by
          funext p
          simp [Span.covers, hend, hbounded, Bool.and_comm]
        rw [hsplit, ← List.filter_filter, filter_onward_eq hordered, filter_below_eq]
        exact hordered.sublist (List.dropWhile_sublist _)

theorem Indexed.liveAt_filter_key (ht : t.Indexed) (q : Int) (p : Bytes → Bool) :
    liveAt q (t.filter fun x => p x.1) = (t.liveAt q).filter fun l => p l.key := by
  rw [liveAt, List.filterMap_filter, liveAt, List.filter_filterMap]
  apply List.filterMap_congr
  intro x hx
  obtain ⟨k, h⟩ := x
  cases hl : h.liveAt? q with
  | none => simp [hl]
  | some l =>
      have hkey : l.key = k := by
        have hhistory : t.history k = h := history_of_mem ht.ordered hx
        rw [← hhistory] at hl
        exact ht.key_of_liveAt? hl
      simp [hl, Option.filter, hkey]

/-- What a walk finds is what is there of the keys that the span covers. -/
theorem Indexed.liveAt_walk (ht : t.Indexed) (span : Span) (q : Int) :
    (t.walk span).liveAt q = (t.liveAt q).filter fun l => span.covers l.key := by
  rw [walk_eq_filter ht.ordered, ht.liveAt_filter_key]

end Table

namespace Store

variable {s : Store}

theorem scan_eq (hs : s.table.Indexed) (span : Span) (q : Int) :
    s.scan span q = (s.liveAt q).filter fun l => span.covers l.key :=
  hs.liveAt_walk span q

theorem mem_scan_iff (hs : s.table.Indexed) {span : Span} {q : Int} {l : Live} :
    l ∈ s.scan span q ↔ l ∈ s.liveAt q ∧ span.covers l.key = true := by
  rw [scan_eq hs, List.mem_filter]

theorem pairwise_scan (hs : s.table.Indexed) (span : Span) (q : Int) :
    (s.scan span q).Pairwise fun a b => a.key < b.key := by
  rw [scan_eq hs]
  exact (hs.pairwise_liveAt q).filter _

theorem latest?_of_mem_scan (hs : s.table.Indexed) {span : Span} {l : Live}
    (hl : l ∈ s.scan span 0) : s.latest? l.key = some l :=
  hs.mem_liveAt.mp ((mem_scan_iff hs).mp hl).1

theorem exists_mem_scan_iff (hs : s.table.Indexed) (span : Span) (key : Bytes) :
    (∃ l ∈ s.scan span 0, l.key = key) ↔
      span.covers key = true ∧ (s.latest? key).isSome = true := by
  constructor
  · rintro ⟨l, hl, rfl⟩
    exact ⟨((mem_scan_iff hs).mp hl).2, Option.isSome_of_mem (latest?_of_mem_scan hs hl)⟩
  · rintro ⟨hcovers, hsome⟩
    obtain ⟨l, hl⟩ := Option.isSome_iff_exists.mp hsome
    obtain rfl : l.key = key := hs.key_of_liveAt? hl
    exact ⟨l, (mem_scan_iff hs).mpr ⟨hs.mem_liveAt.mpr hl, hcovers⟩, rfl⟩

end Store

end Keyspace
