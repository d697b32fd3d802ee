import Keyspace.Proofs.HistoryReads
import Keyspace.Store.Table

namespace Keyspace

/-- What was written names the key that it stands under, and the revision. -/
def Entry.Filed (key : Bytes) (e : Entry) : Prop :=
  ∀ l ∈ e.written, l.key = key ∧ l.modified = e.revision

namespace Table

variable {t : Table} {key : Bytes} {e : Entry} {q : Int} {f : History → History}

/-- The keys stand in ascending order, each of them once. -/
def Ordered (t : Table) : Prop :=
  t.Pairwise fun a b => a.1 < b.1

/-- The keys are in order, and what was written to a key names it. -/
structure Indexed (t : Table) : Prop where
  ordered : t.Ordered
  filed : ∀ p ∈ t, ∀ e ∈ p.2, e.Filed p.1

/-- The table of a store that has come to a revision. -/
structure Sound (revision : Nat) (t : Table) : Prop where
  indexed : t.Indexed
  histories : ∀ p ∈ t, p.2.Sound revision

theorem Sound.ordered {n : Nat} (ht : t.Sound n) : t.Ordered :=
  ht.indexed.ordered

@[simp] theorem history_nil (key : Bytes) : history [] key = [] := rfl

theorem history_cons (k : Bytes) (h : History) (t : Table) (key : Bytes) :
    history ((k, h) :: t) key = if key = k then h else t.history key := by
  by_cases hkey : key = k
  · simp [history, hkey]
  · have hbeq : (key == k) = false := beq_eq_false_iff_ne.mpr hkey
    simp [history, List.lookup_cons, hbeq, hkey]

theorem history_eq_nil (hkey : ∀ p ∈ t, p.1 ≠ key) : t.history key = [] := by
  induction t with
  | nil => rfl
  | cons p t ih =>
      obtain ⟨hhead, htail⟩ := List.forall_mem_cons.mp hkey
      rw [history_cons, if_neg (Ne.symm hhead), ih htail]

theorem history_eq_nil_or_mem (t : Table) (key : Bytes) :
    t.history key = [] ∨ (key, t.history key) ∈ t := by
  induction t with
  | nil => exact .inl rfl
  | cons p t ih =>
      obtain ⟨k, h⟩ := p
      rw [history_cons]
      split
      · rename_i hkey
        exact .inr (by simp [hkey])
      · exact ih.imp_right (List.mem_cons_of_mem _)

theorem history_of_mem (hordered : t.Ordered) {p : Bytes × History} (hp : p ∈ t) :
    t.history p.1 = p.2 := by
  induction t with
  | nil => simp at hp
  | cons p' t ih =>
      obtain ⟨hhead, htail⟩ := List.pairwise_cons.mp hordered
      rw [history_cons]
      rcases List.mem_cons.mp hp with rfl | hp
      · rw [if_pos rfl]
      · rw [if_neg (Std.ne_of_lt (hhead p hp)).symm, ih htail hp]

theorem Sound.history {n : Nat} (ht : t.Sound n) (key : Bytes) : (t.history key).Sound n := by
  rcases history_eq_nil_or_mem t key with hnil | hmem
  · rw [hnil]
    exact .nil n
  · exact ht.histories _ hmem

theorem Sound.mono {m n : Nat} (ht : t.Sound m) (hle : m ≤ n) : t.Sound n where
  indexed := ht.indexed
  histories p hp := (ht.histories p hp).mono hle

theorem key_of_mem_push {p : Bytes × History} (hp : p ∈ t.push key e) :
    p.1 = key ∨ ∃ p' ∈ t, p'.1 = p.1 := by
  induction t with
  | nil => exact .inl (by simp_all [push])
  | cons p' t ih =>
      obtain ⟨k, h⟩ := p'
      rw [push] at hp
      split at hp
      · rcases List.mem_cons.mp hp with rfl | hp
        · exact .inl rfl
        · exact .inr ⟨p, hp, rfl⟩
      · split at hp
        · rcases List.mem_cons.mp hp with rfl | hp
          · exact .inr ⟨(k, h), by simp, rfl⟩
          · exact .inr ⟨p, List.mem_cons_of_mem _ hp, rfl⟩
        · rcases List.mem_cons.mp hp with rfl | hp
          · exact .inr ⟨(k, h), by simp, rfl⟩
          · rcases ih hp with hkey | ⟨p', hp', hkey⟩
            · exact .inl hkey
            · exact .inr ⟨p', List.mem_cons_of_mem _ hp', hkey⟩

theorem ordered_push (hordered : t.Ordered) (key : Bytes) (e : Entry) :
    (t.push key e).Ordered := by
  induction t with
  | nil => exact List.pairwise_singleton ..
  | cons p t ih =>
      obtain ⟨k, h⟩ := p
      obtain ⟨hhead, htail⟩ := List.pairwise_cons.mp hordered
      rw [push]
      split
      · rename_i hlt
        refine List.pairwise_cons.mpr ⟨?_, hordered⟩
        intro p hp
        rcases List.mem_cons.mp hp with rfl | hp
        · exact hlt
        · exact Std.lt_trans hlt (hhead p hp)
      · split
        · exact List.pairwise_cons.mpr ⟨hhead, htail⟩
        · rename_i hnot hne
          refine List.pairwise_cons.mpr ⟨?_, ih htail⟩
          intro p hp
          rcases key_of_mem_push hp with hkey | ⟨p', hp', hkey⟩
          · rw [hkey]
            exact Std.lt_of_le_of_ne (Std.not_lt.mp hnot) (Ne.symm hne)
          · rw [← hkey]
            exact hhead p' hp'

theorem history_push_of_ne (t : Table) (e : Entry) {k : Bytes} (hne : k ≠ key) :
    (t.push key e).history k = t.history k := by
  induction t with
  | nil => simp [push, history_cons, hne]
  | cons p t ih =>
      obtain ⟨k', h⟩ := p
      rw [push]
      split
      · rw [history_cons, if_neg hne]
      · split
        · rename_i hkey
          subst hkey
          rw [history_cons, history_cons, if_neg hne, if_neg hne]
        · rw [history_cons, history_cons, ih]

theorem history_push_self (hordered : t.Ordered) (key : Bytes) (e : Entry) :
    (t.push key e).history key = t.history key ++ [e] := by
  induction t with
  | nil => simp [push, history_cons]
  | cons p t ih =>
      obtain ⟨k, h⟩ := p
      obtain ⟨hhead, htail⟩ := List.pairwise_cons.mp hordered
      rw [push]
      split
      · rename_i hlt
        have hnil : history ((k, h) :: t) key = [] := by
          apply history_eq_nil
          intro p hp
          rcases List.mem_cons.mp hp with rfl | hp
          · exact (Std.ne_of_lt hlt).symm
          · exact (Std.ne_of_lt (Std.lt_trans hlt (hhead p hp))).symm
        rw [hnil, history_cons, if_pos rfl, List.nil_append]
      · split
        · rename_i hkey
          rw [history_cons, history_cons, if_pos hkey, if_pos hkey]
        · rename_i hne
          rw [history_cons, history_cons, if_neg hne, if_neg hne, ih htail]

theorem history_push (hordered : t.Ordered) (key : Bytes) (e : Entry) (k : Bytes) :
    (t.push key e).history k = if k = key then t.history key ++ [e] else t.history k := by
  split
  · rename_i heq
    rw [heq, history_push_self hordered]
  · rename_i hne
    exact history_push_of_ne t e hne

theorem Indexed.history (ht : t.Indexed) (key : Bytes) : ∀ e ∈ t.history key, e.Filed key := by
  rcases history_eq_nil_or_mem t key with hnil | hmem
  · simp [hnil]
  · exact ht.filed _ hmem

theorem Indexed.push (ht : t.Indexed) (he : e.Filed key) : (t.push key e).Indexed where
  ordered := ordered_push ht.ordered key e
  filed p hp := by
    rw [← history_of_mem (ordered_push ht.ordered key e) hp, history_push ht.ordered]
    split
    · rename_i hkey
      rw [hkey, List.forall_mem_append, List.forall_mem_singleton]
      exact ⟨ht.history key, he⟩
    · exact ht.history p.1

theorem latest?_push_of_ne (t : Table) (e : Entry) {k : Bytes} (hne : k ≠ key) :
    (t.push key e).latest? k = t.latest? k := by
  rw [latest?, latest?, history_push_of_ne t e hne]

theorem latest?_push_self (hordered : t.Ordered) (key : Bytes) (e : Entry) :
    (t.push key e).latest? key = e.written := by
  rw [latest?, history_push_self hordered, History.latest?_concat]

theorem Sound.push {n : Nat} (ht : t.Sound n) (he : e.Filed key)
    (hfresh : ∀ x ∈ t.history key, x.revision < e.revision)
    (hbounds : 1 < e.revision ∧ e.revision ≤ n)
    (hcreated : ∀ l ∈ e.written, l.created ≤ e.revision) : (t.push key e).Sound n where
  indexed := ht.indexed.push he
  histories p hp := by
    rw [← history_of_mem (ordered_push ht.ordered key e) hp, history_push ht.ordered]
    split
    · exact (ht.history key).concat hfresh hbounds hcreated
    · exact ht.history p.1

theorem extend_cons (key : Bytes) (e : Entry) (k : Bytes) (h : History) (t : Table) :
    extend key e ((k, h) :: t) = (k, if k = key then h ++ [e] else h) :: extend key e t := rfl

theorem extend_eq_self (hkey : ∀ p ∈ t, p.1 ≠ key) (e : Entry) : t.extend key e = t := by
  induction t with
  | nil => rfl
  | cons p t ih =>
      obtain ⟨hhead, htail⟩ := List.forall_mem_cons.mp hkey
      rw [extend_cons, if_neg hhead, ih htail]

theorem extend_eq_push (hordered : t.Ordered) (hkey : t.history key ≠ []) (e : Entry) :
    t.extend key e = t.push key e := by
  induction t with
  | nil => exact absurd rfl hkey
  | cons p t ih =>
      obtain ⟨k, h⟩ := p
      obtain ⟨hhead, htail⟩ := List.pairwise_cons.mp hordered
      rw [history_cons] at hkey
      rw [push, extend_cons]
      by_cases hlt : key < k
      · have hyounger : ∀ p ∈ t, p.1 ≠ key := fun p hp =>
          (Std.ne_of_lt (Std.lt_trans hlt (hhead p hp))).symm
        rw [if_neg (Std.ne_of_lt hlt), history_eq_nil hyounger] at hkey
        exact absurd rfl hkey
      · rw [if_neg hlt]
        by_cases heq : key = k
        · subst heq
          have hrest : ∀ p ∈ t, p.1 ≠ key := fun p hp => (Std.ne_of_lt (hhead p hp)).symm
          rw [if_pos rfl, if_pos rfl, extend_eq_self hrest]
        · rw [if_neg heq] at hkey
          rw [if_neg heq, if_neg (Ne.symm heq), ih htail hkey]

theorem liveAt_cons (q : Int) (k : Bytes) (h : History) (t : Table) :
    liveAt q ((k, h) :: t) = (h.liveAt? q).toList ++ t.liveAt q := by
  rw [liveAt, List.filterMap_cons]
  cases hl : h.liveAt? q <;> simp [hl, liveAt]

theorem liveAt_congr {q' : Int}
    (ht : ∀ p ∈ t, p.2.liveAt? q = p.2.liveAt? q') : t.liveAt q = t.liveAt q' := by
  induction t with
  | nil => rfl
  | cons p t ih =>
      obtain ⟨hhead, htail⟩ := List.forall_mem_cons.mp ht
      rw [liveAt_cons, liveAt_cons, hhead, ih htail]

theorem liveAt_push_of_lt (t : Table) (key : Bytes) (hq : 0 < q) (he : q < (e.revision : Int)) :
    (t.push key e).liveAt q = t.liveAt q := by
  have hnew : History.liveAt? q [e] = none := by
    rw [← List.nil_append [e], History.liveAt?_concat_of_lt hq he, History.liveAt?_nil]
  induction t with
  | nil => simp [push, liveAt_cons, hnew]
  | cons p t ih =>
      obtain ⟨k, h⟩ := p
      rw [push]
      split
      · rw [liveAt_cons, hnew]
        rfl
      · split
        · rw [liveAt_cons, liveAt_cons, History.liveAt?_concat_of_lt hq he]
        · rw [liveAt_cons, liveAt_cons, ih]

theorem Indexed.key_of_liveAt? (ht : t.Indexed) {l : Live}
    (hl : (t.history key).liveAt? q = some l) : l.key = key := by
  obtain ⟨e, he, hw⟩ := History.exists_mem_of_liveAt? hl
  exact (ht.history key e he l hw).1

theorem Indexed.mem_liveAt (ht : t.Indexed) {l : Live} :
    l ∈ t.liveAt q ↔ (t.history l.key).liveAt? q = some l := by
  rw [liveAt, List.mem_filterMap]
  constructor
  · rintro ⟨p, hp, hl⟩
    change p.2.liveAt? q = some l at hl
    rw [← history_of_mem ht.ordered hp] at hl
    rwa [ht.key_of_liveAt? hl]
  · intro hl
    rcases history_eq_nil_or_mem t l.key with hnil | hmem
    · simp [hnil] at hl
    · exact ⟨_, hmem, hl⟩

theorem Indexed.pairwise_liveAt (ht : t.Indexed) (q : Int) :
    (t.liveAt q).Pairwise fun a b => a.key < b.key := by
  have hkey : ∀ p ∈ t, ∀ l ∈ p.2.liveAt? q, l.key = p.1 := by
    intro p hp l hl
    rw [← history_of_mem ht.ordered hp] at hl
    exact ht.key_of_liveAt? hl
  refine List.pairwise_filterMap.mpr (ht.ordered.imp_of_mem ?_)
  intro p p' hp hp' hlt l hl l' hl'
  rw [hkey p hp l hl, hkey p' hp' l' hl']
  exact hlt

theorem mapHistories_cons (f : History → History) (k : Bytes) (h : History) (t : Table) :
    mapHistories f ((k, h) :: t) =
      if f h = [] then t.mapHistories f else (k, f h) :: t.mapHistories f := by
  rw [mapHistories, List.map_cons, List.filter_cons]
  by_cases hnil : f h = [] <;> simp [hnil, mapHistories]

theorem mem_mapHistories {p : Bytes × History} (hp : p ∈ t.mapHistories f) :
    ∃ h, (p.1, h) ∈ t ∧ p.2 = f h := by
  obtain ⟨hmem, -⟩ := List.mem_filter.mp hp
  obtain ⟨p', hp', rfl⟩ := List.mem_map.mp hmem
  exact ⟨p'.2, hp', rfl⟩

theorem ordered_mapHistories (hordered : t.Ordered) (f : History → History) :
    (t.mapHistories f).Ordered := by
  have hmap : (t.map fun p => (p.1, f p.2)).Pairwise fun a b => a.1 < b.1 :=
    List.pairwise_map.mpr hordered
  exact hmap.filter _

theorem Sound.mapHistories {n : Nat} (ht : t.Sound n)
    (hf : ∀ h : History, h.Sound n → (f h).Sublist h) : (t.mapHistories f).Sound n where
  indexed := {
    ordered := ordered_mapHistories ht.ordered f
    filed p hp e he := by
      obtain ⟨h, hmem, heq⟩ := mem_mapHistories hp
      rw [heq] at he
      exact ht.indexed.filed _ hmem e ((hf h (ht.histories _ hmem)).mem he) }
  histories p hp := by
    obtain ⟨h, hmem, heq⟩ := mem_mapHistories hp
    rw [heq]
    exact (ht.histories _ hmem).sublist (hf h (ht.histories _ hmem))

theorem Sound.filter {n : Nat} (ht : t.Sound n) (keep : Bytes × History → Bool) :
    Sound n (t.filter keep) where
  indexed := {
    ordered := ht.ordered.filter keep
    filed p hp := ht.indexed.filed p (List.mem_filter.mp hp).1 }
  histories p hp := ht.histories p (List.mem_filter.mp hp).1

theorem history_mapHistories (hordered : t.Ordered) (hnil : f [] = []) (key : Bytes) :
    (t.mapHistories f).history key = f (t.history key) := by
  induction t with
  | nil => exact hnil.symm
  | cons p t ih =>
      obtain ⟨k, h⟩ := p
      obtain ⟨hhead, htail⟩ := List.pairwise_cons.mp hordered
      rw [mapHistories_cons, history_cons]
      by_cases hkey : key = k
      · rw [if_pos hkey]
        split
        · rename_i hempty
          rw [hempty]
          apply history_eq_nil
          intro p hp
          obtain ⟨h', hmem, -⟩ := mem_mapHistories hp
          rw [hkey]
          exact (Std.ne_of_lt (hhead _ hmem)).symm
        · rw [history_cons, if_pos hkey]
      · rw [if_neg hkey]
        split
        · exact ih htail
        · rw [history_cons, if_neg hkey, ih htail]

theorem liveAt_mapHistories
    (hf : ∀ p ∈ t, (f p.2).liveAt? q = p.2.liveAt? q) :
    (t.mapHistories f).liveAt q = t.liveAt q := by
  induction t with
  | nil => rfl
  | cons p t ih =>
      obtain ⟨k, h⟩ := p
      obtain ⟨hhead, htail⟩ := List.forall_mem_cons.mp hf
      rw [mapHistories_cons, liveAt_cons, ← hhead, ← ih htail]
      split
      · rename_i hempty
        simp [hempty]
      · rw [liveAt_cons]

theorem liveAt_filter {keep : Bytes × History → Bool}
    (hkeep : ∀ p ∈ t, keep p = false → p.2.liveAt? q = none) :
    liveAt q (t.filter keep) = t.liveAt q := by
  induction t with
  | nil => rfl
  | cons p t ih =>
      obtain ⟨hhead, htail⟩ := List.forall_mem_cons.mp hkeep
      rw [liveAt_cons, ← ih htail, List.filter_cons]
      cases hp : keep p with
      | true => exact liveAt_cons ..
      | false => simp [hhead hp]

theorem push_of_forall_lt (e : Entry) (hlt : ∀ p ∈ t, key < p.1) :
    t.push key e = (key, [e]) :: t := by
  cases t with
  | nil => rfl
  | cons p t => rw [push, if_pos (hlt p List.mem_cons_self)]

theorem mapHistories_push (hordered : t.Ordered) (hnil : f [] = [])
    (hf : ∀ h : History, f (h ++ [e]) = f h ++ [e]) (key : Bytes) :
    (t.push key e).mapHistories f = (t.mapHistories f).push key e := by
  have hnew : f [e] = [e] := by
    have := hf []
    rwa [List.nil_append, hnil, List.nil_append] at this
  induction t with
  | nil => simp [push, mapHistories, hnew]
  | cons p t ih =>
      obtain ⟨k, h⟩ := p
      obtain ⟨hhead, htail⟩ := List.pairwise_cons.mp hordered
      have hyounger : ∀ p ∈ mapHistories f t, k < p.1 := by
        intro p hp
        obtain ⟨h', hmem, -⟩ := mem_mapHistories hp
        exact hhead (p.1, h') hmem
      rw [push]
      split
      · rename_i hlt
        rw [mapHistories_cons, hnew, if_neg (List.cons_ne_nil e []), push_of_forall_lt]
        intro p hp
        obtain ⟨h', hmem, -⟩ := mem_mapHistories hp
        rcases List.mem_cons.mp hmem with heq | hmem
        · rw [(Prod.mk.inj heq).1]
          exact hlt
        · exact Std.lt_trans hlt (hhead (p.1, h') hmem)
      · rename_i hnot
        split
        · rename_i hkey
          subst hkey
          rw [mapHistories_cons, mapHistories_cons, hf, if_neg (by simp)]
          split
          · rename_i hempty
            rw [hempty, push_of_forall_lt e hyounger, List.nil_append]
          · rw [push, if_neg hnot, if_pos rfl]
        · rename_i hne
          rw [mapHistories_cons, mapHistories_cons, ih htail]
          split
          · rfl
          · rw [push, if_neg hnot, if_neg hne]

theorem mapHistories_mapHistories {g : History → History} (hnil : g [] = []) (t : Table) :
    (t.mapHistories f).mapHistories g = t.mapHistories (g ∘ f) := by
  induction t with
  | nil => rfl
  | cons p t ih =>
      obtain ⟨k, h⟩ := p
      rw [mapHistories_cons, mapHistories_cons]
      by_cases hempty : f h = []
      · simp [hempty, hnil, ih]
      · rw [if_neg hempty, mapHistories_cons, ih]
        rfl

theorem mapHistories_filter {keep : Bytes × History → Bool}
    (hkeep : ∀ p ∈ t, keep p = false → f p.2 = []) :
    mapHistories f (t.filter keep) = t.mapHistories f := by
  induction t with
  | nil => rfl
  | cons p t ih =>
      obtain ⟨hhead, htail⟩ := List.forall_mem_cons.mp hkeep
      rw [List.filter_cons]
      cases hp : keep p with
      | true =>
          rw [if_pos rfl, mapHistories_cons, mapHistories_cons, ih htail]
      | false =>
          rw [if_neg Bool.false_ne_true, mapHistories_cons, if_pos (hhead hp), ih htail]

theorem mapHistories_congr {g : History → History} (hfg : ∀ p ∈ t, f p.2 = g p.2) :
    t.mapHistories f = t.mapHistories g := by
  rw [mapHistories, mapHistories]
  congr 1
  apply List.map_congr_left
  intro p hp
  exact congrArg (Prod.mk p.1) (hfg p hp)

end Table

end Keyspace
