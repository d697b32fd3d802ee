import Keyspace.Store.History

namespace Keyspace.History

variable {h : History} {q r : Int}

def upTo (revision : Int) (h : History) : History :=
  h.filter fun e => (e.revision : Int) ≤ revision

/-- The entries that are younger than a revision. -/
def after (revision : Int) (h : History) : History :=
  h.filter fun e => revision < (e.revision : Int)

def standing (h : History) : Option Entry :=
  h.getLast?.filter fun e => e.written.isSome

/-- The entry that stands for all that compaction forgets. There is one exactly
if the key was there at the revision. -/
def base (revision : Int) (h : History) : History :=
  (h.upTo revision).standing.toList

def Ordered (h : History) : Prop :=
  h.Pairwise fun a b => a.revision < b.revision

/-- The history of a key in a store that has come to a revision. The first
revision that writes is two, and no key is older than its entries. -/
structure Sound (revision : Nat) (h : History) : Prop where
  ordered : h.Ordered
  bounds : ∀ e ∈ h, 1 < e.revision ∧ e.revision ≤ revision
  created : ∀ e ∈ h, ∀ w ∈ e.written, w.created ≤ e.revision

theorem latest?_eq (h : History) : h.latest? = h.standing.bind Entry.written := by
  change h.getLast?.bind Entry.written = _
  rw [standing]
  cases h.getLast? with
  | none => rfl
  | some e => cases hw : e.written <;> simp [Option.filter, hw]

theorem liveAt?_of_nonpos (hq : q ≤ 0) : h.liveAt? q = h.latest? := by
  simp [latest?, liveAt?, entryAt?, hq]

theorem liveAt?_of_pos (hq : 0 < q) : h.liveAt? q = (h.upTo q).latest? := by
  have hnot : ¬q ≤ 0 := by omega
  rw [liveAt?, entryAt?, if_neg hnot]
  rfl

@[simp] theorem liveAt?_nil (q : Int) : liveAt? q [] = none := by
  simp [liveAt?, entryAt?]

@[simp] theorem latest?_concat (h : History) (e : Entry) : (h ++ [e]).latest? = e.written := by
  simp [latest?, liveAt?, entryAt?]

theorem mem_of_entryAt? {e : Entry} (he : h.entryAt? q = some e) : e ∈ h := by
  rw [entryAt?] at he
  split at he
  · exact List.mem_of_getLast? he
  · exact (List.mem_filter.mp (List.mem_of_getLast? he)).1

theorem exists_mem_of_liveAt? {l : Live} (hl : h.liveAt? q = some l) :
    ∃ e ∈ h, e.written = some l := by
  obtain ⟨e, he, hw⟩ := Option.bind_eq_some_iff.mp hl
  exact ⟨e, mem_of_entryAt? he, hw⟩

theorem upTo_append (q : Int) (g h : History) : (g ++ h).upTo q = g.upTo q ++ h.upTo q :=
  List.filter_append ..

theorem after_append (q : Int) (g h : History) : (g ++ h).after q = g.after q ++ h.after q :=
  List.filter_append ..

theorem upTo_eq_self (hh : ∀ e ∈ h, (e.revision : Int) ≤ q) : h.upTo q = h :=
  List.filter_eq_self.mpr fun e he => by simpa using hh e he

theorem upTo_eq_nil (hh : ∀ e ∈ h, q < (e.revision : Int)) : h.upTo q = [] :=
  List.filter_eq_nil_iff.mpr fun e he => by simpa using hh e he

theorem after_eq_self (hh : ∀ e ∈ h, q < (e.revision : Int)) : h.after q = h :=
  List.filter_eq_self.mpr fun e he => by simpa using hh e he

theorem after_eq_nil (hh : ∀ e ∈ h, (e.revision : Int) ≤ q) : h.after q = [] :=
  List.filter_eq_nil_iff.mpr fun e he => by simpa using hh e he

theorem standing_append_congr {g : History} (hstanding : g.standing = h.standing)
    (es : History) : (g ++ es).standing = (h ++ es).standing := by
  cases hes : es.getLast? with
  | none =>
      have hnil : es = [] := List.getLast?_eq_none_iff.mp hes
      simpa [hnil] using hstanding
  | some e => simp [standing, List.getLast?_append, hes]

theorem liveAt?_concat_of_lt {e : Entry} (hq : 0 < q) (he : q < (e.revision : Int)) :
    (h ++ [e]).liveAt? q = h.liveAt? q := by
  have hnil : upTo q [e] = [] := upTo_eq_nil (by simpa using he)
  rw [liveAt?_of_pos hq, liveAt?_of_pos hq, upTo_append, hnil, List.append_nil]

theorem liveAt?_eq_latest? (hq : 0 < q) (hh : ∀ e ∈ h, (e.revision : Int) ≤ q) :
    h.liveAt? q = h.latest? := by
  rw [liveAt?_of_pos hq, upTo_eq_self hh]

theorem upTo_append_after (hordered : h.Ordered) : h.upTo r ++ h.after r = h := by
  induction h with
  | nil => rfl
  | cons e h ih =>
      obtain ⟨hhead, htail⟩ := List.pairwise_cons.mp hordered
      by_cases he : (e.revision : Int) ≤ r
      · have hnot : ¬r < (e.revision : Int) := by omega
        have hsplit : upTo r h ++ after r h = h := ih htail
        simpa [upTo, after, he, hnot] using hsplit
      · have hyounger : ∀ x ∈ e :: h, r < (x.revision : Int) := by
          intro x hx
          rcases List.mem_cons.mp hx with rfl | hx
          · omega
          · have := hhead x hx
            omega
        rw [upTo_eq_nil hyounger, after_eq_self hyounger, List.nil_append]

theorem compact_eq (r : Int) (h : History) : h.compact r = h.base r ++ h.after r := by
  have hupTo : (h.filter fun e => (e.revision : Int) ≤ r) = h.upTo r := rfl
  have hafter : (h.filter fun e => r < (e.revision : Int)) = h.after r := rfl
  rw [compact, hupTo, hafter, base, standing]
  cases hlast : (h.upTo r).getLast? with
  | none =>
      have hnil : h.upTo r = [] := List.getLast?_eq_none_iff.mp hlast
      have hyounger : ∀ e ∈ h, r < (e.revision : Int) := by
        intro e he
        have := List.filter_eq_nil_iff.mp hnil e he
        simpa using this
      simp [after_eq_self hyounger]
  | some last => cases hw : last.written <;> simp [Option.filter, hw]

@[simp] theorem compact_nil (r : Int) : compact r [] = [] := rfl

theorem mem_base {e : Entry} (he : e ∈ h.base r) :
    e ∈ h.upTo r ∧ e.written.isSome = true := by
  rw [base, Option.mem_toList, standing, Option.filter_eq_some_iff] at he
  exact ⟨List.mem_of_getLast? he.1, he.2⟩

theorem le_of_mem_upTo {e : Entry} (he : e ∈ h.upTo r) : (e.revision : Int) ≤ r := by
  simpa using (List.mem_filter.mp he).2

theorem base_sublist (r : Int) (h : History) : (h.base r).Sublist (h.upTo r) := by
  rw [base, standing]
  cases hlast : (h.upTo r).getLast? with
  | none => simp
  | some last =>
      have hmem : last ∈ h.upTo r := List.mem_of_getLast? hlast
      cases hw : last.written <;> simp [Option.filter, hw, hmem]

theorem compact_sublist (hordered : h.Ordered) : (h.compact r).Sublist h := by
  have hsub := (base_sublist r h).append_right (h.after r)
  rwa [upTo_append_after hordered, ← compact_eq] at hsub

theorem isSome_or_lt_of_mem_compact {e : Entry} (he : e ∈ h.compact r) :
    e.written.isSome = true ∨ r < (e.revision : Int) := by
  rw [compact_eq, List.mem_append] at he
  rcases he with he | he
  · exact .inl (mem_base he).2
  · exact .inr (by simpa using (List.mem_filter.mp he).2)

theorem compact_eq_nil (hh : ∀ e ∈ h, e.written = none ∧ (e.revision : Int) ≤ r) :
    h.compact r = [] := by
  rw [compact_eq, after_eq_nil fun e he => (hh e he).2, List.append_nil]
  apply List.eq_nil_iff_forall_not_mem.mpr
  intro e he
  obtain ⟨hmem, hw⟩ := mem_base he
  simp [(hh e (List.mem_filter.mp hmem).1).1] at hw

theorem compact_concat {e : Entry} (he : r < (e.revision : Int)) :
    (h ++ [e]).compact r = h.compact r ++ [e] := by
  have hupTo : upTo r [e] = [] := upTo_eq_nil (by simpa using he)
  have hafter : after r [e] = [e] := after_eq_self (by simpa using he)
  rw [compact_eq, compact_eq, base, upTo_append, hupTo, List.append_nil, after_append, hafter,
    ← List.append_assoc]
  rfl

theorem standing_base (r : Int) (h : History) : (h.base r).standing = (h.upTo r).standing := by
  rw [base]
  cases hstanding : (h.upTo r).standing with
  | none => rfl
  | some e =>
      have hw : e.written.isSome = true := (Option.filter_eq_some_iff.mp hstanding).2
      simp [standing, Option.filter, hw]

theorem upTo_after (q r : Int) (h : History) : (h.after r).upTo q = (h.upTo q).after r := by
  simp only [upTo, after, List.filter_filter]
  congr 1
  funext e
  exact Bool.and_comm ..

theorem upTo_upTo (hle : r ≤ q) : (h.upTo q).upTo r = h.upTo r := by
  simp only [upTo, List.filter_filter]
  congr 1
  funext e
  by_cases he : (e.revision : Int) ≤ r
  · have : (e.revision : Int) ≤ q := by omega
    simp [he, this]
  · simp [he]

theorem standing_upTo_compact (hordered : h.Ordered) (hle : r ≤ q) :
    ((h.compact r).upTo q).standing = (h.upTo q).standing := by
  have hbase : (h.base r).upTo q = h.base r := by
    apply upTo_eq_self
    intro e he
    have := le_of_mem_upTo (mem_base he).1
    omega
  have hupTo : (h.upTo q).Ordered := hordered.sublist List.filter_sublist
  calc ((h.compact r).upTo q).standing
      = (h.base r ++ (h.upTo q).after r).standing := by
        rw [compact_eq, upTo_append, hbase, upTo_after]
    _ = ((h.upTo q).upTo r ++ (h.upTo q).after r).standing := by
        rw [upTo_upTo hle]
        exact standing_append_congr (standing_base r h) _
    _ = (h.upTo q).standing := by rw [upTo_append_after hupTo]

theorem latest?_compact (hordered : h.Ordered) :
    (h.compact r).latest? = h.latest? := by
  rw [latest?_eq, latest?_eq, compact_eq, standing_append_congr (standing_base r h),
    upTo_append_after hordered]

/-- Compaction leaves untouched what is read at its revision or later. -/
theorem liveAt?_compact (hordered : h.Ordered) (hq : q ≤ 0 ∨ r ≤ q) :
    (h.compact r).liveAt? q = h.liveAt? q := by
  by_cases hpos : 0 < q
  · have hle : r ≤ q := by omega
    rw [liveAt?_of_pos hpos, liveAt?_of_pos hpos, latest?_eq, latest?_eq,
      standing_upTo_compact hordered hle]
  · have hnonpos : q ≤ 0 := by omega
    rw [liveAt?_of_nonpos hnonpos, liveAt?_of_nonpos hnonpos, latest?_compact hordered]

theorem compact_compact (hordered : h.Ordered) (hle : r ≤ q) :
    (h.compact r).compact q = h.compact q := by
  have hbase : (h.base r).after q = [] := by
    apply after_eq_nil
    intro e he
    have := le_of_mem_upTo (mem_base he).1
    omega
  have hafter : (h.after r).after q = h.after q := by
    simp only [after, List.filter_filter]
    congr 1
    funext e
    by_cases he : q < (e.revision : Int)
    · have : r < (e.revision : Int) := by omega
      simp [he, this]
    · simp [he]
  rw [compact_eq q (h.compact r), base, standing_upTo_compact hordered hle, compact_eq q h, base,
    compact_eq r h, after_append, hbase, hafter, List.nil_append]

namespace Sound

theorem nil (n : Nat) : Sound n [] where
  ordered := List.Pairwise.nil
  bounds := by simp
  created := by simp

theorem mono {m n : Nat} (hh : h.Sound m) (hle : m ≤ n) : h.Sound n where
  ordered := hh.ordered
  bounds e he := ⟨(hh.bounds e he).1, Nat.le_trans (hh.bounds e he).2 hle⟩
  created := hh.created

theorem sublist {n : Nat} {g : History} (hh : h.Sound n) (hsub : g.Sublist h) : g.Sound n where
  ordered := hh.ordered.sublist hsub
  bounds e he := hh.bounds e (hsub.mem he)
  created e he := hh.created e (hsub.mem he)

theorem concat {n : Nat} {e : Entry} (hh : h.Sound n) (hlt : ∀ x ∈ h, x.revision < e.revision)
    (hbounds : 1 < e.revision ∧ e.revision ≤ n)
    (hcreated : ∀ w ∈ e.written, w.created ≤ e.revision) : Sound n (h ++ [e]) where
  ordered := List.pairwise_append.mpr
    ⟨hh.ordered, List.pairwise_singleton .., fun x hx y hy => by
      rw [List.mem_singleton.mp hy]
      exact hlt x hx⟩
  bounds x hx := by
    rcases List.mem_append.mp hx with hx | hx
    · exact hh.bounds x hx
    · rwa [List.mem_singleton.mp hx]
  created x hx := by
    rcases List.mem_append.mp hx with hx | hx
    · exact hh.created x hx
    · rwa [List.mem_singleton.mp hx]

end Sound

end Keyspace.History
