import Keyspace.Proofs.StoreInvariants
import Mathlib.Data.List.Chain

/-!
The lives of keys. A key is created, written to again and deleted, in this order and as often as one
likes, and its history tells so entry by entry. Compaction cuts a history only where what is left
still starts with a value, so that there is never anything for defragmentation to drop.
-/

namespace Keyspace

/-- The entry may come after a key was left as given. A key that is there is written to again or
deleted, and one that is not there is created. -/
def Entry.Continues (e : Entry) (prev : Option Live) : Prop :=
  match prev, e.written with
  | some old, some new => new.created = old.created ∧ new.version = old.version + 1
  | some _, none => True
  | none, some new => new.created = e.revision ∧ new.version = 1
  | none, none => False

/-- The version of a value is not above the number of revisions since its key was created. -/
def Entry.Counted (e : Entry) : Prop :=
  ∀ w ∈ e.written, 1 ≤ w.version ∧ (w.version : Int) ≤ e.revision - w.created + 1

theorem PutRequest.entry_continues (r : PutRequest) (revision : Nat) (prev : Option Live) :
    (r.entry revision prev).Continues prev := by
  cases prev with
  | none => exact ⟨rfl, rfl⟩
  | some prev => exact ⟨rfl, rfl⟩

theorem Entry.deletion_continues (revision : Nat) (l : Live) :
    (deletion revision).Continues (some l) :=
  trivial

theorem Entry.Continues.isSome {e : Entry} (he : e.Continues none) : e.written.isSome = true := by
  cases hw : e.written with
  | some w => rfl
  | none =>
      simp only [Continues, hw] at he

theorem Entry.Continues.counted {e : Entry} {prev : Option Live} (he : e.Continues prev)
    {n : Nat} (hlt : n < e.revision)
    (hprev : ∀ w ∈ prev, 1 ≤ w.version ∧ (w.version : Int) ≤ n - w.created + 1) : e.Counted := by
  intro new hnew
  cases prev with
  | none =>
      simp only [Continues, Option.mem_def.mp hnew] at he
      obtain ⟨hcreated, hversion⟩ := he
      omega
  | some old =>
      simp only [Continues, Option.mem_def.mp hnew] at he
      obtain ⟨hcreated, hversion⟩ := he
      have hold := hprev old rfl
      omega

namespace History

variable {h : History} {compacted r : Int}

theorem latest?_of_getLast? {e : Entry} (he : h.getLast? = some e) : h.latest? = e.written := by
  change h.getLast?.bind Entry.written = _
  rw [he, Option.bind_some]

theorem entryAt?_of_mem {e : Entry} (hh : h.Ordered) (he : e ∈ h) (hpos : 0 < e.revision) :
    h.entryAt? e.revision = some e := by
  obtain ⟨before, later, rfl⟩ := List.append_of_mem he
  obtain ⟨-, hsuffix, -⟩ := List.pairwise_append.mp hh
  have hlater : later.filter (fun x => (x.revision : Int) ≤ e.revision) = [] := by
    apply List.filter_eq_nil_iff.mpr
    intro x hx
    have hlt := (List.pairwise_cons.mp hsuffix).1 x hx
    simpa using hlt
  rw [entryAt?, if_neg (by omega), List.filter_append, List.filter_cons_of_pos (by simp), hlater,
    List.getLast?_concat]

/-- The history of a key in a store that was compacted. It starts with a value, every entry
continues what the one before it left, and not more than one was there when the store was
compacted. -/
structure Lineal (compacted : Int) (h : History) : Prop where
  first : ∃ e ∈ h.head?, e.written.isSome = true
  chain : h.IsChain fun a b => b.Continues a.written
  single : (h.upTo compacted).length ≤ 1
  counted : ∀ e ∈ h, e.Counted

theorem Lineal.ne_nil (hh : h.Lineal compacted) : h ≠ [] := by
  rintro rfl
  obtain ⟨e, he, -⟩ := hh.first
  cases he

theorem upTo_concat_of_lt {e : Entry} (he : compacted < (e.revision : Int)) :
    upTo compacted (h ++ [e]) = h.upTo compacted := by
  have hnil : upTo compacted [e] = [] := upTo_eq_nil (by simpa using he)
  rw [upTo_append, hnil, List.append_nil]

theorem lineal_singleton {e : Entry} (he : e.Continues none) (hlt : compacted < (e.revision : Int))
    (hpos : 0 < e.revision) : Lineal compacted [e] where
  first := ⟨e, rfl, he.isSome⟩
  chain := List.isChain_singleton e
  single := by
    have hnil : upTo compacted [e] = [] := upTo_concat_of_lt (h := []) hlt
    rw [hnil]
    exact Nat.zero_le 1
  counted := by
    intro x hx
    rw [List.mem_singleton.mp hx]
    exact he.counted hpos (by simp)

theorem Lineal.concat (hh : h.Lineal compacted) {e : Entry} (he : e.Continues h.latest?)
    (hfresh : ∀ x ∈ h, x.revision < e.revision) (hlt : compacted < (e.revision : Int)) :
    Lineal compacted (h ++ [e]) where
  first := by
    obtain ⟨x, hx, hsome⟩ := hh.first
    refine ⟨x, ?_, hsome⟩
    rw [List.head?_append, Option.mem_def.mp hx]
    rfl
  chain := by
    apply List.isChain_append.mpr
    refine ⟨hh.chain, List.isChain_singleton e, ?_⟩
    intro last hlast x hx
    obtain rfl : e = x := Option.some.inj hx
    rw [latest?_of_getLast? hlast] at he
    exact he
  single := by
    rw [upTo_concat_of_lt hlt]
    exact hh.single
  counted := by
    intro x hx
    rcases List.mem_append.mp hx with hx | hx
    · exact hh.counted x hx
    · rw [List.mem_singleton.mp hx]
      have hlast := List.getLast?_eq_some_getLast hh.ne_nil
      generalize h.getLast hh.ne_nil = last at hlast
      have hmem : last ∈ h := List.mem_of_getLast? hlast
      rw [latest?_of_getLast? hlast] at he
      exact he.counted (hfresh last hmem) (hh.counted last hmem)

/-- Nothing was there at the revision, or compaction cuts the history before or
behind the entry that held there, as that is a value or a deletion. -/
theorem compact_cut (hordered : h.Ordered) (r : Int) :
    h.upTo r = [] ∧ h.compact r = h ∨
      ∃ before last, h = before ++ last :: h.after r ∧
        h.compact r = (if last.written.isSome then [last] else []) ++ h.after r := by
  rcases List.eq_nil_or_concat' (h.upTo r) with hnil | ⟨before, last, hupTo⟩
  · left
    have hsplit := upTo_append_after (r := r) hordered
    rw [hnil, List.nil_append] at hsplit
    rw [compact_eq, base, hnil, hsplit]
    exact ⟨rfl, rfl⟩
  · right
    refine ⟨before, last, ?_, ?_⟩
    · have hsplit := upTo_append_after (r := r) hordered
      rw [hupTo, List.append_assoc] at hsplit
      exact hsplit.symm
    · rw [compact_eq, base, hupTo, standing, List.getLast?_concat]
      cases hw : last.written <;> simp [Option.filter, hw]

theorem single_compact (r : Int) (h : History) : ((h.compact r).upTo r).length ≤ 1 := by
  have hafter : (h.after r).upTo r = [] := by
    apply upTo_eq_nil
    intro e he
    simpa using (List.mem_filter.mp he).2
  rw [compact_eq, upTo_append, hafter, List.append_nil]
  calc ((h.base r).upTo r).length
      ≤ (h.base r).length := List.length_filter_le ..
    _ ≤ 1 := by
        rw [base, Option.length_toList]
        split <;> decide

theorem Lineal.compact (hh : h.Lineal compacted) (hordered : h.Ordered)
    (hleft : h.compact r ≠ []) : (h.compact r).Lineal r := by
  have hcounted : ∀ e ∈ h.compact r, e.Counted := by
    intro e he
    exact hh.counted e ((compact_sublist hordered).mem he)
  have hsingle := single_compact r h
  rcases compact_cut hordered r with ⟨-, hsame⟩ | ⟨before, last, hsplit, hcut⟩
  · rw [hsame] at hsingle ⊢
    exact ⟨hh.first, hh.chain, hsingle, hh.counted⟩
  · have hchain := hh.chain
    rw [hsplit] at hchain
    have htail := hchain.right_of_append
    refine ⟨?_, ?_, hsingle, hcounted⟩
    · rw [hcut] at hleft ⊢
      cases hw : last.written with
      | some w => exact ⟨last, by simp, by rw [hw]; rfl⟩
      | none =>
          -- What comes after a deletion is a value.
          cases hafter : h.after r with
          | nil => simp [hw, hafter] at hleft
          | cons e rest =>
              rw [hafter, List.isChain_cons_cons, hw] at htail
              exact ⟨e, by simp, htail.1.isSome⟩
    · rw [hcut]
      split
      · exact htail
      · exact htail.tail

end History

namespace Table

variable {t t' : Table} {compacted : Int} {revision : Nat}

/-- All keys have names, and lives that are told in order. -/
def Lineal (compacted : Int) (t : Table) : Prop :=
  ∀ p ∈ t, p.1 ≠ [] ∧ p.2.Lineal compacted

theorem mem_or_eq_of_mem_push (hordered : t.Ordered) {key : Bytes} {e : Entry}
    {p : Bytes × History} (hp : p ∈ t.push key e) :
    p ∈ t ∨ p = (key, t.history key ++ [e]) := by
  have hhistory := history_of_mem (ordered_push hordered key e) hp
  by_cases hkey : p.1 = key
  · right
    rw [hkey, history_push_self hordered] at hhistory
    exact Prod.ext hkey hhistory.symm
  · left
    rw [history_push_of_ne t e hkey] at hhistory
    rcases key_of_mem_push hp with heq | ⟨p', hp', heq⟩
    · exact absurd heq hkey
    · have hsame := history_of_mem hordered hp'
      rw [heq, hhistory] at hsame
      obtain rfl : p = p' := Prod.ext heq.symm hsame
      exact hp'

theorem Lineal.push (ht : t.Lineal compacted) (hordered : t.Ordered) {key : Bytes} {e : Entry}
    (hnamed : key ≠ []) (he : e.Continues (t.latest? key)) (hfresh : t.Fresh e.revision key)
    (hlt : compacted < (e.revision : Int)) (hpos : 0 < e.revision) :
    (t.push key e).Lineal compacted := by
  intro p hp
  rcases mem_or_eq_of_mem_push hordered hp with hold | rfl
  · exact ht p hold
  · refine ⟨hnamed, ?_⟩
    rcases history_eq_nil_or_mem t key with hnil | hmem
    · rw [latest?, hnil] at he
      rw [hnil]
      exact History.lineal_singleton he hlt hpos
    · exact (ht _ hmem).2.concat he hfresh hlt

theorem Lineal.named (ht : t.Lineal compacted) {key : Bytes} (hlive : (t.latest? key).isSome) :
    key ≠ [] := by
  rcases history_eq_nil_or_mem t key with hnil | hmem
  · exact absurd hnil (history_ne_nil_of_latest? hlive)
  · exact (ht _ hmem).1

theorem Grown.lineal (hgrown : t.Grown revision t') (ht : t.Lineal compacted)
    (hindexed : t.Indexed) (hlt : compacted < (revision : Int)) (hpos : 0 < revision) :
    t'.Lineal compacted := by
  induction hgrown with
  | refl => exact ht
  | @put t' r grown named fresh ih =>
      have hcontinues := r.entry_continues revision (t'.latest? r.key)
      exact ih.push (grown.indexed hindexed).ordered named hcontinues fresh hlt hpos
  | @erase t' key grown live fresh ih =>
      have hcontinues : (Entry.deletion revision).Continues (t'.latest? key) := by
        obtain ⟨l, hl⟩ := Option.isSome_iff_exists.mp live
        rw [hl]
        exact Entry.deletion_continues revision l
      exact ih.push (grown.indexed hindexed).ordered (ih.named live) hcontinues fresh hlt hpos

theorem ne_nil_of_mem_mapHistories {f : History → History} {p : Bytes × History}
    (hp : p ∈ t.mapHistories f) : p.2 ≠ [] := by
  have hkept := (List.mem_filter.mp hp).2
  simpa using hkept

theorem Lineal.compact (ht : t.Lineal compacted) (hsound : t.Sound revision) (r : Int) :
    (t.mapHistories (History.compact r)).Lineal r := by
  intro p hp
  have hleft := ne_nil_of_mem_mapHistories hp
  obtain ⟨h, hmem, heq⟩ := mem_mapHistories hp
  obtain ⟨hnamed, hh⟩ := ht _ hmem
  refine ⟨hnamed, ?_⟩
  rw [heq] at hleft ⊢
  exact hh.compact (hsound.histories _ hmem).ordered hleft

end Table

namespace Store

variable {s s' : Store}

theorem defragment_eq_self (hs : s.table.Lineal s.compacted) : s.defragment.1 = s := by
  have hkeep : (s.table.filter fun p =>
      p.2.any fun e => e.written.isSome || s.compacted < e.revision) = s.table := by
    apply List.filter_eq_self.mpr
    intro p hp
    obtain ⟨e, he, hsome⟩ := (hs p hp).2.first
    apply List.any_eq_true.mpr
    exact ⟨e, List.mem_of_mem_head? he, by simp [hsome]⟩
  rw [defragment, hkeep]

theorem Change.lineal (hchange : s.Change s') (hs : s.Sound)
    (hlineal : s.table.Lineal s.compacted) : s'.table.Lineal s'.compacted := by
  cases hchange with
  | keep alarms => exact hlineal
  | write grown =>
      have hcompacted := hs.compacted
      apply grown.lineal hlineal hs.table.indexed
      · omega
      · exact Nat.succ_pos _
  | compact r forward reached => exact hlineal.compact hs.table r
  | defragment =>
      rw [defragment_eq_self hlineal]
      exact hlineal

theorem lineal_run (hs : s.Sound) (hlineal : s.table.Lineal s.compacted)
    (requests : List Request) :
    (s.run requests).table.Lineal (s.run requests).compacted := by
  induction requests generalizing s with
  | nil => exact hlineal
  | cons request requests ih =>
      rw [run_cons]
      exact ih (hs.serve request) ((change_serve hs request).lineal hs hlineal)

/-- The form of every store. A history starts with a value, and no deletion follows another one. -/
structure WellFormed (s : Store) : Prop where
  revision_pos : 1 ≤ s.revision
  keys_ascending : s.table.Pairwise fun a b => a.1 < b.1
  keys_named : ∀ p ∈ s.table, p.1 ≠ []
  nonempty : ∀ p ∈ s.table, p.2 ≠ []
  ascending : ∀ p ∈ s.table, p.2.Pairwise fun a b => a.revision < b.revision
  bounds : ∀ p ∈ s.table, ∀ e ∈ p.2, 2 ≤ e.revision ∧ e.revision ≤ s.revision
  starts_live : ∀ p ∈ s.table, ∀ e ∈ p.2.head?, e.written.isSome = true
  chain : ∀ p ∈ s.table, p.2.IsChain fun a b => b.Continues a.written
  one_compacted : ∀ p ∈ s.table,
    (p.2.filter fun e => (e.revision : Int) ≤ s.compacted).length ≤ 1
  versions : ∀ p ∈ s.table, ∀ e ∈ p.2, ∀ l ∈ e.written,
    1 ≤ l.version ∧ (l.version : Int) ≤ e.revision - l.created + 1
  /-- What was written names the key and the revision that it stands under. -/
  filed : ∀ p ∈ s.table, ∀ e ∈ p.2, ∀ l ∈ e.written, l.key = p.1 ∧ l.modified = e.revision
  /-- All that was written can be read, and nothing else is ever read. -/
  shown : ∀ p ∈ s.table, ∀ e ∈ p.2, ∀ l ∈ e.written, l ∈ s.liveAt e.revision
  held : ∀ q, ∀ l ∈ s.liveAt q, ∃ p ∈ s.table, ∃ e ∈ p.2, e.written = some l

theorem Sound.wellFormed (hs : s.Sound) (hlineal : s.table.Lineal s.compacted) :
    s.WellFormed where
  revision_pos := hs.positive
  keys_ascending := hs.table.ordered
  keys_named p hp := (hlineal p hp).1
  nonempty p hp := (hlineal p hp).2.ne_nil
  ascending p hp := (hs.table.histories p hp).ordered
  bounds p hp := (hs.table.histories p hp).bounds
  starts_live p hp e he := by
    obtain ⟨x, hx, hsome⟩ := (hlineal p hp).2.first
    obtain rfl : x = e := Option.some.inj (hx.symm.trans he)
    exact hsome
  chain p hp := (hlineal p hp).2.chain
  one_compacted p hp := (hlineal p hp).2.single
  versions p hp := (hlineal p hp).2.counted
  filed p hp := hs.table.indexed.filed p hp
  shown p hp e he l hl := by
    have hhistory := hs.table.histories p hp
    have hpos : 0 < e.revision := Nat.zero_lt_of_lt (hhistory.bounds e he).1
    have hlive : p.2.liveAt? e.revision = some l := by
      rw [History.liveAt?, History.entryAt?_of_mem hhistory.ordered he hpos]
      exact hl
    exact List.mem_filterMap.mpr ⟨p, hp, hlive⟩
  held q l hl := by
    obtain ⟨p, hp, hlive⟩ := List.mem_filterMap.mp hl
    obtain ⟨e, he, hw⟩ := History.exists_mem_of_liveAt? hlive
    exact ⟨p, hp, e, he, hw⟩

/-- Whatever requests a store has answered, it is in this form, and a defragmentation finds nothing
to drop. -/
theorem wellFormed_run (requests : List Request) :
    (empty.run requests).WellFormed ∧
      (empty.run requests).defragment.1 = empty.run requests := by
  have hlineal := lineal_run sound_empty (by simp [Table.Lineal, empty]) requests
  exact ⟨(sound_empty.run requests).wellFormed hlineal, defragment_eq_self hlineal⟩

end Store

end Keyspace
