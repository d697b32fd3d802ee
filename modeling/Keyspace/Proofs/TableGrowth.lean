import Keyspace.Proofs.TableInvariants
import Keyspace.Store.Write

namespace Keyspace

/-- The entry that a write adds to a key, given what was there. -/
def PutRequest.entry (r : PutRequest) (revision : Nat) (prev : Option Live) : Entry where
  revision
  written := some (r.written revision prev)

def Entry.deletion (revision : Nat) : Entry where
  revision
  written := none

theorem PutRequest.filed_entry (r : PutRequest) (revision : Nat) (prev : Option Live) :
    (r.entry revision prev).Filed r.key := by
  intro l hl
  obtain rfl := Option.some.inj hl
  cases prev with
  | none => exact ⟨rfl, rfl⟩
  | some prev => exact ⟨rfl, rfl⟩

theorem Entry.filed_deletion (key : Bytes) (revision : Nat) : (deletion revision).Filed key := by
  simp [Filed, deletion]

namespace Table

variable {t t' : Table} {revision : Nat} {key : Bytes}

def Fresh (revision : Nat) (t : Table) (key : Bytes) : Prop :=
  ∀ e ∈ t.history key, e.revision < revision

/-- The second table comes of the first by writing to keys that were not yet
written to at the revision, and by deleting such keys that are there. -/
inductive Grown (revision : Nat) (t : Table) : Table → Prop
  | refl : Grown revision t t
  | put {t' : Table} (r : PutRequest) (grown : Grown revision t t') (named : r.key ≠ [])
      (fresh : t'.Fresh revision r.key) :
      Grown revision t (t'.push r.key (r.entry revision (t'.latest? r.key)))
  | erase {t' : Table} (key : Bytes) (grown : Grown revision t t')
      (live : (t'.latest? key).isSome) (fresh : t'.Fresh revision key) :
      Grown revision t (t'.push key (.deletion revision))

theorem fresh_push_of_ne (e : Entry) {k : Bytes} (hne : k ≠ key) (hfresh : t.Fresh revision k) :
    (t.push key e).Fresh revision k := by
  rw [Fresh, history_push_of_ne t e hne]
  exact hfresh

theorem Sound.fresh {n : Nat} (ht : t.Sound n) (hlt : n < revision) (key : Bytes) :
    t.Fresh revision key := by
  intro e he
  have := ((ht.history key).bounds e he).2
  omega

theorem Grown.trans {t'' : Table} (hgrown : t.Grown revision t') (hmore : t'.Grown revision t'') :
    t.Grown revision t'' := by
  induction hmore with
  | refl => exact hgrown
  | put r _ named fresh ih => exact .put r ih named fresh
  | erase key _ live fresh ih => exact .erase key ih live fresh

theorem Grown.indexed (hgrown : t.Grown revision t') (ht : t.Indexed) : t'.Indexed := by
  induction hgrown with
  | refl => exact ht
  | put r _ _ _ ih => exact ih.push (r.filed_entry _ _)
  | erase key _ _ _ ih => exact ih.push (Entry.filed_deletion _ _)

theorem created_written_le {n : Nat} (ht : t.Sound n) (r : PutRequest) (hle : n ≤ revision) :
    (r.written revision (t.latest? r.key)).created ≤ revision := by
  cases hprev : t.latest? r.key with
  | none => exact Nat.le_refl _
  | some prev =>
      obtain ⟨e, he, hw⟩ := History.exists_mem_of_liveAt? hprev
      have hcreated := (ht.history r.key).created e he prev hw
      have hbound := ((ht.history r.key).bounds e he).2
      change prev.created ≤ revision
      omega

theorem Grown.sound {n : Nat} (hgrown : t.Grown revision t') (ht : t.Sound n) (hle : n ≤ revision)
    (hwrites : 1 < revision) : t'.Sound revision := by
  induction hgrown with
  | refl => exact ht.mono hle
  | put r _ _ fresh ih =>
      refine ih.push (r.filed_entry _ _) fresh ⟨hwrites, Nat.le_refl _⟩ ?_
      intro w hw
      rw [Option.mem_some.mp hw.symm]
      exact created_written_le ih r (Nat.le_refl _)
  | erase key _ _ fresh ih =>
      have hbounds : 1 < revision ∧ revision ≤ revision := ⟨hwrites, Nat.le_refl _⟩
      exact ih.push (Entry.filed_deletion _ _) fresh hbounds (by simp [Entry.deletion])

/-- Writes do not change the past. -/
theorem Grown.liveAt {q : Int} (hgrown : t.Grown revision t') (hq : 0 < q)
    (hlt : q < (revision : Int)) : t'.liveAt q = t.liveAt q := by
  induction hgrown with
  | refl => rfl
  | put r _ _ _ ih => rw [liveAt_push_of_lt _ _ hq hlt, ih]
  | erase key _ _ _ ih => rw [liveAt_push_of_lt _ _ hq hlt, ih]

theorem history_ne_nil_of_latest? (hlive : (t.latest? key).isSome) : t.history key ≠ [] := by
  intro hnil
  rw [latest?, hnil, History.latest?, History.liveAt?_nil] at hlive
  cases hlive

/-- Adds one deletion to every one of the keys that were there. -/
def erased (revision : Nat) (removed : List Live) (t : Table) : Table :=
  removed.foldl (fun t l => t.extend l.key (.deletion revision)) t

section

variable {removed : List Live} (hordered : t.Ordered)
  (hremoved : ∀ l ∈ removed, t.history l.key ≠ [])

include hordered

theorem erased_cons {l : Live} (hl : t.history l.key ≠ []) (removed : List Live) :
    erased revision (l :: removed) t =
      erased revision removed (t.push l.key (.deletion revision)) := by
  rw [← extend_eq_push hordered hl]
  rfl

theorem history_push_ne_nil (key : Bytes) (e : Entry) {k : Bytes} (hk : t.history k ≠ []) :
    (t.push key e).history k ≠ [] := by
  rw [history_push hordered]
  split
  · exact List.append_ne_nil_of_right_ne_nil _ (List.cons_ne_nil e [])
  · exact hk

theorem mapHistories_erased {f : History → History} (hnil : f [] = [])
    (hf : ∀ h : History, f (h ++ [.deletion revision]) = f h ++ [.deletion revision])
    (hleft : ∀ l ∈ removed, f (t.history l.key) ≠ []) :
    (t.erased revision removed).mapHistories f = (t.mapHistories f).erased revision removed := by
  induction removed generalizing t with
  | nil => rfl
  | cons l removed ih =>
      obtain ⟨hhead, htail⟩ := List.forall_mem_cons.mp hleft
      have hthere : t.history l.key ≠ [] := by
        intro hempty
        rw [hempty, hnil] at hhead
        exact hhead rfl
      have hthere' : (t.mapHistories f).history l.key ≠ [] := by
        rwa [history_mapHistories hordered hnil]
      have hpushed : ∀ l' ∈ removed,
          f ((t.push l.key (.deletion revision)).history l'.key) ≠ [] := by
        intro l' hl'
        rw [history_push hordered]
        split
        · rw [hf]
          exact List.append_ne_nil_of_right_ne_nil _ (List.cons_ne_nil _ _)
        · exact htail l' hl'
      rw [erased_cons hordered hthere, ih (ordered_push hordered ..) hpushed,
        erased_cons (ordered_mapHistories hordered f) hthere', mapHistories_push hordered hnil hf]

include hremoved

theorem Indexed.erased (ht : t.Indexed) : (t.erased revision removed).Indexed := by
  induction removed generalizing t with
  | nil => exact ht
  | cons l removed ih =>
      obtain ⟨hhead, htail⟩ := List.forall_mem_cons.mp hremoved
      rw [erased_cons hordered hhead]
      have hpush := ht.push (Entry.filed_deletion l.key revision)
      exact ih hpush.ordered (fun l' hl' => history_push_ne_nil hordered _ _ (htail l' hl')) hpush

section

variable (hnodup : removed.Pairwise fun a b => a.key < b.key)

include hnodup

theorem history_erased (key : Bytes) :
    (t.erased revision removed).history key =
      t.history key ++ if ∃ l ∈ removed, l.key = key then [.deletion revision] else [] := by
  induction removed generalizing t with
  | nil => simp [Table.erased]
  | cons l removed ih =>
      obtain ⟨hhead, htail⟩ := List.forall_mem_cons.mp hremoved
      obtain ⟨hless, hrest⟩ := List.pairwise_cons.mp hnodup
      have hleft : ∀ l' ∈ removed, (t.push l.key (.deletion revision)).history l'.key ≠ [] :=
        fun l' hl' => history_push_ne_nil hordered _ _ (htail l' hl')
      rw [erased_cons hordered hhead, ih (ordered_push hordered ..) hleft hrest,
        history_push hordered]
      by_cases hkey : key = l.key
      · subst hkey
        have hnone : ¬∃ l' ∈ removed, l'.key = l.key := by
          rintro ⟨l', hl', heq⟩
          exact Std.ne_of_lt (hless l' hl') heq.symm
        simp [hnone]
      · simp [hkey, Ne.symm hkey]

end

end

theorem grown_erased {removed : List Live} (hordered : t.Ordered)
    (hnodup : removed.Pairwise fun a b => a.key < b.key)
    (hremoved : ∀ l ∈ removed, (t.latest? l.key).isSome ∧ t.Fresh revision l.key) :
    t.Grown revision (t.erased revision removed) := by
  induction removed generalizing t with
  | nil => exact .refl
  | cons l removed ih =>
      obtain ⟨hhead, htail⟩ := List.pairwise_cons.mp hnodup
      obtain ⟨⟨hlive, hfresh⟩, hrest⟩ := List.forall_mem_cons.mp hremoved
      rw [erased_cons hordered (history_ne_nil_of_latest? hlive)]
      refine Grown.trans (.erase l.key .refl hlive hfresh) (ih (ordered_push hordered ..) htail ?_)
      intro l' hl'
      have hne : l'.key ≠ l.key := (Std.ne_of_lt (hhead l' hl')).symm
      rw [latest?_push_of_ne t _ hne]
      exact ⟨(hrest l' hl').1, fresh_push_of_ne _ hne (hrest l' hl').2⟩

end Table

end Keyspace
