import Keyspace.Proofs.TableGrowth
import Keyspace.Proofs.SpanWalk
import Keyspace.Store.Range

/-!
Histories whose late revisions are taken for one. What is written at one revision and what is
written at several of them is the same but for the revisions.
-/

namespace Keyspace

def Live.cap (w : Nat) (l : Live) : Live :=
  { l with created := min l.created w, modified := min l.modified w }

def Entry.cap (w : Nat) (e : Entry) : Entry where
  revision := min e.revision w
  written := e.written.map (Live.cap w)

def History.cap (w : Nat) (h : History) : History :=
  h.map (Entry.cap w)

/-- The table in which every later revision is taken for the given one. -/
def Table.cap (w : Nat) (t : Table) : Table :=
  t.map fun (key, h) => (key, h.cap w)

/-- A key but for its revisions. -/
def Live.undated (l : Live) : Live :=
  { l with created := 0, modified := 0 }

def KeyValue.undated (kv : KeyValue) : KeyValue :=
  { kv with createRevision := 0, modRevision := 0 }

variable {w v n : Nat} {q : Int} {key : Bytes} {t : Table}

@[simp] theorem Live.undated_toKeyValue_cap (w : Nat) (l : Live) :
    (l.cap w).toKeyValue.undated = l.toKeyValue.undated := rfl

theorem Entry.filed_cap {e : Entry} (he : e.Filed key) (w : Nat) : (e.cap w).Filed key := by
  intro l hl
  obtain ⟨x, hx, rfl⟩ := Option.map_eq_some_iff.mp hl
  obtain ⟨hkey, hmodified⟩ := he x hx
  exact ⟨hkey, congrArg (min · w) hmodified⟩

theorem Entry.cap_eq_self {e : Entry} (he : e.Filed key) (hrevision : e.revision ≤ w)
    (hcreated : ∀ l ∈ e.written, l.created ≤ e.revision) : e.cap w = e := by
  have hsame : ∀ l ∈ e.written, l.cap w = l := by
    intro l hl
    have hmodified : min l.modified w = l.modified := by
      rw [(he l hl).2]
      exact Nat.min_eq_left hrevision
    have hold : min l.created w = l.created :=
      Nat.min_eq_left (Nat.le_trans (hcreated l hl) hrevision)
    rw [Live.cap, hmodified, hold]
  obtain ⟨revision, written⟩ := e
  rw [Entry.cap, Nat.min_eq_left hrevision]
  cases written with
  | none => rfl
  | some l => rw [Option.map_some, hsame l rfl]

theorem Entry.deletion_cap (hle : w ≤ v) : (Entry.deletion v).cap w = .deletion w := by
  simp [Entry.cap, Entry.deletion, Nat.min_eq_right hle]

theorem PutRequest.entry_cap (hle : w ≤ v) (r : PutRequest) (prev : Option Live) :
    (r.entry v prev).cap w = r.entry w (prev.map (Live.cap w)) := by
  have hmin : min v w = w := Nat.min_eq_right hle
  cases prev with
  | none => simp [Entry.cap, PutRequest.entry, PutRequest.written, Live.cap, hmin]
  | some l =>
      rw [Entry.cap, PutRequest.entry, PutRequest.entry, hmin, Option.map_some, Option.map_some,
        PutRequest.written, PutRequest.written, Live.cap, hmin]
      rfl

namespace History

theorem entryAt?_cap (hq : q ≤ 0 ∨ q < (w : Int)) (h : History) :
    (h.cap w).entryAt? q = (h.entryAt? q).map (Entry.cap w) := by
  by_cases hnow : q ≤ 0
  · rw [entryAt?, entryAt?, if_pos hnow, if_pos hnow, cap, List.getLast?_map]
  · have hfilter : (h.cap w).upTo q = (h.upTo q).cap w := by
      rw [upTo, cap, List.filter_map, cap, upTo]
      congr 1
      apply List.filter_congr
      intro e he
      have hsame : ((min e.revision w : Nat) : Int) ≤ q ↔ (e.revision : Int) ≤ q := by omega
      exact decide_eq_decide.mpr hsame
    rw [entryAt?, entryAt?, if_neg hnow, if_neg hnow, ← List.getLast?_map]
    exact congrArg List.getLast? hfilter

theorem liveAt?_cap (hq : q ≤ 0 ∨ q < (w : Int)) (h : History) :
    (h.cap w).liveAt? q = (h.liveAt? q).map (Live.cap w) := by
  rw [liveAt?, liveAt?, entryAt?_cap hq]
  cases h.entryAt? q <;> rfl

theorem cap_eq_self {h : History} (hh : h.Sound n) (hfiled : ∀ e ∈ h, e.Filed key)
    (hle : n ≤ w) : h.cap w = h := by
  calc h.cap w
      = h.map id := List.map_congr_left fun e he =>
          Entry.cap_eq_self (hfiled e he) (Nat.le_trans (hh.bounds e he).2 hle) (hh.created e he)
    _ = h := List.map_id h

end History

namespace Table

theorem cap_cons (w : Nat) (k : Bytes) (h : History) (t : Table) :
    cap w ((k, h) :: t) = (k, h.cap w) :: t.cap w := rfl

theorem history_cap (w : Nat) (t : Table) (key : Bytes) :
    (t.cap w).history key = (t.history key).cap w := by
  induction t with
  | nil => rfl
  | cons p t ih =>
      obtain ⟨k, h⟩ := p
      rw [cap_cons, history_cons, history_cons, ih]
      split <;> rfl

theorem latest?_cap (w : Nat) (t : Table) (key : Bytes) :
    (t.cap w).latest? key = (t.latest? key).map (Live.cap w) := by
  rw [latest?, history_cap]
  exact History.liveAt?_cap (.inl (Int.le_refl 0)) _

theorem liveAt_cap (hq : q ≤ 0 ∨ q < (w : Int)) (t : Table) :
    (t.cap w).liveAt q = (t.liveAt q).map (Live.cap w) := by
  induction t with
  | nil => rfl
  | cons p t ih =>
      obtain ⟨k, h⟩ := p
      rw [cap_cons, liveAt_cons, liveAt_cons, ih, History.liveAt?_cap hq, List.map_append]
      cases h.liveAt? q <;> rfl

theorem push_cap (w : Nat) (t : Table) (key : Bytes) (e : Entry) :
    (t.push key e).cap w = (t.cap w).push key (e.cap w) := by
  induction t with
  | nil => rfl
  | cons p t ih =>
      obtain ⟨k, h⟩ := p
      rw [push, cap_cons, push]
      split
      · rfl
      · split
        · simp [cap_cons, History.cap]
        · rw [cap_cons, ih]

theorem extend_cap (w : Nat) (t : Table) (key : Bytes) (e : Entry) :
    (t.extend key e).cap w = (t.cap w).extend key (e.cap w) := by
  induction t with
  | nil => rfl
  | cons p t ih =>
      obtain ⟨k, h⟩ := p
      rw [extend_cons, cap_cons, cap_cons, extend_cons, ih]
      split <;> simp [History.cap]

theorem erased_cap (hle : w ≤ v) (removed : List Live) (t : Table) :
    (t.erased v removed).cap w = (t.cap w).erased w (removed.map (Live.cap w)) := by
  induction removed generalizing t with
  | nil => rfl
  | cons l removed ih =>
      have hextend := extend_cap w t l.key (.deletion v)
      rw [Entry.deletion_cap hle] at hextend
      calc ((t.extend l.key (.deletion v)).erased v removed).cap w
          = ((t.extend l.key (.deletion v)).cap w).erased w (removed.map (Live.cap w)) := ih _
        _ = (t.cap w).erased w ((l :: removed).map (Live.cap w)) := by
            rw [hextend]
            rfl

theorem Indexed.cap (ht : t.Indexed) (w : Nat) : (t.cap w).Indexed where
  ordered := List.pairwise_map.mpr ht.ordered
  filed p hp e he := by
    obtain ⟨⟨k, h⟩, hmem, rfl⟩ := List.mem_map.mp hp
    obtain ⟨x, hx, rfl⟩ := List.mem_map.mp he
    exact Entry.filed_cap (ht.filed _ hmem x hx) w

theorem cap_eq_self (ht : t.Sound n) (hle : n ≤ w) : t.cap w = t := by
  calc t.cap w
      = t.map id := List.map_congr_left fun p hp => congrArg (Prod.mk p.1)
          (History.cap_eq_self (ht.histories p hp) (ht.indexed.filed p hp) hle)
    _ = t := List.map_id t

end Table

/-- The request asks neither for keys between revisions nor for an order of
revisions. -/
structure RangeRequest.Timeless (r : RangeRequest) : Prop where
  minMod : r.minModRevision = 0
  maxMod : r.maxModRevision = 0
  minCreate : r.minCreateRevision = 0
  maxCreate : r.maxCreateRevision = 0
  target : ∀ target, SortTarget.ofWire? r.sortTarget = some target →
    target ≠ .createRevision ∧ target ≠ .modRevision

/-- An answer but for the revisions in it. -/
def RangeResponse.undated (r : RangeResponse) : RangeResponse :=
  { r with header := none, kvs := r.kvs.map KeyValue.undated }

theorem SortTarget.order_cap {target : SortTarget}
    (htarget : target ≠ .createRevision ∧ target ≠ .modRevision) (w : Nat) (a b : Live) :
    target.order (a.cap w) (b.cap w) = target.order a b := by
  cases target with
  | key => rfl
  | version => rfl
  | createRevision => exact absurd rfl htarget.1
  | modRevision => exact absurd rfl htarget.2
  | value => rfl

theorem SortOrder.sort_cap {target : SortTarget}
    (htarget : target ≠ .createRevision ∧ target ≠ .modRevision) (w : Nat) (order : SortOrder)
    (keys : List Live) :
    order.sort target (keys.map (Live.cap w)) = (order.sort target keys).map (Live.cap w) := by
  cases order with
  | descend =>
      refine (List.map_mergeSort fun a _ b _ => ?_).symm
      rw [SortTarget.order_cap htarget]
  | none =>
      refine (List.map_mergeSort fun a _ b _ => ?_).symm
      rw [SortTarget.order_cap htarget]
  | ascend =>
      refine (List.map_mergeSort fun a _ b _ => ?_).symm
      rw [SortTarget.order_cap htarget]

namespace RangeRequest

variable {r : RangeRequest}

theorem Timeless.admits (hr : r.Timeless) (l : Live) : r.admits l = true := by
  simp [RangeRequest.admits, hr.minMod, hr.maxMod, hr.minCreate, hr.maxCreate]

def shown (r : RangeRequest) (l : Live) : KeyValue :=
  if r.keysOnly then { l.toKeyValue with value := [] } else l.toKeyValue

theorem undated_shown_cap (w : Nat) (r : RangeRequest) (l : Live) :
    (r.shown (l.cap w)).undated = (r.shown l).undated := by
  rw [shown, shown]
  cases r.keysOnly <;> rfl

theorem cut_eq (r : RangeRequest) (found : List Live) :
    r.cut found =
      (if r.exceeded found.length then found.take r.limit.toInt.toNat else found).map r.shown := rfl

theorem cut_cap (w : Nat) (r : RangeRequest) (found : List Live) :
    (r.cut (found.map (Live.cap w))).map KeyValue.undated = (r.cut found).map KeyValue.undated := by
  have hshown : ∀ kept : List Live, ((kept.map (Live.cap w)).map r.shown).map KeyValue.undated =
      (kept.map r.shown).map KeyValue.undated := by
    intro kept
    simp only [List.map_map]
    exact List.map_congr_left fun l _ => undated_shown_cap w r l
  rw [cut_eq, cut_eq, List.length_map]
  by_cases hmore : r.exceeded found.length = true
  · rw [if_pos hmore, if_pos hmore, ← List.map_take, hshown]
  · rw [if_neg hmore, if_neg hmore, hshown]

end RangeRequest

namespace Store

variable {s s' : Store} {r : RangeRequest}

theorem readable_of_checkRange {sorting : SortOrder × SortTarget}
    (hcheck : s.checkRange r = .ok sorting) : s.checkReadable r.revision.toInt = .ok () := by
  rw [checkRange] at hcheck
  split at hcheck
  · simp at hcheck
  · assumption

theorem target_of_checkRange {order : SortOrder} {target : SortTarget}
    (hcheck : s.checkRange r = .ok (order, target)) :
    SortTarget.ofWire? r.sortTarget = some target := by
  rw [checkRange] at hcheck
  split at hcheck
  · simp at hcheck
  · split at hcheck <;> simp_all

/-- A store in which late revisions are taken for one answers a timeless
request like the store itself. -/
theorem range_undated_of_cap (hr : r.Timeless) (hs : s.table.Indexed) (hs' : s'.table.Indexed)
    (hlive : s.liveAt r.revision.toInt = (s'.liveAt r.revision.toInt).map (Live.cap w))
    (hcheck : s.checkRange r = s'.checkRange r) :
    (s.range r).map RangeResponse.undated = (s'.range r).map RangeResponse.undated := by
  have hselect : s.select r = (s'.select r).map (Live.cap w) := by
    have hall : ∀ keys : List Live, keys.filter r.admits = keys := fun keys =>
      List.filter_eq_self.mpr fun l _ => hr.admits l
    rw [select, select, hall, hall, scan_eq hs, scan_eq hs', hlive, List.filter_map]
    rfl
  rw [range, range, hcheck]
  cases hsorting : s'.checkRange r with
  | error refusal => rfl
  | ok sorting =>
      obtain ⟨order, target⟩ := sorting
      have htarget := hr.target target (target_of_checkRange hsorting)
      simp only [hselect, SortOrder.sort_cap htarget, Except.map, RangeResponse.undated,
        List.length_map]
      cases r.countOnly with
      | true => rfl
      | false => simp [RangeRequest.cut_cap]

end Store

end Keyspace
