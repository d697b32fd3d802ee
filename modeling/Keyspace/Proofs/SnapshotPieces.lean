import Keyspace.Proofs.StoreInvariants
import Keyspace.Proofs.MessageOverlay
import Keyspace.Snapshot.Feed
import Mathlib.Algebra.Group.Nat.Defs

namespace Keyspace

open Wire

/-- The message lists the keys that are there in a store, each of them once and as it is now. -/
structure RangeResponse.Lists (m : RangeResponse) (s : Store) : Prop where
  header : m.header = some s.header
  mem_iff : ∀ key kv, kv ∈ m.kvs ∧ kv.key = key ↔ (s.latest? key).map Live.toKeyValue = some kv
  ascending : m.kvs.Pairwise fun a b => a.key < b.key
  length : m.kvs.length = s.size
  count : m.count.toInt = s.size
  more : m.more = false

theorem Wire.Field.length_le_size_repeated (tag : Nat) (sub : Codec S) (part : Part M (List S))
    (vs : List S) : vs.length ≤ (Field.repeated tag sub part).size vs := by
  induction vs with
  | nil => exact Nat.zero_le _
  | cons v vs ih =>
      simp only [Field.repeated, List.foldr_cons, List.length_cons, Key.size, Varint.size] at ih ⊢
      omega

theorem Wire.Codec.size_field_le {c : Codec M} {field : Field M} (hfield : field ∈ c.fields)
    (m : M) : field.size (field.part.get m) ≤ c.size m := by
  rw [size]
  generalize c.fields = fields at hfield
  induction fields with
  | nil => nomatch hfield
  | cons first fields ih =>
      rw [List.foldr_cons]
      rcases List.mem_cons.mp hfield with rfl | hfield
      · exact Nat.le_add_right _ _
      · exact Nat.le_trans (ih hfield) (Nat.le_add_left _ _)

theorem Store.size_le_size_snapshot (s : Store) : s.size ≤ RangeResponse.codec.size s.snapshot := by
  have hkvs := Field.length_le_size_repeated 2 KeyValue.codec
    ⟨RangeResponse.kvs, fun v m => { m with kvs := v }⟩ s.snapshot.kvs
  have hlength : s.snapshot.kvs.length = s.size := List.length_map _
  rw [hlength] at hkvs
  exact Nat.le_trans hkvs (Codec.size_field_le (by simp [RangeResponse.codec]) s.snapshot)

theorem Store.Sound.lists_snapshot {s : Store} (hs : s.Sound)
    (hsize : RangeResponse.codec.size s.snapshot < 2 ^ 63) : s.snapshot.Lists s where
  header := rfl
  mem_iff key kv := by
    rw [Option.map_eq_some_iff, Store.snapshot, List.mem_map]
    constructor
    · rintro ⟨⟨l, hl, rfl⟩, hkey⟩
      exact ⟨l, hs.mem_live_iff.mp ⟨hl, hkey⟩, rfl⟩
    · rintro ⟨l, hl, rfl⟩
      obtain ⟨hlive, hkey⟩ := hs.mem_live_iff.mpr hl
      exact ⟨⟨l, hlive, rfl⟩, hkey⟩
  ascending := List.pairwise_map.mpr (hs.table.indexed.pairwise_liveAt 0)
  length := List.length_map _
  count := by
    have hle := s.size_le_size_snapshot
    exact Int64.toInt_ofNat_of_lt (by omega)
  more := rfl

namespace Snapshot

/-- Pieces of at most `size` bytes that are a complete copy of a store. Each of them says how many
bytes come after it. Where the next piece ends, when it is asked for with so many bytes sent, can
be told in 64 bits. -/
structure Copies (s : Store) (size : Nat) (pieces : List SnapshotResponse) : Prop where
  whole : ∃ m, pieces.flatMap SnapshotResponse.blob = RangeResponse.codec.encode m ∧
    RangeResponse.codec.decode (pieces.flatMap SnapshotResponse.blob) = .ok m ∧ m.Lists s
  header : ∀ p ∈ pieces, p.header = some s.header
  blob : ∀ p ∈ pieces, p.blob ≠ [] ∧ p.blob.length ≤ size
  remaining : ∀ n p, pieces[n]? = some p →
    p.remainingBytes.toNat = ((pieces.drop (n + 1)).flatMap SnapshotResponse.blob).length
  fits : ∀ n < pieces.length,
    ((pieces.take n).flatMap SnapshotResponse.blob).length + size < UInt64.size

/-- All that is sent of a snapshot to a receiver that does not ask for the end. -/
def signalsOf (pieces : List SnapshotResponse) : List Signal :=
  pieces.map .next ++ [.completed]

namespace Feed

variable {f : Feed} {size n : Nat}

/-- How many pieces of at most `size` bytes the content takes. -/
def count (f : Feed) (size : Nat) : Nat :=
  (f.content.length + size - 1) / size

def past (f : Feed) (size n : Nat) : Feed :=
  { f with offset := min (n * size) f.content.length }

@[simp] theorem content_past (f : Feed) (size n : Nat) : (f.past size n).content = f.content :=
  rfl

@[simp] theorem offset_past (f : Feed) (size n : Nat) :
    (f.past size n).offset = min (n * size) f.content.length :=
  rfl

def pieces (f : Feed) (size : Nat) : List SnapshotResponse :=
  (List.range (f.count size)).map fun n => (f.past size n).piece size

def signals (f : Feed) (size : Nat) : List Signal :=
  signalsOf (f.pieces size)

theorem length_pieces (f : Feed) (size : Nat) : (f.pieces size).length = f.count size := by
  rw [pieces, List.length_map, List.length_range]

theorem length_signals (f : Feed) (size : Nat) : (f.signals size).length = f.count size + 1 := by
  rw [signals, signalsOf, List.length_append, List.length_map, length_pieces, List.length_singleton]

theorem getElem?_pieces {p : SnapshotResponse} :
    (f.pieces size)[n]? = some p ↔ n < f.count size ∧ (f.past size n).piece size = p := by
  by_cases hn : n < f.count size <;> simp [pieces, hn]

theorem lt_count_iff (hsize : 0 < size) : n < f.count size ↔ n * size < f.content.length := by
  rw [count, ← Nat.succ_le_iff, Nat.le_div_iff_mul_le hsize, Nat.succ_mul]
  omega

theorem stop_past (f : Feed) (size n : Nat) :
    (f.past size n).stop size = min ((n + 1) * size) f.content.length := by
  rw [stop, offset_past, content_past, Nat.succ_mul]
  omega

/-- While the receiver does not ask for the end, the pieces are sent in order, and then the
completion. -/
theorem send_past (hsize : 0 < size) (hn : n ≤ f.count size) :
    (f.past size n).send size false =
      (f.signals size)[n]?.map fun signal =>
        (signal, if n < f.count size then some (f.past size (n + 1)) else none) := by
  have hoffset : (f.past size n).offset < f.content.length ↔ n < f.count size := by
    rw [lt_count_iff hsize, offset_past]
    omega
  rw [send, if_neg Bool.false_ne_true, content_past, signals, signalsOf]
  by_cases hlast : n < f.count size
  · rw [if_pos (hoffset.mpr hlast), if_pos hlast, stop_past, List.getElem?_append_left
      (by rwa [List.length_map, length_pieces]), List.getElem?_map,
      getElem?_pieces.mpr ⟨hlast, rfl⟩]
    rfl
  · obtain rfl : n = f.count size := by omega
    have hend : ((f.pieces size).map Signal.next ++ [Signal.completed])[f.count size]? =
        some .completed := by
      rw [← length_pieces, ← List.length_map Signal.next]
      exact List.getElem?_concat_length
    rw [if_neg (fun h => hlast (hoffset.mp h)), if_neg hlast, hend]
    rfl

theorem blob_past (f : Feed) (size n : Nat) :
    ((f.past size n).piece size).blob = (f.content.drop (n * size)).take size := by
  have hdrop : f.content.drop (min (n * size) f.content.length) = f.content.drop (n * size) := by
    by_cases hn : n * size ≤ f.content.length
    · rw [Nat.min_eq_left hn]
    · rw [List.drop_eq_nil_of_le (by omega), List.drop_eq_nil_of_le (by omega)]
  have hblob : ((f.past size n).piece size).blob =
      (f.content.drop (min (n * size) f.content.length)).take
        ((f.past size n).stop size - min (n * size) f.content.length) := rfl
  rw [hblob, hdrop, stop_past, List.take_eq_take_iff, List.length_drop, Nat.succ_mul]
  omega

theorem flatMap_blob_take (hn : n ≤ f.count size) :
    ((f.pieces size).take n).flatMap SnapshotResponse.blob = f.content.take (n * size) := by
  rw [pieces, ← List.map_take, List.take_range, Nat.min_eq_left hn]
  clear hn
  induction n with
  | zero => simp
  | succ n ih =>
      rw [List.range_succ, List.map_append, List.flatMap_append, ih, List.map_singleton,
        List.flatMap_singleton, blob_past, Nat.succ_mul, List.take_add]

theorem flatMap_blob (hsize : 0 < size) :
    (f.pieces size).flatMap SnapshotResponse.blob = f.content := by
  have hall : ((f.pieces size).take (f.count size)).flatMap SnapshotResponse.blob =
      f.content.take (f.count size * size) := flatMap_blob_take (Nat.le_refl _)
  rw [← length_pieces, List.take_length, length_pieces] at hall
  have hlength : ¬f.count size * size < f.content.length :=
    fun h => Nat.lt_irrefl _ ((lt_count_iff hsize).mpr h)
  rw [hall, List.take_of_length_le (by omega)]

theorem length_flatMap_blob_drop (hsize : 0 < size) (hn : n ≤ f.count size) :
    (((f.pieces size).drop n).flatMap SnapshotResponse.blob).length =
      f.content.length - n * size := by
  have hsplit := congrArg List.length (flatMap_blob (f := f) hsize)
  rw [← List.take_append_drop n (f.pieces size), List.flatMap_append, List.length_append,
    flatMap_blob_take hn, List.length_take] at hsplit
  omega

theorem toNat_remainingBytes_past (hlength : f.content.length < 2 ^ 63) (n : Nat) :
    ((f.past size n).piece size).remainingBytes.toNat =
      f.content.length - (n + 1) * size := by
  have hremaining : ((f.past size n).piece size).remainingBytes =
      UInt64.ofNat (f.content.length - (f.past size n).stop size) := rfl
  have hword : 2 ^ 63 < UInt64.size := by decide
  rw [hremaining, stop_past, UInt64.toNat_ofNat_of_lt' (by omega)]
  omega

theorem copies_ofStore {s : Store} (hs : s.Sound) (hsize : 0 < size) (hword : size < UInt64.size)
    (hlength : (ofStore s).content.length < 2 ^ 63) :
    Copies s size ((ofStore s).pieces size) := by
  have hbytes : RangeResponse.codec.size s.snapshot < 2 ^ 63 := by
    rwa [← (RangeResponse.lawful_codec 0).length_encode]
  constructor
  · refine ⟨s.snapshot, flatMap_blob hsize, ?_, hs.lists_snapshot hbytes⟩
    rw [flatMap_blob hsize]
    exact (RangeResponse.lawful_codec 99).decode_encode (Nat.lt_trans hbytes (by decide))
  · intro p hp
    obtain ⟨n, hn⟩ := List.getElem?_of_mem hp
    obtain ⟨-, rfl⟩ := getElem?_pieces.mp hn
    rfl
  · intro p hp
    obtain ⟨n, hn⟩ := List.getElem?_of_mem hp
    obtain ⟨hcount, rfl⟩ := getElem?_pieces.mp hn
    have hstart := (lt_count_iff hsize).mp hcount
    rw [blob_past, ← List.length_pos_iff, List.length_take, List.length_drop]
    omega
  · intro n p hp
    obtain ⟨hcount, rfl⟩ := getElem?_pieces.mp hp
    rw [toNat_remainingBytes_past hlength, length_flatMap_blob_drop (n := n + 1) hsize hcount]
  · intro n hn
    rw [length_pieces] at hn
    have hstart := (lt_count_iff hsize).mp hn
    rw [flatMap_blob_take (Nat.le_of_lt hn), List.length_take]
    have hhalf : 2 ^ 63 + 2 ^ 63 = UInt64.size := by decide
    -- Before the first piece nothing was sent, and later a whole piece fits into the content.
    cases n with
    | zero => omega
    | succ n =>
        rw [Nat.succ_mul] at hstart ⊢
        omega

end Feed

end Snapshot

end Keyspace
