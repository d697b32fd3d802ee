import Keyspace.Wire.Scalar

namespace Keyspace.Wire

namespace Varint

theorem encode_of_lt {n : Nat} (hn : n < 128) : encode n = [n.toUInt8] := by
  rw [encode, if_pos hn]

theorem encode_of_le {n : Nat} (hn : 128 ≤ n) :
    encode n = (n % 128 + 128).toUInt8 :: encode (n / 128) := by
  rw [encode, if_neg (Nat.not_lt.mpr hn)]

theorem encode_ne_nil (n : Nat) : encode n ≠ [] := by
  rw [encode]
  split <;> exact List.cons_ne_nil _ _

theorem toNat_toUInt8 {n : Nat} (hn : n < 256) : n.toUInt8.toNat = n := by
  simp [Nat.mod_eq_of_lt hn]

theorem log2_eq_log2_shiftRight_add {n k : Nat} (hn : n >>> k ≠ 0) :
    n.log2 = (n >>> k).log2 + k := by
  induction k with
  | zero => rfl
  | succ k ih =>
      rw [Nat.shiftRight_succ] at hn ⊢
      have hle : 2 ≤ n >>> k := by
        apply Nat.le_of_not_lt
        intro hlt
        exact hn (Nat.div_eq_of_lt hlt)
      have hne : n >>> k ≠ 0 := Nat.ne_of_gt (Nat.lt_of_lt_of_le Nat.zero_lt_two hle)
      have hhalf : (n >>> k).log2 = (n >>> k / 2).log2 + 1 := by rw [Nat.log2_def, if_pos hle]
      rw [ih hne, hhalf, Nat.add_assoc, Nat.add_comm 1]

theorem log2_of_le {n : Nat} (hn : 128 ≤ n) : n.log2 = (n / 128).log2 + 7 := by
  have hshift : n >>> 7 = n / 128 := Nat.shiftRight_eq_div_pow n 7
  rw [← hshift]
  apply log2_eq_log2_shiftRight_add
  omega

theorem log2_lt_of_lt {n : Nat} (hn : n < 128) : n.log2 < 7 := by
  by_cases hzero : n = 0
  · rw [hzero]
    decide
  · exact (Nat.log2_lt hzero).mpr hn

theorem size_of_le {n : Nat} (hn : 128 ≤ n) : size n = size (n / 128) + 1 := by
  rw [size, size, log2_of_le hn]
  omega

theorem length_encode (n : Nat) : (encode n).length = size n := by
  induction n using Nat.strongRecOn with
  | ind n ih =>
      by_cases hn : n < 128
      · rw [encode_of_lt hn, size, Nat.div_eq_of_lt (log2_lt_of_lt hn)]
        rfl
      · have hle : 128 ≤ n := Nat.not_lt.mp hn
        rw [encode_of_le hle, List.length_cons, ih (n / 128) (by omega), size_of_le hle]

theorem decodeWithin_encode {room n : Nat} (hn : n.log2 ≤ 7 * room) (s : Bytes) :
    decodeWithin (room + 1) (encode n ++ s) = some (n, s) := by
  induction room generalizing n with
  | zero =>
      have hbit : n < 2 := by
        apply Nat.lt_of_not_le
        intro htwo
        rw [Nat.log2_def, if_pos htwo] at hn
        omega
      have hbyte : n.toUInt8.toNat = n := toNat_toUInt8 (by omega)
      rw [encode_of_lt (by omega), List.singleton_append, decodeWithin, hbyte,
        if_pos (by omega), if_neg (by omega)]
  | succ room ih =>
      by_cases hsmall : n < 128
      · have hbyte : n.toUInt8.toNat = n := toNat_toUInt8 (by omega)
        rw [encode_of_lt hsmall, List.singleton_append, decodeWithin, hbyte, if_pos hsmall,
          if_neg (by simp)]
      · have hle : 128 ≤ n := Nat.not_lt.mp hsmall
        have hbyte : (n % 128 + 128).toUInt8.toNat = n % 128 + 128 := toNat_toUInt8 (by omega)
        have hhigh : (n / 128).log2 ≤ 7 * room := by
          have hlog := log2_of_le hle
          omega
        rw [encode_of_le hle, List.cons_append, decodeWithin, hbyte, if_neg (by omega), ih hhigh]
        simp only [Option.map_some, Option.some.injEq, Prod.mk.injEq, and_true]
        omega

theorem decode_encode {n : Nat} (hn : n < UInt64.size) (s : Bytes) :
    decode (encode n ++ s) = .ok (n, s) := by
  have hlog : n.log2 ≤ 7 * 9 := by
    by_cases hzero : n = 0
    · rw [hzero]
      decide
    · exact Nat.le_of_lt_succ ((Nat.log2_lt hzero).mpr hn)
  rw [decode, decodeWithin_encode hlog]

end Varint

namespace Key

theorem length_encode (tag : Nat) (w : WireType) : (encode tag w).length = size tag := by
  have hcode := w.code_lt
  rw [encode, Varint.length_encode, size, Varint.size, Varint.size]
  by_cases htag : tag = 0
  · have hlog : w.code.log2 < 7 := Varint.log2_lt_of_lt (by omega)
    simp [htag, Nat.div_eq_of_lt hlog]
  · have hkey : (tag * 8 + w.code) >>> 3 = tag := by omega
    have hbare : (tag * 8) >>> 3 = tag := by omega
    rw [Varint.log2_eq_log2_shiftRight_add (n := tag * 8 + w.code) (k := 3) (by omega),
      Varint.log2_eq_log2_shiftRight_add (n := tag * 8) (k := 3) (by omega), hkey, hbare]

theorem decode_encode {tag : Nat} (hpos : 0 < tag) (htag : tag * 8 < UInt32.size) (w : WireType)
    (s : Bytes) : decode (encode tag w ++ s) = .ok ((tag, w), s) := by
  have hcode := w.code_lt
  have hmod : (tag * 8 + w.code) % 8 = w.code := by omega
  have hdiv : (tag * 8 + w.code) / 8 = tag := by omega
  have hkey : ¬UInt32.size ≤ tag * 8 + w.code := by
    have hsize : UInt32.size = 4294967296 := rfl
    omega
  have hlong : tag * 8 + w.code < UInt64.size := by
    have hsizes : UInt32.size < UInt64.size := by decide
    omega
  rw [encode, decode, Varint.decode_encode hlong]
  simp only [if_neg hkey, hmod, WireType.ofCode?_code, hdiv, if_neg (Nat.ne_of_gt hpos)]

end Key

namespace Scalar

/-- Values of the kind are read as they were written, and take as many bytes as is said. -/
structure Lawful [Inhabited α] (kind : Scalar α) : Prop where
  isDefault_iff : ∀ v, kind.isDefault v = true ↔ v = Inhabited.default
  length_write : ∀ v, (kind.write v).length = kind.size v
  read_write : ∀ v s, kind.size v < UInt64.size → kind.read (kind.write v ++ s) = .ok (v, s)

theorem lawful_number [DecidableEq α] [Inhabited α] {toNat : α → Nat} {ofNat : Nat → α}
    (hlt : ∀ v, toNat v < UInt64.size) (hinv : ∀ v, ofNat (toNat v) = v) :
    (number Inhabited.default toNat ofNat).Lawful where
  isDefault_iff _ := decide_eq_true_iff
  length_write v := Varint.length_encode (toNat v)
  read_write v s _ := by
    change (Varint.decode (Varint.encode (toNat v) ++ s)).map _ = _
    rw [Varint.decode_encode (hlt v)]
    simp only [Except.map, hinv]

theorem lawful_uint64 : uint64.Lawful :=
  lawful_number UInt64.toNat_lt fun _ => UInt64.ofNat_toNat

theorem lawful_int64 : int64.Lawful :=
  lawful_number (fun v => v.toUInt64.toNat_lt) fun v => by simp

theorem lawful_int32 : int32.Lawful := by
  refine lawful_number (fun v => v.toInt64.toUInt64.toNat_lt) fun v => ?_
  rw [UInt32.ofNat_uInt64ToNat]
  apply Int32.toBitVec_inj.mp
  apply BitVec.eq_of_getElem_eq
  intro i hi
  have hlow : i < 64 := by omega
  change (BitVec.setWidth 32 (BitVec.signExtend 64 v.toBitVec))[i] = v.toBitVec[i]
  rw [BitVec.getElem_setWidth, BitVec.getLsbD_signExtend]
  simp [hlow, hi]

theorem lawful_bool : bool.Lawful := by
  refine lawful_number (fun v => ?_) fun v => ?_
  · cases v <;> decide
  · cases v <;> rfl

theorem readSized_append {v s : Bytes} (hv : v.length < UInt64.size) :
    readSized (Varint.encode v.length ++ v ++ s) = .ok (v, s) := by
  have hroom : ¬(v ++ s).length < v.length := by simp
  rw [readSized, List.append_assoc, Varint.decode_encode hv]
  simp only [if_neg hroom, List.take_left, List.drop_left]

theorem lawful_bytes : bytes.Lawful where
  isDefault_iff v := List.isEmpty_iff
  length_write v := by
    change (Varint.encode v.length ++ v).length = _
    rw [List.length_append, Varint.length_encode]
    rfl
  read_write v s hv := by
    refine readSized_append (Nat.lt_of_le_of_lt ?_ hv)
    exact Nat.le_add_left _ _

theorem length_ofText (v : String) : (Bytes.ofText v).length = v.utf8ByteSize := by
  simp [Bytes.ofText]

theorem lawful_text : text.Lawful where
  isDefault_iff v := by
    change v.isEmpty = true ↔ v = ""
    simp
  length_write v := by
    change (Varint.encode v.utf8ByteSize ++ Bytes.ofText v).length = _
    rw [List.length_append, Varint.length_encode, length_ofText]
    rfl
  read_write v s hv := by
    have hlt : (Bytes.ofText v).length < UInt64.size := by
      rw [length_ofText]
      exact Nat.lt_of_le_of_lt (Nat.le_add_left _ _) hv
    have hread := readSized_append (s := s) hlt
    rw [length_ofText] at hread
    simp only [text, hread, Bytes.text?_ofText]

end Scalar

end Keyspace.Wire
