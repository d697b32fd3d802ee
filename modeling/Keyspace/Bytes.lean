namespace Keyspace

/-- A string of bytes: a key, a value, an encoded message. Byte strings are compared with the
order of lists, where a proper initial part comes before the whole. -/
abbrev Bytes := List UInt8

namespace Bytes

def ofText (s : String) : Bytes :=
  s.toByteArray.data.toList

def text? (s : Bytes) : Option String :=
  String.fromUTF8? ⟨s.toArray⟩

@[simp] theorem text?_ofText (s : String) : text? (ofText s) = some s := by
  have h : (⟨(ofText s).toArray⟩ : ByteArray) = s.toByteArray := by simp [ofText]
  unfold text? String.fromUTF8?
  rw [h, dif_pos s.isValidUTF8]
  rfl

/-- The three-way form of the order on byte strings. -/
def order (s t : Bytes) : Ordering :=
  compareOfLessAndEq s t

end Bytes

end Keyspace
