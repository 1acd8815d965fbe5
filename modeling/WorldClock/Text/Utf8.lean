/-!
# Text as bytes

A text is stored as the bytes of its UTF-8 form. Reading refuses bytes that are no such form.
-/

namespace WorldClock

/-- A row of bytes. -/
abbrev Bytes := List UInt8

namespace Text

def bytes (s : String) : Bytes := s.toUTF8.data.toList

def ofBytes? (bs : Bytes) : Option String := String.fromUTF8? ⟨bs.toArray⟩

theorem ofBytes?_bytes (s : String) : ofBytes? (bytes s) = some s := by
  have h : (⟨(bytes s).toArray⟩ : ByteArray) = s.toUTF8 := by simp [bytes]
  rw [ofBytes?, h, String.fromUTF8?, String.toUTF8_eq_toByteArray, dif_pos s.isValidUTF8]
  rfl

end Text

end WorldClock
