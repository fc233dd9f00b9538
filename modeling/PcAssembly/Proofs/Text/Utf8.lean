/-! # The bytes of a text

    A text stands in a file as the bytes of its characters, one character after
    the other.  Bytes below 128 stand for themselves wherever they occur, so a
    reader that looks for one of them may go byte by byte. -/

namespace PcAssembly.Text

/-- The bytes of a text in a file. -/
def utf8 (s : String) : List UInt8 := s.toUTF8.data.toList

theorem fromUTF8?_eq_some_iff {bytes : List UInt8} {s : String} :
    String.fromUTF8? ⟨bytes.toArray⟩ = some s ↔ bytes = utf8 s := by
  constructor
  · intro h
    rw [String.fromUTF8?] at h
    split at h
    · obtain rfl := Option.some.inj h
      rfl
    · exact nomatch h
  · rintro rfl
    rw [utf8, Array.toArray_toList]
    exact dif_pos s.isValidUTF8

theorem utf8_ofList (s : List Char) :
    utf8 (String.ofList s) = s.flatMap String.utf8EncodeChar := by
  show (s.flatMap String.utf8EncodeChar).toByteArray.data.toList = _
  simp

theorem utf8_eq_flatMap (s : String) : utf8 s = s.toList.flatMap String.utf8EncodeChar := by
  rw [← utf8_ofList, String.ofList_toList]

/-- The first byte of a longer character and the bytes that follow it are all
    beyond 127. -/
theorem toNat_eq_of_mem_utf8EncodeChar {c : Char} {byte : UInt8} (hbyte : byte.toNat < 128)
    (h : byte ∈ String.utf8EncodeChar c) : byte.toNat = c.toNat := by
  change byte.toNat = c.val.toNat
  simp only [String.utf8EncodeChar] at h
  split at h
  · rename_i hascii
    rw [List.mem_singleton.mp h, UInt8.toNat_ofNat']
    omega
  · exfalso
    have hlong : ∀ n, byte = UInt8.ofNat n → 128 ≤ n → n < 256 → False := by
      rintro n rfl hlow hhigh
      rw [UInt8.toNat_ofNat'] at hbyte
      omega
    split at h
    · simp only [List.mem_cons, List.not_mem_nil, or_false] at h
      rcases h with h | h <;> exact hlong _ h (by omega) (by omega)
    · split at h
      · simp only [List.mem_cons, List.not_mem_nil, or_false] at h
        rcases h with h | h | h <;> exact hlong _ h (by omega) (by omega)
      · simp only [List.mem_cons, List.not_mem_nil, or_false] at h
        rcases h with h | h | h | h <;> exact hlong _ h (by omega) (by omega)

end PcAssembly.Text
