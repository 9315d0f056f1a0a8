import Mathlib.Data.List.Basic
/-!
# Credential.Proofs.Utf8 — the bytes of a text

The bytes of a text are those of its characters, one after another. An ASCII character is one byte, its own
number, and a byte below 128 at the start of a character is the whole of it.
-/

namespace Credential.Text

theorem toList_loop (bytes : ByteArray) (i : Nat) (acc : List UInt8) :
    ByteArray.toList.loop bytes i acc = acc.reverse ++ bytes.data.toList.drop i := by
  fun_induction ByteArray.toList.loop bytes i acc with
  | case1 i acc h ih =>
    have hi : i < bytes.data.toList.length := h
    have hget : bytes.get! i = bytes.data.toList[i] := getElem!_pos bytes.data i h
    rw [ih, List.drop_eq_getElem_cons hi, List.reverse_cons, List.append_assoc, hget]
    rfl
  | case2 i acc h => rw [List.drop_eq_nil_of_le (Nat.le_of_not_lt h), List.append_nil]

theorem toList_byteArray (bytes : ByteArray) : bytes.toList = bytes.data.toList :=
  toList_loop bytes 0 []

theorem toList_toUTF8 (text : String) :
    text.toUTF8.toList = text.toList.flatMap String.utf8EncodeChar := by
  have hbytes : text.toUTF8 = text.toList.utf8Encode := String.utf8Encode_toList.symm
  rw [toList_byteArray, hbytes]
  exact List.toList_data_toByteArray

theorem length_toList_toUTF8 (text : String) : text.toUTF8.toList.length = text.utf8ByteSize := by
  rw [toList_byteArray]
  rfl

theorem utf8EncodeChar_of_ascii {c : Char} (h : c.toNat < 128) :
    String.utf8EncodeChar c = [UInt8.ofNat c.toNat] := by
  have hval : c.val.toNat ≤ 127 := Nat.le_of_lt_succ h
  have hsize : c.utf8Size = 1 := Char.utf8Size_eq_one_iff.mpr (UInt32.le_iff_toNat_le.mpr hval)
  rw [String.utf8EncodeChar_eq_singleton hsize]
  rfl

theorem toList_toUTF8_of_ascii {text : String} (h : ∀ c ∈ text.toList, c.toNat < 128) :
    text.toUTF8.toList = text.toList.map fun c => UInt8.ofNat c.toNat := by
  rw [toList_toUTF8, List.map_eq_flatMap]
  exact List.flatMap_congr fun c hc => utf8EncodeChar_of_ascii (h c hc)

/-- A first byte that is an ASCII character is the whole character. -/
theorem toNat_of_utf8EncodeChar {c : Char} {b : UInt8} {bs : List UInt8}
    (h : String.utf8EncodeChar c = b :: bs) (hb : b.toNat < 128) : c.toNat = b.toNat := by
  rw [String.utf8EncodeChar] at h
  split at h
  · next hascii =>
    rw [← (List.cons.inj h).1, UInt8.toNat_ofNat']
    change c.toNat = c.toNat % 2 ^ 8
    have hsmall : c.toNat ≤ 127 := hascii
    omega
  · have hfirst : ∀ n < 256, 128 ≤ n → UInt8.ofNat n ≠ b := by
      rintro n hn hlarge rfl
      rw [UInt8.toNat_ofNat'] at hb
      omega
    split at h
    · exact absurd (List.cons.inj h).1 (hfirst _ (by omega) (by omega))
    · split at h
      · exact absurd (List.cons.inj h).1 (hfirst _ (by omega) (by omega))
      · exact absurd (List.cons.inj h).1 (hfirst _ (by omega) (by omega))

end Credential.Text
