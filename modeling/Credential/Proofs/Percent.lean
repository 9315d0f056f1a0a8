import Credential.Percent
import Credential.Proofs.Utf8
/-!
# Credential.Proofs.Percent — escaping and reading

What is escaped is made of characters that are not escaped (`isKept_of_mem_encode`). Characters without
percent sign are what they are decoded to.
-/

namespace Credential.Percent

variable {escaped : Char → Bool}

/-! ## Escaping -/

/-- Whether a character stays as it is. -/
def isKept (escaped : Char → Bool) (c : Char) : Bool := !(c.toNat < 32 || 126 < c.toNat || escaped c)

theorem encodeChar_of_isKept {c : Char} (h : isKept escaped c = true) : encodeChar escaped c = [c] := by
  rw [isKept, Bool.not_eq_true'] at h
  rw [encodeChar, if_neg (ne_true_of_eq_false h)]

theorem encodeChar_of_not_isKept {c : Char} (h : isKept escaped c = false) :
    encodeChar escaped c = (String.utf8EncodeChar c).flatMap encodeByte := by
  rw [isKept, Bool.not_eq_false'] at h
  rw [encodeChar, if_pos h]

theorem encode_of_isKept {cs : List Char} (h : ∀ c ∈ cs, isKept escaped c = true) :
    encode escaped cs = cs := by
  induction cs with
  | nil => rfl
  | cons c cs ih =>
    obtain ⟨hc, hcs⟩ := List.forall_mem_cons.mp h
    rw [encode, List.flatMap_cons, encodeChar_of_isKept hc]
    exact congrArg (c :: ·) (ih hcs)

/-- The characters that escapes are made of. -/
def escapeChars : List Char := "%0123456789ABCDEF".toList

theorem mem_escapeChars_of_mem_encodeByte {b : UInt8} {c : Char} (h : c ∈ encodeByte b) :
    c ∈ escapeChars := by
  have hdigit : ∀ n ∈ List.range 16, digit n ∈ escapeChars := by decide
  have hb := b.toNat_lt
  simp only [encodeByte, List.mem_cons, List.not_mem_nil, or_false] at h
  rcases h with rfl | rfl | rfl
  · decide
  · exact hdigit _ (List.mem_range.mpr (by omega))
  · exact hdigit _ (List.mem_range.mpr (by omega))

theorem of_mem_encode {cs : List Char} {c : Char} (h : c ∈ encode escaped cs) :
    c ∈ escapeChars ∨ c ∈ cs ∧ isKept escaped c = true := by
  obtain ⟨d, hd, hc⟩ := List.mem_flatMap.mp h
  cases hkept : isKept escaped d with
  | true =>
    rw [encodeChar_of_isKept hkept, List.mem_singleton] at hc
    subst hc
    exact .inr ⟨hd, hkept⟩
  | false =>
    rw [encodeChar_of_not_isKept hkept] at hc
    obtain ⟨b, -, hb⟩ := List.mem_flatMap.mp hc
    exact .inl (mem_escapeChars_of_mem_encodeByte hb)

/-- What is escaped has nothing left to escape, if escapes have not. -/
theorem isKept_of_mem_encode (hescapes : escapeChars.all (isKept escaped) = true) {cs : List Char}
    {c : Char} (h : c ∈ encode escaped cs) : isKept escaped c = true := by
  rcases of_mem_encode h with hc | ⟨-, hc⟩
  · exact List.all_eq_true.mp hescapes c hc
  · exact hc

/-- What starts the escaped form of some characters is the first of them or a percent sign with its first
byte. -/
theorem encode_eq_cons {cs xs : List Char} {x : Char} (h : encode escaped cs = x :: xs) :
    ∃ c rest, cs = c :: rest ∧
      (isKept escaped c = true ∧ c = x ∧ encode escaped rest = xs ∨
        isKept escaped c = false ∧ ∃ b bs, String.utf8EncodeChar c = b :: bs ∧
          encodeByte b ++ (bs.flatMap encodeByte ++ encode escaped rest) = x :: xs) := by
  cases cs with
  | nil => cases h
  | cons c rest =>
    refine ⟨c, rest, rfl, ?_⟩
    rw [encode, List.flatMap_cons] at h
    cases hkept : isKept escaped c with
    | true =>
      rw [encodeChar_of_isKept hkept] at h
      obtain ⟨hc, hrest⟩ := List.cons.inj h
      exact .inl ⟨rfl, hc, hrest⟩
    | false =>
      obtain ⟨b, bs, hbytes⟩ := List.exists_cons_of_ne_nil (String.utf8EncodeChar_ne_nil (c := c))
      rw [encodeChar_of_not_isKept hkept, hbytes, List.flatMap_cons, List.append_assoc] at h
      exact .inr ⟨rfl, b, bs, hbytes, h⟩

theorem encode_eq_nil {cs : List Char} (h : encode escaped cs = []) : cs = [] := by
  cases cs with
  | nil => rfl
  | cons c rest =>
    rw [encode, List.flatMap_cons, List.append_eq_nil_iff] at h
    cases hkept : isKept escaped c with
    | true =>
      rw [encodeChar_of_isKept hkept] at h
      cases h.1
    | false =>
      obtain ⟨b, bs, hbytes⟩ := List.exists_cons_of_ne_nil (String.utf8EncodeChar_ne_nil (c := c))
      rw [encodeChar_of_not_isKept hkept, hbytes] at h
      cases h.1

/-- What starts with no percent sign starts as it did before it was escaped. -/
theorem encode_eq_cons_of_ne {cs xs : List Char} {x : Char} (h : encode escaped cs = x :: xs)
    (hx : x ≠ '%') : ∃ rest, cs = x :: rest ∧ encode escaped rest = xs := by
  obtain ⟨c, rest, rfl, ⟨-, rfl, hrest⟩ | ⟨-, b, bs, -, hescape⟩⟩ := encode_eq_cons h
  · exact ⟨rest, rfl, hrest⟩
  · exact absurd (List.cons.inj hescape).1.symm hx

/-! ## Reading -/

theorem bytes_of_not_mem {cs : List Char} (h : '%' ∉ cs) :
    bytes cs = cs.flatMap String.utf8EncodeChar := by
  induction cs with
  | nil => rfl
  | cons c cs ih =>
    obtain ⟨hc, hcs⟩ := not_or.mp (mt List.mem_cons.mpr h)
    rw [List.flatMap_cons, ← ih hcs]
    conv => lhs; unfold bytes
    split
    · next heq => exact absurd (List.cons.inj heq).1.symm hc
    · next heq =>
      obtain ⟨rfl, rfl⟩ := List.cons.inj heq
      rfl
    · next heq => cases heq

/-- Without a percent sign there is nothing to decode. -/
theorem decode?_of_not_mem {cs : List Char} (h : '%' ∉ cs) : decode? cs = some (String.ofList cs) := by
  have hbytes : (⟨(bytes cs).toArray⟩ : ByteArray) = cs.utf8Encode := by
    rw [bytes_of_not_mem h]
    exact congrArg ByteArray.mk List.data_toByteArray.symm
  unfold decode? String.fromUTF8?
  rw [hbytes, dif_pos ByteArray.isValidUTF8_utf8Encode]
  rfl

end Credential.Percent
