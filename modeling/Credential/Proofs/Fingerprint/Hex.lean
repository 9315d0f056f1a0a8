import Credential.Fingerprint.Hex
import Credential.Proofs.Lists
import Credential.Proofs.Utf8
/-!
# Credential.Proofs.Fingerprint.Hex — what hexadecimal text is read as

A text is read pair by pair of its bytes. What is made of it depends on its bytes alone (`Hex.Reading`): on
whether their number is odd, else on the first of them that is no digit; where all are digits, writing what
was read gives the digits back in lower case. No byte of a character beyond ASCII is a digit, so a text
whose bytes are digits is a text of digits.
-/

namespace Credential.Hex

/-! ## Digits -/

/-- The digits, in lower case. -/
def lowerDigits : List Char := "0123456789abcdef".toList

/-- The digits, in either case. -/
def digits : List Char := "0123456789abcdefABCDEF".toList

/-- A byte that is a digit. -/
def IsDigit (byte : UInt8) : Prop := ∃ c ∈ digits, c.toNat = byte.toNat

-- sought among the digits: the library would go through all characters
instance : DecidablePred IsDigit := fun byte => List.decidableBEx (fun c : Char => c.toNat = byte.toNat) digits

/-- The character of a byte, in lower case. -/
def lowered (byte : UInt8) : Char := (Char.ofNat byte.toNat).toLower

theorem forall_byte {p : UInt8 → Prop} (h : ∀ n < 256, p (.ofNat n)) (b : UInt8) : p b := by
  have hb := h b.toNat b.toNat_lt
  rwa [UInt8.ofNat_toNat] at hb

theorem value?_eq_none_iff (b : UInt8) : value? b = none ↔ ¬ IsDigit b :=
  forall_byte (p := fun b => value? b = none ↔ ¬ IsDigit b) (by decide +kernel) b

theorem isDigit_of_value? {b : UInt8} {v : Nat} (h : value? b = some v) : IsDigit b := by
  by_contra hb
  rw [(value?_eq_none_iff b).mpr hb] at h
  cases h

/-- The value of a digit is written as that digit in lower case. -/
theorem digit_of_value? {b : UInt8} {v : Nat} (h : value? b = some v) :
    v < 16 ∧ digit v = lowered b := by
  have hall : ∀ n < 256, ∀ v ∈ value? (.ofNat n), v < 16 ∧ digit v = lowered (.ofNat n) := by
    decide +kernel
  exact forall_byte (p := fun b => ∀ v ∈ value? b, v < 16 ∧ digit v = lowered b) hall b v h

theorem value?_digit {v : Nat} (h : v < 16) : value? (.ofNat (digit v).toNat) = some v := by
  have hall : ∀ v < 16, value? (.ofNat (digit v).toNat) = some v := by decide
  exact hall v h

theorem digit_mem_lowerDigits {v : Nat} (h : v < 16) : digit v ∈ lowerDigits := by
  have hall : ∀ v < 16, digit v ∈ lowerDigits := by decide
  exact hall v h

/-! ## Writing -/

theorem length_encodeChars (bytes : List UInt8) : (encodeChars bytes).length = 2 * bytes.length := by
  induction bytes with
  | nil => rfl
  | cons b bytes ih =>
    rw [encodeChars, List.flatMap_cons, List.length_append, ← encodeChars, ih]
    simp only [List.length_cons, List.length_nil]
    omega

theorem mem_lowerDigits_of_mem_encodeChars {bytes : List UInt8} {c : Char} (h : c ∈ encodeChars bytes) :
    c ∈ lowerDigits := by
  obtain ⟨b, -, hc⟩ := List.mem_flatMap.mp h
  have hb := b.toNat_lt
  rcases List.mem_cons.mp hc with rfl | hc
  · exact digit_mem_lowerDigits (by omega)
  · rw [List.mem_singleton.mp hc]
    exact digit_mem_lowerDigits (by omega)

/-- A byte made of two digits is written as these. -/
theorem encodeChars_cons {h l : Nat} (hh : h < 16) (hl : l < 16) (bytes : List UInt8) :
    encodeChars (.ofNat (16 * h + l) :: bytes) = digit h :: digit l :: encodeChars bytes := by
  have hbyte : (UInt8.ofNat (16 * h + l)).toNat = 16 * h + l := by
    rw [UInt8.toNat_ofNat']
    omega
  rw [encodeChars, List.flatMap_cons, hbyte, ← encodeChars,
    show (16 * h + l) / 16 = h by omega, show (16 * h + l) % 16 = l by omega]
  rfl

theorem digit_inj {m n : Nat} (hm : m < 16) (hn : n < 16) (h : digit m = digit n) : m = n := by
  have hvalue := value?_digit hm
  rw [h, value?_digit hn] at hvalue
  exact (Option.some.inj hvalue).symm

theorem encodeChars_injective {a b : List UInt8} (h : encodeChars a = encodeChars b) : a = b := by
  induction a generalizing b with
  | nil =>
    have hlength := congrArg List.length h
    rw [length_encodeChars, length_encodeChars, List.length_nil] at hlength
    exact (List.eq_nil_of_length_eq_zero (by omega)).symm
  | cons x a ih =>
    cases b with
    | nil => cases h
    | cons y b =>
      rw [encodeChars, encodeChars, List.flatMap_cons, List.flatMap_cons] at h
      obtain ⟨hhigh, h⟩ := List.cons.inj h
      obtain ⟨hlow, hrest⟩ := List.cons.inj h
      have hx := x.toNat_lt
      have hy := y.toNat_lt
      have h1 := digit_inj (by omega) (by omega) hhigh
      have h2 := digit_inj (by omega) (by omega) hlow
      have hxy : x = y := UInt8.toNat_inj.mp (by omega)
      rw [hxy, ih hrest]

/-! ## Reading -/

/-- The first byte that is no digit, with its index. -/
structure FirstBad (bytes : List UInt8) (index : Nat) (byte : UInt8) : Prop where
  found : bytes[index]? = some byte
  bad : ¬ IsDigit byte
  before : ∀ b ∈ bytes.take index, IsDigit b

/-- What is made of some bytes. -/
inductive Reading (bytes : List UInt8) : Except Flaw (List UInt8) → Prop where
  | oddLength (hodd : bytes.length % 2 = 1) : Reading bytes (.error .oddLength)
  | badDigit {byte : UInt8} {index : Nat} (heven : bytes.length % 2 = 0)
    (hfirst : FirstBad bytes index byte) : Reading bytes (.error (.badDigit byte index))
  | digits {decoded : List UInt8} (heven : bytes.length % 2 = 0) (hdigits : ∀ b ∈ bytes, IsDigit b)
    (hwritten : encodeChars decoded = bytes.map lowered) : Reading bytes (.ok decoded)

theorem FirstBad.cons {bytes : List UInt8} {index : Nat} {byte b : UInt8} (h : FirstBad bytes index byte)
    (hb : IsDigit b) : FirstBad (b :: bytes) (index + 1) byte where
  found := h.found
  bad := h.bad
  before := List.forall_mem_cons.mpr ⟨hb, h.before⟩

theorem FirstBad.head {b : UInt8} (h : ¬ IsDigit b) (bytes : List UInt8) : FirstBad (b :: bytes) 0 b where
  found := rfl
  bad := h
  before := nofun

theorem length_even_of_cons {b c : UInt8} {rest : List UInt8} (h : (b :: c :: rest).length % 2 = 0) :
    rest.length % 2 = 0 := by
  simp only [List.length_cons] at h
  omega

/-- Pairs of digits are read as the bytes that are written so; other pairs are not read. -/
theorem decodeFrom_cases (start : Nat) (bytes : List UInt8) (heven : bytes.length % 2 = 0) :
    (∃ decoded, decodeFrom start bytes = .ok decoded ∧ (∀ b ∈ bytes, IsDigit b) ∧
      encodeChars decoded = bytes.map lowered) ∨
    ∃ byte index, decodeFrom start bytes = .error (.badDigit byte (start + index)) ∧
      FirstBad bytes index byte := by
  fun_induction decodeFrom start bytes with
  | case1 start =>
    left
    exact ⟨[], rfl, nofun, rfl⟩
  | case2 start b => cases heven
  | case3 start high low rest h l hl hh ih =>
    obtain ⟨hh16, hhigh⟩ := digit_of_value? hh
    obtain ⟨hl16, hlow⟩ := digit_of_value? hl
    have hhighDigit := isDigit_of_value? hh
    have hlowDigit := isDigit_of_value? hl
    rcases ih (length_even_of_cons heven) with ⟨decoded, hok, hdigits, hwritten⟩ | ⟨byte, index, herror, hfirst⟩
    · left
      refine ⟨.ofNat (16 * h + l) :: decoded, ?_, ?_, ?_⟩
      · rw [hok]
        rfl
      · exact List.forall_mem_cons.mpr ⟨hhighDigit, List.forall_mem_cons.mpr ⟨hlowDigit, hdigits⟩⟩
      · rw [encodeChars_cons hh16 hl16, hhigh, hlow, hwritten]
        rfl
    · right
      refine ⟨byte, index + 2, ?_, (hfirst.cons hlowDigit).cons hhighDigit⟩
      rw [herror, Nat.add_assoc, Nat.add_comm 2]
      rfl
  | case4 start high low rest hh =>
    right
    exact ⟨high, 0, rfl, .head ((value?_eq_none_iff high).mp hh) _⟩
  | case5 start high low rest hl hh =>
    right
    have hhighDigit : IsDigit high := by
      by_contra hbad
      exact hh ((value?_eq_none_iff high).mpr hbad)
    exact ⟨low, 1, rfl, (FirstBad.head ((value?_eq_none_iff low).mp hl) rest).cons hhighDigit⟩

theorem reading_decodeBytes (bytes : List UInt8) : Reading bytes (decodeBytes bytes) := by
  unfold decodeBytes
  split
  · next hodd => exact .oddLength hodd
  · next hodd =>
    have heven : bytes.length % 2 = 0 := by omega
    rcases decodeFrom_cases 0 bytes heven with ⟨decoded, hok, hdigits, hwritten⟩ | ⟨byte, index, herror, hfirst⟩
    · rw [hok]
      exact .digits heven hdigits hwritten
    · rw [herror, Nat.zero_add]
      exact .badDigit heven hfirst

theorem FirstBad.mem {bytes : List UInt8} {index : Nat} {byte : UInt8} (h : FirstBad bytes index byte) :
    byte ∈ bytes := List.mem_of_getElem? h.found

theorem FirstBad.unique {bytes : List UInt8} {i j : Nat} {b c : UInt8} (hb : FirstBad bytes i b)
    (hc : FirstBad bytes j c) : i = j ∧ b = c := by
  have hle : ∀ {m n x y}, FirstBad bytes m x → FirstBad bytes n y → m ≤ n := by
    intro m n x y hx hy
    by_contra hlt
    refine hy.bad (hx.before y (List.mem_of_getElem? (i := n) ?_))
    rw [List.getElem?_take_of_lt (by omega)]
    exact hy.found
  have hij : i = j := Nat.le_antisymm (hle hb hc) (hle hc hb)
  subst hij
  exact ⟨rfl, Option.some.inj (hb.found.symm.trans hc.found)⟩

theorem Reading.unique {bytes : List UInt8} {r s : Except Flaw (List UInt8)} (hr : Reading bytes r)
    (hs : Reading bytes s) : r = s := by
  cases hr with
  | oddLength hodd =>
    cases hs with
    | oddLength => rfl
    | badDigit heven => omega
    | digits heven => omega
  | badDigit heven hfirst =>
    cases hs with
    | oddLength hodd => omega
    | badDigit _ hother =>
      obtain ⟨rfl, rfl⟩ := hfirst.unique hother
      rfl
    | digits _ hdigits => exact absurd (hdigits _ hfirst.mem) hfirst.bad
  | digits heven hdigits hwritten =>
    cases hs with
    | oddLength hodd => omega
    | badDigit _ hfirst => exact absurd (hdigits _ hfirst.mem) hfirst.bad
    | digits _ _ hother => rw [encodeChars_injective (hwritten.trans hother.symm)]

/-- What is made of some bytes is determined by the rules. -/
theorem decodeBytes_eq_iff {bytes : List UInt8} {r : Except Flaw (List UInt8)} :
    decodeBytes bytes = r ↔ Reading bytes r := by
  constructor
  · rintro rfl
    exact reading_decodeBytes bytes
  · exact (reading_decodeBytes bytes).unique

/-! ## Texts -/

theorem toList_toLower (text : String) : text.toLower.toList = text.toList.map Char.toLower :=
  String.toList_map

theorem lt_of_mem_digits {c : Char} (h : c ∈ digits) : c.toNat < 128 := by
  have hall : (digits.all fun c => c.toNat < 128) = true := by decide
  exact of_decide_eq_true (List.all_eq_true.mp hall c h)

/-- A text whose bytes are digits is one whose characters are. -/
theorem forall_isDigit_iff (text : String) :
    (∀ b ∈ text.toUTF8.toList, IsDigit b) ↔ ∀ c ∈ text.toList, c ∈ digits := by
  constructor
  · intro h c hc
    obtain ⟨b, bs, hbytes⟩ := List.exists_cons_of_ne_nil (String.utf8EncodeChar_ne_nil (c := c))
    have hb : b ∈ text.toUTF8.toList := by
      rw [Text.toList_toUTF8]
      exact List.mem_flatMap.mpr ⟨c, hc, hbytes ▸ List.mem_cons_self⟩
    obtain ⟨d, hd, hdb⟩ := h b hb
    have hcd : c.toNat = d.toNat :=
      (Text.toNat_of_utf8EncodeChar hbytes (hdb ▸ lt_of_mem_digits hd)).trans hdb.symm
    rwa [Char.toNat_inj.mp hcd]
  · intro h b hb
    rw [Text.toList_toUTF8_of_ascii fun c hc => lt_of_mem_digits (h c hc)] at hb
    obtain ⟨c, hc, rfl⟩ := List.mem_map.mp hb
    have hlt := lt_of_mem_digits (h c hc)
    refine ⟨c, h c hc, ?_⟩
    rw [UInt8.toNat_ofNat']
    omega

/-- The bytes of a text of digits in lower case are the text in lower case. -/
theorem map_lowered {text : String} (h : ∀ c ∈ text.toList, c ∈ digits) :
    text.toUTF8.toList.map lowered = text.toLower.toList := by
  rw [Text.toList_toUTF8_of_ascii fun c hc => lt_of_mem_digits (h c hc), List.map_map, toList_toLower]
  apply List.map_congr_left
  intro c hc
  have hlt := lt_of_mem_digits (h c hc)
  have hbyte : (UInt8.ofNat c.toNat).toNat = c.toNat := by
    rw [UInt8.toNat_ofNat']
    omega
  rw [Function.comp_apply, lowered, hbyte, Char.ofNat_toNat]

theorem length_of_digits {text : String} (h : ∀ c ∈ text.toList, c ∈ digits) :
    text.utf8ByteSize = text.length := by
  rw [← Text.length_toList_toUTF8, Text.toList_toUTF8_of_ascii fun c hc => lt_of_mem_digits (h c hc),
    List.length_map, String.length_toList]

/-! ## Writing and reading -/

theorem mem_digits_of_mem_lowerDigits {c : Char} (h : c ∈ lowerDigits) : c ∈ digits := by
  have hsub : lowerDigits <+: digits := by decide
  exact hsub.subset h

theorem mem_digits_of_toLower {c : Char} (h : c.toLower ∈ lowerDigits) : c ∈ digits := by
  have hall : ∀ n < 128, (Char.ofNat n).toLower ∈ lowerDigits → Char.ofNat n ∈ digits := by
    decide +kernel
  by_cases hc : c.toNat < 128
  · rw [← Char.ofNat_toNat c] at h ⊢
    exact hall _ hc h
  · have hsame : c.toLower = c := dif_neg fun hupper => hc (by
      have hhigh : c.toNat ≤ 90 := hupper.2
      omega)
    rw [hsame] at h
    exact absurd (lt_of_mem_digits (mem_digits_of_mem_lowerDigits h)) hc

theorem toLower_of_mem_lowerDigits {c : Char} (h : c ∈ lowerDigits) : c.toLower = c := by
  have hall : lowerDigits.map Char.toLower = lowerDigits := by decide
  exact map_eq_self.mp hall c h

theorem toLower_encode (bytes : List UInt8) : (encode bytes).toLower = encode bytes := by
  apply String.toList_inj.mp
  rw [toList_toLower]
  apply map_eq_self.mpr
  intro c hc
  rw [encode, String.toList_ofList] at hc
  exact toLower_of_mem_lowerDigits (mem_lowerDigits_of_mem_encodeChars hc)

theorem mem_digits_of_mem_encode {bytes : List UInt8} {c : Char} (h : c ∈ (encode bytes).toList) :
    c ∈ digits := by
  rw [encode, String.toList_ofList] at h
  exact mem_digits_of_mem_lowerDigits (mem_lowerDigits_of_mem_encodeChars h)

/-- Bytes are read back from their writing. -/
theorem decode_encode (bytes : List UInt8) : decode (encode bytes) = .ok bytes := by
  have hdigits : ∀ c ∈ (encode bytes).toList, c ∈ digits := fun _ => mem_digits_of_mem_encode
  apply decodeBytes_eq_iff.mpr
  apply Reading.digits
  · rw [Text.length_toList_toUTF8, length_of_digits hdigits, encode, String.length_ofList,
      length_encodeChars]
    omega
  · exact (forall_isDigit_iff _).mpr hdigits
  · rw [map_lowered hdigits, toLower_encode, encode, String.toList_ofList]

end Credential.Hex
