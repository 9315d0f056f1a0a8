import Credential.Fingerprint.Basic
import Credential.Proofs.Fingerprint.Hex
/-!
# Credential.Proofs.Fingerprint.Name — the hexadecimal names of fingerprints

The name of a fingerprint is 32 digits in lower case. A text is taken for a fingerprint exactly if it is the
name of it but for case (`Fingerprint.ofHex?_eq_ok_iff`), so exactly if it consists of 32 digits. What else is
refused is told by `Hex.Reading`: for a flaw of the writing if there is one, else for the number of bytes.
-/

namespace Credential

namespace Fingerprint

/-- A text of 32 digits in either case. -/
def IsName (text : String) : Prop := text.length = 32 ∧ ∀ c ∈ text.toList, c ∈ Hex.digits

/-- A text that cannot be the writing of bytes: its own bytes are odd in number or not all digits. -/
def IsFlawed (text : String) : Prop :=
  text.utf8ByteSize % 2 = 1 ∨ ∃ b ∈ text.toUTF8.toList, ¬ Hex.IsDigit b

/-! ## Names -/

variable (f : Fingerprint)

theorem toList_hex : f.hex.toList = Hex.encodeChars f.bytes := String.toList_ofList

theorem length_hex : f.hex.length = 32 := by
  rw [← String.length_toList, toList_hex, Hex.length_encodeChars, f.length_eq]

theorem mem_lowerDigits_of_mem_hex {c : Char} (h : c ∈ f.hex.toList) : c ∈ Hex.lowerDigits := by
  rw [toList_hex] at h
  exact Hex.mem_lowerDigits_of_mem_encodeChars h

theorem toLower_hex : f.hex.toLower = f.hex := Hex.toLower_encode f.bytes

variable {f}

theorem ext_bytes {f g : Fingerprint} (h : f.bytes = g.bytes) : f = g := by
  obtain ⟨bytes, hlength⟩ := f
  obtain ⟨others, hothers⟩ := g
  cases h
  rfl

theorem hex_injective {f g : Fingerprint} (h : f.hex = g.hex) : f = g := by
  have hchars : Hex.encodeChars f.bytes = Hex.encodeChars g.bytes := by
    rw [← toList_hex, ← toList_hex, h]
  exact ext_bytes (Hex.encodeChars_injective hchars)

/-- A text whose lower case is a name is a text of 32 digits. -/
theorem isName_of_toLower {text : String} (h : f.hex = text.toLower) : IsName text := by
  have hchars : f.hex.toList = text.toList.map Char.toLower := by rw [h, Hex.toList_toLower]
  constructor
  · rw [← String.length_toList, ← List.length_map (f := Char.toLower), ← hchars, String.length_toList,
      length_hex]
  · intro c hc
    apply Hex.mem_digits_of_toLower
    apply f.mem_lowerDigits_of_mem_hex
    rw [hchars]
    exact List.mem_map_of_mem hc

/-! ## What is taken for a fingerprint -/

theorem ofBytes?_eq_ok_iff {bytes : List UInt8} : ofBytes? bytes = .ok f ↔ bytes = f.bytes := by
  unfold ofBytes?
  split
  · constructor
    · rintro ⟨⟩
      rfl
    · rintro rfl
      rfl
  · next hlength =>
    constructor
    · rintro ⟨⟩
    · rintro rfl
      exact absurd f.length_eq hlength

theorem ofBytes?_eq_error_iff {bytes : List UInt8} {e : FingerprintError} :
    ofBytes? bytes = .error e ↔ bytes.length ≠ 16 ∧ e = .invalidLength bytes.length := by
  unfold ofBytes?
  split
  · next hlength => simp [hlength]
  · next hlength => simp [hlength, eq_comm]

section Text

variable {text : String}

theorem ofHex?_of_decode {bytes : List UInt8} (h : Hex.decode text = .ok bytes) :
    ofHex? text = ofBytes? bytes := by
  rw [ofHex?, h]

theorem ofHex?_of_flaw {flaw : Hex.Flaw} (h : Hex.decode text = .error flaw) :
    ofHex? text = .error (.invalidHex flaw) := by
  rw [ofHex?, h]

theorem ofHex?_eq_invalidHex_iff {flaw : Hex.Flaw} :
    ofHex? text = .error (.invalidHex flaw) ↔ Hex.Reading text.toUTF8.toList (.error flaw) := by
  rw [← Hex.decodeBytes_eq_iff]
  change _ ↔ Hex.decode text = .error flaw
  cases hdecode : Hex.decode text with
  | ok bytes =>
    rw [ofHex?_of_decode hdecode, ofBytes?_eq_error_iff]
    simp
  | error other =>
    rw [ofHex?_of_flaw hdecode]
    simp

theorem ofHex?_eq_oddLength_iff :
    ofHex? text = .error (.invalidHex .oddLength) ↔ text.utf8ByteSize % 2 = 1 := by
  rw [ofHex?_eq_invalidHex_iff, ← Text.length_toList_toUTF8]
  constructor
  · rintro ⟨hodd⟩
    exact hodd
  · exact .oddLength

theorem ofHex?_eq_badDigit_iff {byte : UInt8} {index : Nat} :
    ofHex? text = .error (.invalidHex (.badDigit byte index)) ↔
      text.utf8ByteSize % 2 = 0 ∧ Hex.FirstBad text.toUTF8.toList index byte := by
  rw [ofHex?_eq_invalidHex_iff, ← Text.length_toList_toUTF8]
  constructor
  · rintro ⟨⟩
    exact ⟨‹_›, ‹_›⟩
  · rintro ⟨heven, hfirst⟩
    exact .badDigit heven hfirst

/-- A text is refused for its writing if that has a flaw. -/
theorem exists_invalidHex_iff : (∃ flaw, ofHex? text = .error (.invalidHex flaw)) ↔ IsFlawed text := by
  constructor
  · rintro ⟨flaw, h⟩
    cases flaw with
    | oddLength => exact .inl (ofHex?_eq_oddLength_iff.mp h)
    | badDigit byte index =>
      obtain ⟨-, hfirst⟩ := ofHex?_eq_badDigit_iff.mp h
      exact .inr ⟨byte, hfirst.mem, hfirst.bad⟩
  · intro hflawed
    cases hdecode : Hex.decode text with
    | error flaw => exact ⟨flaw, ofHex?_of_flaw hdecode⟩
    | ok bytes =>
      cases Hex.decodeBytes_eq_iff.mp hdecode with
      | digits heven hdigits _ =>
        rw [Text.length_toList_toUTF8] at heven
        rcases hflawed with hodd | ⟨b, hb, hbad⟩
        · omega
        · exact absurd (hdigits b hb) hbad

theorem not_isFlawed_of_isName (h : IsName text) : ¬ IsFlawed text := by
  rintro (hodd | ⟨b, hb, hbad⟩)
  · rw [Hex.length_of_digits h.2, h.1] at hodd
    omega
  · exact hbad ((Hex.forall_isDigit_iff text).mpr h.2 b hb)

/-- A text without a flaw is the writing of some bytes, half as many as its own. -/
theorem exists_decode (h : ¬ IsFlawed text) : ∃ bytes, ofHex? text = ofBytes? bytes ∧
    (∀ c ∈ text.toList, c ∈ Hex.digits) ∧ Hex.encodeChars bytes = text.toLower.toList ∧
    bytes.length = text.utf8ByteSize / 2 := by
  cases hdecode : Hex.decode text with
  | error flaw => exact absurd (exists_invalidHex_iff.mp ⟨flaw, ofHex?_of_flaw hdecode⟩) h
  | ok bytes =>
    cases Hex.decodeBytes_eq_iff.mp hdecode with
    | digits _ hdigits hwritten =>
      have hchars := (Hex.forall_isDigit_iff text).mp hdigits
      rw [Hex.map_lowered hchars] at hwritten
      refine ⟨bytes, ofHex?_of_decode hdecode, hchars, hwritten, ?_⟩
      have hlength := congrArg List.length hwritten
      rw [Hex.length_encodeChars, Hex.toList_toLower, List.length_map, String.length_toList,
        ← Hex.length_of_digits hchars] at hlength
      omega

/-- A text is taken for the fingerprint whose name it is but for case. -/
theorem ofHex?_eq_ok_iff : ofHex? text = .ok f ↔ f.hex = text.toLower := by
  constructor
  · intro h
    have hsound : ¬ IsFlawed text := by
      rw [← exists_invalidHex_iff, h]
      exact fun ⟨_, herror⟩ => nomatch herror
    obtain ⟨bytes, hbytes, -, hwritten, -⟩ := exists_decode hsound
    rw [hbytes, ofBytes?_eq_ok_iff] at h
    rw [← String.toList_inj, toList_hex, ← h, hwritten]
  · intro h
    have hname := isName_of_toLower h
    obtain ⟨bytes, hbytes, -, hwritten, -⟩ := exists_decode (not_isFlawed_of_isName hname)
    rw [← h, toList_hex] at hwritten
    rw [hbytes, ofBytes?_eq_ok_iff]
    exact Hex.encodeChars_injective hwritten

theorem exists_ofHex?_iff : (∃ f, ofHex? text = .ok f) ↔ IsName text := by
  constructor
  · rintro ⟨f, h⟩
    exact isName_of_toLower (ofHex?_eq_ok_iff.mp h)
  · intro hname
    obtain ⟨bytes, hbytes, -, -, hlength⟩ := exists_decode (not_isFlawed_of_isName hname)
    rw [Hex.length_of_digits hname.2, hname.1] at hlength
    exact ⟨⟨bytes, hlength⟩, hbytes.trans (ofBytes?_eq_ok_iff.mpr rfl)⟩

/-- Whatever is neither a name nor flawed has another number of bytes. -/
theorem ofHex?_eq_invalidLength_iff {found : Nat} : ofHex? text = .error (.invalidLength found) ↔
    ¬ IsName text ∧ ¬ IsFlawed text ∧ found = text.utf8ByteSize / 2 := by
  constructor
  · intro h
    have hsound : ¬ IsFlawed text := by
      rw [← exists_invalidHex_iff, h]
      exact fun ⟨_, herror⟩ => nomatch herror
    obtain ⟨bytes, hbytes, -, -, hlength⟩ := exists_decode hsound
    rw [hbytes, ofBytes?_eq_error_iff, FingerprintError.invalidLength.injEq] at h
    refine ⟨fun hname => h.1 ?_, hsound, h.2.trans hlength⟩
    rw [hlength, Hex.length_of_digits hname.2, hname.1]
  · rintro ⟨hname, hsound, rfl⟩
    obtain ⟨bytes, hbytes, hdigits, -, hlength⟩ := exists_decode hsound
    rw [hbytes, ofBytes?_eq_error_iff, hlength]
    refine ⟨fun hsixteen => hname ⟨?_, hdigits⟩, rfl⟩
    have heven : ¬ text.utf8ByteSize % 2 = 1 := fun hodd => hsound (.inl hodd)
    rw [← Hex.length_of_digits hdigits]
    omega

end Text

/-- A text is taken for a fingerprint exactly if it is 32 digits in either case, and then for the one with
that name in lower case. Every fingerprint is read back from its name, which is 32 digits in lower case. A text
with a flaw is refused for it, for an odd number of bytes first, else for the first byte that is no digit; all
other texts are refused for the number of bytes they write. -/
theorem ofHex?_inverts_hex :
    (∀ text : String,
      ((∃ f, ofHex? text = .ok f) ↔ IsName text) ∧
      (∀ f, ofHex? text = .ok f ↔ f.hex = text.toLower) ∧
      ((∃ flaw, ofHex? text = .error (.invalidHex flaw)) ↔ IsFlawed text) ∧
      (ofHex? text = .error (.invalidHex .oddLength) ↔ text.utf8ByteSize % 2 = 1) ∧
      (∀ byte index, ofHex? text = .error (.invalidHex (.badDigit byte index)) ↔
        text.utf8ByteSize % 2 = 0 ∧ Hex.FirstBad text.toUTF8.toList index byte) ∧
      ∀ found, ofHex? text = .error (.invalidLength found) ↔
        ¬ IsName text ∧ ¬ IsFlawed text ∧ found = text.utf8ByteSize / 2) ∧
    ∀ f : Fingerprint, f.hex.length = 32 ∧ (∀ c ∈ f.hex.toList, c ∈ Hex.lowerDigits) ∧
      ofHex? f.hex = .ok f := by
  constructor
  · intro text
    exact ⟨exists_ofHex?_iff, fun f => ofHex?_eq_ok_iff, exists_invalidHex_iff, ofHex?_eq_oddLength_iff,
      fun byte index => ofHex?_eq_badDigit_iff, fun found => ofHex?_eq_invalidLength_iff⟩
  · intro f
    exact ⟨f.length_hex, fun c => f.mem_lowerDigits_of_mem_hex, ofHex?_eq_ok_iff.mpr f.toLower_hex.symm⟩

end Fingerprint

end Credential
