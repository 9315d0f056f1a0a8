import Credential.Proofs.Fingerprint.Name
import Credential.Proofs.Numeral
import Mathlib.Algebra.BigOperators.Ring.Finset
import Mathlib.Algebra.BigOperators.Intervals
import Mathlib.Tactic.Ring
/-!
# Credential.Proofs.Fingerprint.Identifiers — the two names of a type

A type is known by the last sixteen bytes of a digest. One name of it shows them as hexadecimal text, the other
as the decimal numeral of the integer that they make up, the lowest first. The bytes are read back from
either, zeros at both ends included, so each name tells the other (`Fingerprint.identifiers?_denote`).
-/

namespace Credential

/-! ## Bytes and integers -/

/-- The bytes of an integer, the lowest first: as many as are asked for. -/
def littleEndianBytes : Nat → Nat → List UInt8
  | 0, _ => []
  | count + 1, n => .ofNat (n % 256) :: littleEndianBytes count (n / 256)

theorem littleEndian_lt (bytes : List UInt8) : littleEndian bytes < 256 ^ bytes.length := by
  induction bytes with
  | nil => exact Nat.one_pos
  | cons b bytes ih =>
    have hb := b.toNat_lt
    rw [littleEndian, List.length_cons, Nat.pow_succ]
    omega

/-- Bytes are restored from their integer and their number, so zeros in front or at the end are not lost. -/
theorem littleEndianBytes_littleEndian (bytes : List UInt8) :
    littleEndianBytes bytes.length (littleEndian bytes) = bytes := by
  induction bytes with
  | nil => rfl
  | cons b bytes ih =>
    have hb := b.toNat_lt
    rw [littleEndian, List.length_cons, littleEndianBytes,
      show (b.toNat + 256 * littleEndian bytes) % 256 = b.toNat by omega,
      show (b.toNat + 256 * littleEndian bytes) / 256 = littleEndian bytes by omega,
      ih, UInt8.ofNat_toNat]

example : littleEndianBytes 4 (littleEndian [0, 1, 2, 0]) = [0, 1, 2, 0] := rfl

/-- The integer that some bytes make up by their positions. -/
def positional (bytes : List UInt8) : Nat :=
  ∑ i ∈ Finset.range bytes.length, (bytes.getD i 0).toNat * 256 ^ i

theorem littleEndian_eq_positional (bytes : List UInt8) : littleEndian bytes = positional bytes := by
  induction bytes with
  | nil => rfl
  | cons b bytes ih =>
    have hrest : ∀ i, ((b :: bytes).getD (i + 1) 0).toNat * 256 ^ (i + 1) =
        256 * ((bytes.getD i 0).toNat * 256 ^ i) := by
      intro i
      rw [List.getD_cons_succ, Nat.pow_succ]
      ring
    rw [littleEndian, positional, List.length_cons, Finset.sum_range_succ', ih, positional, Finset.mul_sum,
      Finset.sum_congr rfl fun i _ => hrest i]
    simp [Nat.add_comm]

/-! ## Digests -/

theorem Keccak.length_bytesOfLane (w : UInt64) : (Keccak.bytesOfLane w).length = 8 := by
  rw [Keccak.bytesOfLane, List.length_map, List.length_range]

theorem Keccak.length_digest (message : List UInt8) : (Keccak.digest message).length = 32 := by
  simp [Keccak.digest, Keccak.length_bytesOfLane, List.range_succ]

namespace Fingerprint

theorem ofDigest?_of_le {digest : List UInt8} (h : 16 ≤ digest.length) :
    ∃ f : Fingerprint, ofDigest? digest = .ok f ∧ f.bytes = digest.drop (digest.length - 16) := by
  unfold ofDigest?
  rw [dif_pos h]
  exact ⟨_, rfl, rfl⟩

/-- The hexadecimal text of a digest is read back as the digest. -/
theorem decode_hexDigest (id : String) :
    Hex.decode (hexDigest id) = .ok (Keccak.digest id.toUTF8.toList) := Hex.decode_encode _

theorem ofId?_eq (id : String) : ofId? id = ofDigest? (Keccak.digest id.toUTF8.toList) := by
  rw [ofId?, decode_hexDigest]

/-- The last sixteen bytes of the digest of an identifier. -/
def digestTail (id : String) : List UInt8 :=
  let digest := Keccak.digest id.toUTF8.toList
  digest.drop (digest.length - 16)

theorem exists_ofId? (id : String) : ∃ f : Fingerprint, ofId? id = .ok f ∧ f.bytes = digestTail id := by
  have hlength := Keccak.length_digest id.toUTF8.toList
  obtain ⟨f, hf, hbytes⟩ := ofDigest?_of_le (show 16 ≤ (Keccak.digest id.toUTF8.toList).length by omega)
  exact ⟨f, (ofId?_eq id).trans hf, hbytes⟩

theorem identifiers?_of_ofId? {id : String} {f : Fingerprint} (h : ofId? id = .ok f) :
    identifiers? id = .ok ⟨f.hex, Nat.repr f.number⟩ := by
  rw [identifiers?, h]
  rfl

/-! ## The two names -/

theorem littleEndianBytes_number (f : Fingerprint) : littleEndianBytes 16 f.number = f.bytes := by
  have hbytes := littleEndianBytes_littleEndian f.bytes
  rwa [f.length_eq] at hbytes

theorem number_lt (f : Fingerprint) : f.number < 2 ^ 128 := by
  have hlt := littleEndian_lt f.bytes
  rw [f.length_eq] at hlt
  exact hlt

theorem value?_number (f : Fingerprint) :
    Numeral.value? 10 (Nat.repr f.number).toList = some f.number := by
  rw [Nat.toList_repr]
  exact Numeral.value?_toDigits (by decide) (by decide) f.number

/-- The numeral tells the fingerprint. -/
theorem repr_number_injective {f g : Fingerprint} (h : Nat.repr f.number = Nat.repr g.number) : f = g := by
  have hvalue := f.value?_number
  rw [h, g.value?_number, Option.some.injEq] at hvalue
  apply ext_bytes
  rw [← f.littleEndianBytes_number, ← g.littleEndianBytes_number, hvalue]

end Fingerprint

/-- The two names of sixteen bytes: their hexadecimal text, and the decimal numeral of the integer that they make
up by their positions. From the numeral the sixteen bytes are restored, and so the other name. -/
structure Identifiers.Denote (names : Identifiers) (bytes : List UInt8) : Prop where
  length_bytes : bytes.length = 16
  hash : names.hash = Hex.encode bytes
  length_hash : names.hash.length = 32
  hash_digits : ∀ c ∈ names.hash.toList, c ∈ Hex.lowerDigits
  number : Numeral.value? 10 names.number.toList = some (positional bytes)
  number_lt : positional bytes < 2 ^ 128
  number_canonical : Numeral.IsCanonical names.number.toList
  hash_of_number : (Numeral.value? 10 names.number.toList).map
    (fun n => Hex.encode (littleEndianBytes 16 n)) = some names.hash

namespace Fingerprint

theorem denote (f : Fingerprint) : Identifiers.Denote ⟨f.hex, Nat.repr f.number⟩ f.bytes where
  length_bytes := f.length_eq
  hash := rfl
  length_hash := f.length_hex
  hash_digits _ := f.mem_lowerDigits_of_mem_hex
  number := by
    rw [value?_number, Fingerprint.number, littleEndian_eq_positional]
  number_lt := by
    rw [← littleEndian_eq_positional]
    exact f.number_lt
  number_canonical := by
    rw [Nat.toList_repr]
    exact Numeral.isCanonical_toDigits f.number
  hash_of_number := by
    rw [value?_number, Option.map_some, littleEndianBytes_number]
    rfl

/-- Every identifier has two names, which denote the last sixteen bytes of its digest. Two identifiers share one
name exactly if they share the other. Taking the digest from its hexadecimal text never fails and gives the
digest. -/
theorem identifiers?_denote :
    (∀ id : String, ∃ names, identifiers? id = .ok names ∧ names.Denote (digestTail id)) ∧
    (∀ id other : String, ∃ names others, identifiers? id = .ok names ∧
      identifiers? other = .ok others ∧ (names.number = others.number ↔ names.hash = others.hash)) ∧
    ∀ id : String, Hex.decode (hexDigest id) = .ok (Keccak.digest id.toUTF8.toList) ∧
      ofId? id = ofDigest? (Keccak.digest id.toUTF8.toList) := by
  refine ⟨?_, ?_, fun id => ⟨decode_hexDigest id, ofId?_eq id⟩⟩
  · intro id
    obtain ⟨f, hf, hbytes⟩ := exists_ofId? id
    rw [← hbytes]
    exact ⟨_, identifiers?_of_ofId? hf, f.denote⟩
  · intro id other
    obtain ⟨f, hf, -⟩ := exists_ofId? id
    obtain ⟨g, hg, -⟩ := exists_ofId? other
    refine ⟨_, _, identifiers?_of_ofId? hf, identifiers?_of_ofId? hg, ?_⟩
    constructor
    · intro hnumber
      rw [repr_number_injective hnumber]
    · intro hhash
      rw [hex_injective hhash]

end Fingerprint

end Credential
