import Credential.Fingerprint.Keccak
import Credential.Fingerprint.Hex
/-!
# Credential.Fingerprint.Basic — the fingerprints of credential types

A credential type is known by the last sixteen bytes of the Keccak-256 digest of its identifier. Two
names of it are shown: the bytes as hexadecimal text, and the bytes read as an integer, the lowest
byte first, in decimal.
-/

namespace Credential

/-- The sixteen bytes a credential type is known by. -/
structure Fingerprint where
  bytes : List UInt8
  length_eq : bytes.length = 16
  deriving DecidableEq

/-- Why a text is no fingerprint. -/
inductive FingerprintError where
  | invalidHex (flaw : Hex.Flaw)
  | invalidLength (found : Nat)
  deriving DecidableEq

/-- The error as shown. -/
def FingerprintError.message : FingerprintError → String
  | .invalidHex flaw => "invalid hex encoding: " ++ flaw.message
  | .invalidLength found => "expected at least 16 bytes, found " ++ Nat.repr found

/-- The integer of some bytes, the lowest first. -/
def littleEndian : List UInt8 → Nat
  | [] => 0
  | b :: rest => b.toNat + 256 * littleEndian rest

/-- The two names of a credential type. -/
structure Identifiers where
  hash : String
  number : String
  deriving DecidableEq

namespace Fingerprint

/-- The fingerprint of sixteen bytes. -/
def ofBytes? (bytes : List UInt8) : Except FingerprintError Fingerprint :=
  if h : bytes.length = 16 then .ok ⟨bytes, h⟩ else .error (.invalidLength bytes.length)

/-- The hexadecimal name. -/
def hex (f : Fingerprint) : String := Hex.encode f.bytes

/-- The fingerprint as an integer. -/
def number (f : Fingerprint) : Nat := littleEndian f.bytes

/-- The fingerprint of a hexadecimal name. -/
def ofHex? (text : String) : Except FingerprintError Fingerprint :=
  match Hex.decode text with
  | .ok bytes => ofBytes? bytes
  | .error flaw => .error (.invalidHex flaw)

/-- The Keccak-256 digest of a text as hexadecimal text. -/
def hexDigest (text : String) : String := Hex.encode (Keccak.digest text.toUTF8.toList)

/-- The fingerprint at the end of a digest. -/
def ofDigest? (digest : List UInt8) : Except FingerprintError Fingerprint :=
  if h : 16 ≤ digest.length then
    .ok ⟨digest.drop (digest.length - 16), by rw [List.length_drop]; omega⟩
  else .error (.invalidLength digest.length)

/-- The fingerprint of the type of an identifier, by way of the hexadecimal digest. -/
def ofId? (id : String) : Except FingerprintError Fingerprint :=
  match Hex.decode (hexDigest id) with
  | .ok digest => ofDigest? digest
  | .error flaw => .error (.invalidHex flaw)

/-- Both names of the type of an identifier. -/
def identifiers? (id : String) : Except FingerprintError Identifiers :=
  (ofId? id).map fun f => ⟨f.hex, Nat.repr f.number⟩

end Fingerprint

end Credential
