/-!
# Credential.Fingerprint.Keccak — the Keccak-256 digest

The sponge over 25 lanes of 64 bits at a rate of 136 bytes, with the padding of Keccak itself: a byte `0x01`
after the message and the high bit of the last byte of the block. Each step of a round is a map over
the lanes.
-/

namespace Credential.Keccak

/-- The lanes `A[x, y]`, at index `x + 5·y`. -/
abbrev State := Vector UInt64 25

/-- A lane; coordinates count modulo five. -/
def lane (a : State) (x y : Nat) : UInt64 :=
  a.get ⟨x % 5 + 5 * (y % 5), by omega⟩

/-- The state whose lanes are a function of their coordinates. -/
def ofLanes (f : Nat → Nat → UInt64) : State := .ofFn fun i => f (i % 5) (i / 5)

/-- Rotation to the left. -/
def rotate (w : UInt64) (n : Nat) : UInt64 :=
  if n % 64 = 0 then w else (w <<< .ofNat (n % 64)) ||| (w >>> .ofNat (64 - n % 64))

/-- By how much each lane is rotated, at index `x + 5·y`. -/
def offsets : Vector Nat 25 :=
  #v[0, 1, 62, 28, 27, 36, 44, 6, 55, 20, 3, 10, 43, 25, 39, 41, 45, 15, 21, 8, 18, 2, 61, 56, 14]

/-- The constants of the 24 rounds. -/
def roundConstants : List UInt64 :=
  [0x0000000000000001, 0x0000000000008082, 0x800000000000808A, 0x8000000080008000,
   0x000000000000808B, 0x0000000080000001, 0x8000000080008081, 0x8000000000008009,
   0x000000000000008A, 0x0000000000000088, 0x0000000080008009, 0x000000008000000A,
   0x000000008000808B, 0x800000000000008B, 0x8000000000008089, 0x8000000000008003,
   0x8000000000008002, 0x8000000000000080, 0x000000000000800A, 0x800000008000000A,
   0x8000000080008081, 0x8000000000008080, 0x0000000080000001, 0x8000000080008008]

/-! ## One round -/

/-- The parity of a column. -/
def column (a : State) (x : Nat) : UInt64 :=
  lane a x 0 ^^^ lane a x 1 ^^^ lane a x 2 ^^^ lane a x 3 ^^^ lane a x 4

/-- Adds to each lane the parities of two neighbouring columns. -/
def theta (a : State) : State :=
  let parity : Vector UInt64 5 := .ofFn fun x => column a x
  let parityOf (x : Nat) : UInt64 := parity.get ⟨x % 5, by omega⟩
  ofLanes fun x y => lane a x y ^^^ parityOf (x + 4) ^^^ rotate (parityOf (x + 1)) 1

/-- Rotates each lane and moves lane `(x, y)` to `(y, 2·x + 3·y)`. -/
def rhoPi (a : State) : State :=
  let turned : State := .ofFn fun i => rotate a[i] offsets[i]
  ofLanes fun x y => lane turned (x + 3 * y) x

/-- Mixes each row. -/
def chi (a : State) : State :=
  ofLanes fun x y => lane a x y ^^^ ((~~~lane a (x + 1) y) &&& lane a (x + 2) y)

/-- Adds a constant to the first lane. -/
def iota (constant : UInt64) (a : State) : State :=
  ofLanes fun x y => if x = 0 ∧ y = 0 then lane a x y ^^^ constant else lane a x y

/-- One round. -/
def round (a : State) (constant : UInt64) : State := iota constant (chi (rhoPi (theta a)))

/-- All rounds. -/
def permute (a : State) : State := roundConstants.foldl round a

/-! ## The sponge -/

/-- The number of bytes in a block. -/
def rate : Nat := 136

/-- The bytes that fill up the last block. -/
def padding (length : Nat) : List UInt8 :=
  let gap := rate - length % rate
  if gap = 1 then [0x81] else 0x01 :: List.replicate (gap - 2) 0 ++ [0x80]

/-- Eight bytes as a lane, the lowest first. -/
def laneOfBytes (bytes : List UInt8) : UInt64 :=
  bytes.foldr (fun b w => (w <<< 8) ||| b.toUInt64) 0

/-- Adds a block to the state and permutes. -/
def absorbBlock (a : State) (block : List UInt8) : State :=
  permute (.ofFn fun i => a[i] ^^^ laneOfBytes ((block.drop (8 * i)).take 8))

/-- Absorbs all blocks of a padded message; the first argument bounds their number. -/
def absorb : Nat → State → List UInt8 → State
  | 0, a, _ => a
  | blocks + 1, a, bytes =>
    if bytes.isEmpty then a
    else absorb blocks (absorbBlock a (bytes.take rate)) (bytes.drop rate)

/-- The eight bytes of a lane, the lowest first. -/
def bytesOfLane (w : UInt64) : List UInt8 :=
  (List.range 8).map fun i => (w >>> .ofNat (8 * i)).toUInt8

/-- The 32 bytes of the digest of a message. -/
def digest (message : List UInt8) : List UInt8 :=
  let final := absorb (message.length / rate + 1) (.replicate 25 0)
    (message ++ padding message.length)
  ((List.range 4).map fun i => bytesOfLane (lane final i 0)).flatten

end Credential.Keccak
