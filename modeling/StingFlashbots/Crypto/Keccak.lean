import StingFlashbots.Trie.Merkle

/-
  The Keccak-256 hash.

  The sponge state of twenty-five 64-bit lanes is kept in
  one number, lane `i` in the bits from `64 * i` on, so that
  the hash of a concrete string can be evaluated.

  Key definitions include:
    * `Keccak.keccakF`
    * `Keccak.keccak256`
    * `Digest.keccak256`
-/

namespace Keccak

------------------------------------------------------------
-- Lanes
------------------------------------------------------------

/- The bits of a lane. -/
def laneMask : Nat :=
  0xffffffffffffffff

/- Lane `i` of a state. -/
def lane
    (s i : Nat) : Nat :=
  (s >>> (64 * i)) &&& laneMask

/- Rotate a lane to the left. -/
def rotl
    (v r : Nat) : Nat :=
  ((v <<< r) ||| (v >>> (64 - r))) &&& laneMask

/- The state whose first `n` lanes are given. -/
def pack
    (f : Nat → Nat)
    (n : Nat) : Nat :=
  (List.range n).foldl
    (fun acc i => acc ||| (f i <<< (64 * i))) 0

------------------------------------------------------------
-- The Permutation
------------------------------------------------------------

/- The parity of a column. -/
def parity
    (s x : Nat) : Nat :=
  lane s x ^^^ lane s (x + 5) ^^^ lane s (x + 10) ^^^
    lane s (x + 15) ^^^ lane s (x + 20)

def theta (s : Nat) : Nat :=
  let c := pack (parity s) 5
  pack
    (fun i =>
      lane s i ^^^ lane c ((i + 4) % 5) ^^^
        rotl (lane c ((i + 1) % 5)) 1)
    25

/- The rotation of each lane and the place it moves to. -/
def rhoPiMoves : List (Nat × Nat × Nat) :=
  [(0, 0, 0), (1, 1, 10), (2, 62, 20), (3, 28, 5),
    (4, 27, 15), (5, 36, 16), (6, 44, 1), (7, 6, 11),
    (8, 55, 21), (9, 20, 6), (10, 3, 7), (11, 10, 17),
    (12, 43, 2), (13, 25, 12), (14, 39, 22), (15, 41, 23),
    (16, 45, 8), (17, 15, 18), (18, 21, 3), (19, 8, 13),
    (20, 18, 14), (21, 2, 24), (22, 61, 9), (23, 56, 19),
    (24, 14, 4)]

def rhoPi (s : Nat) : Nat :=
  rhoPiMoves.foldl
    (fun acc t =>
      acc ||| (rotl (lane s t.1) t.2.1 <<< (64 * t.2.2)))
    0

def chi (s : Nat) : Nat :=
  pack
    (fun i =>
      lane s i ^^^
        ((laneMask ^^^ lane s (5 * (i / 5) + (i + 1) % 5)) &&&
          lane s (5 * (i / 5) + (i + 2) % 5)))
    25

/- The constants added by the rounds. -/
def roundConstants : List Nat :=
  [0x0000000000000001, 0x0000000000008082,
    0x800000000000808A, 0x8000000080008000,
    0x000000000000808B, 0x0000000080000001,
    0x8000000080008081, 0x8000000000008009,
    0x000000000000008A, 0x0000000000000088,
    0x0000000080008009, 0x000000008000000A,
    0x000000008000808B, 0x800000000000008B,
    0x8000000000008089, 0x8000000000008003,
    0x8000000000008002, 0x8000000000000080,
    0x000000000000800A, 0x800000008000000A,
    0x8000000080008081, 0x8000000000008080,
    0x0000000080000001, 0x8000000080008008]

/- The 24 rounds of Keccak-f[1600]. -/
def keccakF (s : Nat) : Nat :=
  roundConstants.foldl
    (fun s rc => chi (rhoPi (theta s)) ^^^ rc) s

------------------------------------------------------------
-- The Sponge
------------------------------------------------------------

/- The bytes of a block at rate 1088. -/
def rate : Nat :=
  136

/- Pad to whole blocks with the domain byte `0x01`. -/
def pad (b : Bytes) : Bytes :=
  let q := rate - b.length % rate
  if q = 1 then
    b ++ [0x81]
  else
    b ++ [0x01] ++ List.replicate (q - 2) 0 ++ [0x80]

/- Absorb a number of blocks. -/
def absorb : Nat → Nat → Bytes → Nat
| 0, s, _ => s
| n + 1, s, b =>
    absorb n
      (keccakF
        (s ^^^ Nat.ofDigits 256
          ((b.take rate).map UInt8.toNat)))
      (b.drop rate)

def keccak256 (b : Bytes) : Bytes :=
  let p := pad b
  let s := absorb (p.length / rate) 0 p
  (List.range 32).map fun i => UInt8.ofNat (s >>> (8 * i))

theorem length_keccak256
    (b : Bytes) :
    (keccak256 b).length = 32 := by
  simp [keccak256]

/- The published hash of the empty string. -/
example :
    BigEndian.decode (keccak256 []) =
      0xc5d2460186f7233c927e7db2dcc703c0e500b653ca82273b7bfad8045d85a470 := by
  decide +kernel

end Keccak

/- Keccak-256 as a digest. -/
def Digest.keccak256 : Digest where
  hash := Keccak.keccak256
  length_hash := Keccak.length_keccak256
