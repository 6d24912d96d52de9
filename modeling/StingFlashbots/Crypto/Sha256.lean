import StingFlashbots.Encoding.BigEndian

/-
  The SHA-256 hash and its keyed form.

  The eight words of the state and the sixteen words of the
  message schedule are each kept in one number, word `i` in
  the bits from `32 * i` on, so that the hash of a concrete
  string can be evaluated.

  Key definitions include:
    * `Sha256.compress`
    * `Sha256.sha256`
    * `Sha256.hmac`
-/

namespace Sha256

------------------------------------------------------------
-- Words
------------------------------------------------------------

/- The number of values of a word. -/
def wordSize : Nat :=
  0x100000000

/- Word `i` of a packed number. -/
def word (s i : Nat) : Nat :=
  (s >>> (32 * i)) % wordSize

/- Rotate a word to the right. -/
def rotr (x r : Nat) : Nat :=
  (x >>> r) ||| ((x <<< (32 - r)) % wordSize)

/- The number whose first words are given. -/
def pack (words : List Nat) : Nat :=
  words.foldr (fun w rest => w + rest <<< 32) 0

------------------------------------------------------------
-- The Compression Function
------------------------------------------------------------

/- The constants added by the rounds. -/
def roundConstants : List Nat :=
  [0x428a2f98, 0x71374491, 0xb5c0fbcf, 0xe9b5dba5,
   0x3956c25b, 0x59f111f1, 0x923f82a4, 0xab1c5ed5,
   0xd807aa98, 0x12835b01, 0x243185be, 0x550c7dc3,
   0x72be5d74, 0x80deb1fe, 0x9bdc06a7, 0xc19bf174,
   0xe49b69c1, 0xefbe4786, 0x0fc19dc6, 0x240ca1cc,
   0x2de92c6f, 0x4a7484aa, 0x5cb0a9dc, 0x76f988da,
   0x983e5152, 0xa831c66d, 0xb00327c8, 0xbf597fc7,
   0xc6e00bf3, 0xd5a79147, 0x06ca6351, 0x14292967,
   0x27b70a85, 0x2e1b2138, 0x4d2c6dfc, 0x53380d13,
   0x650a7354, 0x766a0abb, 0x81c2c92e, 0x92722c85,
   0xa2bfe8a1, 0xa81a664b, 0xc24b8b70, 0xc76c51a3,
   0xd192e819, 0xd6990624, 0xf40e3585, 0x106aa070,
   0x19a4c116, 0x1e376c08, 0x2748774c, 0x34b0bcb5,
   0x391c0cb3, 0x4ed8aa4a, 0x5b9cca4f, 0x682e6ff3,
   0x748f82ee, 0x78a5636f, 0x84c87814, 0x8cc70208,
   0x90befffa, 0xa4506ceb, 0xbef9a3f7, 0xc67178f2]

/- The state before the first block. -/
def initial : Nat :=
  pack
    [0x6a09e667, 0xbb67ae85, 0x3c6ef372, 0xa54ff53a,
     0x510e527f, 0x9b05688c, 0x1f83d9ab, 0x5be0cd19]

/- The next word of the message schedule. -/
def expand (w : Nat) : Nat :=
  let w₁ := word w 1
  let w₁₄ := word w 14
  let s₀ := rotr w₁ 7 ^^^ rotr w₁ 18 ^^^ (w₁ >>> 3)
  let s₁ := rotr w₁₄ 17 ^^^ rotr w₁₄ 19 ^^^ (w₁₄ >>> 10)
  (word w 0 + s₀ + word w 9 + s₁) % wordSize

/- One round, on the state and the message schedule. -/
def round
    (s w k : Nat) : Nat :=
  let a := word s 0
  let e := word s 4
  let big₁ := rotr e 6 ^^^ rotr e 11 ^^^ rotr e 25
  let ch :=
    (e &&& word s 5) ^^^
      ((e ^^^ (wordSize - 1)) &&& word s 6)
  let t₁ := word s 7 + big₁ + ch + k + word w 0
  let big₀ := rotr a 2 ^^^ rotr a 13 ^^^ rotr a 22
  let maj :=
    (a &&& word s 1) ^^^ (a &&& word s 2) ^^^
      (word s 1 &&& word s 2)
  pack
    [(t₁ + big₀ + maj) % wordSize, a, word s 1, word s 2,
     (word s 3 + t₁) % wordSize, e, word s 5, word s 6]

/- All rounds. -/
def rounds : List Nat → Nat → Nat → Nat
| [], s, _ => s
| k :: ks, s, w =>
    rounds ks (round s w k)
      ((w >>> 32) + expand w <<< 480)

/- Take in one block. -/
def compress (s block : Nat) : Nat :=
  let t := rounds roundConstants s block
  pack ((List.range 8).map fun i =>
    (word s i + word t i) % wordSize)

------------------------------------------------------------
-- The Hash
------------------------------------------------------------

/- The words of a block of bytes. -/
def blockWords (b : Bytes) : Nat :=
  pack ((List.range 16).map fun i =>
    BigEndian.decode ((b.drop (4 * i)).take 4))

/- Pad to whole blocks, with the length at the end. -/
def pad (b : Bytes) : Bytes :=
  b ++ [0x80] ++
    List.replicate ((119 - b.length % 64) % 64) 0 ++
    BigEndian.encodeFixed 8 (8 * b.length)

/- Take in a number of blocks. -/
def absorb : Nat → Nat → Bytes → Nat
| 0, s, _ => s
| n + 1, s, b =>
    absorb n (compress s (blockWords b)) (b.drop 64)

/- `hashlib.sha256` -/
def sha256 (b : Bytes) : Bytes :=
  let p := pad b
  let s := absorb (p.length / 64) initial p
  (List.range 8).flatMap fun i =>
    BigEndian.encodeFixed 4 (word s i)

/- `hmac.new(key, message, hashlib.sha256).digest()` -/
def hmac (key message : Bytes) : Bytes :=
  let key := if 64 < key.length then sha256 key else key
  let key := key ++ List.replicate (64 - key.length) 0
  sha256 (key.map (· ^^^ 0x5c) ++
    sha256 (key.map (· ^^^ 0x36) ++ message))

/- The published hash of `abc`. -/
example :
    BigEndian.decode (sha256 [0x61, 0x62, 0x63]) =
      0xba7816bf8f01cfea414140de5dae2223b00361a396177a9cb410ff61f20015ad := by
  decide +kernel

end Sha256
