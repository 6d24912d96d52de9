import StingFlashbots.Crypto.Sha256
import StingFlashbots.Curve.Secp256k1
import StingFlashbots.Searcher.Value

/-
  Signatures made by the enclave.

  The package signs with secp256k1 and lets the caller
  choose the nonce; without one it derives the nonce from
  the key and the message. The point arithmetic is that of a
  module which is a parameter here.

  Key definitions include:
    * `Ecdsa.JacobianModule`
    * `Ecdsa.deterministicGenerateK`
    * `Ecdsa.ecdsaRawSign`
    * `Ecdsa.PrivateKey`, `Ecdsa.Signature`
    * `Ecdsa.signMessageHash`
-/

namespace Ecdsa

open Sting

------------------------------------------------------------
-- Constants and Conversions
------------------------------------------------------------

/- `SECPK1_N` -/
abbrev N : Nat :=
  Secp256k1.n

/- `SECPK1_G` -/
def G : Nat × Nat :=
  (Secp256k1.gx, Secp256k1.gy)

/- `int_to_big_endian` and `to_bytes`: zero has a byte. -/
def intToBigEndian (n : Nat) : Bytes :=
  if n = 0 then [0] else BigEndian.encode n

/- `pad32` and `_pad_to_eth_word` -/
def pad32 (b : Bytes) : Bytes :=
  List.replicate (32 - b.length) 0 ++ b

/- `to_bytes32` -/
def toBytes32 (n : Nat) : Bytes :=
  pad32 (intToBigEndian n)

/- What the package takes from its `jacobian` module. -/
structure JacobianModule where
  inv : Int → Nat → Nat
  fastMultiply : Nat × Nat → Int → Nat × Nat

------------------------------------------------------------
-- Raw Signatures
------------------------------------------------------------

/- `deterministic_generate_k` -/
def deterministicGenerateK
    (msgHash privateKeyBytes : Bytes) : Nat :=
  let v₀ : Bytes := List.replicate 32 1
  let k₀ : Bytes := List.replicate 32 0
  let k₁ := Sha256.hmac k₀
    (v₀ ++ [0] ++ privateKeyBytes ++ msgHash)
  let v₁ := Sha256.hmac k₁ v₀
  let k₂ := Sha256.hmac k₁
    (v₁ ++ [1] ++ privateKeyBytes ++ msgHash)
  let v₂ := Sha256.hmac k₂ v₁
  let kb := Sha256.hmac k₂ v₂
  BigEndian.decode kb

/- The nonce of a signature. -/
def chooseNonce
    (msgHash privateKeyBytes : Bytes)
    (k : Int) : Int :=
  if k = 0 then
    deterministicGenerateK msgHash privateKeyBytes
  else
    k

theorem chooseNonce_zero
    (msgHash privateKeyBytes : Bytes) :
    chooseNonce msgHash privateKeyBytes 0 =
      deterministicGenerateK msgHash privateKeyBytes := by
  rfl

theorem chooseNonce_of_ne_zero
    (msgHash privateKeyBytes : Bytes)
    {k : Int}
    (hk : k ≠ 0) :
    chooseNonce msgHash privateKeyBytes k = k :=
  if_neg hk

variable (J : JacobianModule)

/- `ecdsa_raw_sign` -/
def ecdsaRawSign
    (msgHash privateKeyBytes : Bytes)
    (k : Int) : Nat × Nat × Nat :=
  let z := BigEndian.decode msgHash
  let k := chooseNonce msgHash privateKeyBytes k
  let (r, y) := J.fastMultiply G k
  let sRaw :=
    J.inv k N *
      (z + r * BigEndian.decode privateKeyBytes) % N
  let v :=
    27 + ((y % 2) ^^^ (if sRaw * 2 < N then 0 else 1))
  let s := if sRaw * 2 < N then sRaw else N - sRaw
  (v - 27, r, s)

/- `encode_raw_public_key` -/
def encodeRawPublicKey (raw : Nat × Nat) : Bytes :=
  pad32 (intToBigEndian raw.1) ++
    pad32 (intToBigEndian raw.2)

/- `private_key_to_public_key` -/
def privateKeyToPublicKey
    (privateKeyBytes : Bytes) : Py Bytes :=
  let num := BigEndian.decode privateKeyBytes
  if num ≥ N then
    .error (.exception "Invalid privkey")
  else
    .ok (encodeRawPublicKey (J.fastMultiply G num))

------------------------------------------------------------
-- Keys and Signatures
------------------------------------------------------------

/- `PrivateKey`, with the public key it computes. -/
structure PrivateKey where
  rawKey : Bytes
  publicKey : Bytes
deriving DecidableEq, Repr

/- `_parsePrivateKey` on bytes. -/
def parsePrivateKey (key : Bytes) : Py PrivateKey :=
  if key.length ≠ 32 then
    .error (.valueError
      ("The private key must be exactly 32 bytes long, " ++
        "instead of " ++ toString key.length ++ " bytes."))
  else do
    let publicKey ← privateKeyToPublicKey J key
    return { rawKey := key, publicKey := publicKey }

/- `Signature`, as its constructor validates it. -/
structure Signature where
  v : Nat
  r : Nat
  s : Nat
  v_le : v ≤ 1
  r_lt : r < N
  s_lt : s < N
deriving DecidableEq, Repr

/- The constructor of `Signature`. -/
def Signature.new (vrs : Nat × Nat × Nat) : Py Signature :=
  if hValid : vrs.1 ≤ 1 ∧ vrs.2.1 < N ∧ vrs.2.2 < N then
    .ok
      { v := vrs.1
        r := vrs.2.1
        s := vrs.2.2
        v_le := hValid.1
        r_lt := hValid.2.1
        s_lt := hValid.2.2 }
  else
    .error .badSignature

/- `sign_msg_hash` -/
def PrivateKey.signMsgHash
    (key : PrivateKey)
    (messageHash : Bytes)
    (k : Int) : Py Signature :=
  Signature.new (ecdsaRawSign J messageHash key.rawKey k)

------------------------------------------------------------
-- Transactions and Messages
------------------------------------------------------------

/- `to_eth_v` -/
def toEthV
    (vRaw : Nat) :
    Option Nat → Nat
| none => vRaw + 27
| some chainId => vRaw + 35 + 2 * chainId

/- `sign_transaction_hash` -/
def signTransactionHash
    (account : PrivateKey)
    (transactionHash : Bytes)
    (chainId : Option Nat)
    (k : Int) : Py (Nat × Nat × Nat) := do
  let signature ← account.signMsgHash J transactionHash k
  return (toEthV signature.v chainId, signature.r,
    signature.s)

/- What `sign_message_hash` returns. -/
structure SignedHash where
  v : Nat
  r : Nat
  s : Nat
  signature : Bytes
deriving DecidableEq, Repr

/- `sign_message_hash` -/
def signMessageHash
    (key : PrivateKey)
    (msgHash : Bytes) : Py SignedHash := do
  let sig ← key.signMsgHash J msgHash 0
  let v := toEthV sig.v none
  return {
    v := v
    r := sig.r
    s := sig.s
    signature :=
      toBytes32 sig.r ++ toBytes32 sig.s ++
        intToBigEndian v }

/- `_sign_hash` -/
def signHash
    (messageHash privateKey : Bytes) : Py SignedHash := do
  if messageHash.length ≠ 32 then
    throw (.valueError
      "The message hash must be exactly 32-bytes")
  let key ← parsePrivateKey J privateKey
  signMessageHash J key messageHash

/-
  `sign_eth_data`. The hash of the message is taken as
  `encode_defunct` and `_hash_eip191_message` compute it.
-/
def signEthData
    (hashMessage : Bytes → Bytes)
    (privateKey data : Bytes) : Py Bytes := do
  let res ← signHash J (hashMessage data) privateKey
  return res.signature

end Ecdsa
