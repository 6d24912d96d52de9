import StingFlashbots.Commitment.Pedersen
import StingFlashbots.Ecdsa.Account
import StingFlashbots.Searcher.GenerateProof

/-
  Making and verifying evidence.

  The searcher commits to the signature of a leaked
  transaction, signs a transaction of its own with the
  commitment for a nonce, and proves that both got into a
  block. The enclave checks the proofs, computes commitment
  and signature again, and signs the hash of the block.

  Key definitions include:
    * `decodeRawTx`, `encodeTx`
    * `transferTx`
    * `signEvidence`, `makeEvidence`
    * `recompute`, `Recomputed.check`
    * `verifyEvidence`
-/

namespace Sting

open RLP (Item)
open Commitment Ecdsa

------------------------------------------------------------
-- Raw Transactions
------------------------------------------------------------

/- `HexBytes` of a text. -/
def hexBytes (text : List Char) : Py Bytes :=
  let digits :=
    match text with
    | '0' :: 'x' :: rest => rest
    | '0' :: 'X' :: rest => rest
    | _ => text
  if text.length % 2 = 0 then
    unhexlify digits
  else
    unhexlify ('0' :: digits)

/- The text of bytes, with the prefix. -/
def toHex (b : Bytes) : List Char :=
  '0' :: 'x' :: Hex.encode b

/- What `decode_raw_tx` returns: `r` and `s` are texts. -/
structure LeakedTx where
  rawTransaction : Bytes
  hash : Bytes
  r : List Char
  s : List Char
  v : Nat
deriving DecidableEq, Repr

section

variable (A : EthAccount)
variable (L : JacobianLibrary)
variable (keccak : Digest)

/-
  `decode_raw_tx`. The receiver, the data and the chain id
  it also computes are not returned and cannot raise.
-/
def decodeRawTx (rawTx : List Char) : Py LeakedTx := do
  let b ← hexToBytes rawTx
  let (_, v, r, s) ← readTransaction (← rlpDecodeBytes b)
  let hashTx := toHex (keccak b)
  let raw ← hexBytes rawTx
  let _ ← recoverTransaction A keccak L raw
  return {
    rawTransaction := raw
    hash := ← hexBytes hashTx
    r := hex r
    s := hex s
    v := v }

/- `encode_tx`, with the fields of its `Transaction`. -/
def encodeTx (tx : SignedTx) : Py Bytes :=
  tx.encode

/- `from_key` on a text. -/
def fromKey (text : List Char) : Py PrivateKey := do
  let b ← hexBytes text
  if b.length ≠ 32 then
    throw (.valueError
      ("The private key must be exactly 32 bytes long, " ++
        "instead of " ++ toString text.length ++ " bytes."))
  parsePrivateKey L.toJacobianModule b

/- `sign_tx` -/
def signTx
    (tx : TransactionDict)
    (account : PrivateKey)
    (k : Int) : Py SignedTransaction :=
  signTransaction A L.toJacobianModule keccak tx
    account.rawKey k

/- `transfer_tx`, with the gas price and nonce it reads. -/
def transferTx
    (senderAddr receiverAddr : List Char)
    (amt gasPrice gas nonce chainId : Nat) :
    TransactionDict
| .toAddr => some (.text receiverAddr)
| .fromAddr => some (.text senderAddr)
| .value => some (.val (.int amt))
| .gasPrice => some (.val (.int gasPrice))
| .gas => some (.val (.int gas))
| .nonce => some (.val (.int nonce))
| .chainId => some (.val (.int chainId))
| _ => none

------------------------------------------------------------
-- Making Evidence
------------------------------------------------------------

/- The hash of the leaked signature. -/
def leakedTxSigHash (leakedTx : LeakedTx) : Bytes :=
  keccak (intToBytes leakedTx.v ++ strToBytes leakedTx.r ++
    strToBytes leakedTx.s)

/- What is signed before the bundle is sent. -/
structure SignedEvidence where
  leakedTx : LeakedTx
  C : Nat
  r : Nat
  stingSender : PrivateKey
  signedAdvTx : SignedTransaction

/-
  `make_evidence` until the bundle is sent, with the bytes
  drawn and the transaction generated for the sender.
-/
def signEvidence
    (buff rndBytes : Bytes)
    (stingerPk : List Char)
    (generateTx : PrivateKey → Py TransactionDict) :
    Py SignedEvidence := do
  let leakedTx ← decodeRawTx A L keccak (Hex.encode buff)
  let sigHash := leakedTxSigHash keccak leakedTx
  let (C, r) ←
    makePedersenCommitment (bytesToInt sigHash) rndBytes
  let stingSender ← fromKey L stingerPk
  let unsignedAdvTx ← generateTx stingSender
  let signedAdvTx ←
    signTx A L keccak unsignedAdvTx stingSender C
  return {
    leakedTx := leakedTx
    C := C
    r := r
    stingSender := stingSender
    signedAdvTx := signedAdvTx }

/- The file `verify_data.json`. -/
structure VerifyData where
  r : Int
  advPrivateKey : List Char
  targetBlockNum : Nat
  advPrf : List Char
  victimPrf : List Char
deriving DecidableEq, Repr

/- The dictionary `verify_tx_proof` returns. -/
def UnsignedTx.toDict (tx : UnsignedTx) : TransactionDict
| .nonce => some (.val (.int tx.nonce))
| .gasPrice => some (.val (.int tx.gasPrice))
| .gas => some (.val (.int tx.gas))
| .toAddr => some (.val tx.toAddr)
| .value => some (.val (.int tx.value))
| .data => some (.val tx.data)
| .chainId => some (.val (.int tx.chainId))
| _ => none

/- What the enclave computes from the two proofs. -/
structure Recomputed where
  signedAdvTx : SignedTx
  signedVictimTx : SignedTx
  C : Nat
  advTxComputed : SignedTransaction

/-
  `verify_evidence` until the signature is computed. The
  block is fetched for each proof, so that `w₁` and `w₂` are
  the node at two moments.
-/
def recompute
    (w₁ w₂ : Web3)
    (verifyData : VerifyData) : Py Recomputed := do
  let stingBlockNum := verifyData.targetBlockNum
  let (unsignedAdvTx, signedAdvTx) ←
    verifyTxProof keccak w₁ stingBlockNum
      (← hexToBytes verifyData.advPrf)
  let (_, signedVictimTx) ←
    verifyTxProof keccak w₂ stingBlockNum
      (← hexToBytes verifyData.victimPrf)
  let sigHash := keccak (signatureMessage signedVictimTx.v
    signedVictimTx.r signedVictimTx.s)
  let C ← computePedersenCommitment (bytesToInt sigHash)
    verifyData.r
  let advAccount ← fromKey L verifyData.advPrivateKey
  let advTxComputed ←
    signTx A L keccak unsignedAdvTx.toDict advAccount C
  return {
    signedAdvTx := signedAdvTx
    signedVictimTx := signedVictimTx
    C := C
    advTxComputed := advTxComputed }

/- The assertions of `verify_evidence`. -/
def Recomputed.check
    (e : Recomputed)
    (stingerTx : Py Bytes) : Py Unit := do
  pyAssert (e.signedAdvTx.v = e.advTxComputed.v)
  pyAssert (e.signedAdvTx.r = e.advTxComputed.r)
  let s ← intBase16 (hex e.advTxComputed.s)
  pyAssert (e.signedAdvTx.s = s)
  let rawStingerTx ← stingerTx
  let encoded ← encodeTx e.signedVictimTx
  pyAssert (rawStingerTx = encoded)

/- The files the enclave writes. -/
structure SignedProof where
  proofBlob : Bytes
  proofSig : Bytes
deriving DecidableEq, Repr

/- The signature of a block, fetched once more. -/
def signBlock
    (hashMessage : Bytes → Bytes)
    (w₃ : Web3)
    (stingBlockNum : Nat)
    (secretKey : Py Bytes) : Py SignedProof := do
  let targetBlock ← w₃.getBlock stingBlockNum
  let proofBlob ← rlpEncodeItem
    (.list [RLP.int stingBlockNum, .str targetBlock.hash])
  let secretKey ← secretKey
  let sig ← signEthData L.toJacobianModule hashMessage
    secretKey proofBlob
  return { proofBlob := proofBlob, proofSig := sig }

/- `verify_evidence` -/
def verifyEvidence
    (hashMessage : Bytes → Bytes)
    (w₁ w₂ w₃ : Web3)
    (verifyData : VerifyData)
    (stingerTx secretKey : Py Bytes) : Py SignedProof := do
  let e ← recompute A L keccak w₁ w₂ verifyData
  e.check stingerTx
  signBlock L hashMessage w₃ verifyData.targetBlockNum
    secretKey

end

end Sting
