import StingFlashbots.Searcher.Evidence
import StingFlashbots.Searcher.ProofCompleteness

/-
  Honest evidence passes.

  The two programs build the same values along different
  routes. Both read a transaction as the same fields, so
  they sign the same hash with the same nonce, and both see
  the same signature of the victim, so they commit to the
  same number.

  Key definitions include:
    * `Describes`
    * `EthAccountStandard`
    * `asSigned`

  Main results:
    * `readTransaction_eq_ok`
    * `recompute_signEvidence`
    * `verifyEvidence_signEvidence`
    * `verifyEvidence_makeEvidence`
-/

namespace Sting

open RLP (Item)
open Commitment Ecdsa

------------------------------------------------------------
-- Hexadecimal Texts
------------------------------------------------------------

private theorem byteOf_digits
    (x : UInt8) :
    hexDigit (Hex.digit (x.toNat / 16)) =
        some (Fin.ofNat 16 (x.toNat / 16)) ∧
      hexDigit (Hex.digit x.toNat) =
        some (Fin.ofNat 16 x.toNat) ∧
      Nibble.byteOf (Fin.ofNat 16 (x.toNat / 16))
          (Fin.ofNat 16 x.toNat) =
        x := by
  have hAll : ∀ n < 256,
      hexDigit (Hex.digit (n / 16)) =
          some (Fin.ofNat 16 (n / 16)) ∧
        hexDigit (Hex.digit n) = some (Fin.ofNat 16 n) ∧
        Nibble.byteOf (Fin.ofNat 16 (n / 16))
            (Fin.ofNat 16 n) =
          UInt8.ofNat n := by
    decide +kernel
  have hByte := hAll x.toNat x.toNat_lt
  rw [UInt8.ofNat_toNat] at hByte
  exact hByte

theorem unhexlify_encode
    (b : Bytes) :
    unhexlify (Hex.encode b) = .ok b := by
  induction b with
  | nil => rfl
  | cons x b ih =>
      rcases byteOf_digits x with ⟨hHigh, hLow, hByte⟩
      rw [Hex.encode_cons, unhexlify, hHigh, hLow]
      simp only
      rw [ih, ok_bind, hByte]
      rfl

/- Reading undoes writing, with the prefix. -/
theorem hexBytes_toHex
    (b : Bytes) :
    hexBytes (toHex b) = .ok b := by
  have hEven : (toHex b).length % 2 = 0 := by
    rw [toHex, List.length_cons, List.length_cons,
      Hex.length_encode]
    omega
  unfold hexBytes
  simp only
  rw [if_pos hEven]
  exact unhexlify_encode b

------------------------------------------------------------
-- Fields of a Transaction
------------------------------------------------------------

theorem readBigEndianInt_eq_ok
    {x : Item}
    {n : Nat}
    (hOk : readBigEndianInt x = .ok n) :
    x = RLP.int n := by
  cases x with
  | str b =>
      rw [readBigEndianInt] at hOk
      split_ifs at hOk with hHead
      cases hOk
      rw [RLP.int, BigEndian.encode_decode hHead]
  | list xs => cases hOk

theorem readBinary_eq_ok
    {x : Item}
    {b : Bytes}
    (hOk : readBinary x = .ok b) :
    x = .str b := by
  cases x with
  | str b' =>
      cases hOk
      rfl
  | list xs => cases hOk

/- An address, or nothing. -/
def IsReceiver (b : Bytes) : Prop :=
  b.length = 20 ∨ b = []

theorem readAddress_eq_ok
    {x : Item}
    {b : Bytes}
    (hOk : readAddress x = .ok b) :
    x = .str b ∧ IsReceiver b := by
  rcases bind_eq_ok.mp hOk with ⟨b', hBinary, hOk⟩
  split_ifs at hOk with hReceiver
  cases hOk
  exact ⟨readBinary_eq_ok hBinary, hReceiver⟩

/- The strict reading of a transaction loses nothing. -/
theorem readTransaction_eq_ok
    {x : Item}
    {fields : LegacyFields}
    {vrs : Nat × Nat × Nat}
    (hOk : readTransaction x = .ok (fields, vrs)) :
    x = fields.signedItem vrs ∧
      IsReceiver fields.toAddr := by
  unfold readTransaction at hOk
  split at hOk
  · rcases bind_eq_ok.mp hOk with ⟨nonce, hNonce, hOk⟩
    rcases bind_eq_ok.mp hOk with ⟨gasPrice, hPrice, hOk⟩
    rcases bind_eq_ok.mp hOk with ⟨gas, hGas, hOk⟩
    rcases bind_eq_ok.mp hOk with ⟨toAddr, hTo, hOk⟩
    rcases bind_eq_ok.mp hOk with ⟨value, hValue, hOk⟩
    rcases bind_eq_ok.mp hOk with ⟨data, hData, hOk⟩
    rcases bind_eq_ok.mp hOk with ⟨v, hv, hOk⟩
    rcases bind_eq_ok.mp hOk with ⟨r, hr, hOk⟩
    rcases bind_eq_ok.mp hOk with ⟨s, hs, hOk⟩
    cases hOk
    rcases readAddress_eq_ok hTo with ⟨rfl, hReceiver⟩
    refine ⟨?_, hReceiver⟩
    rw [readBigEndianInt_eq_ok hNonce,
      readBigEndianInt_eq_ok hPrice,
      readBigEndianInt_eq_ok hGas,
      readBigEndianInt_eq_ok hValue, readBinary_eq_ok hData,
      readBigEndianInt_eq_ok hv, readBigEndianInt_eq_ok hr,
      readBigEndianInt_eq_ok hs]
    rfl
  · cases hOk

/- The transaction the verifier reads from these fields. -/
def asSigned
    (fields : LegacyFields)
    (vrs : Nat × Nat × Nat) : SignedTx :=
  { nonce := fields.nonce
    gasPrice := fields.gasPrice
    gas := fields.gas
    toAddr := .item (.str fields.toAddr)
    value := fields.value
    data := .item (.str fields.data)
    v := vrs.1
    r := vrs.2.1
    s := vrs.2.2 }

section

variable {fields : LegacyFields}
variable {vrs : Nat × Nat × Nat}

theorem serialize_asSigned
    (hReceiver : IsReceiver fields.toAddr) :
    (asSigned fields vrs).serialize =
      .ok (fields.signedItem vrs) := by
  have hAddress :
      address fields.toAddr = .ok (.str fields.toAddr) := by
    rw [address, fixedLength, if_pos]
    rcases hReceiver with hLength | hEmpty
    · exact Or.inl hLength
    · exact Or.inr ⟨rfl, hEmpty⟩
  simp only [SignedTx.serialize, asSigned, binary, ok_bind,
    hAddress]
  rfl

theorem readTx_signedItem
    (hReceiver : IsReceiver fields.toAddr)
    (chainId : Nat) :
    readTx chainId (.item (fields.signedItem vrs)) =
      .ok ((asSigned fields vrs).unsigned chainId,
        asSigned fields vrs) :=
  readTx_serialize (serialize_asSigned hReceiver) chainId

/- Encoding gives the decoded bytes back. -/
theorem encodeTx_asSigned
    (hReceiver : IsReceiver fields.toAddr)
    {b : Bytes}
    (hDecode : RLP.decode b = some (fields.signedItem vrs)) :
    encodeTx (asSigned fields vrs) = .ok b := by
  rcases RLP.encode_of_decode hDecode with
    ⟨hEncodable, hEncode⟩
  rw [encodeTx, SignedTx.encode,
    serialize_asSigned hReceiver, ok_bind, rlpEncodeItem,
    if_pos hEncodable, hEncode]

end

------------------------------------------------------------
-- Reading Dictionaries
------------------------------------------------------------

/- The receiver in a dictionary. -/
inductive DescribesReceiver
    (toChecksumAddress : Bytes → List Char) :
    Option Arg → Bytes → Prop where
| missing :
    DescribesReceiver toChecksumAddress none []
| none :
    DescribesReceiver toChecksumAddress
      (some (.val .none)) []
| raw (b : Bytes) (hReceiver : IsReceiver b) :
    DescribesReceiver toChecksumAddress
      (some (.val (.item (.str b)))) b
| text (b : Bytes) (hLength : b.length = 20) :
    DescribesReceiver toChecksumAddress
      (some (.text (toChecksumAddress b))) b

/- The data in a dictionary. -/
inductive DescribesData : Option Arg → Bytes → Prop where
| missing : DescribesData none []
| raw (b : Bytes) :
    DescribesData (some (.val (.item (.str b)))) b

/- The amount in a dictionary. -/
inductive DescribesValue : Option Arg → Nat → Prop where
| missing : DescribesValue none 0
| int (n : Nat) : DescribesValue (some (.val (.int n))) n

/-
  The dictionary holds the fields of a legacy transaction
  with a chain id, and nothing of another kind.
-/
structure Describes
    (toChecksumAddress : Bytes → List Char)
    (dict : TransactionDict)
    (fields : LegacyFields)
    (chainId : Nat) : Prop where
  nonce : dict .nonce = some (.val (.int fields.nonce))
  gasPrice :
    dict .gasPrice = some (.val (.int fields.gasPrice))
  gas : dict .gas = some (.val (.int fields.gas))
  toAddr :
    DescribesReceiver toChecksumAddress (dict .toAddr)
      fields.toAddr
  value : DescribesValue (dict .value) fields.value
  data : DescribesData (dict .data) fields.data
  chainId : dict .chainId = some (.val (.int chainId))
  others :
    ∀ key ∈ [TxField.type, .accessList, .maxFeePerGas,
      .maxPriorityFeePerGas, .fromAddr], dict key = none

theorem DescribesReceiver.isReceiver
    {toChecksumAddress : Bytes → List Char}
    {arg : Option Arg}
    {b : Bytes}
    (hDescribes :
      DescribesReceiver toChecksumAddress arg b) :
    IsReceiver b := by
  cases hDescribes with
  | missing => exact Or.inr rfl
  | none => exact Or.inr rfl
  | raw _ hReceiver => exact hReceiver
  | text _ hLength => exact Or.inl hLength

/-
  The package reads such a dictionary as its fields, with
  empty data for missing data, and writes the fields with
  the signature.
-/
structure EthAccountStandard (A : EthAccount) : Prop where
  read :
    ∀ dict fields chainId,
      Describes A.toChecksumAddress dict fields chainId →
        A.serializableUnsignedTransactionFromDict dict =
          .ok (.transaction fields chainId 0 0)
  encode :
    ∀ fields chainId vrs,
      A.encodeTransaction
          (.transaction fields chainId 0 0) vrs =
        rlpEncodeItem (fields.signedItem vrs)

/- The dictionary the verifier makes of the fields. -/
theorem describes_toDict
    {toChecksumAddress : Bytes → List Char}
    {fields : LegacyFields}
    (hReceiver : IsReceiver fields.toAddr)
    (vrs : Nat × Nat × Nat)
    (chainId : Nat) :
    Describes toChecksumAddress
      ((asSigned fields vrs).unsigned chainId).toDict fields
      chainId where
  nonce := rfl
  gasPrice := rfl
  gas := rfl
  toAddr := .raw _ hReceiver
  value := .int _
  data := .raw _
  chainId := rfl
  others := by
    intro key hKey
    simp only [List.mem_cons, List.not_mem_nil, or_false]
      at hKey
    rcases hKey with rfl | rfl | rfl | rfl | rfl <;> rfl

/- The dictionary the searcher makes of a transfer. -/
theorem describes_transferTx
    {toChecksumAddress : Bytes → List Char}
    (sender : List Char)
    (receiver : Bytes)
    (hLength : receiver.length = 20)
    (amt gasPrice gas nonce chainId : Nat) :
    Describes toChecksumAddress
      ((transferTx sender (toChecksumAddress receiver) amt
        gasPrice gas nonce chainId).dissoc .fromAddr)
      { nonce := nonce
        gasPrice := gasPrice
        gas := gas
        toAddr := receiver
        value := amt
        data := [] }
      chainId where
  nonce := rfl
  gasPrice := rfl
  gas := rfl
  toAddr := .text _ hLength
  value := .int _
  data := .missing
  chainId := rfl
  others := by
    intro key hKey
    simp only [List.mem_cons, List.not_mem_nil, or_false]
      at hKey
    rcases hKey with rfl | rfl | rfl | rfl | rfl <;> rfl

------------------------------------------------------------
-- The Steps of the Searcher
------------------------------------------------------------

section

variable {A : EthAccount}
variable {L : JacobianLibrary}
variable {keccak : Digest}

/- What the searcher knows of the leaked transaction. -/
theorem decodeRawTx_eq_ok
    {b : Bytes}
    {leakedTx : LeakedTx}
    (hOk :
      decodeRawTx A L keccak (Hex.encode b) =
        .ok leakedTx) :
    ∃ (fields : LegacyFields) (v r s : Nat),
      RLP.decode b = some (fields.signedItem (v, r, s)) ∧
      IsReceiver fields.toAddr ∧
      leakedTxSigHash keccak leakedTx =
        keccak (signatureMessage v r s) := by
  rw [decodeRawTx, hexToBytes_encode, ok_bind] at hOk
  rcases bind_eq_ok.mp hOk with ⟨x, hDecode, hOk⟩
  rcases bind_eq_ok.mp hOk with
    ⟨⟨fields, v, r, s⟩, hRead, hOk⟩
  rcases bind_eq_ok.mp hOk with ⟨raw, _, hOk⟩
  rcases bind_eq_ok.mp hOk with ⟨_, _, hOk⟩
  rcases bind_eq_ok.mp hOk with ⟨hash, _, hOk⟩
  cases hOk
  rcases readTransaction_eq_ok hRead with ⟨rfl, hReceiver⟩
  refine ⟨fields, v, r, s, ?_, hReceiver, rfl⟩
  unfold rlpDecodeBytes at hDecode
  split at hDecode
  · rename_i hSome
    cases hDecode
    exact hSome
  · cases hDecode

theorem fromKey_eq_ok
    {text : List Char}
    {key : PrivateKey}
    (hOk : fromKey L text = .ok key) :
    fromKey L (toHex key.rawKey) = .ok key := by
  rcases bind_eq_ok.mp hOk with ⟨b, _, hOk⟩
  by_cases hLength : b.length = 32
  · have hParse :
        parsePrivateKey L.toJacobianModule b = .ok key := by
      simp only [hLength, ne_eq, not_true_eq_false,
        if_false] at hOk
      exact hOk
    rw [fromKey, parsePrivateKey_eq_ok hParse,
      hexBytes_toHex, ok_bind]
    simp only [hLength, ne_eq, not_true_eq_false, if_false]
    exact hParse
  · simp only [hLength, ne_eq, not_false_eq_true, if_true]
      at hOk
    cases hOk

/- The steps until the bundle is sent. -/
theorem signEvidence_eq_ok
    {buff rndBytes : Bytes}
    {stingerPk : List Char}
    {generateTx : PrivateKey → Py TransactionDict}
    {e : SignedEvidence}
    (hOk :
      signEvidence A L keccak buff rndBytes stingerPk
          generateTx =
        .ok e) :
    decodeRawTx A L keccak (Hex.encode buff) =
        .ok e.leakedTx ∧
      makePedersenCommitment
          (bytesToInt (leakedTxSigHash keccak e.leakedTx))
          rndBytes =
        .ok (e.C, e.r) ∧
      fromKey L stingerPk = .ok e.stingSender ∧
      ∃ dict, generateTx e.stingSender = .ok dict ∧
        signTx A L keccak dict e.stingSender e.C =
          .ok e.signedAdvTx := by
  rcases bind_eq_ok.mp hOk with ⟨leakedTx, hLeaked, hOk⟩
  rcases bind_eq_ok.mp hOk with ⟨⟨C, r⟩, hCommit, hOk⟩
  rcases bind_eq_ok.mp hOk with ⟨sender, hSender, hOk⟩
  rcases bind_eq_ok.mp hOk with ⟨dict, hDict, hOk⟩
  rcases bind_eq_ok.mp hOk with ⟨signed, hSign, hOk⟩
  cases hOk
  exact ⟨hLeaked, hCommit, hSender, dict, hDict, hSign⟩

/- A transaction with a chain id encodes its fields. -/
theorem signTx_eq_ok
    (hA : EthAccountStandard A)
    {dict : TransactionDict}
    {fields : LegacyFields}
    {chainId : Nat}
    {k : Int}
    (hDescribes :
      Describes A.toChecksumAddress
        (dict.dissoc .fromAddr) fields chainId)
    {account : PrivateKey}
    {signed : SignedTransaction}
    (hOk : signTx A L keccak dict account k = .ok signed) :
    RLP.decode signed.rawTransaction =
      some (fields.signedItem
        (signed.v, signed.r, signed.s)) := by
  rcases signTransaction_eq_ok hOk with
    ⟨key, tx, _, hRead, _, hEncode, _⟩
  rw [hA.read _ _ _ hDescribes] at hRead
  cases hRead
  rw [hA.encode] at hEncode
  rcases rlpEncodeItem_eq_ok.mp hEncode with
    ⟨hEncodable, hRaw⟩
  rw [← hRaw, RLP.decode_encode hEncodable]

------------------------------------------------------------
-- Acceptance
------------------------------------------------------------

/- The fields decoded from an encoded transaction. -/
def decodedFields
    (chainId : Nat)
    (b : Bytes) : Py (UnsignedTx × SignedTx) := do
  let x ← rlpDecodeBytes b
  readTx chainId (.item x)

theorem decodedFields_eq
    {b : Bytes}
    {fields : LegacyFields}
    {vrs : Nat × Nat × Nat}
    (hReceiver : IsReceiver fields.toAddr)
    (hDecode : RLP.decode b = some (fields.signedItem vrs))
    (chainId : Nat) :
    decodedFields chainId b =
      .ok ((asSigned fields vrs).unsigned chainId,
        asSigned fields vrs) := by
  rw [decodedFields, rlpDecodeBytes, hDecode]
  exact readTx_signedItem hReceiver chainId

/- The assertions hold when the signatures agree. -/
theorem check_eq_ok
    {e : Recomputed}
    {b : Bytes}
    (hv : e.signedAdvTx.v = e.advTxComputed.v)
    (hr : e.signedAdvTx.r = e.advTxComputed.r)
    (hs : e.signedAdvTx.s = e.advTxComputed.s)
    (hEncode : encodeTx e.signedVictimTx = .ok b) :
    e.check (.ok b) = .ok () := by
  rw [Recomputed.check, pyAssert_pos hv, ok_bind,
    pyAssert_pos hr, ok_bind, intBase16_hex, ok_bind,
    pyAssert_pos hs, ok_bind, ok_bind, hEncode, ok_bind,
    pyAssert_pos rfl]

section

variable {buff rndBytes : Bytes}
variable {stingerPk : List Char}
variable {generateTx : PrivateKey → Py TransactionDict}
variable {e : SignedEvidence}
variable (w₁ w₂ : Web3)
variable {fields : LegacyFields}
variable (verifyData : VerifyData)
variable {advPrf victimPrf : Bytes}

/- The steps of the enclave on honest evidence. -/
theorem recompute_signEvidence
    (hA : EthAccountStandard A)
    (hMake :
      signEvidence A L keccak buff rndBytes stingerPk
          generateTx =
        .ok e)
    (hLegacy :
      ∀ dict, generateTx e.stingSender = .ok dict →
        Describes A.toChecksumAddress
          (dict.dissoc .fromAddr) fields w₁.chainId)
    (hRandom : verifyData.r = e.r)
    (hKey :
      verifyData.advPrivateKey = toHex e.stingSender.rawKey)
    (hAdvText : hexToBytes verifyData.advPrf = .ok advPrf)
    (hVictimText :
      hexToBytes verifyData.victimPrf = .ok victimPrf)
    (hAdv :
      verifyTxProof keccak w₁ verifyData.targetBlockNum
          advPrf =
        decodedFields w₁.chainId
          e.signedAdvTx.rawTransaction)
    (hVictim :
      verifyTxProof keccak w₂ verifyData.targetBlockNum
          victimPrf =
        decodedFields w₂.chainId buff) :
    ∃ again,
      recompute A L keccak w₁ w₂ verifyData = .ok again ∧
      again.C = e.C ∧
      again.advTxComputed = e.signedAdvTx ∧
      again.signedAdvTx =
        asSigned fields (e.signedAdvTx.v, e.signedAdvTx.r,
          e.signedAdvTx.s) ∧
      encodeTx again.signedVictimTx = .ok buff := by
  rcases signEvidence_eq_ok hMake with
    ⟨hLeaked, hCommit, hSender, dict, hDict, hSign⟩
  rcases decodeRawTx_eq_ok hLeaked with
    ⟨victim, v, r, s, hBuff, hReceiver, hMessage⟩
  have hDescribes := hLegacy dict hDict
  have hRaw := signTx_eq_ok hA hDescribes hSign
  have hAdvReceiver := hDescribes.toAddr.isReceiver
  rw [decodedFields_eq hAdvReceiver hRaw] at hAdv
  rw [decodedFields_eq hReceiver hBuff] at hVictim
  -- the same numbers are committed to
  have hCommitment :
      computePedersenCommitment
          (bytesToInt (keccak (signatureMessage v r s)))
          verifyData.r =
        .ok e.C := by
    rw [← hMessage, hRandom]
    exact (makePedersenCommitment_eq_ok hCommit).2
  -- the same fields are signed
  have hAgain :
      signTx A L keccak
          ((asSigned fields (e.signedAdvTx.v,
            e.signedAdvTx.r, e.signedAdvTx.s)).unsigned
              w₁.chainId).toDict
          e.stingSender e.C =
        .ok e.signedAdvTx := by
    apply signTransaction_congr hSign rfl
    rw [hA.read _ _ _ hDescribes,
      hA.read _ _ _ (describes_toDict hAdvReceiver _ _)]
  refine ⟨
    { signedAdvTx :=
        asSigned fields (e.signedAdvTx.v, e.signedAdvTx.r,
          e.signedAdvTx.s)
      signedVictimTx := asSigned victim (v, r, s)
      C := e.C
      advTxComputed := e.signedAdvTx },
    ?_, rfl, rfl, rfl, encodeTx_asSigned hReceiver hBuff⟩
  rw [recompute, hAdvText, ok_bind, hAdv, ok_bind]
  simp only
  rw [hVictimText, ok_bind, hVictim, ok_bind]
  change (do
    let C ← computePedersenCommitment
      (bytesToInt (keccak (signatureMessage v r s)))
      verifyData.r
    _) = _
  rw [hCommitment, ok_bind, hKey, fromKey_eq_ok hSender,
    ok_bind, hAgain]
  rfl

end

/-
  The enclave computes the commitment and the signature of
  the searcher again, and none of its assertions fails.
-/
theorem verifyEvidence_signEvidence
    (hA : EthAccountStandard A)
    (buff rndBytes : Bytes)
    (stingerPk : List Char)
    (generateTx : PrivateKey → Py TransactionDict)
    (e : SignedEvidence)
    (hMake :
      signEvidence A L keccak buff rndBytes stingerPk
          generateTx =
        .ok e)
    (w₁ w₂ : Web3)
    (fields : LegacyFields)
    (hLegacy :
      ∀ dict, generateTx e.stingSender = .ok dict →
        Describes A.toChecksumAddress
          (dict.dissoc .fromAddr) fields w₁.chainId)
    (verifyData : VerifyData)
    (hRandom : verifyData.r = e.r)
    (hKey :
      verifyData.advPrivateKey = toHex e.stingSender.rawKey)
    (advPrf victimPrf : Bytes)
    (hAdvText : hexToBytes verifyData.advPrf = .ok advPrf)
    (hVictimText :
      hexToBytes verifyData.victimPrf = .ok victimPrf)
    (hAdv :
      verifyTxProof keccak w₁ verifyData.targetBlockNum
          advPrf =
        decodedFields w₁.chainId
          e.signedAdvTx.rawTransaction)
    (hVictim :
      verifyTxProof keccak w₂ verifyData.targetBlockNum
          victimPrf =
        decodedFields w₂.chainId buff) :
    ∃ again,
      recompute A L keccak w₁ w₂ verifyData = .ok again ∧
      again.C = e.C ∧
      again.signedAdvTx.v = again.advTxComputed.v ∧
      again.signedAdvTx.r = again.advTxComputed.r ∧
      again.signedAdvTx.s = again.advTxComputed.s ∧
      again.advTxComputed = e.signedAdvTx ∧
      encodeTx again.signedVictimTx = .ok buff ∧
      again.check (.ok buff) = .ok () ∧
      ∀ hashMessage w₃ secretKey,
        verifyEvidence A L keccak hashMessage w₁ w₂ w₃
            verifyData (.ok buff) secretKey =
          signBlock L hashMessage w₃
            verifyData.targetBlockNum secretKey := by
  rcases recompute_signEvidence w₁ w₂ verifyData hA hMake
      hLegacy hRandom hKey hAdvText hVictimText hAdv
      hVictim with
    ⟨again, hAgain, hC, hComputed, hSigned, hEncode⟩
  have hv : again.signedAdvTx.v = again.advTxComputed.v := by
    rw [hSigned, hComputed]
    rfl
  have hr : again.signedAdvTx.r = again.advTxComputed.r := by
    rw [hSigned, hComputed]
    rfl
  have hs : again.signedAdvTx.s = again.advTxComputed.s := by
    rw [hSigned, hComputed]
    rfl
  have hCheck := check_eq_ok hv hr hs hEncode
  refine ⟨again, hAgain, hC, hv, hr, hs, hComputed, hEncode,
    hCheck, ?_⟩
  intro hashMessage w₃ secretKey
  rw [verifyEvidence, hAgain, ok_bind, hCheck]
  rfl

end

------------------------------------------------------------
-- The Reference Account
------------------------------------------------------------

/- A digit in either case keeps its value. -/
private theorem value_cased
    (n d : Nat) :
    Hex.value
        (if 8 ≤ d then (Hex.digit n).toUpper
          else Hex.digit n) =
      some (n % 16) ∧
    Hex.isSpace
        (if 8 ≤ d then (Hex.digit n).toUpper
          else Hex.digit n) =
      false := by
  have hAll : ∀ m < 16,
      Hex.value (Hex.digit m).toUpper = some m ∧
        Hex.isSpace (Hex.digit m).toUpper = false := by
    decide
  have hDigit : Hex.digit (n % 16) = Hex.digit n := by
    rw [Hex.digit, Nat.mod_mod, Hex.digit]
  have hUpper := hAll (n % 16) (Nat.mod_lt n (by omega))
  rw [hDigit] at hUpper
  split_ifs
  · exact hUpper
  · exact ⟨Hex.value_digit n, Hex.isSpace_digit n⟩

/- The bytes can be read in mixed case. -/
private theorem decode_cased
    (b : Bytes)
    (digits : List Nat)
    (hLength : 2 * b.length ≤ digits.length) :
    Hex.decode
        (List.zipWith
          (fun c d => if 8 ≤ d then c.toUpper else c)
          (Hex.encode b) digits) =
      some b := by
  induction b generalizing digits with
  | nil => rfl
  | cons x b ih =>
      rcases digits with _ | ⟨d, _ | ⟨d', digits⟩⟩
      · simp at hLength
      · simp at hLength
        omega
      · have hRest : 2 * b.length ≤ digits.length := by
          simp only [List.length_cons] at hLength
          omega
        rcases value_cased (x.toNat / 16) d with
          ⟨hHigh, hSpace⟩
        rcases value_cased x.toNat d' with ⟨hLow, _⟩
        have hByte :
            UInt8.ofNat
                (x.toNat / 16 % 16 * 16 + x.toNat % 16) =
              x := by
          have hLt := x.toNat_lt
          rw [show x.toNat / 16 % 16 * 16 + x.toNat % 16 =
            x.toNat by omega, UInt8.ofNat_toNat]
        rw [Hex.encode_cons, List.zipWith_cons_cons,
          List.zipWith_cons_cons, Hex.decode, hSpace, hHigh,
          hLow, ih digits hRest]
        simp only [Bool.false_eq_true, if_false,
          Option.bind_eq_bind, Option.bind_some, hByte]
        rfl

private theorem hexToBytes_checksum
    {b : Bytes}
    (hLength : b.length = 20) :
    hexToBytes ((EthAccount.checksum b).drop 2) = .ok b := by
  have hDigits (digest : Bytes) :
      (digest.flatMap
        fun x => [x.toNat / 16, x.toNat % 16]).length =
          2 * digest.length := by
    induction digest with
    | nil => rfl
    | cons x digest ih =>
        rw [List.flatMap_cons, List.length_append, ih,
          List.length_cons]
        simp only [List.length_cons, List.length_nil]
        omega
  rw [EthAccount.checksum, hexToBytes, List.drop_succ_cons,
    List.drop_succ_cons, List.drop_zero, decode_cased]
  rw [hDigits, Digest.length_hash]
  omega

theorem readReceiver_describes
    {arg : Option Arg}
    {b : Bytes}
    (hDescribes :
      DescribesReceiver EthAccount.checksum arg b) :
    EthAccount.readReceiver arg = .ok b := by
  cases hDescribes with
  | missing => rfl
  | none => rfl
  | raw _ hReceiver => exact if_pos hReceiver
  | text _ hLength =>
      rw [EthAccount.readReceiver,
        hexToBytes_checksum hLength, ok_bind,
        if_pos ⟨hLength, rfl⟩]
      rfl

theorem readData_describes
    {arg : Option Arg}
    {b : Bytes}
    (hDescribes : DescribesData arg b) :
    EthAccount.readData arg = .ok b := by
  cases hDescribes with
  | missing => rfl
  | raw => rfl

theorem readValue_describes
    {arg : Option Arg}
    {n : Nat}
    (hDescribes : DescribesValue arg n) :
    EthAccount.readNumber (arg.or (some (.val (.int 0)))) =
      .ok n := by
  cases hDescribes with
  | missing => rfl
  | int => rfl

/- The reference does what is expected of the package. -/
theorem reference_standard :
    EthAccountStandard EthAccount.reference where
  read := by
    intro dict fields chainId hDescribes
    have hOthers := hDescribes.others
    simp only [List.mem_cons, List.not_mem_nil, or_false,
      forall_eq_or_imp, forall_eq] at hOthers
    rcases hOthers with
      ⟨hType, hAccess, hMax, hPriority, hFrom⟩
    change EthAccount.readDict dict = _
    simp only [EthAccount.readDict, List.any_cons,
      List.any_nil, hType, hAccess, hMax, hPriority, hFrom,
      hDescribes.nonce, hDescribes.gasPrice, hDescribes.gas,
      readReceiver_describes hDescribes.toAddr,
      readValue_describes hDescribes.value,
      readData_describes hDescribes.data,
      hDescribes.chainId]
    rfl
  encode := by
    intro fields chainId vrs
    rfl

------------------------------------------------------------
-- A Run
------------------------------------------------------------

/- The second generator, among the points of the curve. -/
def hGroup : Secp256k1.Group :=
  hPoint.toGroup

/- The point committed to, computed without division. -/
theorem affine_sum
    (x r : Nat) :
    JacobianLibrary.computed.fastAdd
        (JacobianLibrary.computed.fastMultiply G x)
        (JacobianLibrary.computed.fastMultiply (hx, hy) r) =
      affine (x • Secp256k1.G + r • hGroup) := by
  have hG : G = affine Secp256k1.G := by
    rw [affine_of_coords Secp256k1.coords_G, values_G]
  have hH : (hx, hy) = affine hGroup := by
    decide +kernel
  rw [hG, hH, JacobianLibrary.computed_fastMultiply,
    JacobianLibrary.computed_fastMultiply,
    JacobianLibrary.computed_fastAdd, natCast_zsmul,
    natCast_zsmul]

/- The commitment to a point found by its coordinates. -/
theorem computePedersenCommitment_of_affine
    {x r cx cy : Nat}
    (hAffine :
      affine (x • Secp256k1.G + r • hGroup) = (cx, cy))
    (hcx : cx < q)
    (hcy : cy < q)
    (onCurve : curve.testPoint ⟨cx, hcx⟩ ⟨cy, hcy⟩) :
    computePedersenCommitment x r =
      .ok (BigEndian.decode
        (serBytes ⟨cx, hcx⟩ ⟨cy, hcy⟩)) := by
  rcases Point.mul_eq basePoint x with ⟨S, hS, hxG⟩
  rcases Point.mul_eq hPoint r with ⟨T, hT, hrH⟩
  rcases Point.add_eq S T with ⟨P, hP, hSum⟩
  rw [hxG, hrH, natCast_zsmul, natCast_zsmul] at hSum
  have hPoint : P = .point ⟨cx, hcx⟩ ⟨cy, hcy⟩ onCurve := by
    have hPair : affine P.toGroup = (cx, cy) := by
      rw [hSum]
      exact hAffine
    cases P with
    | ideal =>
        exfalso
        have hZero : ((0, 0) : Nat × Nat) = (cx, cy) :=
          hPair
        cases hZero
        exact ordinate_ne_zero onCurve Nat.cast_zero
    | point x' y' onCurve' =>
        have hEq : (x'.n, y'.n) = (cx, cy) := by
          rw [← hPair, ← IntegerModP.val_toZMod x',
            ← IntegerModP.val_toZMod y']
          rfl
        cases x'
        cases y'
        cases hEq
        rfl
  rw [computePedersenCommitment, pedersenPoint, hS, ok_bind,
    hT, ok_bind, hP, ok_bind, hPoint, commitmentOf_point]

/- A transaction that was leaked. -/
def honestVictim : Bytes :=
  RLP.encode (sampleLegacy.signedItem
    (64799,
      0x2f8bde4d1a07209355b4a7250a5c5128e88b84bddc619ab7cba8d569b240efe4,
      0x147539259ab418496f4c33175356f4ecaf13a3558668b70fd27f9b15dfed970b))

/- The transaction the searcher makes for it. -/
def honestFields : LegacyFields :=
  { nonce := 1
    gasPrice := 2
    gas := 25000
    toAddr := List.replicate 20 0x22
    value := 7
    data := [] }

def honestAdv : SignedTransaction :=
  let r :=
    0xb4a542c720e3a267f5e9929c7f38597022d4f08553a6d761e397233214562c76
  let s :=
    0x5b6678882b96fc197573f2c78c542685805ac93fbe5eaa305969636319cdd42d
  let raw :=
    RLP.encode (honestFields.signedItem (64799, r, s))
  { rawTransaction := raw
    hash := Digest.keccak256 raw
    r := r
    s := s
    v := 64799 }

def honestKey : PrivateKey :=
  { rawKey := keyBytes 2
    publicKey := encodeRawPublicKey
      (JacobianLibrary.computed.fastMultiply G 2) }

def honestTx (key : PrivateKey) : Py TransactionDict :=
  .ok (transferTx
    (key.address EthAccount.reference Digest.keccak256)
    (EthAccount.checksum (List.replicate 20 0x22))
    7 2 25000 1 32382)

/- What the searcher signs. -/
def honestEvidence : SignedEvidence :=
  { leakedTx :=
      { rawTransaction := honestVictim
        hash := Digest.keccak256 honestVictim
        r := hex
          0x2f8bde4d1a07209355b4a7250a5c5128e88b84bddc619ab7cba8d569b240efe4
        s := hex
          0x147539259ab418496f4c33175356f4ecaf13a3558668b70fd27f9b15dfed970b
        v := 64799 }
    C :=
      0x10ea257c907840fb7b5d5357f975b322bba18203da20d29853d41849d42fb64a1
    r := LittleEndian.decode (List.replicate 32 1)
    stingSender := honestKey
    signedAdvTx := honestAdv }

theorem makePedersenCommitment_honest :
    makePedersenCommitment
        (bytesToInt (leakedTxSigHash Digest.keccak256
          honestEvidence.leakedTx))
        (List.replicate 32 1) =
      .ok (honestEvidence.C, honestEvidence.r) := by
  have hRandom := uint256FromStr_eq
    (List.length_replicate (n := 32) (a := (1 : UInt8)))
  have hSum := affine_sum
    (bytesToInt (leakedTxSigHash Digest.keccak256
      honestEvidence.leakedTx)) honestEvidence.r
  have hPair :
      JacobianLibrary.computed.fastAdd
          (JacobianLibrary.computed.fastMultiply G
            (bytesToInt (leakedTxSigHash Digest.keccak256
              honestEvidence.leakedTx)))
          (JacobianLibrary.computed.fastMultiply (hx, hy)
            honestEvidence.r) =
        (0xa164fb429d84413d85290da23d2018ba2b325b977f35d5b5b70f8407c957a20e,
          0x10e8399837e8cd2e2eb12606c7510f3a7233e34ab8cb1c4db9359d036e3087f8) := by
    decide +kernel
  rw [hPair] at hSum
  have hCommit := computePedersenCommitment_of_affine
    hSum.symm (by decide +kernel) (by decide +kernel)
    (by decide +kernel)
  have hNumber :
      BigEndian.decode
          (serBytes
            ⟨0xa164fb429d84413d85290da23d2018ba2b325b977f35d5b5b70f8407c957a20e,
              by decide +kernel⟩
            ⟨0x10e8399837e8cd2e2eb12606c7510f3a7233e34ab8cb1c4db9359d036e3087f8,
              by decide +kernel⟩) =
        honestEvidence.C := by
    decide +kernel
  rw [hNumber] at hCommit
  rcases bind_eq_ok.mp hCommit with ⟨P, hP, hNumberOf⟩
  rw [makePedersenCommitment, hRandom, ok_bind]
  change (do
    let C ← pedersenPoint _ honestEvidence.r
    _) = _
  rw [hP, ok_bind, hNumberOf]
  rfl

/- The searcher signs without failure. -/
theorem signEvidence_honest :
    signEvidence EthAccount.reference
        JacobianLibrary.computed Digest.keccak256
        honestVictim (List.replicate 32 1)
        (toHex (keyBytes 2)) honestTx =
      .ok honestEvidence := by
  have hLeaked :
      decodeRawTx EthAccount.reference
          JacobianLibrary.computed Digest.keccak256
          (Hex.encode honestVictim) =
        .ok honestEvidence.leakedTx := by
    decide +kernel
  have hKey :
      fromKey JacobianLibrary.computed
          (toHex (keyBytes 2)) =
        .ok honestKey := by
    decide +kernel
  have hSign :
      (do
        let dict ← honestTx honestKey
        signTx EthAccount.reference JacobianLibrary.computed
          Digest.keccak256 dict honestKey
          honestEvidence.C) =
        .ok honestAdv := by
    decide +kernel
  rw [signEvidence, hLeaked, ok_bind]
  simp only
  rw [makePedersenCommitment_honest, ok_bind]
  simp only
  rw [hKey, ok_bind]
  rcases bind_eq_ok.mp hSign with ⟨dict, hDict, hSign⟩
  rw [hDict, ok_bind, hSign]
  rfl

/- The block of the two transactions. -/
def honestBlock : Block Digest.keccak256 where
  toTxTrie := TxTrie.ofTxs
    [honestVictim, honestAdv.rawTransaction]
    (by decide +kernel)
  header :=
    List.replicate 4 (.str []) ++
      [.str ((Trie.ofList (txEntries
        [honestVictim, honestAdv.rawTransaction])).rootHash
          Digest.keccak256)] ++
      List.replicate 12 (.str [])
  nodes_encodable := by decide +kernel
  header_encodable := by decide +kernel
  transactionsRoot_eq := rfl

/- The proof of one of them, from its leaf. -/
def honestProof
    (i : Nat)
    (leaf : Trie Bytes) : Bytes :=
  RLP.encode (.list
    [.list honestBlock.header, RLP.int i,
      .list
        [Trie.node Digest.keccak256 honestBlock.trie,
          Trie.node Digest.keccak256 leaf]])

def honestAdvProof : Bytes :=
  honestProof 1 (.leaf [1] honestAdv.rawTransaction)

def honestVictimProof : Bytes :=
  honestProof 0 (.leaf [0] honestVictim)

/- A node that answers with the hash of a block. -/
def nodeAt (b : Block Digest.keccak256) : Web3 :=
  { sampleNode with
    getBlock := fun _ =>
      .ok { sampleDict with hash := b.hash } }

/- What the searcher hands to the enclave. -/
def honestData : VerifyData :=
  { r := honestEvidence.r
    advPrivateKey := toHex honestKey.rawKey
    targetBlockNum := 1
    advPrf := Hex.encode honestAdvProof
    victimPrf := Hex.encode honestVictimProof }

theorem hexToBytes_honestData :
    hexToBytes honestData.advPrf = .ok honestAdvProof ∧
    hexToBytes honestData.victimPrf =
      .ok honestVictimProof := by
  unfold honestData
  simp only [hexToBytes_encode, and_self]

theorem verifyTxProof_honest :
    verifyTxProof Digest.keccak256 (nodeAt honestBlock) 1
        honestAdvProof =
      decodedFields 32382 honestAdv.rawTransaction ∧
    verifyTxProof Digest.keccak256 (nodeAt honestBlock) 1
        honestVictimProof =
      decodedFields 32382 honestVictim := by
  decide +kernel

theorem describes_honestTx
    {dict : TransactionDict}
    (hDict : honestTx honestKey = .ok dict) :
    Describes EthAccount.checksum (dict.dissoc .fromAddr)
      honestFields 32382 := by
  cases hDict
  exact describes_transferTx _ _ (List.length_replicate ..)
    _ _ _ _ _

/- The evidence of the run is accepted. -/
theorem verifyEvidence_signEvidence_honest :
    ∃ again,
      recompute EthAccount.reference
          JacobianLibrary.computed Digest.keccak256
          (nodeAt honestBlock) (nodeAt honestBlock)
          honestData =
        .ok again ∧
      again.C = honestEvidence.C ∧
      encodeTx again.signedVictimTx = .ok honestVictim ∧
      again.check (.ok honestVictim) = .ok () := by
  rcases verifyEvidence_signEvidence reference_standard
      honestVictim (List.replicate 32 1)
      (toHex (keyBytes 2)) honestTx honestEvidence
      signEvidence_honest (nodeAt honestBlock)
      (nodeAt honestBlock) honestFields
      (fun dict => describes_honestTx) honestData rfl rfl
      honestAdvProof honestVictimProof
      hexToBytes_honestData.1 hexToBytes_honestData.2
      verifyTxProof_honest.1 verifyTxProof_honest.2 with
    ⟨again, hAgain, hC, _, _, _, _, hEncode, hCheck, _⟩
  exact ⟨again, hAgain, hC, hEncode, hCheck⟩

end Sting
