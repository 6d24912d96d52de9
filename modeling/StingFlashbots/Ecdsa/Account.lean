import StingFlashbots.Crypto.Keccak
import StingFlashbots.Ecdsa.Verifying
import StingFlashbots.Searcher.Utils

/-
  Signing transactions with an account.

  The account reads a dictionary as one of three kinds of
  transaction and signs its hash. The nonce the caller asks
  for reaches the signer for one kind only. For the other
  two the signature is that of the derived nonce, which
  agrees with the requested one only by accident.

  Key definitions include:
    * `Ecdsa.TransactionDict`, `Ecdsa.TransactionObject`
    * `Ecdsa.EthAccount`
    * `Ecdsa.signTransactionDict`, `Ecdsa.signTransaction`
    * `Ecdsa.recoverTransaction`
    * `Ecdsa.EthAccount.reference`

  Main results:
    * `Ecdsa.signTransaction_eq_ok`
    * `Ecdsa.signTransaction_nonce_iff`
-/

namespace Ecdsa

open Sting
open RLP (Item)

------------------------------------------------------------
-- Dictionaries
------------------------------------------------------------

/- The keys of a transaction dictionary. -/
inductive TxField where
| nonce
| gasPrice
| gas
| toAddr
| value
| data
| chainId
| fromAddr
| type
| accessList
| maxFeePerGas
| maxPriorityFeePerGas
deriving DecidableEq, Repr

/-
  The values of a transaction dictionary. An access list is
  in the form of nested lists.
-/
inductive Arg where
| text (t : List Char)
| val (v : Val)
deriving DecidableEq, Repr

abbrev TransactionDict :=
  TxField → Option Arg

/- `dissoc` of one key. -/
def TransactionDict.dissoc
    (dict : TransactionDict)
    (key : TxField) : TransactionDict :=
  fun other => if other = key then none else dict other

------------------------------------------------------------
-- Texts of Values
------------------------------------------------------------

/- A byte inside the text of a byte string. -/
def escapeByte
    (quote : Nat)
    (x : UInt8) : List Char :=
  let c := Char.ofNat x.toNat
  if x.toNat = 92 ∨ x.toNat = quote then
    [Char.ofNat 92, c]
  else if x.toNat = 9 then
    [Char.ofNat 92, 't']
  else if x.toNat = 10 then
    [Char.ofNat 92, 'n']
  else if x.toNat = 13 then
    [Char.ofNat 92, 'r']
  else if 32 ≤ x.toNat ∧ x.toNat < 127 then
    [c]
  else
    Char.ofNat 92 :: 'x' :: Hex.encode [x]

/- `repr` of a byte string. -/
def reprBytes (b : Bytes) : List Char :=
  let quote := if 39 ∈ b ∧ 34 ∉ b then 34 else 39
  'b' :: Char.ofNat quote ::
    (b.flatMap (escapeByte quote) ++ [Char.ofNat quote])

mutual

/- `repr` of nested lists. -/
def reprItem : Item → List Char
| .str b => reprBytes b
| .list xs => '[' :: (reprItems xs ++ [']'])

def reprItems : List Item → List Char
| [] => []
| [x] => reprItem x
| x :: y :: xs => reprItem x ++ ',' :: ' ' :: reprItems (y :: xs)

end

/- `str` -/
def Arg.str : Arg → List Char
| .text t => t
| .val .none => "None".toList
| .val (.int n) => (toString n).toList
| .val (.item x) => reprItem x

------------------------------------------------------------
-- Transactions of the Package
------------------------------------------------------------

/- The fields of a legacy transaction. -/
structure LegacyFields where
  nonce : Nat
  gasPrice : Nat
  gas : Nat
  toAddr : Bytes
  value : Nat
  data : Bytes
deriving DecidableEq, Repr

/- The transaction classes; typed ones stay opaque. -/
inductive TransactionObject (Typed : Type) where
| unsignedTransaction (fields : LegacyFields)
| chainAwareUnsignedTransaction
    (fields : LegacyFields)
    (v r s : Nat)
| transaction
    (fields : LegacyFields)
    (v r s : Nat)
| typedTransaction (tx : Typed)
deriving DecidableEq, Repr

/- `big_endian_int`, reading. -/
def readBigEndianInt : Item → Py Nat
| .str b =>
    if b.head? = some 0 then
      .error .deserializationError
    else
      .ok (BigEndian.decode b)
| .list _ => .error .deserializationError

/- `binary`, reading. -/
def readBinary : Item → Py Bytes
| .str b => .ok b
| .list _ => .error .deserializationError

/- `Binary.fixed_length(20, allow_empty=True)`, reading. -/
def readAddress (x : Item) : Py Bytes := do
  let b ← readBinary x
  if b.length = 20 ∨ b = [] then
    return b
  else
    throw .deserializationError

/- The nine fields of a signed legacy transaction. -/
def readTransaction :
    Item → Py (LegacyFields × Nat × Nat × Nat)
| .list [nonce, gasPrice, gas, toAddr, value, data,
    v, r, s] => do
    let fields : LegacyFields :=
      { nonce := ← readBigEndianInt nonce
        gasPrice := ← readBigEndianInt gasPrice
        gas := ← readBigEndianInt gas
        toAddr := ← readAddress toAddr
        value := ← readBigEndianInt value
        data := ← readBinary data }
    return (fields, ← readBigEndianInt v,
      ← readBigEndianInt r, ← readBigEndianInt s)
| _ => .error .deserializationError

/- The fields, as they are serialised. -/
def LegacyFields.items (fields : LegacyFields) : List Item :=
  [RLP.int fields.nonce, RLP.int fields.gasPrice,
    RLP.int fields.gas, .str fields.toAddr,
    RLP.int fields.value, .str fields.data]

/- The fields with the three numbers of a signature. -/
def LegacyFields.signedItem
    (fields : LegacyFields)
    (vrs : Nat × Nat × Nat) : Item :=
  .list (fields.items ++
    [RLP.int vrs.1, RLP.int vrs.2.1, RLP.int vrs.2.2])

/- What is taken from the `eth_account` package. -/
structure EthAccount where
  Typed : Type
  serializableUnsignedTransactionFromDict :
    TransactionDict → Py (TransactionObject Typed)
  hash : TransactionObject Typed → Bytes
  encodeTransaction :
    TransactionObject Typed → Nat × Nat × Nat → Py Bytes
  toChecksumAddress : Bytes → List Char
  transactionFromBytes :
    Bytes → Py (LegacyFields × Nat × Nat × Nat)
  typedTransactionFromBytes : Bytes → Py Typed
  vrs : Typed → Nat × Nat × Nat

/- `SignedTransaction` -/
structure SignedTransaction where
  rawTransaction : Bytes
  hash : Bytes
  r : Nat
  s : Nat
  v : Nat
deriving DecidableEq, Repr

variable (A : EthAccount)
variable (J : JacobianModule)
variable (keccak : Digest)

/- `public_key_bytes_to_address` -/
def publicKeyBytesToAddress (publicKey : Bytes) : Bytes :=
  let digest := keccak publicKey
  digest.drop (digest.length - 20)

/- The address of an account, as text. -/
def PrivateKey.address (key : PrivateKey) : List Char :=
  A.toChecksumAddress
    (publicKeyBytesToAddress keccak key.publicKey)

------------------------------------------------------------
-- Signing
------------------------------------------------------------

/- The signature of a transaction, kind by kind. -/
def signTransactionObject
    (ethKey : PrivateKey)
    (transactionHash : Bytes)
    (k : Int) :
    TransactionObject A.Typed → Py (Nat × Nat × Nat)
| .unsignedTransaction _ =>
    signTransactionHash J ethKey transactionHash none 0
| .transaction _ chainId _ _ =>
    signTransactionHash J ethKey transactionHash
      (some chainId) k
| .typedTransaction _ => do
    let signature ← ethKey.signMsgHash J transactionHash 0
    return (signature.v, signature.r, signature.s)
| .chainAwareUnsignedTransaction _ _ _ _ =>
    -- cannot happen, the source says, and defends itself
    .error (.typeErrorText
      ("unknown Transaction object: <class 'eth_account." ++
        "_utils.legacy_transactions." ++
        "ChainAwareUnsignedTransaction'>"))

/- `sign_transaction_dict` -/
def signTransactionDict
    (ethKey : PrivateKey)
    (transactionDict : TransactionDict)
    (k : Int) : Py ((Nat × Nat × Nat) × Bytes) := do
  let unsignedTransaction ←
    A.serializableUnsignedTransactionFromDict
      transactionDict
  let transactionHash := A.hash unsignedTransaction
  let vrs ← signTransactionObject A J ethKey
    transactionHash k unsignedTransaction
  let encodedTransaction ←
    A.encodeTransaction unsignedTransaction vrs
  return (vrs, encodedTransaction)

/- The dictionary without the address of the key. -/
def sanitize
    (address : List Char)
    (transactionDict : TransactionDict) :
    Py TransactionDict :=
  match transactionDict .fromAddr with
  | none => .ok transactionDict
  | some sender =>
      if sender = .text address then
        .ok (transactionDict.dissoc .fromAddr)
      else
        .error (.typeErrorText
          ("from field must match key's " ++
            String.ofList address ++ ", but it was " ++
            String.ofList sender.str))

/- `Account.sign_transaction` -/
def signTransaction
    (transactionDict : TransactionDict)
    (privateKey : Bytes)
    (k : Int) : Py SignedTransaction := do
  let key ← parsePrivateKey J privateKey
  let sanitizedTransaction ←
    sanitize (key.address A keccak) transactionDict
  let (vrs, encodedTransaction) ←
    signTransactionDict A J key sanitizedTransaction k
  return {
    rawTransaction := encodedTransaction
    hash := keccak encodedTransaction
    r := vrs.2.1
    s := vrs.2.2
    v := vrs.1 }

------------------------------------------------------------
-- Recovering
------------------------------------------------------------

/- `extract_chain_id` -/
def extractChainId (rawV : Nat) : Py (Option Nat × Nat) :=
  if rawV < 35 then
    if rawV = 0 ∨ rawV = 1 then
      .ok (none, rawV + 27)
    else if rawV = 27 ∨ rawV = 28 then
      .ok (none, rawV)
    else
      .error (.valueError
        ("v %r is invalid, must be one of: 0, 1, 27, 28, " ++
          "35+"))
  else
    .ok (some ((rawV - 35) / 2), (rawV - 35) % 2 + 27)

/- `to_standard_v`. The naive value is at least 27. -/
def toStandardV (enhancedV : Nat) : Py Nat := do
  let (_, chainNaiveV) ← extractChainId enhancedV
  let vStandard := chainNaiveV - 27
  pyAssert (vStandard = 0 ∨ vStandard = 1)
  return vStandard

/- `hash_of_signed_transaction` -/
def hashOfSignedTransaction
    (fields : LegacyFields)
    (v : Nat) : Py Bytes := do
  let (chainId, _) ← extractChainId v
  match chainId with
  | none => return A.hash (.unsignedTransaction fields)
  | some chainId =>
      return A.hash
        (.chainAwareUnsignedTransaction fields chainId 0 0)

/- `_recover_hash`, given the three numbers. -/
def recoverHash
    (L : JacobianLibrary)
    (messageHash : Bytes)
    (vrs : Nat × Nat × Nat) : Py (List Char) := do
  if messageHash.length ≠ 32 then
    throw (.valueError
      "The message hash must be exactly 32-bytes")
  let vStandard ← toStandardV vrs.1
  let signature ← Signature.new (vStandard, vrs.2)
  let publicKey ← ecdsaRawRecover L messageHash
    (signature.v, signature.r, signature.s)
  return A.toChecksumAddress
    (publicKeyBytesToAddress keccak publicKey)

/- `Account.recover_transaction` on bytes. -/
def recoverTransaction
    (L : JacobianLibrary)
    (txnBytes : Bytes) : Py (List Char) :=
  if 0 < txnBytes.length ∧ txnBytes.getD 0 0 ≤ 0x7f then do
    let txn ← A.typedTransactionFromBytes txnBytes
    recoverHash A keccak L (A.hash (.typedTransaction txn))
      (A.vrs txn)
  else do
    let (fields, vrs) ← A.transactionFromBytes txnBytes
    let msgHash ← hashOfSignedTransaction A fields vrs.1
    recoverHash A keccak L msgHash vrs

------------------------------------------------------------
-- What Is Signed
------------------------------------------------------------

namespace TransactionObject

variable {Typed : Type}

/- The `v` of a kind of transaction, for a recovery bit. -/
def mapV
    (vRaw : Nat) :
    TransactionObject Typed → Nat
| .unsignedTransaction _ => toEthV vRaw none
| .transaction _ chainId _ _ => toEthV vRaw (some chainId)
| .typedTransaction _ => vRaw
| .chainAwareUnsignedTransaction _ chainId _ _ =>
    toEthV vRaw (some chainId)

/- A legacy transaction with a chain id. -/
def HasChainId : TransactionObject Typed → Prop
| .transaction _ _ _ _ => True
| _ => False

instance : (tx : TransactionObject Typed) →
    Decidable tx.HasChainId
| .transaction _ _ _ _ => isTrue trivial
| .unsignedTransaction _ => isFalse id
| .typedTransaction _ => isFalse id
| .chainAwareUnsignedTransaction _ _ _ _ => isFalse id

/- The nonce that reaches the signer. -/
def signerNonce
    (k : Int)
    (tx : TransactionObject Typed) : Int :=
  if tx.HasChainId then k else 0

theorem mapV_injective
    (tx : TransactionObject Typed) :
    Function.Injective fun vRaw => tx.mapV vRaw := by
  cases tx with
  | unsignedTransaction fields =>
      exact toEthV_injective none
  | chainAwareUnsignedTransaction fields v r s =>
      exact toEthV_injective (some v)
  | transaction fields v r s =>
      exact toEthV_injective (some v)
  | typedTransaction tx => exact fun _ _ hEq => hEq

end TransactionObject

section

variable {A J keccak}
variable {key : PrivateKey}
variable {transactionHash : Bytes}
variable {k : Int}

/- Every kind carries a raw signature. -/
theorem signTransactionObject_eq_ok
    {tx : TransactionObject A.Typed}
    {vrs : Nat × Nat × Nat}
    (hOk :
      signTransactionObject A J key transactionHash k tx =
        .ok vrs) :
    vrs =
      (tx.mapV
        (ecdsaRawSign J transactionHash key.rawKey
          (tx.signerNonce k)).1,
        (ecdsaRawSign J transactionHash key.rawKey
          (tx.signerNonce k)).2) := by
  cases tx with
  | unsignedTransaction fields =>
      exact signTransactionHash_eq_ok hOk
  | chainAwareUnsignedTransaction fields v r s => cases hOk
  | transaction fields v r s =>
      exact signTransactionHash_eq_ok hOk
  | typedTransaction tx =>
      rcases bind_eq_ok.mp hOk with ⟨signature, hSign, hOk⟩
      cases hOk
      exact signMsgHash_eq_ok hSign

theorem parsePrivateKey_eq_ok
    {privateKey : Bytes}
    (hOk : parsePrivateKey J privateKey = .ok key) :
    key.rawKey = privateKey := by
  unfold parsePrivateKey at hOk
  split_ifs at hOk
  rcases bind_eq_ok.mp hOk with ⟨publicKey, _, hOk⟩
  cases hOk
  rfl

theorem sanitize_eq_ok
    {address : List Char}
    {dict sanitized : TransactionDict}
    (hOk : sanitize address dict = .ok sanitized) :
    sanitized = dict.dissoc .fromAddr := by
  unfold sanitize at hOk
  split at hOk
  · rename_i hMissing
    cases hOk
    funext key
    unfold TransactionDict.dissoc
    split_ifs with hKey
    · rw [hKey, hMissing]
    · rfl
  · split_ifs at hOk
    cases hOk
    rfl

/- What a signed transaction is made of. -/
theorem signTransaction_eq_ok
    {dict : TransactionDict}
    {privateKey : Bytes}
    {signed : SignedTransaction}
    (hOk :
      signTransaction A J keccak dict privateKey k =
        .ok signed) :
    ∃ key tx,
      parsePrivateKey J privateKey = .ok key ∧
      A.serializableUnsignedTransactionFromDict
          (dict.dissoc .fromAddr) =
        .ok tx ∧
      signTransactionObject A J key (A.hash tx) k tx =
        .ok (signed.v, signed.r, signed.s) ∧
      A.encodeTransaction tx
          (signed.v, signed.r, signed.s) =
        .ok signed.rawTransaction ∧
      signed.hash = keccak signed.rawTransaction := by
  rcases bind_eq_ok.mp hOk with ⟨key, hKey, hOk⟩
  rcases bind_eq_ok.mp hOk with ⟨dict', hDict, hOk⟩
  rcases bind_eq_ok.mp hOk with ⟨⟨vrs, raw⟩, hSign, hOk⟩
  rcases bind_eq_ok.mp hSign with ⟨tx, hRead, hSign⟩
  rcases bind_eq_ok.mp hSign with ⟨vrs', hVrs, hSign⟩
  rcases bind_eq_ok.mp hSign with ⟨raw', hEncode, hSign⟩
  cases hSign
  cases hOk
  rw [sanitize_eq_ok hDict] at hRead
  exact ⟨key, tx, hKey, hRead, hVrs, hEncode, rfl⟩

/- Dictionaries read alike are signed alike. -/
theorem signTransaction_congr
    {dict dict' : TransactionDict}
    {privateKey : Bytes}
    {signed : SignedTransaction}
    (hOk :
      signTransaction A J keccak dict privateKey k =
        .ok signed)
    (hSender : dict' .fromAddr = none)
    (hRead :
      A.serializableUnsignedTransactionFromDict dict' =
        A.serializableUnsignedTransactionFromDict
          (dict.dissoc .fromAddr)) :
    signTransaction A J keccak dict' privateKey k =
      .ok signed := by
  rcases signTransaction_eq_ok hOk with
    ⟨key, tx, hKey, hRead', hSign, hEncode, hHash⟩
  rw [hRead'] at hRead
  have hSanitize :
      sanitize (key.address A keccak) dict' = .ok dict' := by
    unfold sanitize
    rw [hSender]
  have hDict :
      signTransactionDict A J key dict' k =
        .ok ((signed.v, signed.r, signed.s),
          signed.rawTransaction) := by
    rw [signTransactionDict, hRead, ok_bind]
    simp only
    rw [hSign, ok_bind, hEncode]
    rfl
  rw [signTransaction, hKey, ok_bind, hSanitize, ok_bind,
    hDict, ok_bind]
  simp only
  rw [← hHash]
  rfl

end

------------------------------------------------------------
-- The Requested Nonce
------------------------------------------------------------

/- The signature of the hash with the requested nonce. -/
def UsesNonce
    (tx : TransactionObject A.Typed)
    (privateKey : Bytes)
    (k : Int)
    (signed : SignedTransaction) : Prop :=
  let vrs := ecdsaRawSign J (A.hash tx) privateKey k
  signed.v = tx.mapV vrs.1 ∧
    signed.r = vrs.2.1 ∧ signed.s = vrs.2.2

instance
    (tx : TransactionObject A.Typed)
    (privateKey : Bytes)
    (k : Int)
    (signed : SignedTransaction) :
    Decidable (UsesNonce A J tx privateKey k signed) :=
  inferInstanceAs (Decidable (_ ∧ _ ∧ _))

/-
  The requested nonce is used for a legacy transaction with
  a chain id. For the other kinds the signature is the one
  of the derived nonce, so that the requested one would have
  to be the same up to sign.
-/
theorem signTransaction_nonce_iff
    (hJ : J.Standard)
    (dict : TransactionDict)
    (privateKey : Bytes)
    (k : Int)
    (_hk : k ≠ 0)
    (tx : TransactionObject A.Typed)
    (hRead :
      A.serializableUnsignedTransactionFromDict
          (dict.dissoc .fromAddr) =
        .ok tx)
    (signed : SignedTransaction)
    (hOk :
      signTransaction A J keccak dict privateKey k =
        .ok signed) :
    (UsesNonce A J tx privateKey k signed ↔
      tx.HasChainId ∨
        ecdsaRawSign J (A.hash tx) privateKey k =
          ecdsaRawSign J (A.hash tx) privateKey 0) ∧
    (k % N ≠ 0 →
      deterministicGenerateK (A.hash tx) privateKey % N ≠
        0 →
      (ecdsaRawSign J (A.hash tx) privateKey 0).2.2 ≠ 0 →
      (UsesNonce A J tx privateKey k signed ↔
        tx.HasChainId ∨
          k ≡ deterministicGenerateK (A.hash tx) privateKey
            [ZMOD N] ∨
          k ≡ -deterministicGenerateK (A.hash tx) privateKey
            [ZMOD N])) := by
  rcases signTransaction_eq_ok hOk with
    ⟨key, tx', hKey, hRead', hSign, _⟩
  rw [hRead] at hRead'
  cases hRead'
  have hVrs := signTransactionObject_eq_ok hSign
  rw [parsePrivateKey_eq_ok hKey] at hVrs
  have hUses :
      UsesNonce A J tx privateKey k signed ↔
        ecdsaRawSign J (A.hash tx) privateKey
            (tx.signerNonce k) =
          ecdsaRawSign J (A.hash tx) privateKey k := by
    rw [Prod.mk.injEq, Prod.ext_iff] at hVrs
    rcases hVrs with ⟨hv, hr, hs⟩
    unfold UsesNonce
    simp only at hr hs
    simp only
    rw [hv, hr, hs, Prod.ext_iff, Prod.ext_iff,
      (tx.mapV_injective).eq_iff]
  have hExact :
      UsesNonce A J tx privateKey k signed ↔
        tx.HasChainId ∨
          ecdsaRawSign J (A.hash tx) privateKey k =
            ecdsaRawSign J (A.hash tx) privateKey 0 := by
    rw [hUses, TransactionObject.signerNonce]
    by_cases hChain : tx.HasChainId
    · simp [hChain]
    · simp [hChain, eq_comm]
  refine ⟨hExact, ?_⟩
  intro hkN hDerived hs
  have hPos :
      (deterministicGenerateK (A.hash tx) privateKey : Int) ≠
        0 := by
    intro hZero
    rw [Int.natCast_eq_zero.mp hZero] at hDerived
    exact hDerived rfl
  have hZero :
      ecdsaRawSign J (A.hash tx) privateKey 0 =
        ecdsaRawSign J (A.hash tx) privateKey
          (deterministicGenerateK (A.hash tx)
            privateKey) := by
    unfold ecdsaRawSign
    rw [chooseNonce_zero, chooseNonce_of_ne_zero _ _ hPos]
  rw [hZero] at hs
  rw [hExact, hZero,
    ecdsaRawSign_eq_iff_nonces hJ hkN
      (by exact_mod_cast hDerived) hs,
    ← Int.cast_neg, ZMod.intCast_eq_intCast_iff,
    ZMod.intCast_eq_intCast_iff]

------------------------------------------------------------
-- A Reference Account
------------------------------------------------------------

namespace EthAccount

/- An address with the digits of its hash in their case. -/
def checksum (address : Bytes) : List Char :=
  let lower := Hex.encode address
  let digits :=
    (Digest.keccak256 (strToBytes lower)).flatMap
      fun x => [x.toNat / 16, x.toNat % 16]
  '0' :: 'x' :: List.zipWith
    (fun c d => if 8 ≤ d then c.toUpper else c) lower digits

/- A number of a dictionary. -/
def readNumber : Option Arg → Py Nat
| some (.val (.int n)) => .ok n
| some (.text t) => intBase16 t
| _ => .error .typeError

/- The receiver, raw, with checksum or missing. -/
def readReceiver : Option Arg → Py Bytes
| none => .ok []
| some (.val .none) => .ok []
| some (.val (.item (.str b))) =>
    if b.length = 20 ∨ b = [] then
      .ok b
    else
      .error .typeError
| some (.text t) => do
    let b ← hexToBytes (t.drop 2)
    if b.length = 20 ∧ t = checksum b then
      return b
    else
      throw .typeError
| _ => .error .typeError

/- Data, raw, in hexadecimal or missing. -/
def readData : Option Arg → Py Bytes
| none => .ok []
| some (.val (.item (.str b))) => .ok b
| some (.text t) => hexToBytes (t.drop 2)
| _ => .error .typeError

/- The dictionary of a legacy transaction. -/
def readDict
    (dict : TransactionDict) :
    Py (TransactionObject Empty) := do
  if [TxField.type, .accessList, .maxFeePerGas,
      .maxPriorityFeePerGas, .fromAddr].any
        fun key => (dict key).isSome then
    throw .typeError
  let fields : LegacyFields :=
    { nonce := ← readNumber (dict .nonce)
      gasPrice := ← readNumber (dict .gasPrice)
      gas := ← readNumber (dict .gas)
      toAddr := ← readReceiver (dict .toAddr)
      value := ← readNumber
        ((dict .value).or (some (.val (.int 0))))
      data := ← readData (dict .data) }
  match dict .chainId with
  | none => return .unsignedTransaction fields
  | some (.val .none) => return .unsignedTransaction fields
  | some chainId =>
      return .transaction fields
        (← readNumber (some chainId)) 0 0

/- The fields of a transaction. -/
def fieldsOf : TransactionObject Empty → LegacyFields
| .unsignedTransaction fields => fields
| .chainAwareUnsignedTransaction fields _ _ _ => fields
| .transaction fields _ _ _ => fields

/- The item whose encoding is hashed. -/
def hashedItem : TransactionObject Empty → Item
| .unsignedTransaction fields => .list fields.items
| .chainAwareUnsignedTransaction fields v r s =>
    fields.signedItem (v, r, s)
| .transaction fields v r s => fields.signedItem (v, r, s)

/- The package, for legacy transactions. -/
def reference : EthAccount where
  Typed := Empty
  serializableUnsignedTransactionFromDict := readDict
  hash := fun tx =>
    Digest.keccak256 (RLP.encode (hashedItem tx))
  encodeTransaction := fun tx vrs =>
    rlpEncodeItem ((fieldsOf tx).signedItem vrs)
  toChecksumAddress := checksum
  transactionFromBytes := fun b => do
    readTransaction (← rlpDecodeBytes b)
  typedTransactionFromBytes := fun _ =>
    .error .deserializationError
  vrs := fun tx => nomatch tx

end EthAccount

/- A transfer; the chain id is left out if there is none. -/
def sampleTransfer
    (chainId : Option Nat) :
    TransactionDict
| .nonce => some (.val (.int 0))
| .gasPrice => some (.val (.int 1))
| .gas => some (.val (.int 25000))
| .toAddr =>
    some (.val (.item (.str (List.replicate 20 0x11))))
| .value => some (.val (.int 5))
| .chainId => chainId.map fun c => .val (.int c)
| _ => none

/- The fields of that transfer. -/
def sampleLegacy : LegacyFields :=
  { nonce := 0
    gasPrice := 1
    gas := 25000
    toAddr := List.replicate 20 0x11
    value := 5
    data := [] }

theorem readDict_sampleTransfer :
    EthAccount.readDict
        ((sampleTransfer none).dissoc .fromAddr) =
      .ok (.unsignedTransaction sampleLegacy) ∧
    EthAccount.readDict
        ((sampleTransfer (some 32382)).dissoc .fromAddr) =
      .ok (.transaction sampleLegacy 32382 0 0) := by
  decide +kernel

/- Sign the transfer, asking for the nonce five. -/
def signSample (chainId : Option Nat) : Py SignedTransaction :=
  signTransaction EthAccount.reference
    JacobianLibrary.computed.toJacobianModule
    Digest.keccak256 (sampleTransfer chainId) (keyBytes 1) 5

/- The nonce derived for the transfer without a chain id. -/
def derivedNonce : Nat :=
  0x3cff53dd1eae445fcea895b5f37b925603d3866640034acaa349d04f97d4e353

def derivedR : Nat :=
  0xb62695ed4720a73d48ed070c4ca1976718c35ae494dee37c1be7012f794273d0

def derivedS : Nat :=
  0x2f44c11561ac45b7c0dbdf9c3bab801a43d8f12f4094f6c7a72253cab9bde446

/- The three numbers signed for it. -/
theorem signSample_none :
    ∃ signed, signSample none = .ok signed ∧
      signed.v = 28 ∧ signed.r = derivedR ∧
      signed.s = derivedS := by
  have hRun :
      (do
        let signed ← signSample none
        return (signed.v, signed.r, signed.s)) =
        (.ok (28, derivedR, derivedS) :
          Py (Nat × Nat × Nat)) := by
    decide +kernel
  rcases bind_eq_ok.mp hRun with ⟨signed, hSign, hVrs⟩
  have hEq := Except.ok.inj hVrs
  rw [Prod.mk.injEq, Prod.mk.injEq] at hEq
  exact ⟨signed, hSign, hEq⟩

/- With a chain id, and without one. -/
theorem signTransaction_nonce_iff_sample :
    (∃ signed, signSample (some 32382) = .ok signed ∧
      UsesNonce EthAccount.reference
        JacobianLibrary.computed.toJacobianModule
        (.transaction sampleLegacy 32382 0 0) (keyBytes 1) 5
        signed) ∧
    ∃ signed, signSample none = .ok signed ∧
      (UsesNonce EthAccount.reference
          JacobianLibrary.computed.toJacobianModule
          (.unsignedTransaction sampleLegacy) (keyBytes 1) 5
          signed ↔
        5 ≡ derivedNonce [ZMOD N] ∨
          5 ≡ -derivedNonce [ZMOD N]) := by
  constructor
  · have hReturns :
        (signSample (some 32382)).isOk = true := by
      decide +kernel
    cases hSign : signSample (some 32382) with
    | error e =>
        rw [hSign] at hReturns
        cases hReturns
    | ok signed =>
        refine ⟨signed, rfl, ?_⟩
        apply (signTransaction_nonce_iff
          EthAccount.reference
          JacobianLibrary.computed.toJacobianModule
          Digest.keccak256
          JacobianLibrary.computed_standard.toModule
          (sampleTransfer (some 32382)) (keyBytes 1) 5
          (by decide) _ readDict_sampleTransfer.2 signed
          hSign).1.mpr
        exact Or.inl trivial
  · rcases signSample_none with ⟨signed, hSign, _⟩
    refine ⟨signed, hSign, ?_⟩
    have hNonce :
        deterministicGenerateK
            (EthAccount.reference.hash
              (.unsignedTransaction sampleLegacy))
            (keyBytes 1) =
          derivedNonce := by
      decide +kernel
    have hIff := (signTransaction_nonce_iff
      EthAccount.reference
      JacobianLibrary.computed.toJacobianModule
      Digest.keccak256
      JacobianLibrary.computed_standard.toModule
      (sampleTransfer none) (keyBytes 1) 5 (by decide)
      (.unsignedTransaction sampleLegacy)
      readDict_sampleTransfer.1 signed hSign).2
    have hLow :
        (ecdsaRawSign
          JacobianLibrary.computed.toJacobianModule
          (EthAccount.reference.hash
            (.unsignedTransaction sampleLegacy))
          (keyBytes 1) 0).2.2 ≠ 0 := by
      unfold ecdsaRawSign
      rw [chooseNonce_zero, hNonce]
      decide +kernel
    rw [hNonce] at hIff
    have hDerived :=
      hIff (by decide +kernel) (by decide +kernel) hLow
    exact hDerived.trans (or_iff_right id)

/- Without a chain id the requested nonce is ignored. -/
theorem signTransaction_nonce_ignored :
    EthAccount.readDict
        ((sampleTransfer none).dissoc .fromAddr) =
      .ok (.unsignedTransaction sampleLegacy) ∧
    ∃ signed, signSample none = .ok signed ∧
      ¬ UsesNonce EthAccount.reference
        JacobianLibrary.computed.toJacobianModule
        (.unsignedTransaction sampleLegacy) (keyBytes 1) 5
        signed := by
  refine ⟨readDict_sampleTransfer.1, ?_⟩
  rcases signSample_none with ⟨signed, hSign, _, hr, _⟩
  refine ⟨signed, hSign, ?_⟩
  rintro ⟨_, hUses, _⟩
  rw [hr] at hUses
  revert hUses
  decide +kernel

end Ecdsa
