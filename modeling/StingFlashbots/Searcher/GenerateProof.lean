import StingFlashbots.Searcher.VerifyProof

/-
  The inclusion-proof generator of `proveth.py`.

  The generator rebuilds the header and the transaction trie
  of a block from the answers of the node, checks both
  against the hashes it was given, and collects the trie
  nodes on the way to one transaction. The trie comes from a
  package, which is a parameter here.

  Key definitions include:
    * `TriePackage`
    * `blockHeader`
    * `rlpTransaction`
    * `generateProof`
    * `generateProofBlob`
-/

namespace Sting

open RLP (Item)

------------------------------------------------------------
-- Serialisation
------------------------------------------------------------

/- `Binary.fixed_length(n, allow_empty)` -/
def fixedLength
    (n : Nat)
    (allowEmpty : Bool)
    (b : Bytes) : Py Item :=
  if b.length = n ∨ (allowEmpty = true ∧ b = []) then
    .ok (.str b)
  else
    .error .serializationError

/- `Binary(n, allow_empty)`, with no greatest length. -/
def minLength
    (n : Nat)
    (allowEmpty : Bool)
    (b : Bytes) : Py Item :=
  if n ≤ b.length ∨ (allowEmpty = true ∧ b = []) then
    .ok (.str b)
  else
    .error .serializationError

/- The sedes named `hash32`. -/
def hash32 : Bytes → Py Item :=
  fixedLength 32 false

/- The sedes named `trie_root`. -/
def trieRoot : Bytes → Py Item :=
  fixedLength 32 true

/- The sedes named `address`. -/
def address : Bytes → Py Item :=
  fixedLength 20 true

/- `BigEndianInt(256)`, which the package calls `uint256`. -/
def uint256 (n : Nat) : Py Item :=
  if n < 256 ^ 256 then
    .ok (.str (BigEndian.encodeFixed 256 n))
  else
    .error .serializationError

/- The fields of a transaction that are bytes. -/
def binary : Val → Py Bytes
| .item (.str b) => .ok b
| .item (.list _) => .error .serializationError
| .int _ => .error .serializationError
| .none => .error .serializationError

/- Serialise the nine fields of a legacy transaction. -/
def SignedTx.serialize (tx : SignedTx) : Py Item := do
  let toAddr ← address (← binary tx.toAddr)
  let data ← binary tx.data
  return .list
    [RLP.int tx.nonce,
      RLP.int tx.gasPrice,
      RLP.int tx.gas,
      toAddr,
      RLP.int tx.value,
      .str data,
      RLP.int tx.v,
      RLP.int tx.r,
      RLP.int tx.s]

/- `rlp.encode` of a legacy transaction. -/
def SignedTx.encode (tx : SignedTx) : Py Bytes := do
  rlpEncodeItem (← tx.serialize)

------------------------------------------------------------
-- Block Headers
------------------------------------------------------------

/- The fields of a `BlockHeader`, in the order of `fields`. -/
structure BlockHeader where
  parentHash : Bytes
  unclesHash : Bytes
  coinbase : Bytes
  stateRoot : Bytes
  transactionRoot : Bytes
  receiptRoot : Bytes
  bloom : Nat
  difficulty : Nat
  blockNumber : Nat
  gasLimit : Nat
  gasUsed : Nat
  timestamp : Nat
  extraData : Bytes
  mixHash : Bytes
  nonce : Bytes
  baseFeePerGas : Nat
  withdrawalsRoot : Bytes
deriving DecidableEq, Repr

namespace BlockHeader

/- Serialise the fields of a header. -/
def serialize (h : BlockHeader) : Py Item := do
  let parentHash ← hash32 h.parentHash
  let unclesHash ← hash32 h.unclesHash
  let coinbase ← address h.coinbase
  let stateRoot ← trieRoot h.stateRoot
  let transactionRoot ← trieRoot h.transactionRoot
  let receiptRoot ← trieRoot h.receiptRoot
  let bloom ← uint256 h.bloom
  let nonce ← minLength 8 true h.nonce
  let withdrawalsRoot ← hash32 h.withdrawalsRoot
  return .list
    [parentHash,
      unclesHash,
      coinbase,
      stateRoot,
      transactionRoot,
      receiptRoot,
      bloom,
      RLP.int h.difficulty,
      RLP.int h.blockNumber,
      RLP.int h.gasLimit,
      RLP.int h.gasUsed,
      RLP.int h.timestamp,
      .str h.extraData,
      .str h.mixHash,
      nonce,
      RLP.int h.baseFeePerGas,
      withdrawalsRoot]

/- The `hash` property. -/
def hash
    (keccak : Digest)
    (h : BlockHeader) : Py Bytes := do
  return keccak (← rlpEncodeItem (← h.serialize))

end BlockHeader

/- `to_canonical_address` -/
def toCanonicalAddress (text : List Char) : Py Bytes := do
  let b ← decodeHex text
  if b.length = 20 then
    return b
  else
    throw (.valueError "Unknown format")

/- `block_header` -/
def blockHeader
    (keccak : Digest)
    (block : BlockDict) : Py BlockHeader := do
  let coinbase ← toCanonicalAddress block.miner
  let extraData ← normalizeBytes block.extraData
  let nonce ← normalizeBytes block.nonce
  let withdrawalsRoot ←
    normalizeBytes (orEmpty block.withdrawalsRoot)
  let b : BlockHeader :=
    { parentHash := block.parentHash
      unclesHash := block.sha3Uncles
      coinbase := coinbase
      stateRoot := block.stateRoot
      transactionRoot := block.transactionsRoot
      receiptRoot := block.receiptsRoot
      bloom := BigEndian.decode block.logsBloom
      difficulty := block.difficulty
      blockNumber := block.number
      gasLimit := block.gasLimit
      gasUsed := block.gasUsed
      timestamp := block.timestamp
      extraData := extraData
      mixHash := block.mixHash
      nonce := nonce
      baseFeePerGas := block.baseFeePerGas
      withdrawalsRoot := withdrawalsRoot }
  let given ← normalizeBytes (.bytes block.hash)
  let computed ← b.hash keccak
  if given ≠ computed then
    throw (.valueError "Blockhash does not match.")
  return b

------------------------------------------------------------
-- Transactions
------------------------------------------------------------

/- The legacy transaction an answer describes. -/
def legacyTransaction (tx : TxDict) : Py SignedTx := do
  let toAddr ← normalizeBytes (orEmpty tx.toAddr)
  let input ← normalizeBytes (orEmpty tx.input)
  let t : SignedTx :=
    { nonce := tx.nonce
      gasPrice := tx.gasPrice
      gas := tx.gas
      toAddr := .item (.str toAddr)
      value := tx.value
      data := .item (.str input)
      v := tx.v
      r := BigEndian.decode tx.r
      s := BigEndian.decode tx.s }
  return t

/- `rlp.encode` of the dynamic-fee transaction described. -/
def dynamicFeeEncoding (tx : TxDict) : Py Bytes := do
  let chainId ← normalizeBytes tx.chainId
  let toAddr ← normalizeBytes (orEmpty tx.toAddr)
  let input ← normalizeBytes (orEmpty tx.input)
  let toAddr ← address toAddr
  let accessList ← tx.accessList
  rlpEncodeItem (.list
    [RLP.int (BigEndian.decode chainId),
      RLP.int tx.nonce,
      RLP.int tx.maxPriorityFeePerGas,
      RLP.int tx.maxFeePerGas,
      RLP.int tx.gas,
      toAddr,
      RLP.int tx.value,
      .str input,
      accessList,
      RLP.int tx.v,
      RLP.int (BigEndian.decode tx.r),
      RLP.int (BigEndian.decode tx.s)])

/- The encoding `rlp_transaction` puts into the trie. -/
def txEncoding (tx : TxDict) : Py Bytes := do
  if tx.type = "0x0" then
    (← legacyTransaction tx).encode
  else if tx.type = "0x2" then
    let typeByte ← normalizeBytes (.str ['0', 'x', '2'])
    let payload ← dynamicFeeEncoding tx
    return typeByte ++ payload
  else
    throw .assertionError

/- `rlp_transaction` -/
def rlpTransaction
    (keccak : Digest)
    (tx : TxDict) : Py Bytes := do
  let encoding ← txEncoding tx
  let given ← normalizeBytes tx.hash
  if given ≠ keccak encoding then
    throw (.valueError "Tx hash does not match.")
  return encoding

------------------------------------------------------------
-- The Trie Package
------------------------------------------------------------

/- The result of `get_node_type`. -/
inductive NodeType where
| blank
| leaf
| extension
| branch
deriving DecidableEq, Repr

/-
  The `trie` package. An `Mpt` is a `HexaryTrie` with its
  database.
-/
structure TriePackage where
  Mpt : Type
  new : Mpt
  set : Mpt → Bytes → Bytes → Py Mpt
  rootHash : Mpt → Bytes
  getNode : Mpt → Item → Py Item
  getNodeType : Item → Py NodeType
  extractKey : Item → Py (List Nibble)
  consumeCommonPrefix :
    List Nibble → List Nibble →
      List Nibble × List Nibble × List Nibble

------------------------------------------------------------
-- Collecting the Nodes
------------------------------------------------------------

/- Indexing a node. -/
def nodeItem : Item → Nat → Py Item
| .list xs, i =>
    match xs[i]? with
    | some x => .ok x
    | none => .error .indexError
| .str _, _ => .error .typeError

/- How deep calls may nest. -/
def recursionLimit : Nat :=
  1000

section

variable (pkg : TriePackage)

/-
  The inner function `aux` of `generate_proof`; the nodes it
  appends to the stack are its result.
-/
def generateProofAux
    (mpt : pkg.Mpt) :
    Nat → Item → List Nibble → Py (List Item)
| 0, _, _ => .error .recursionError
| depth + 1, nodeHash, mptKeyNibbles => do
    let node ← pkg.getNode mpt nodeHash
    match ← pkg.getNodeType node with
    | .blank => return []
    | .branch =>
        match mptKeyNibbles with
        | i :: rest =>
            let child ← nodeItem node i.val
            let below ← generateProofAux mpt depth child rest
            return node :: below
        | [] => return [node]
    | .extension =>
        let key ← pkg.extractKey node
        let (_, keyRemainder, rest) :=
          pkg.consumeCommonPrefix key mptKeyNibbles
        if keyRemainder = [] then
          let child ← nodeItem node 1
          let below ← generateProofAux mpt depth child rest
          return node :: below
        else
          return [node]
    | .leaf =>
        -- both outcomes of the comparison push the leaf
        let _ ← pkg.extractKey node
        return [node]

/- `generate_proof` -/
def generateProof
    (mpt : pkg.Mpt)
    (mptKeyNibbles : List Nibble) : Py (List Item) := do
  let rootHash := Item.str (pkg.rootHash mpt)
  let rootNode ← pkg.getNode mpt rootHash
  match ← pkg.getNodeType rootNode with
  | .blank => return []
  | _ =>
      generateProofAux pkg mpt recursionLimit rootHash
        mptKeyNibbles

/- `construct_proof_from_mpt` -/
def constructProofFromMpt
    (mpt : pkg.Mpt)
    (header : BlockHeader)
    (txIndex : Nat) : Py Bytes := do
  let rlpIndex ← rlpEncode (.int txIndex)
  let mptKeyNibbles := Nibble.ofBytes rlpIndex
  let stack ← generateProof pkg mpt mptKeyNibbles
  let header ← header.serialize
  rlpEncodeItem
    (.list [header, RLP.int txIndex, .list stack])

/- The trie entry of one transaction of a block. -/
def txEntry
    (keccak : Digest)
    (w3 : Web3)
    (txHash : Bytes) : Py (Bytes × Bytes) := do
  let tx ← w3.getTransaction txHash
  let key ← rlpEncode (.int tx.transactionIndex)
  let value ← rlpTransaction keccak tx
  return (key, value)

/- `generate_proof_blob` -/
def generateProofBlob
    (keccak : Digest)
    (w3 : Web3)
    (blockNum txIndex : Nat) : Py Bytes := do
  let block ← w3.getBlock blockNum
  let header ← blockHeader keccak block
  let mpt ← block.transactions.foldlM
    (fun mpt txHash => do
      let (key, value) ← txEntry keccak w3 txHash
      pkg.set mpt key value)
    pkg.new
  let given ← normalizeBytes (.bytes block.transactionsRoot)
  if pkg.rootHash mpt ≠ given then
    throw (.valueError "Tx trie root hash does not match.")
  constructProofFromMpt pkg mpt header txIndex

end

end Sting
