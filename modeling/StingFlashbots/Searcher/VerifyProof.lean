import StingFlashbots.Searcher.Web3
import StingFlashbots.Trie.Merkle

/-
  The inclusion-proof verifier of `proveth.py`.

  A proof blob is the RLP list of a block header, a
  transaction index and the stack of trie nodes on the way
  to the transaction. The verifier checks each node against
  the hash its parent announces while it consumes the key.

  Key definitions include:
    * `decodeCompact`
    * `sharedPrefixLength`
    * `verifyMptProof`
    * `verifyTxProof`
-/

namespace Sting

open RLP (Item)

------------------------------------------------------------
-- Compact Paths
------------------------------------------------------------

/- The nibbles to skip and the leaf flag of a first nibble. -/
def compactHeader : Nat → Py (Nat × Bool)
| 0 => .ok (2, false)
| 1 => .ok (1, false)
| 2 => .ok (2, true)
| 3 => .ok (1, true)
| _ => .error .assertionError

/- The half-byte at a nibble position of a byte string. -/
def nibbleAt
    (compact : Bytes)
    (i : Nat) : Nibble :=
  if i % 2 = 0 then
    Nibble.high (compact.getD (i / 2) 0)
  else
    Nibble.low (compact.getD (i / 2) 0)

/-
  `decode_compact`. The positions read stay below twice the
  length of the string.
-/
def decodeCompact
    (compact : Bytes) : Py (Bool × List Nibble) := do
  pyAssert (compact.length ≠ 0)
  let firstNibble := (Nibble.high (compact.getD 0 0)).val
  let (skipNibbles, isLeaf) ← compactHeader firstNibble
  let length := compact.length * 2
  pyAssert (skipNibbles ≤ length)
  let length := length - skipNibbles
  let nibbles :=
    (List.range' skipNibbles length).map (nibbleAt compact)
  return (isLeaf, nibbles)

/- The loop of `shared_prefix_length` from position `i`. -/
def sharedPrefixLengthFrom
    (xsOffset : Nat)
    (xs : List Nibble)
    (total : Nat) :
    Nat → List Nibble → Nat
| _, [] => total
| i, y :: ys =>
    match xs[i + xsOffset]? with
    | none => total
    | some x =>
        if x ≠ y then
          i
        else
          sharedPrefixLengthFrom xsOffset xs total (i + 1) ys

/- `shared_prefix_length` -/
def sharedPrefixLength
    (xsOffset : Nat)
    (xs ys : List Nibble) : Nat :=
  sharedPrefixLengthFrom xsOffset xs ys.length 0 ys

------------------------------------------------------------
-- Walking the Stack
------------------------------------------------------------

/-
  The loop of `verify_mpt_proof` from stack position `i` on;
  `size` is the length of the whole stack. Falling off the
  end of the loop returns `None`.
-/
def verifyMptProofFrom
    (keccak : Digest)
    (mptKeyNibbles : List Nibble)
    (size : Nat) :
    List Val → Nat → Nat → Val → Py Val
| [], _, _, _ => return .none
| node :: stack, i, mptKeyOffset, targetHash => do
    let rlpNode ← rlpEncode node
    pyAssert (targetHash = .item (.str (keccak rlpNode)))
    let nodeLength ← node.len
    if nodeLength = 17 then
      if mptKeyOffset ≠ mptKeyNibbles.length then
        match mptKeyNibbles[mptKeyOffset]? with
        | none => throw .indexError
        | some nibble =>
            pyAssert (nibble.val ≤ 16)
            let child ← node.getItem nibble.val
            let childLength ← child.len
            if childLength = 0 then
              pyAssert (i = size - 1)
              verifyMptProofFrom keccak mptKeyNibbles size
                stack (i + 1) (mptKeyOffset + 1) targetHash
            else
              verifyMptProofFrom keccak mptKeyNibbles size
                stack (i + 1) (mptKeyOffset + 1) child
      else
        pyAssert (i = size - 1)
        node.getItem 16
    else if nodeLength = 2 then
      let path ← node.getItem 0
      let compact ← rlpEncode path
      let (isLeaf, nodeKey) ← decodeCompact compact
      let prefixLength :=
        sharedPrefixLength mptKeyOffset mptKeyNibbles nodeKey
      let mptKeyOffset := mptKeyOffset + prefixLength
      if prefixLength < nodeKey.length then
        pyAssert (i ≥ size)
      if isLeaf then
        pyAssert (i ≥ size - 1)
        pyAssert (mptKeyOffset ≥ mptKeyNibbles.length)
        let rlpValue ← node.getItem 1
        let tx ← rlpDecode rlpValue
        return .item tx
      else
        pyAssert (i ≠ size - 1)
        let child ← node.getItem 1
        verifyMptProofFrom keccak mptKeyNibbles size
          stack (i + 1) mptKeyOffset child
    else
      throw (.valueError "Unknown node type")

/- `verify_mpt_proof` -/
def verifyMptProof
    (keccak : Digest)
    (rootHash : Val)
    (mptKeyNibbles : List Nibble)
    (stack : Val) : Py Val := do
  let elements ← stack.elements
  verifyMptProofFrom keccak mptKeyNibbles elements.length
    elements 0 0 rootHash

------------------------------------------------------------
-- Transactions
------------------------------------------------------------

/- The `unsigned_tx` dictionary. -/
structure UnsignedTx where
  nonce : Nat
  gasPrice : Nat
  gas : Nat
  toAddr : Val
  value : Nat
  data : Val
  chainId : Nat
deriving DecidableEq, Repr

/- The fields of a `LondonLegacyTransaction`. -/
structure SignedTx where
  nonce : Nat
  gasPrice : Nat
  gas : Nat
  toAddr : Val
  value : Nat
  data : Val
  v : Nat
  r : Nat
  s : Nat
deriving DecidableEq, Repr

/- Read the nine fields of a decoded transaction. -/
def readTx
    (chainId : Nat)
    (tx : Val) : Py (UnsignedTx × SignedTx) := do
  let nonce ← bigEndianToInt (← tx.getItem 0)
  let gasPrice ← bigEndianToInt (← tx.getItem 1)
  let gas ← bigEndianToInt (← tx.getItem 2)
  let toAddr ← tx.getItem 3
  let value ← bigEndianToInt (← tx.getItem 4)
  let input ← tx.getItem 5
  let v ← bigEndianToInt (← tx.getItem 6)
  let r ← bigEndianToInt (← tx.getItem 7)
  let s ← bigEndianToInt (← tx.getItem 8)
  let unsignedTx : UnsignedTx :=
    { nonce := nonce
      gasPrice := gasPrice
      gas := gas
      toAddr := toAddr
      value := value
      data := input
      chainId := chainId }
  let signedTx : SignedTx :=
    { nonce := nonce
      gasPrice := gasPrice
      gas := gas
      toAddr := toAddr
      value := value
      data := input
      v := v
      r := r
      s := s }
  return (unsignedTx, signedTx)

/- `tuple(rlp.decode(prf))`, unpacked into three parts. -/
def unpackProof (prf : Bytes) : Py (Val × Val × Val) := do
  let decoded ← rlpDecodeBytes prf
  let parts ← (Val.item decoded).elements
  match parts with
  | [header, txIndex, stack] => return (header, txIndex, stack)
  | _ => throw (.valueError "unpack")

/- The trie key of a transaction index, in nibbles. -/
def txKey (txIndex : Nat) : List Nibble :=
  Nibble.ofBytes (RLP.encode (RLP.int txIndex))

/- `verify_tx_proof` -/
def verifyTxProof
    (keccak : Digest)
    (w3 : Web3)
    (blockNum : Nat)
    (prf : Bytes) : Py (UnsignedTx × SignedTx) := do
  let (header, txIndex, stack) ← unpackProof prf
  let block ← w3.getBlock blockNum
  let rlpHeader ← rlpEncode header
  pyAssert (block.hash = keccak rlpHeader)
  let txRootHash ← header.getItem 4
  let txIndex ← bigEndianToInt txIndex
  let rlpIndex ← rlpEncode (.int txIndex)
  let mptKeyNibbles := Nibble.ofBytes rlpIndex
  let tx ← verifyMptProof keccak txRootHash mptKeyNibbles stack
  readTx w3.chainId tx

end Sting
