import StingFlashbots.Searcher.Value
import StingFlashbots.Trie.Nibbles

/-
  What the proof tools read from an Ethereum node.

  A `Web3` value is the node at one moment: the answers it
  gives until the chain moves on. Byte strings arrive as
  hexadecimal text, as integers or as raw bytes, and
  `normalizeBytes` brings them to one form.

  Key definitions include:
    * `RpcVal`
    * `decodeHex`
    * `normalizeBytes`
    * `BlockDict` and `TxDict`
    * `Web3`
-/

namespace Sting

open RLP (Item)

------------------------------------------------------------
-- Byte Strings in Answers
------------------------------------------------------------

/- A byte string as the node spells it. -/
inductive RpcVal where
| str : List Char → RpcVal
| int : Nat → RpcVal
| bytes : Bytes → RpcVal
deriving DecidableEq, Repr

/- The value of a hexadecimal digit. -/
def hexDigit (c : Char) : Option Nibble :=
  if '0' ≤ c ∧ c ≤ '9' then
    some (Fin.ofNat 16 (c.toNat - '0'.toNat))
  else if 'a' ≤ c ∧ c ≤ 'f' then
    some (Fin.ofNat 16 (c.toNat - 'a'.toNat + 10))
  else if 'A' ≤ c ∧ c ≤ 'F' then
    some (Fin.ofNat 16 (c.toNat - 'A'.toNat + 10))
  else
    none

/- `binascii.unhexlify` -/
def unhexlify : List Char → Py Bytes
| [] => .ok []
| [_] => .error (.valueError "Odd-length string")
| a :: b :: rest =>
    match hexDigit a, hexDigit b with
    | some x, some y => do
        let tail ← unhexlify rest
        return Nibble.byteOf x y :: tail
    | _, _ => .error (.valueError "Non-hexadecimal digit found")

/- `remove_0x_prefix`, where there is a prefix. -/
def remove0xPrefix : List Char → List Char
| '0' :: 'x' :: rest => rest
| '0' :: 'X' :: rest => rest
| text => text

/- `decode_hex` -/
def decodeHex (text : List Char) : Py Bytes :=
  unhexlify (remove0xPrefix text)

/- `normalize_bytes`, which drops a small `0x` itself. -/
def normalizeBytes : RpcVal → Py Bytes
| .str text =>
    let text :=
      match text with
      | '0' :: 'x' :: rest => rest
      | _ => text
    let text :=
      if text.length % 2 ≠ 0 then '0' :: text else text
    decodeHex text
| .int n => .ok (BigEndian.encode n)
| .bytes b => .ok b

/- `value or ''` for an answer that may be missing. -/
def orEmpty : Option RpcVal → RpcVal
| none => .str []
| some value => value

------------------------------------------------------------
-- Answers
------------------------------------------------------------

/- The fields of a block that are read. -/
structure BlockDict where
  difficulty : Nat
  number : Nat
  gasLimit : Nat
  timestamp : Nat
  miner : List Char
  parentHash : Bytes
  sha3Uncles : Bytes
  stateRoot : Bytes
  transactionsRoot : Bytes
  receiptsRoot : Bytes
  logsBloom : Bytes
  gasUsed : Nat
  extraData : RpcVal
  mixHash : Bytes
  nonce : RpcVal
  baseFeePerGas : Nat
  withdrawalsRoot : Option RpcVal
  hash : Bytes
  transactions : List Bytes

/-
  The fields of a transaction that are read. The access list
  stands for the result of serialising it.
-/
structure TxDict where
  type : String
  nonce : Nat
  gasPrice : Nat
  maxPriorityFeePerGas : Nat
  maxFeePerGas : Nat
  gas : Nat
  toAddr : Option RpcVal
  value : Nat
  input : Option RpcVal
  accessList : Py Item
  chainId : RpcVal
  v : Nat
  r : Bytes
  s : Bytes
  hash : RpcVal
  transactionIndex : Nat

/- The node at one moment. -/
structure Web3 where
  getBlock : Nat → Py BlockDict
  getTransaction : Bytes → Py TxDict
  chainId : Nat

end Sting
