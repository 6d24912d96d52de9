import StingFlashbots.Contract.Signature
import StingFlashbots.OS.Files
import StingFlashbots.Trie.Merkle

/-
  The transaction pool of the subverted builder.

  Bundles are added to the pool, one at a time or several at
  once. Before that `subversionService` writes the
  transactions of the target's bundles to files. It gives up
  at the first call that fails, in the middle of whatever
  bundle it was at, and its caller does not learn of it.

  Which calls of `MarshalBinary` and `os.WriteFile` fail is
  given by a script: the `n`-th transaction the service
  turns to meets the `n`-th answers of it.

  Key definitions include:
    * `Builder.Geth`, `Builder.Geth.NamesFiles`
    * `Builder.Host`
    * `Builder.subversionService`
    * `Builder.TxPool.addMevBundles`
    * `Builder.TxPool.addMevBundle`
    * `Builder.TxPool.run`
-/

namespace Builder

open OS Sting

------------------------------------------------------------
-- Bundles
------------------------------------------------------------

/- `types.MevBundle` -/
structure MevBundle (Tx : Type) where
  txs : List Tx
  blockNumber : Option Int
  uuid : BitVec 128
  signingAddress : Address
  minTimestamp : UInt64
  maxTimestamp : UInt64
  revertingTxHashes : List Bytes
  hash : Bytes

/- What `AddMevBundle` is called with. -/
structure BundleArgs (Tx : Type) where
  txs : List Tx
  blockNumber : Option Int
  replacementUuid : BitVec 128
  signingAddress : Address
  minTimestamp : UInt64
  maxTimestamp : UInt64
  revertingTxHashes : List Bytes

------------------------------------------------------------
-- The Host
------------------------------------------------------------

/- The types of go-ethereum, as far as the pool uses them. -/
structure Geth (Tx : Type) where
  txHash : Tx → Bytes
  marshalBinary : Tx → Bytes
  hashString : Bytes → List Char
  addressString : Address → List Char
  keccak256 : Digest

/- `Hash.String` gives each hash a file name of its own. -/
structure Geth.NamesFiles
    {Tx : Type}
    (geth : Geth Tx) : Prop where
  injective : Function.Injective geth.hashString
  plain : ∀ hash, PlainName (geth.hashString hash)

/- Which calls fail, and how. -/
structure Script where
  marshalFails : Nat → Bool
  writeResult : Nat → WriteResult

/- What the pool runs on. -/
structure Host (Tx : Type) extends Geth Tx where
  subvAddress : List Char
  subvDir : Path
  script : Script

/-
  The files, the calls that wrote them and the number of
  transactions the service has turned to.
-/
structure Disk where
  files : Files
  writes : List WriteCall
  attempts : Nat

/- The files before the pool has written any. -/
def Disk.start (files : Files) : Disk :=
  { files := files
    writes := []
    attempts := 0 }

/- `os.WriteFile` -/
def Disk.writeFile
    (disk : Disk)
    (call : WriteCall) : Disk :=
  { disk with
    files := call.apply disk.files
    writes := disk.writes ++ [call] }

------------------------------------------------------------
-- The Subversion Service
------------------------------------------------------------

variable {Tx : Type}
variable (host : Host Tx)

/- The file a transaction is written to. -/
def Host.ssPath (tx : Tx) : Path :=
  join [host.subvDir, host.hashString (host.txHash tx)]

/-
  The body of the inner loop. An error is the return from
  the whole service.
-/
def leakTx
    (disk : Disk)
    (tx : Tx) : Except Disk Disk :=
  let attempt := disk.attempts
  let disk := { disk with attempts := attempt + 1 }
  if host.script.marshalFails attempt then
    .error disk
  else
    let result := host.script.writeResult attempt
    let disk := disk.writeFile
      { path := host.ssPath tx
        data := host.marshalBinary tx
        result := result }
    if result ≠ .complete then .error disk else .ok disk

/- The body of the outer loop. -/
def leakBundle
    (disk : Disk)
    (b : MevBundle Tx) : Except Disk Disk :=
  if host.addressString b.signingAddress =
      host.subvAddress then
    b.txs.foldlM (leakTx host) disk
  else
    .ok disk

/- `subversionService` -/
def subversionService
    (mevBundles : List (MevBundle Tx))
    (disk : Disk) : Disk :=
  match mevBundles.foldlM (leakBundle host) disk with
  | .ok disk => disk
  | .error disk => disk

------------------------------------------------------------
-- The Pool
------------------------------------------------------------

/- The bundles of the pool, and the disk it writes to. -/
structure TxPool (Tx : Type) where
  mevBundles : List (MevBundle Tx)
  disk : Disk

namespace TxPool

/- `AddMevBundles` -/
def addMevBundles
    (mevBundles : List (MevBundle Tx))
    (pool : TxPool Tx) : TxPool Tx :=
  let disk := subversionService host mevBundles pool.disk
  { mevBundles := pool.mevBundles ++ mevBundles
    disk := disk }

/- `AddMevBundle` -/
def addMevBundle
    (args : BundleArgs Tx)
    (pool : TxPool Tx) : TxPool Tx :=
  let bundleHash :=
    host.keccak256 (args.txs.flatMap host.txHash)
  let mevBundles : List (MevBundle Tx) :=
    [{ txs := args.txs
       blockNumber := args.blockNumber
       uuid := args.replacementUuid
       signingAddress := args.signingAddress
       minTimestamp := args.minTimestamp
       maxTimestamp := args.maxTimestamp
       revertingTxHashes := args.revertingTxHashes
       hash := bundleHash }]
  let disk := subversionService host mevBundles pool.disk
  { mevBundles := pool.mevBundles ++
      [{ txs := args.txs
         blockNumber := args.blockNumber
         uuid := args.replacementUuid
         signingAddress := args.signingAddress
         minTimestamp := args.minTimestamp
         maxTimestamp := args.maxTimestamp
         revertingTxHashes := args.revertingTxHashes
         hash := bundleHash }]
    disk := disk }

end TxPool

/- The two ways bundles come in. -/
inductive Call (Tx : Type) where
| addMevBundles (mevBundles : List (MevBundle Tx))
| addMevBundle (args : BundleArgs Tx)

def TxPool.step
    (pool : TxPool Tx) :
    Call Tx → TxPool Tx
| .addMevBundles mevBundles =>
    pool.addMevBundles host mevBundles
| .addMevBundle args => pool.addMevBundle host args

/- Calls one after another. The pool's lock orders them. -/
def TxPool.run
    (pool : TxPool Tx)
    (calls : List (Call Tx)) : TxPool Tx :=
  calls.foldl (TxPool.step host) pool

end Builder
