import StingFlashbots.Contract.Invariants
import StingFlashbots.Contract.RecentBlocks
import StingFlashbots.Searcher.EvidenceSoundness

/-
  Searcher, enclave and contract together.

  What the contract pays for is what the enclave has signed.
  Behind a payout on a blob of the enclave is the block it
  checked the proofs against: it has both transactions, the
  second one signed with a commitment to the signature of
  the first one for a nonce. It is the block that is paid
  for exactly when the enclave, asking for the block once
  more, got the same hash, and the hash is not zero. The
  other way round, whoever brings what the enclave has
  signed to an open contract gets the bounty.

  Key definitions include:
    * `Protocol.EnclaveRun`
    * `Protocol.EnclaveRun.Checked`
    * `Protocol.Evidence`
    * `Protocol.EnclaveKey`, `Protocol.Submission`

  Main results:
    * `Protocol.payout_backed`
    * `Protocol.collectBounty_pays`
-/

namespace Protocol

open EVM Sting Honeypot Ecdsa Commitment Trace

------------------------------------------------------------
-- Runs of the Enclave
------------------------------------------------------------

section

variable (A : EthAccount)
variable (L : JacobianLibrary)
variable (keccak : Digest)
variable (hashMessage : Bytes → Bytes)
variable (stingerTx secretKey : Py Bytes)

/- A run of `verify_evidence` that signs. -/
structure EnclaveRun where
  w₁ : Web3
  w₂ : Web3
  w₃ : Web3
  verifyData : VerifyData
  proof : SignedProof
  signs :
    verifyEvidence A L keccak hashMessage w₁ w₂ w₃
        verifyData stingerTx secretKey =
      .ok proof

end

section

variable {A : EthAccount}
variable {L : JacobianLibrary}
variable {keccak : Digest}
variable {hashMessage : Bytes → Bytes}
variable {stingerTx secretKey : Py Bytes}

/- The number of the block the run is about. -/
def EnclaveRun.number
    (run : EnclaveRun A L keccak hashMessage stingerTx
      secretKey) : Nat :=
  run.verifyData.targetBlockNum

/-
  Both proofs were checked against the block, and the block
  and the proofs have no collisions. The answer to the third
  question, whose hash is signed, may be another block.
-/
structure EnclaveRun.Checked
    (run : EnclaveRun A L keccak hashMessage stingerTx
      secretKey)
    (b : Block keccak) : Prop where
  answer₁ :
    ∃ dict, run.w₁.getBlock run.number = .ok dict ∧
      dict.hash = b.hash
  answer₂ :
    ∃ dict, run.w₂.getBlock run.number = .ok dict ∧
      dict.hash = b.hash
  collisionFree :
    ∀ prf,
      hexToBytes run.verifyData.advPrf = .ok prf ∨
        hexToBytes run.verifyData.victimPrf = .ok prf →
      CollisionFree keccak (b.strings ++ proofStrings prf)

/-
  A block has the stinger and a transaction of somebody who
  knew its signature. The other transaction is hashed as the
  package reads its fields, and its signature is the one of
  this hash with the commitment for a nonce.
-/
structure Evidence
    (A : EthAccount)
    (L : JacobianLibrary)
    (keccak : Digest)
    (b : Block keccak)
    (stinger : Bytes) where
  victimTx : SignedTx
  advTx : SignedTx
  opening : Int
  commitment : Nat
  chainId : Nat
  advKey : PrivateKey
  advObject : TransactionObject A.Typed
  advSigned : SignedTransaction
  victim_eq : encodeTx victimTx = .ok stinger
  includes_victim : b.Includes victimTx
  includes_adv : b.Includes advTx
  commitment_eq :
    computePedersenCommitment
        (bytesToInt (keccak (signatureMessage victimTx.v
          victimTx.r victimTx.s))) opening =
      .ok commitment
  commitment_ne_zero : commitment ≠ 0
  read_eq :
    A.serializableUnsignedTransactionFromDict
        (advTx.unsigned chainId).toDict =
      .ok advObject
  usesNonce :
    UsesNonce A L.toJacobianModule advObject advKey.rawKey
      commitment advSigned
  signature_eq :
    advTx.v = advSigned.v ∧ advTx.r = advSigned.r ∧
      advTx.s = advSigned.s

/-
  The package reads a dictionary with a chain id, and with
  no key of the typed transactions, as a legacy transaction
  with this chain id.
-/
def KeepsChainId (A : EthAccount) : Prop :=
  ∀ dict chainId tx,
    dict .chainId = some (.val (.int chainId)) →
    (∀ key ∈ [TxField.type, .accessList, .maxFeePerGas,
      .maxPriorityFeePerGas], dict key = none) →
    A.serializableUnsignedTransactionFromDict dict =
      .ok tx →
    tx.HasChainId

/- So the nonce that is asked for reaches the signer. -/
theorem usesNonce_of_signTx
    (hA : KeepsChainId A)
    {tx : UnsignedTx}
    {account : PrivateKey}
    {k : Int}
    {signed : SignedTransaction}
    (hSigned :
      signTx A L keccak tx.toDict account k = .ok signed) :
    ∃ object,
      A.serializableUnsignedTransactionFromDict tx.toDict =
        .ok object ∧
      UsesNonce A L.toJacobianModule object account.rawKey k
        signed := by
  have hDict : tx.toDict.dissoc .fromAddr = tx.toDict := by
    funext key
    cases key <;> rfl
  rcases signTransaction_eq_ok hSigned with
    ⟨key, object, hKey, hRead, hSign, _⟩
  rw [hDict] at hRead
  refine ⟨object, hRead, ?_⟩
  have hChain : object.HasChainId := by
    apply hA _ tx.chainId object rfl _ hRead
    intro key hMem
    simp only [List.mem_cons, List.not_mem_nil, or_false]
      at hMem
    rcases hMem with rfl | rfl | rfl | rfl <;> rfl
  have hVrs := signTransactionObject_eq_ok hSign
  rw [parsePrivateKey_eq_ok hKey,
    TransactionObject.signerNonce, if_pos hChain] at hVrs
  rw [Prod.mk.injEq, Prod.ext_iff] at hVrs
  exact hVrs

/- The signature is the one that was computed. -/
theorem signature_of_check
    {e : Recomputed}
    (hOk : e.check stingerTx = .ok ()) :
    e.signedAdvTx.v = e.advTxComputed.v ∧
      e.signedAdvTx.r = e.advTxComputed.r ∧
      e.signedAdvTx.s = e.advTxComputed.s := by
  rcases bind_eq_ok.mp hOk with ⟨_, hv, hOk⟩
  rcases bind_eq_ok.mp hOk with ⟨_, hr, hOk⟩
  rcases bind_eq_ok.mp hOk with ⟨s, hText, hOk⟩
  rcases bind_eq_ok.mp hOk with ⟨_, hs, _⟩
  rw [intBase16_hex] at hText
  cases hText
  exact ⟨pyAssert_eq_ok.mp hv, pyAssert_eq_ok.mp hr,
    pyAssert_eq_ok.mp hs⟩

/- What is computed from the two proofs. -/
theorem recompute_signs
    {w₁ w₂ : Web3}
    {verifyData : VerifyData}
    {e : Recomputed}
    (hOk :
      recompute A L keccak w₁ w₂ verifyData = .ok e) :
    ∃ advPrf unsignedAdvTx advKey,
      hexToBytes verifyData.advPrf = .ok advPrf ∧
      verifyTxProof keccak w₁ verifyData.targetBlockNum
          advPrf =
        .ok (unsignedAdvTx, e.signedAdvTx) ∧
      computePedersenCommitment
          (bytesToInt (keccak (signatureMessage
            e.signedVictimTx.v e.signedVictimTx.r
            e.signedVictimTx.s))) verifyData.r =
        .ok e.C ∧
      signTx A L keccak unsignedAdvTx.toDict advKey e.C =
        .ok e.advTxComputed := by
  rcases bind_eq_ok.mp hOk with ⟨advPrf, hText, hOk⟩
  rcases bind_eq_ok.mp hOk with
    ⟨⟨unsignedAdvTx, signedAdvTx⟩, hAdv, hOk⟩
  rcases bind_eq_ok.mp hOk with ⟨_, _, hOk⟩
  rcases bind_eq_ok.mp hOk with ⟨⟨_, victimTx⟩, _, hOk⟩
  rcases bind_eq_ok.mp hOk with ⟨C, hCommit, hOk⟩
  rcases bind_eq_ok.mp hOk with ⟨advKey, _, hOk⟩
  rcases bind_eq_ok.mp hOk with ⟨computed, hSigned, hOk⟩
  cases hOk
  exact ⟨advPrf, unsignedAdvTx, advKey, hText, hAdv,
    hCommit, hSigned⟩

/- The block of a run has the evidence. -/
theorem EnclaveRun.evidence
    (hA : KeepsChainId A)
    (run : EnclaveRun A L keccak hashMessage stingerTx
      secretKey)
    {b : Block keccak}
    (hChecked : run.Checked b) :
    ∃ stinger, stingerTx = .ok stinger ∧
      Nonempty (Evidence A L keccak b stinger) := by
  rcases verifyEvidence_eq_ok run.signs with
    ⟨e, hAgain, hCheck, _⟩
  rcases recompute_eq_ok hAgain with
    ⟨_, victimPrf, _, _, _, hVictimText, _, hVictim⟩
  rcases recompute_signs hAgain with
    ⟨advPrf, unsignedAdvTx, advKey, hAdvText, hAdv, hCommit,
      hSigned⟩
  rcases stingerTx_of_check hCheck with
    ⟨stinger, hStinger, hEncode⟩
  rcases hChecked.answer₁ with ⟨dict₁, hBlock₁, hHash₁⟩
  rcases hChecked.answer₂ with ⟨dict₂, hBlock₂, hHash₂⟩
  rcases verifyTxProof_included b hBlock₁ hHash₁
      (hChecked.collisionFree advPrf (Or.inl hAdvText)) hAdv with
    ⟨_, _, _, _, _, hUnsigned⟩
  rw [hUnsigned] at hSigned
  rcases usesNonce_of_signTx hA hSigned with
    ⟨advObject, hRead, hUses⟩
  exact ⟨stinger, hStinger, ⟨
    { victimTx := e.signedVictimTx
      advTx := e.signedAdvTx
      opening := run.verifyData.r
      commitment := e.C
      chainId := run.w₁.chainId
      advKey := advKey
      advObject := advObject
      advSigned := e.advTxComputed
      victim_eq := hEncode
      includes_victim :=
        includes_of_verifyTxProof b hBlock₂ hHash₂
          (hChecked.collisionFree victimPrf
            (Or.inr hVictimText)) hVictim
      includes_adv :=
        includes_of_verifyTxProof b hBlock₁ hHash₁
          (hChecked.collisionFree advPrf (Or.inl hAdvText)) hAdv
      commitment_eq := hCommit
      commitment_ne_zero :=
        computePedersenCommitment_ne_zero hCommit
      read_eq := hRead
      usesNonce := hUses
      signature_eq := signature_of_check hCheck }⟩⟩

/- What the run has signed, and how. -/
theorem EnclaveRun.proof_eq
    (run : EnclaveRun A L keccak hashMessage stingerTx
      secretKey)
    {dict : BlockDict}
    (hBlock : run.w₃.getBlock run.number = .ok dict) :
    (RLP.Item.list
        [RLP.int run.number, .str dict.hash]).Encodable ∧
      run.proof.proofBlob =
        RLP.encode (.list
          [RLP.int run.number, .str dict.hash]) ∧
      ∃ key, secretKey = .ok key ∧
        signEthData L.toJacobianModule hashMessage key
            run.proof.proofBlob =
          .ok run.proof.proofSig := by
  rcases verifyEvidence_eq_ok run.signs with ⟨_, _, _, hSign⟩
  rcases bind_eq_ok.mp hSign with ⟨dict', hBlock', hSign⟩
  rw [show run.w₃.getBlock run.verifyData.targetBlockNum =
    .ok dict from hBlock] at hBlock'
  cases hBlock'
  rcases bind_eq_ok.mp hSign with ⟨blob, hBlob, hSign⟩
  rcases bind_eq_ok.mp hSign with ⟨key, hKey, hSign⟩
  rcases bind_eq_ok.mp hSign with ⟨sig, hSig, hSign⟩
  rcases rlpEncodeItem_eq_ok.mp hBlob with ⟨hFit, rfl⟩
  rw [← Except.ok.inj hSign]
  exact ⟨hFit, rfl, key, hKey, hSig⟩

------------------------------------------------------------
-- Payouts Are Backed
------------------------------------------------------------

/-
  Whatever state the contract is in and whoever calls it:
  behind a payout for what the enclave signed is a block
  with the evidence. The payout is for this block, and it is
  one of the last 256 of the chain the contract runs on,
  exactly when the hash that was signed is its hash and not
  zero.
-/
theorem payout_backed
    (hA : KeepsChainId A)
    (pre : Precompiles)
    (blocks : Blocks)
    (msg : Msg)
    (hMsg : msg.blockhash = blocks.blockhash)
    (claim : Claim)
    (payee : List Call)
    (accepts : Bool)
    (s : State)
    (result : State × Steps)
    (hOk :
      exec pre (.collectBounty msg claim payee accepts) s =
        .ok result)
    (run : EnclaveRun A L keccak hashMessage stingerTx
      secretKey)
    (hBlob : claim.proofBlob = run.proof.proofBlob)
    (b : Block keccak)
    (hChecked : run.Checked b)
    (dict : BlockDict)
    (hBlock : run.w₃.getBlock run.number = .ok dict)
    (hLength : dict.hash.length = 32) :
    (∃ stinger, stingerTx = .ok stinger ∧
      Nonempty (Evidence A L keccak b stinger)) ∧
    ((run.number < blocks.number ∧
        blocks.number ≤ run.number + 256 ∧
        blocks.hash run.number = BigEndian.decode b.hash) ↔
      dict.hash = b.hash ∧
        BigEndian.decode b.hash ≠ 0) := by
  refine ⟨run.evidence hA hChecked, ?_⟩
  rcases run.proof_eq hBlock with ⟨hFit, hEncoding, _⟩
  have hPlaced := claim.placed
  rw [hBlob, hEncoding] at hPlaced
  rcases collectBounty_checked hOk with ⟨number, hRead⟩
  have hSame :=
    readProof_of_encoding hLength hFit hPlaced hRead
  rw [Prod.mk.injEq, hMsg] at hSame
  rcases hSame with ⟨rfl, hBlockHash⟩
  constructor
  · rintro ⟨hBelow, hFrom, hHash⟩
    rw [Blocks.blockhash, if_pos ⟨hBelow, hFrom⟩, hHash]
      at hBlockHash
    refine ⟨?_, ?_⟩
    · apply BigEndian.decode_inj _ hBlockHash.symm
      rw [hLength]
      exact (keccak.length_hash _).symm
    · rw [← hHash]
      exact blocks.hash_ne_zero _ hBelow
  · rintro ⟨hHash, hNonzero⟩
    rw [hHash] at hBlockHash
    rw [← hBlockHash] at hNonzero ⊢
    rcases (blocks.blockhash_ne_zero_iff _).mp hNonzero with
      ⟨hFrom, hBelow⟩
    refine ⟨hBelow, by omega, ?_⟩
    rw [Blocks.blockhash, if_pos ⟨hBelow, by omega⟩]

------------------------------------------------------------
-- Evidence Is Paid For
------------------------------------------------------------

/- The nonce derived for the hash gives a signature. -/
structure Signable
    (J : JacobianModule)
    (hash : Bytes)
    (d : Nat) : Prop where
  nonce : deterministicGenerateK hash (keyBytes d) % N ≠ 0
  r_pos : 0 < (ecdsaRawSign J hash (keyBytes d) 0).2.1
  s_ne_zero : (ecdsaRawSign J hash (keyBytes d) 0).2.2 ≠ 0

/- The address of a private key. -/
def keyAddress
    (J : JacobianModule)
    (keccak : Digest)
    (d : Nat) : Address :=
  ethAddress keccak (encodeRawPublicKey (J.fastMultiply G d))

/- Only a signature with a number below the order is made. -/
theorem r_lt_of_signEthData
    {J : JacobianModule}
    {d : Nat}
    (hd : d < N)
    {data sig : Bytes}
    (hLength : (hashMessage data).length = 32)
    (hSig :
      signEthData J hashMessage (keyBytes d) data =
        .ok sig) :
    (ecdsaRawSign J (hashMessage data) (keyBytes d) 0).2.1 <
      N := by
  rcases bind_eq_ok.mp hSig with ⟨signed, hSigned, _⟩
  rw [signHash, if_neg (not_not.mpr hLength)] at hSigned
  rcases bind_eq_ok.mp hSigned with ⟨key, hKey, hSigned⟩
  rw [parsePrivateKey_keyBytes J hd] at hKey
  cases hKey
  rcases bind_eq_ok.mp hSigned with ⟨signature, hNew, _⟩
  simp only [PrivateKey.signMsgHash, Signature.new] at hNew
  split_ifs at hNew with hValid
  exact hValid.2.1

/- The contract recovers the enclave's address. -/
theorem recoversTo_of_signable
    {J : JacobianModule}
    (hJ : J.Standard)
    {pre : Precompiles}
    (hRecover : pre.ecrecover = standardEcrecover pre.keccak)
    (hMessage :
      ∀ data, hashMessage data =
        pre.keccak (defunctMessage data))
    {d : Nat}
    (hd : 0 < d)
    (hdN : d < N)
    {data sig : Bytes}
    (hSignable : Signable J (hashMessage data) d)
    (hSig :
      signEthData J hashMessage (keyBytes d) data = .ok sig)
    (hAddress : keyAddress J pre.keccak d ≠ 0) :
    RecoversTo pre data sig (keyAddress J pre.keccak d) := by
  have hLength : (hashMessage data).length = 32 := by
    rw [hMessage]
    exact pre.keccak.length_hash _
  have hZero := chooseNonce_zero (hashMessage data) (keyBytes d)
  have hv := ecdsaRawSign_v_le hJ hZero hSignable.nonce
  have hLow :=
    ecdsaRawSign_low J (hashMessage data) (keyBytes d) 0
  have hrN := r_lt_of_signEthData hdN hLength hSig
  have hr := hSignable.r_pos
  have hs := hSignable.s_ne_zero
  have hMax := maxS_lt
  have hN : N < 256 ^ 32 := by decide
  rcases hSign :
      ecdsaRawSign J (hashMessage data) (keyBytes d) 0 with
    ⟨v, r, s⟩
  rw [hSign] at hv hLow hrN hr hs
  simp only at hv hLow hrN hr hs
  have hSigner :
      pre.ecrecover (hashMessage data) (v + 27) r s =
        keyAddress J pre.keccak d := by
    rw [hRecover]
    exact standardEcrecover_ecdsaRawSign hJ pre.keccak hd hdN
      hSignable.nonce hSign hr hrN hs
  rw [signEthData_eq hLength hdN hSign hv hrN (by omega)]
    at hSig
  cases hSig
  refine ⟨hashMessage data, ?_, ?_⟩
  · rw [hashData_eq, hMessage]
  · rw [← hSigner] at hAddress ⊢
    exact recover_eq (by omega) (by omega) hLow hAddress

/- The checks of `collectBounty` that a claim passes. -/
theorem payBounty_eq_ok
    {pre : Precompiles}
    {msg : Msg}
    {claim : Claim}
    {s : State}
    (hGas : msg.outOfGas = false)
    (hValue : msg.value = 0)
    (hOpen : s.claimed = false)
    (hApproved : s.enclaveApproved claim.enclaveAddr = true)
    (hSigned :
      RecoversTo pre claim.proofBlob claim.sig
        claim.enclaveAddr)
    {number blockHash : Nat}
    (hRead :
      readProof claim.memory claim.pointer =
        .ok (number, blockHash))
    (hBlock : msg.blockhash number = blockHash)
    (hCovered : s.bounty ≤ s.balance) :
    payBounty pre msg claim s = .ok s.paid := by
  rcases hSigned with ⟨hash, hHash, hRecover⟩
  have hEnter : enter msg = .ok () := by
    rw [enter, hGas, if_neg Bool.false_ne_true,
      require_pos hValue]
  rw [payBounty, hEnter, ok_bind, require_pos hOpen, ok_bind,
    require_pos hApproved, ok_bind, hHash, ok_bind, hRecover,
    ok_bind, require_pos rfl, ok_bind, hRead, ok_bind]
  simp only
  rw [require_pos hBlock, ok_bind, require_pos hCovered]
  rfl

/- After the checks the payee is paid and may call again. -/
theorem exec_collectBounty
    {pre : Precompiles}
    {msg : Msg}
    {claim : Claim}
    {s : State}
    (hPay : payBounty pre msg claim s = .ok s.paid)
    (payee : List Call) :
    exec pre (.collectBounty msg claim payee true) s =
      .ok ((execAll pre payee s.paid).1,
        ⟨s, payoutLabel msg claim s, s.paid⟩ ::
          (execAll pre payee s.paid).2) := by
  rw [exec, hPay, ok_bind]
  simp only [require_pos, ok_bind]
  rfl

/- In a run from the constructor an open bounty is covered. -/
theorem covered_of_open
    (pre : Precompiles)
    (owner : Address)
    (bounty earlier : Nat)
    (calls : List Call)
    (hOpen :
      (execAll pre calls
        (deploy owner bounty earlier)).1.claimed = false) :
    let s := (execAll pre calls
      (deploy owner bounty earlier)).1
    s.bounty = bounty ∧ s.bounty ≤ s.balance := by
  intro s
  rcases execAll_chain pre calls
      (deploy owner bounty earlier) with
    ⟨hChain, hLast⟩
  have hSound := hChain.invariant sound_step
    (sound_deploy owner bounty earlier)
  rw [hLast] at hSound
  refine ⟨hSound.bounty_eq, ?_⟩
  rw [hSound.bounty_eq]
  exact hSound.covered hOpen

/- Claimed stays claimed, whatever is called. -/
theorem claimed_execAll
    (pre : Precompiles)
    (calls : List Call)
    {s : State}
    (hClaimed : s.claimed = true) :
    (execAll pre calls s).1.claimed = true := by
  rcases execAll_chain pre calls s with ⟨hChain, hLast⟩
  have hMono :
      ∀ s l s', State.claimed s = true →
        Step pre s l s' → s'.claimed = true := by
    intro s l s' hBefore hStep
    exact claimed_mono hStep hBefore
  have hEnd := hChain.preserves hMono hClaimed
  rwa [hLast] at hEnd

/-
  What the key of the enclave and the contract have to do
  with each other: the signature is made, recovered and
  hashed as the standards say, and the key has an address.
-/
structure EnclaveKey
    (L : JacobianLibrary)
    (hashMessage : Bytes → Bytes)
    (pre : Precompiles)
    (d : Nat) : Prop where
  standard : L.toJacobianModule.Standard
  recover_eq :
    pre.ecrecover = standardEcrecover pre.keccak
  message_eq :
    ∀ data,
      hashMessage data = pre.keccak (defunctMessage data)
  pos : 0 < d
  lt : d < N
  address_ne_zero :
    keyAddress L.toJacobianModule pre.keccak d ≠ 0

/-
  A call that brings what the run signed to a contract that
  has approved the enclave and has not paid, while the block
  with this hash is still known. It has enough gas, no ether
  and room in memory for what reading takes.
-/
structure Submission
    (run : EnclaveRun A L keccak hashMessage stingerTx
      secretKey)
    (enclave : Address)
    (blockHash : Bytes)
    (s : State)
    (msg : Msg)
    (claim : Claim) : Prop where
  approved : s.enclaveApproved enclave = true
  unclaimed : s.claimed = false
  gas : msg.outOfGas = false
  value_eq : msg.value = 0
  known :
    msg.blockhash run.number = BigEndian.decode blockHash
  address_eq : claim.enclaveAddr = enclave
  blob_eq : claim.proofBlob = run.proof.proofBlob
  sig_eq : claim.sig = run.proof.proofSig
  room : mload claim.memory 0x40 + proofSize ≤ allocLimit

/-
  In every run of the contract that has approved the enclave
  and has not paid yet, anybody who brings what the enclave
  signed while the block is still known gets the whole
  bounty, whatever calls the payment itself sets off.
-/
theorem collectBounty_pays
    (pre : Precompiles)
    (d : Nat)
    (hKey : EnclaveKey L hashMessage pre d)
    (run : EnclaveRun A L keccak hashMessage stingerTx
      (.ok (keyBytes d)))
    (hSignable :
      Signable L.toJacobianModule
        (hashMessage run.proof.proofBlob) d)
    (hNumber : run.number < 2 ^ 256)
    (dict : BlockDict)
    (hBlock : run.w₃.getBlock run.number = .ok dict)
    (hLength : dict.hash.length = 32)
    (owner : Address)
    (bounty earlier : Nat)
    (calls : List Call)
    (s : State)
    (hRun :
      s = (execAll pre calls
        (deploy owner bounty earlier)).1)
    (msg : Msg)
    (claim : Claim)
    (hCall :
      Submission run
        (keyAddress L.toJacobianModule pre.keccak d)
        dict.hash s msg claim)
    (payee : List Call) :
    ∃ after steps,
      exec pre (.collectBounty msg claim payee true) s =
        .ok (after,
          ⟨s, .payout msg.sender claim.enclaveAddr
            claim.proofBlob claim.sig bounty, s.paid⟩ ::
            steps) ∧
      after.claimed = true := by
  rcases run.proof_eq hBlock with
    ⟨_, hEncoding, key, hSecret, hSig⟩
  cases hSecret
  have hSigned :=
    recoversTo_of_signable hKey.standard hKey.recover_eq
      hKey.message_eq hKey.pos hKey.lt hSignable hSig
      hKey.address_ne_zero
  rw [← hCall.blob_eq, ← hCall.sig_eq, ← hCall.address_eq]
    at hSigned
  have hPlaced := claim.placed
  rw [hCall.blob_eq, hEncoding] at hPlaced
  have hRead :=
    readProof_of_room hNumber hLength hPlaced hCall.room
  rcases covered_of_open pre owner bounty earlier calls
      (by rw [← hRun]; exact hCall.unclaimed) with
    ⟨hBounty, hCovered⟩
  rw [← hRun] at hBounty hCovered
  have hPay :=
    payBounty_eq_ok hCall.gas hCall.value_eq hCall.unclaimed
      (by rw [hCall.address_eq]; exact hCall.approved)
      hSigned hRead hCall.known hCovered
  refine ⟨(execAll pre payee s.paid).1,
    (execAll pre payee s.paid).2, ?_, ?_⟩
  · rw [exec_collectBounty hPay, payoutLabel, hBounty]
  · exact claimed_execAll pre payee rfl

end

------------------------------------------------------------
-- An Honest Run
------------------------------------------------------------

/- The address of the enclave with the key three. -/
def honestAddress : Address :=
  keyAddress JacobianLibrary.computed.toJacobianModule
    Digest.keccak256 3

/- Runs of this enclave on the honest evidence. -/
abbrev HonestRun : Type :=
  EnclaveRun EthAccount.reference JacobianLibrary.computed
    Digest.keccak256 Ecdsa.sampleHash (.ok honestVictim)
    (.ok (keyBytes 3))

/- The blob it signs. -/
def honestBlob : Bytes :=
  RLP.encode (.list [RLP.int 1, .str honestBlock.hash])

/- The reference account keeps chain ids. -/
theorem keepsChainId_reference :
    KeepsChainId EthAccount.reference := by
  intro dict chainId tx hChain _ hRead
  change EthAccount.readDict dict = .ok tx at hRead
  unfold EthAccount.readDict at hRead
  simp only at hRead
  split_ifs at hRead
  · cases hRead
  · rcases bind_eq_ok.mp hRead with ⟨_, _, hRead⟩
    rcases bind_eq_ok.mp hRead with ⟨_, _, hRead⟩
    rcases bind_eq_ok.mp hRead with ⟨_, _, hRead⟩
    rcases bind_eq_ok.mp hRead with ⟨_, _, hRead⟩
    rcases bind_eq_ok.mp hRead with ⟨_, _, hRead⟩
    rw [hChain] at hRead
    rcases bind_eq_ok.mp hRead with ⟨_, _, hRead⟩
    rw [← Except.ok.inj hRead]
    exact trivial

/- The signature of the blob can be made. -/
theorem signable_honest :
    Signable JacobianLibrary.computed.toJacobianModule
        (Ecdsa.sampleHash honestBlob) 3 ∧
      (ecdsaRawSign JacobianLibrary.computed.toJacobianModule
        (Ecdsa.sampleHash honestBlob) (keyBytes 3) 0).2.1 <
          N := by
  have hAll :
      deterministicGenerateK (Ecdsa.sampleHash honestBlob)
          (keyBytes 3) % N ≠ 0 ∧
        0 < (ecdsaRawSign
          JacobianLibrary.computed.toJacobianModule
          (Ecdsa.sampleHash honestBlob) (keyBytes 3) 0).2.1 ∧
        (ecdsaRawSign
          JacobianLibrary.computed.toJacobianModule
          (Ecdsa.sampleHash honestBlob)
          (keyBytes 3) 0).2.2 ≠ 0 ∧
        (ecdsaRawSign
          JacobianLibrary.computed.toJacobianModule
          (Ecdsa.sampleHash honestBlob)
          (keyBytes 3) 0).2.1 < N := by
    decide +kernel
  rcases hAll with ⟨hNonce, hr, hs, hrN⟩
  exact ⟨⟨hNonce, hr, hs⟩, hrN⟩

theorem signBlock_honest :
    ∃ sig,
      signBlock JacobianLibrary.computed Ecdsa.sampleHash
          (nodeAt honestBlock) 1 (.ok (keyBytes 3)) =
        .ok { proofBlob := honestBlob, proofSig := sig } := by
  rcases signable_honest with ⟨hSignable, hrN⟩
  have hJ := JacobianLibrary.computed_standard.toModule
  have hv := ecdsaRawSign_v_le hJ
    (chooseNonce_zero (Ecdsa.sampleHash honestBlob)
      (keyBytes 3)) hSignable.nonce
  have hLow := ecdsaRawSign_low
    JacobianLibrary.computed.toJacobianModule
    (Ecdsa.sampleHash honestBlob) (keyBytes 3) 0
  have hMax := maxS_lt
  have hFit :
      (RLP.Item.list
        [RLP.int 1, .str honestBlock.hash]).Encodable := by
    decide +kernel
  have hBlob :
      rlpEncodeItem (.list
          [RLP.int 1, .str honestBlock.hash]) =
        .ok honestBlob :=
    rlpEncodeItem_eq_ok.mpr ⟨hFit, rfl⟩
  rcases hPair : ecdsaRawSign
      JacobianLibrary.computed.toJacobianModule
      (Ecdsa.sampleHash honestBlob) (keyBytes 3) 0 with
    ⟨v, r, s⟩
  rw [hPair] at hv hLow hrN
  have hLength :
      (Ecdsa.sampleHash honestBlob).length = 32 :=
    Digest.keccak256.length_hash _
  have hSig := signEthData_eq hLength (by decide) hPair hv
    hrN (lt_of_le_of_lt hLow hMax)
  refine ⟨Ecdsa.toBytes32 r ++ Ecdsa.toBytes32 s ++
    [UInt8.ofNat (v + 27)], ?_⟩
  rw [signBlock]
  change (do
    let proofBlob ← rlpEncodeItem (.list
      [RLP.int 1, .str honestBlock.hash])
    _) = _
  rw [hBlob, ok_bind, ok_bind, ok_bind, hSig]
  rfl

theorem exists_honestRun :
    ∃ run : HonestRun, run.Checked honestBlock ∧
      run.number = 1 ∧
      run.w₃ = nodeAt honestBlock ∧
      run.proof.proofBlob = honestBlob := by
  rcases signBlock_honest with ⟨sig, hSign⟩
  rw [← runHonest_eq] at hSign
  refine ⟨
    { w₁ := nodeAt honestBlock
      w₂ := nodeAt honestBlock
      w₃ := nodeAt honestBlock
      verifyData := honestData
      proof := { proofBlob := honestBlob, proofSig := sig }
      signs := hSign }, ?_, rfl, rfl, rfl⟩
  rcases proofStrings_honest with ⟨hAdv, hVictim⟩
  refine ⟨⟨_, rfl, rfl⟩, ⟨_, rfl, rfl⟩, ?_⟩
  intro prf hPrf
  apply collisionFree_honest.mono
  intro string hString
  apply List.mem_append_right
  rcases List.mem_append.mp hString with hBlock | hProof
  · exact hBlock
  · rcases hPrf with hPrf | hPrf
    · rw [hexToBytes_honestData.1] at hPrf
      rw [← Except.ok.inj hPrf] at hProof
      exact hAdv string hProof
    · rw [hexToBytes_honestData.2] at hPrf
      rw [← Except.ok.inj hPrf] at hProof
      exact hVictim string hProof

/- The enclave is submitted and approved. -/
def honestSetup : List Call :=
  [.submitEnclave ⟨8, 0, fun _ => 0, false⟩ honestAddress
      [1] [2],
    .approveEnclave ⟨7, 0, fun _ => 0, false⟩ honestAddress]

/- What the contract has come to when it is called. -/
def honestState (pre : Precompiles) : State :=
  (execAll pre honestSetup (deploy 7 100 0)).1

theorem honestState_eq
    (pre : Precompiles) :
    honestState pre =
      (execAll pre honestSetup (deploy 7 100 0)).1 := rfl

theorem honestState_open
    (pre : Precompiles) :
    (honestState pre).claimed = false ∧
      (honestState pre).enclaveApproved honestAddress =
        true := by
  generalize hAddress : honestAddress = a
  simp [honestState, honestSetup, hAddress, execAll, exec, submitEnclave,
    approveEnclave, enter, require, deploy, bind, Except.bind,
    pure, Except.pure]

/- The blob as an argument in memory. -/
theorem bytesAt_sampleMemory
    {blob : Bytes}
    (hShort : blob.length < 2 ^ 32) :
    BytesAt (sampleMemory blob) 0x80 blob ∧
      mload (sampleMemory blob) 0x40 = 0xa0 + blob.length := by
  have hModulus : modulus = 2 ^ 256 := rfl
  have hFree :
      mload (sampleMemory blob) 0x40 =
        0xa0 + blob.length :=
    mload_mstore _ 0x40 (by omega)
  refine ⟨⟨by omega, ?_, ?_, by omega⟩, hFree⟩
  · unfold sampleMemory
    rw [mload, slice_mstore_of_disjoint _ (by omega)]
    exact mload_mstore _ 0x80 (by omega)
  · unfold sampleMemory
    rw [slice_mstore_of_disjoint _ (by omega),
      slice_mstore_of_disjoint _ (by omega)]
    apply List.ext_getElem (by simp)
    intro i hi hi'
    rw [getElem_slice, (by omega : 0x80 + 0x20 + i - 0xa0 = i),
      List.getD_eq_getElem _ _ hi']

/- A call with the hash of the block at hand. -/
def honestBlocks : Blocks where
  number := 2
  hash := fun _ => BigEndian.decode honestBlock.hash
  hash_ne_zero := by
    intro _ _
    decide +kernel

/- Whoever brings the proof of the run. -/
def honestMsg : Msg where
  sender := 9
  value := 0
  blockhash := honestBlocks.blockhash
  outOfGas := false

theorem known_honest :
    honestMsg.blockhash 1 =
      BigEndian.decode honestBlock.hash := rfl

theorem honestAddress_eq :
    honestAddress =
      keyAddress JacobianLibrary.computed.toJacobianModule
        standardPrecompiles.keccak 3 := rfl

theorem sampleHash_eq
    (data : Bytes) :
    Ecdsa.sampleHash data =
      standardPrecompiles.keccak (defunctMessage data) := rfl

theorem length_honestBlob :
    honestBlob.length < 2 ^ 32 ∧
      honestAddress ≠ 0 ∧
      BigEndian.decode honestBlock.hash ≠ 0 := by
  decide +kernel

def honestClaim (sig : Bytes) : Claim where
  enclaveAddr := honestAddress
  proofBlob := honestBlob
  sig := sig
  memory := sampleMemory honestBlob
  pointer := 0x80
  placed := (bytesAt_sampleMemory length_honestBlob.1).1

theorem enclaveAddr_honestClaim
    (sig : Bytes) :
    (honestClaim sig).enclaveAddr = honestAddress := rfl

theorem room_honest
    (sig : Bytes) :
    mload (honestClaim sig).memory 0x40 + proofSize ≤
      allocLimit := by
  have hShort := length_honestBlob.1
  have hFree :
      mload (honestClaim sig).memory 0x40 =
        0xa0 + honestBlob.length :=
    (bytesAt_sampleMemory hShort).2
  have hSize : proofSize = 0x220 := rfl
  have hLimit : allocLimit = 0xffffffffffffffff := rfl
  omega

theorem enclaveKey_honest :
    EnclaveKey JacobianLibrary.computed Ecdsa.sampleHash
      standardPrecompiles 3 where
  standard := JacobianLibrary.computed_standard.toModule
  recover_eq := rfl
  message_eq := sampleHash_eq
  pos := by decide
  lt := by decide
  address_ne_zero := by
    rw [← honestAddress_eq]
    exact length_honestBlob.2.1

theorem submission_honest
    {run : HonestRun}
    (hNumber : run.number = 1)
    (hBlob : run.proof.proofBlob = honestBlob) :
    Submission run honestAddress honestBlock.hash
      (honestState standardPrecompiles) honestMsg
      (honestClaim run.proof.proofSig) := by
  rcases honestState_open standardPrecompiles with
    ⟨hOpen, hApproved⟩
  exact
    { approved := hApproved
      unclaimed := hOpen
      gas := rfl
      value_eq := rfl
      known := by
        rw [hNumber]
        exact known_honest
      address_eq := rfl
      blob_eq := hBlob.symm
      sig_eq := rfl
      room := room_honest _ }

theorem getBlock_honest
    {run : HonestRun}
    (hNode : run.w₃ = nodeAt honestBlock) :
    run.w₃.getBlock run.number =
      .ok { sampleDict with hash := honestBlock.hash } := by
  rw [hNode]
  rfl

/- The honest searcher is paid. -/
theorem collectBounty_pays_honest :
    ∃ (run : HonestRun) (after : State) (steps : Steps),
      exec standardPrecompiles
          (.collectBounty honestMsg
            (honestClaim run.proof.proofSig) [] true)
          (honestState standardPrecompiles) =
        .ok (after, steps) ∧
      after.claimed = true := by
  rcases exists_honestRun with
    ⟨run, hChecked, hNumber, hNode, hBlob⟩
  rcases collectBounty_pays standardPrecompiles 3
      enclaveKey_honest run
      (by rw [hBlob]; exact signable_honest.1)
      (by rw [hNumber]; decide) _ (getBlock_honest hNode)
      (Digest.keccak256.length_hash _) 7 100 0 honestSetup
      (honestState standardPrecompiles) rfl honestMsg
      (honestClaim run.proof.proofSig)
      (submission_honest hNumber hBlob) [] with
    ⟨after, steps, hExec, hClaimed⟩
  exact ⟨run, after, _, hExec, hClaimed⟩

/- And what it is paid for is in the block. -/
theorem payout_backed_honest :
    ∃ (run : HonestRun) (result : State × Steps),
      exec standardPrecompiles
          (.collectBounty honestMsg
            (honestClaim run.proof.proofSig) [] true)
          (honestState standardPrecompiles) =
        .ok result ∧
      (∃ stinger,
        (.ok honestVictim : Py Bytes) = .ok stinger ∧
          Nonempty (Evidence EthAccount.reference
            JacobianLibrary.computed Digest.keccak256
            honestBlock stinger)) ∧
      honestBlocks.hash run.number =
        BigEndian.decode honestBlock.hash := by
  rcases exists_honestRun with
    ⟨run, hChecked, hNumber, hNode, hBlob⟩
  have hCall := submission_honest hNumber hBlob
  have hBlock := getBlock_honest hNode
  rcases run.proof_eq hBlock with ⟨_, _, key, hKey, hSig⟩
  cases hKey
  have hSigned :=
    recoversTo_of_signable enclaveKey_honest.standard
      enclaveKey_honest.recover_eq
      enclaveKey_honest.message_eq (by decide) (by decide)
      (by rw [hBlob]; exact signable_honest.1) hSig
      enclaveKey_honest.address_ne_zero
  rw [hBlob, ← honestAddress_eq] at hSigned
  have hRead :=
    readProof_of_room (by decide)
      (Digest.keccak256.length_hash _)
      (honestClaim run.proof.proofSig).placed hCall.room
  rcases covered_of_open standardPrecompiles 7 100 0
      honestSetup
      (by rw [← honestState_eq]; exact hCall.unclaimed) with
    ⟨_, hCovered⟩
  rw [← honestState_eq] at hCovered
  have hPay :
      payBounty standardPrecompiles honestMsg
          (honestClaim run.proof.proofSig)
          (honestState standardPrecompiles) =
        .ok (honestState
          standardPrecompiles).paid :=
    payBounty_eq_ok rfl rfl hCall.unclaimed
      (by rw [enclaveAddr_honestClaim]
          exact hCall.approved)
      hSigned hRead known_honest hCovered
  have hExec := exec_collectBounty hPay []
  rcases payout_backed keepsChainId_reference
      standardPrecompiles honestBlocks honestMsg rfl
      (honestClaim run.proof.proofSig) [] true _ _ hExec run
      hBlob.symm honestBlock hChecked _ hBlock
      (Digest.keccak256.length_hash _) with
    ⟨hEvidence, hTied⟩
  exact ⟨run, _, hExec, hEvidence,
    (hTied.mpr ⟨rfl, length_honestBlob.2.2⟩).2.2⟩

end Protocol
