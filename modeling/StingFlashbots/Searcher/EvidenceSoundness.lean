import StingFlashbots.Searcher.EvidenceCompleteness

/-
  What the enclave signs.

  The block is fetched three times: for each of the proofs
  and for the hash that is signed. The signed block is the
  one the proofs were checked against as long as the three
  answers have one hash. The chain may be reorganised in
  between, and then the enclave signs a block it never
  looked at.

  Key definitions include:
    * `Block.Includes`
    * `runHonest`

  Main results:
    * `verifyEvidence_eq_ok`
    * `verifyEvidence_included`
-/

namespace Sting

open RLP (Item)
open Commitment Ecdsa

------------------------------------------------------------
-- Inclusion
------------------------------------------------------------

/- The block has a transaction with these fields. -/
def Block.Includes
    {keccak : Digest}
    (b : Block keccak)
    (tx : SignedTx) : Prop :=
  ∃ i, ∃ hi : i < b.txs.length, ∃ fs,
    RLP.decode b.txs[i] = some (.list fs) ∧
    tx.DecodedFrom fs

/- An accepted proof is about the block that was fetched. -/
theorem includes_of_verifyTxProof
    {keccak : Digest}
    (b : Block keccak)
    {w3 : Web3}
    {blockNum : Nat}
    {dict : BlockDict}
    (hBlock : w3.getBlock blockNum = .ok dict)
    (hHash : dict.hash = b.hash)
    {prf : Bytes}
    (hFree :
      CollisionFree keccak (b.strings ++ proofStrings prf))
    {unsignedTx : UnsignedTx}
    {signedTx : SignedTx}
    (hOk :
      verifyTxProof keccak w3 blockNum prf =
        .ok (unsignedTx, signedTx)) :
    b.Includes signedTx := by
  rcases verifyTxProof_included b hBlock hHash hFree hOk with
    ⟨i, fs, _, hDecode, hFields, _⟩
  rcases Option.bind_eq_some_iff.mp hDecode with
    ⟨raw, hRaw, hDecode⟩
  rcases List.getElem?_eq_some_iff.mp hRaw with ⟨hi, rfl⟩
  exact ⟨i, hi, fs, hDecode, hFields⟩

------------------------------------------------------------
-- The Steps of the Enclave
------------------------------------------------------------

section

variable {A : EthAccount}
variable {L : JacobianLibrary}
variable {keccak : Digest}
variable {hashMessage : Bytes → Bytes}
variable {w₁ w₂ w₃ : Web3}
variable {verifyData : VerifyData}
variable {stingerTx secretKey : Py Bytes}

/- The two proofs behind what is computed. -/
theorem recompute_eq_ok
    {e : Recomputed}
    (hOk :
      recompute A L keccak w₁ w₂ verifyData = .ok e) :
    ∃ advPrf victimPrf unsignedAdvTx unsignedVictimTx,
      hexToBytes verifyData.advPrf = .ok advPrf ∧
      hexToBytes verifyData.victimPrf = .ok victimPrf ∧
      verifyTxProof keccak w₁ verifyData.targetBlockNum
          advPrf =
        .ok (unsignedAdvTx, e.signedAdvTx) ∧
      verifyTxProof keccak w₂ verifyData.targetBlockNum
          victimPrf =
        .ok (unsignedVictimTx, e.signedVictimTx) := by
  rcases bind_eq_ok.mp hOk with ⟨advPrf, hAdvText, hOk⟩
  rcases bind_eq_ok.mp hOk with
    ⟨⟨unsignedAdvTx, signedAdvTx⟩, hAdv, hOk⟩
  rcases bind_eq_ok.mp hOk with
    ⟨victimPrf, hVictimText, hOk⟩
  rcases bind_eq_ok.mp hOk with
    ⟨⟨unsignedVictimTx, signedVictimTx⟩, hVictim, hOk⟩
  rcases bind_eq_ok.mp hOk with ⟨C, _, hOk⟩
  rcases bind_eq_ok.mp hOk with ⟨account, _, hOk⟩
  rcases bind_eq_ok.mp hOk with ⟨computed, _, hOk⟩
  cases hOk
  exact ⟨advPrf, victimPrf, unsignedAdvTx,
    unsignedVictimTx, hAdvText, hVictimText, hAdv, hVictim⟩

/- The victim is the transaction the enclave stored. -/
theorem stingerTx_of_check
    {e : Recomputed}
    (hOk : e.check stingerTx = .ok ()) :
    ∃ raw, stingerTx = .ok raw ∧
      encodeTx e.signedVictimTx = .ok raw := by
  rcases bind_eq_ok.mp hOk with ⟨_, _, hOk⟩
  rcases bind_eq_ok.mp hOk with ⟨_, _, hOk⟩
  rcases bind_eq_ok.mp hOk with ⟨s, _, hOk⟩
  rcases bind_eq_ok.mp hOk with ⟨_, _, hOk⟩
  rcases bind_eq_ok.mp hOk with ⟨raw, hRaw, hOk⟩
  rcases bind_eq_ok.mp hOk with ⟨encoded, hEncode, hOk⟩
  rw [pyAssert_eq_ok] at hOk
  subst hOk
  exact ⟨raw, hRaw, hEncode⟩

theorem signBlock_eq_ok
    {stingBlockNum : Nat}
    {proof : SignedProof}
    (hOk :
      signBlock L hashMessage w₃ stingBlockNum secretKey =
        .ok proof) :
    ∃ dict, w₃.getBlock stingBlockNum = .ok dict ∧
      proof.proofBlob =
        RLP.encode (.list
          [RLP.int stingBlockNum, .str dict.hash]) := by
  rcases bind_eq_ok.mp hOk with ⟨dict, hBlock, hOk⟩
  rcases bind_eq_ok.mp hOk with ⟨blob, hBlob, hOk⟩
  rcases bind_eq_ok.mp hOk with ⟨key, _, hOk⟩
  rcases bind_eq_ok.mp hOk with ⟨sig, _, hOk⟩
  cases hOk
  rcases rlpEncodeItem_eq_ok.mp hBlob with ⟨_, rfl⟩
  exact ⟨dict, hBlock, rfl⟩

/- The steps of a run that signs. -/
theorem verifyEvidence_eq_ok
    {proof : SignedProof}
    (hRun :
      verifyEvidence A L keccak hashMessage w₁ w₂ w₃
          verifyData stingerTx secretKey =
        .ok proof) :
    ∃ e,
      recompute A L keccak w₁ w₂ verifyData = .ok e ∧
      e.check stingerTx = .ok () ∧
      signBlock L hashMessage w₃ verifyData.targetBlockNum
          secretKey =
        .ok proof := by
  rcases bind_eq_ok.mp hRun with ⟨e, hAgain, hRun⟩
  rcases bind_eq_ok.mp hRun with ⟨_, hCheck, hRun⟩
  exact ⟨e, hAgain, hCheck, hRun⟩

------------------------------------------------------------
-- The Signed Block
------------------------------------------------------------

/-
  While the three answers have one hash, a run signs a block
  that has both transactions.
-/
theorem verifyEvidence_included
    (b : Block keccak)
    (block₁ block₂ block₃ : BlockDict)
    (hBlock₁ :
      w₁.getBlock verifyData.targetBlockNum = .ok block₁)
    (hBlock₂ :
      w₂.getBlock verifyData.targetBlockNum = .ok block₂)
    (hBlock₃ :
      w₃.getBlock verifyData.targetBlockNum = .ok block₃)
    (hHash : block₃.hash = b.hash)
    (hSame₁ : block₁.hash = block₃.hash)
    (hSame₂ : block₂.hash = block₃.hash)
    (hFree :
      ∀ prf,
        hexToBytes verifyData.advPrf = .ok prf ∨
          hexToBytes verifyData.victimPrf = .ok prf →
        CollisionFree keccak
          (b.strings ++ proofStrings prf))
    (proof : SignedProof)
    (hRun :
      verifyEvidence A L keccak hashMessage w₁ w₂ w₃
          verifyData stingerTx secretKey =
        .ok proof) :
    proof.proofBlob =
        RLP.encode (.list
          [RLP.int verifyData.targetBlockNum,
            .str b.hash]) ∧
      ∃ e raw,
        recompute A L keccak w₁ w₂ verifyData = .ok e ∧
        stingerTx = .ok raw ∧
        encodeTx e.signedVictimTx = .ok raw ∧
        b.Includes e.signedVictimTx ∧
        b.Includes e.signedAdvTx := by
  rcases verifyEvidence_eq_ok hRun with
    ⟨e, hAgain, hCheck, hSign⟩
  rcases recompute_eq_ok hAgain with
    ⟨advPrf, victimPrf, _, _, hAdvText, hVictimText, hAdv,
      hVictim⟩
  rcases stingerTx_of_check hCheck with
    ⟨raw, hRaw, hEncode⟩
  rcases signBlock_eq_ok hSign with ⟨block, hBlock, hBlob⟩
  rw [hBlock₃] at hBlock
  cases hBlock
  rw [hHash] at hBlob
  refine ⟨hBlob, e, raw, hAgain, hRaw, hEncode, ?_, ?_⟩
  · exact includes_of_verifyTxProof b hBlock₂
      (hSame₂.trans hHash)
      (hFree victimPrf (Or.inr hVictimText)) hVictim
  · exact includes_of_verifyTxProof b hBlock₁
      (hSame₁.trans hHash)
      (hFree advPrf (Or.inl hAdvText)) hAdv

end

------------------------------------------------------------
-- Runs
------------------------------------------------------------

/- The run on honest evidence, with a node that moves on. -/
def runHonest (b : Block Digest.keccak256) : Py SignedProof :=
  verifyEvidence EthAccount.reference
    JacobianLibrary.computed Digest.keccak256
    Ecdsa.sampleHash (nodeAt honestBlock)
    (nodeAt honestBlock) (nodeAt b) honestData
    (.ok honestVictim) (.ok (keyBytes 3))

/- A block without transactions. -/
def emptyBlock : Block Digest.keccak256 where
  toTxTrie := TxTrie.ofTxs [] (by decide +kernel)
  header :=
    List.replicate 4 (.str []) ++
      [.str ((Trie.ofList (txEntries [])).rootHash
        Digest.keccak256)] ++
      List.replicate 12 (.str [])
  nodes_encodable := by decide +kernel
  header_encodable := by decide +kernel
  transactionsRoot_eq := rfl

/- The enclave accepts the evidence. -/
theorem recompute_honest :
    ∃ again,
      recompute EthAccount.reference
          JacobianLibrary.computed Digest.keccak256
          (nodeAt honestBlock) (nodeAt honestBlock)
          honestData =
        .ok again ∧
      again.check (.ok honestVictim) = .ok () := by
  rcases recompute_signEvidence (nodeAt honestBlock)
      (nodeAt honestBlock) honestData reference_standard
      signEvidence_honest
      (fun dict => describes_honestTx) rfl rfl
      hexToBytes_honestData.1 hexToBytes_honestData.2
      verifyTxProof_honest.1 verifyTxProof_honest.2 with
    ⟨again, hAgain, _, hComputed, hSigned, hEncode⟩
  refine ⟨again, hAgain, ?_⟩
  apply check_eq_ok _ _ _ hEncode
  · rw [hSigned, hComputed]
    rfl
  · rw [hSigned, hComputed]
    rfl
  · rw [hSigned, hComputed]
    rfl

/- So it signs whatever block the node ends with. -/
theorem runHonest_eq
    (b : Block Digest.keccak256) :
    runHonest b =
      signBlock JacobianLibrary.computed Ecdsa.sampleHash
        (nodeAt b) 1 (.ok (keyBytes 3)) := by
  rcases recompute_honest with ⟨again, hAgain, hCheck⟩
  have hNum : honestData.targetBlockNum = 1 := rfl
  rw [runHonest, verifyEvidence, hAgain, ok_bind, hCheck,
    ok_bind, hNum]

/- The proofs hash what the block hashes. -/
theorem proofStrings_honest :
    (∀ s ∈ proofStrings honestAdvProof,
      s ∈ honestBlock.strings) ∧
    ∀ s ∈ proofStrings honestVictimProof,
      s ∈ honestBlock.strings := by
  decide +kernel

theorem collisionFree_honest :
    CollisionFree Digest.keccak256
      (emptyBlock.strings ++ honestBlock.strings) := by
  decide +kernel

/- A run that ends with the block of the proofs. -/
theorem verifyEvidence_included_honest :
    ∃ proof, runHonest honestBlock = .ok proof ∧
      proof.proofBlob =
        RLP.encode (.list
          [RLP.int 1, .str honestBlock.hash]) ∧
      ∃ e raw,
        recompute EthAccount.reference
            JacobianLibrary.computed Digest.keccak256
            (nodeAt honestBlock) (nodeAt honestBlock)
            honestData =
          .ok e ∧
        encodeTx e.signedVictimTx = .ok raw ∧
        honestBlock.Includes e.signedVictimTx ∧
        honestBlock.Includes e.signedAdvTx := by
  rcases proofStrings_honest with ⟨hAdv, hVictim⟩
  have hFree {prf : Bytes}
      (hStrings :
        ∀ s ∈ proofStrings prf, s ∈ honestBlock.strings) :
      CollisionFree Digest.keccak256
        (honestBlock.strings ++ proofStrings prf) := by
    apply collisionFree_honest.mono
    intro s hs
    apply List.mem_append_right
    rcases List.mem_append.mp hs with hBlock | hProof
    · exact hBlock
    · exact hStrings s hProof
  have hSigns :
      (signBlock JacobianLibrary.computed Ecdsa.sampleHash
        (nodeAt honestBlock) 1 (.ok (keyBytes 3))).isOk =
          true := by
    decide +kernel
  rw [← runHonest_eq] at hSigns
  cases hRun : runHonest honestBlock with
  | error err =>
      rw [hRun] at hSigns
      cases hSigns
  | ok proof =>
      rcases verifyEvidence_included honestBlock _ _ _ rfl
          rfl rfl rfl rfl rfl
          (by
            rintro prf (hPrf | hPrf)
            · rw [hexToBytes_honestData.1] at hPrf
              rw [← Except.ok.inj hPrf]
              exact hFree hAdv
            · rw [hexToBytes_honestData.2] at hPrf
              rw [← Except.ok.inj hPrf]
              exact hFree hVictim)
          proof hRun with
        ⟨hBlob, e, raw, hAgain, _, hRest⟩
      exact ⟨proof, rfl, hBlob, e, raw, hAgain, hRest⟩

/- A run during which the block is replaced. -/
theorem verifyEvidence_included_reorganised :
    ∃ proof e,
      runHonest emptyBlock = .ok proof ∧
      proof.proofBlob =
        RLP.encode (.list
          [RLP.int 1, .str emptyBlock.hash]) ∧
      CollisionFree Digest.keccak256
        (emptyBlock.strings ++ honestBlock.strings ++
          proofStrings honestAdvProof ++
          proofStrings honestVictimProof) ∧
      recompute EthAccount.reference
          JacobianLibrary.computed Digest.keccak256
          (nodeAt honestBlock) (nodeAt honestBlock)
          honestData =
        .ok e ∧
      ¬ emptyBlock.Includes e.signedVictimTx ∧
      ¬ emptyBlock.Includes e.signedAdvTx := by
  have hSigns :
      (signBlock JacobianLibrary.computed Ecdsa.sampleHash
        (nodeAt emptyBlock) 1 (.ok (keyBytes 3))).isOk =
          true := by
    decide +kernel
  have hNone (tx : SignedTx) :
      ¬ emptyBlock.Includes tx := by
    rintro ⟨i, hi, _⟩
    exact absurd hi (Nat.not_lt_zero i)
  rcases recompute_honest with ⟨e, hAgain, _⟩
  cases hSign :
      signBlock JacobianLibrary.computed Ecdsa.sampleHash
        (nodeAt emptyBlock) 1 (.ok (keyBytes 3)) with
  | error err =>
      rw [hSign] at hSigns
      cases hSigns
  | ok proof =>
      rcases signBlock_eq_ok hSign with
        ⟨block, hBlock, hBlob⟩
      cases hBlock
      refine ⟨proof, e, ?_, hBlob, ?_, hAgain, hNone _,
        hNone _⟩
      · rw [runHonest_eq]
        exact hSign
      · apply collisionFree_honest.mono
        intro s hs
        simp only [List.mem_append] at hs ⊢
        rcases hs with ((hEmpty | hBlock) | hAdv) | hVictim
        · exact Or.inl hEmpty
        · exact Or.inr hBlock
        · exact Or.inr (proofStrings_honest.1 s hAdv)
        · exact Or.inr (proofStrings_honest.2 s hVictim)

end Sting
