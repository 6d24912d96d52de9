import StingFlashbots.Contract.Honeypot
import StingFlashbots.Crypto.Keccak

/-
  The block a payout is tied to.

  The contract compares the hash in the proof blob with what
  `blockhash` answers for the number in it. `blockhash`
  answers zero outside the window of recent blocks, and the
  contract does not tell this zero from a hash: a blob with
  the hash zero passes for every block out of the window.

  Key definitions include:
    * `Honeypot.Blocks`
    * `Honeypot.TiedToRecentBlock`

  Main results:
    * `Honeypot.collectBounty_checked`
    * `Honeypot.collectBounty_recent_iff`
-/

namespace Honeypot

open EVM Sting

------------------------------------------------------------
-- Recent Blocks
------------------------------------------------------------

/- The blocks before the current one and their hashes. -/
structure Blocks where
  number : Nat
  hash : Nat → Nat
  hash_ne_zero : ∀ n < number, hash n ≠ 0

/- The hash of one of the last 256 complete blocks. -/
def Blocks.blockhash
    (blocks : Blocks)
    (n : Nat) : Nat :=
  if n < blocks.number ∧ blocks.number ≤ n + 256 then
    blocks.hash n
  else
    0

theorem Blocks.blockhash_ne_zero_iff
    (blocks : Blocks)
    (n : Nat) :
    blocks.blockhash n ≠ 0 ↔
      blocks.number - 256 ≤ n ∧ n < blocks.number := by
  unfold blockhash
  split_ifs with hWindow
  · have hHash := blocks.hash_ne_zero n hWindow.1
    constructor
    · intro _
      omega
    · intro _
      exact hHash
  · constructor
    · intro hZero
      exact absurd rfl hZero
    · intro hWindow'
      omega

/-
  The blob names one of the last 256 complete blocks
  together with its hash.
-/
def TiedToRecentBlock
    (blocks : Blocks)
    (claim : Claim) : Prop :=
  ∃ blockNum blockHash,
    readProof claim.memory claim.pointer =
      .ok (blockNum, blockHash) ∧
    blocks.number - 256 ≤ blockNum ∧
    blockNum < blocks.number ∧
    blockHash = blocks.hash blockNum

------------------------------------------------------------
-- Payouts
------------------------------------------------------------

/- What a payout has compared. -/
theorem collectBounty_checked
    {pre : Precompiles}
    {msg : Msg}
    {claim : Claim}
    {payee : List Call}
    {accepts : Bool}
    {s : State}
    {result : State × Steps}
    (hOk :
      exec pre (.collectBounty msg claim payee accepts) s =
        .ok result) :
    ∃ blockNum,
      readProof claim.memory claim.pointer =
        .ok (blockNum, msg.blockhash blockNum) := by
  rw [exec] at hOk
  rcases bind_eq_ok.mp hOk with ⟨paid, hPay, _⟩
  unfold payBounty at hPay
  rcases bind_eq_ok.mp hPay with ⟨_, _, hPay⟩
  rcases bind_eq_ok.mp hPay with ⟨_, _, hPay⟩
  rcases bind_eq_ok.mp hPay with ⟨_, _, hPay⟩
  rcases bind_eq_ok.mp hPay with ⟨_, _, hPay⟩
  rcases bind_eq_ok.mp hPay with ⟨_, _, hPay⟩
  rcases bind_eq_ok.mp hPay with ⟨_, _, hPay⟩
  rcases bind_eq_ok.mp hPay with
    ⟨⟨blockNum, blockHash⟩, hRead, hPay⟩
  rcases bind_eq_ok.mp hPay with ⟨_, hHash, _⟩
  rw [require_eq_ok] at hHash
  exact ⟨blockNum, by rw [hRead, hHash]⟩

/-
  A payout is tied to a recent block exactly when the hash
  in the blob is not zero.
-/
theorem collectBounty_recent_iff
    (pre : Precompiles)
    (blocks : Blocks)
    (msg : Msg)
    (hMsg : msg.blockhash = blocks.blockhash)
    (claim : Claim)
    (payee : List Call)
    (accepts : Bool)
    (s : State)
    (result : State × Steps)
    (hOk :
      exec pre (.collectBounty msg claim payee accepts) s =
        .ok result) :
    TiedToRecentBlock blocks claim ↔
      ∀ blockNum,
        readProof claim.memory claim.pointer ≠
          .ok (blockNum, 0) := by
  rcases collectBounty_checked hOk with ⟨blockNum, hRead⟩
  rw [hMsg] at hRead
  have hWindow := blocks.blockhash_ne_zero_iff blockNum
  constructor
  · rintro ⟨n, h, hRead', hFrom, hBelow, hHash⟩ m hZero
    rw [hRead'] at hZero
    cases hZero
    exact blocks.hash_ne_zero _ hBelow hHash.symm
  · intro hNotZero
    have hNe : blocks.blockhash blockNum ≠ 0 := by
      intro hZero
      rw [hZero] at hRead
      exact hNotZero blockNum hRead
    rcases hWindow.mp hNe with ⟨hFrom, hBelow⟩
    refine ⟨blockNum, _, hRead, hFrom, hBelow, ?_⟩
    rw [Blocks.blockhash, if_pos ⟨hBelow, by omega⟩]

------------------------------------------------------------
-- An Old Block
------------------------------------------------------------

/- Six hundred blocks whose hashes are not zero. -/
def sampleBlocks : Blocks where
  number := 600
  hash := fun n => n + 1
  hash_ne_zero := fun n _ => Nat.succ_ne_zero n

/- Any signature recovers to the enclave. -/
def samplePrecompiles : Precompiles where
  keccak := Digest.keccak256
  ecrecover := fun _ _ _ _ => 7

def sampleMsg : Msg where
  sender := 1
  value := 0
  blockhash := sampleBlocks.blockhash
  outOfGas := false

/- The enclave is approved and the bounty is there. -/
def sampleState : State :=
  { deploy 1 10 0 with enclaveApproved := fun _ => true }

/- A blob with a number and a hash. -/
def sampleProofBlob (n h : Nat) : Bytes :=
  RLP.encode (.list
    [RLP.int n, .str (BigEndian.encodeFixed 32 h)])

def sampleClaim
    (n h : Nat)
    (hPlaced :
      BytesAt (sampleMemory (sampleProofBlob n h)) 0x80
        (sampleProofBlob n h)) : Claim where
  enclaveAddr := 7
  proofBlob := sampleProofBlob n h
  sig := List.replicate 65 0
  memory := sampleMemory (sampleProofBlob n h)
  pointer := 0x80
  placed := hPlaced

/- The contract pays for a blob that `blockhash` confirms. -/
private theorem sample_pays
    {n h : Nat}
    (hPlaced :
      BytesAt (sampleMemory (sampleProofBlob n h)) 0x80
        (sampleProofBlob n h))
    (hRead :
      readProof (sampleMemory (sampleProofBlob n h)) 0x80 =
        .ok (n, h))
    (hHash : sampleBlocks.blockhash n = h) :
    ∃ result,
      exec samplePrecompiles
          (.collectBounty sampleMsg
            (sampleClaim n h hPlaced) [] true)
          sampleState =
        .ok result := by
  have hRecover (hash : Bytes) :
      recover samplePrecompiles hash (List.replicate 65 0) =
        .ok 7 := by
    rw [recover, if_pos (List.length_replicate ..)]
    rfl
  have hRequire :
      require (sampleMsg.blockhash n = h)
          "block hash does not match block number" =
        .ok () :=
    require_pos hHash _
  rw [exec, payBounty, hashData, uint2str_eq]
  simp only [sampleClaim, ok_bind, bind_assoc, pure_bind,
    hRecover, hRead, hRequire, execAll]
  exact ⟨_, rfl⟩

private theorem placed_old :
    BytesAt (sampleMemory (sampleProofBlob 1 0)) 0x80
      (sampleProofBlob 1 0) :=
  { reserved_le := by decide
    length_eq := by decide +kernel
    slice_eq := by decide +kernel
    le_free := by decide +kernel }

private theorem placed_recent :
    BytesAt (sampleMemory (sampleProofBlob 500 501)) 0x80
      (sampleProofBlob 500 501) :=
  { reserved_le := by decide
    length_eq := by decide +kernel
    slice_eq := by decide +kernel
    le_free := by decide +kernel }

/- Block 1 of 600, with the hash zero. -/
theorem collectBounty_recent_old :
    ∃ claim result,
      exec samplePrecompiles
          (.collectBounty sampleMsg claim [] true)
          sampleState =
        .ok result ∧
      claim.proofBlob = sampleProofBlob 1 0 ∧
      sampleMsg.blockhash = sampleBlocks.blockhash ∧
      ¬ TiedToRecentBlock sampleBlocks claim := by
  have hRead :
      readProof (sampleMemory (sampleProofBlob 1 0)) 0x80 =
        .ok (1, 0) := by
    decide +kernel
  rcases sample_pays placed_old hRead rfl with
    ⟨result, hOk⟩
  refine ⟨sampleClaim 1 0 placed_old, result, hOk, rfl, rfl,
    ?_⟩
  rintro ⟨n, h, hRead', hFrom, _⟩
  have hPair := hRead.symm.trans hRead'
  cases hPair
  revert hFrom
  decide

/- Block 500 of 600, with its hash. -/
theorem collectBounty_recent_sample :
    ∃ claim result,
      exec samplePrecompiles
          (.collectBounty sampleMsg claim [] true)
          sampleState =
        .ok result ∧
      TiedToRecentBlock sampleBlocks claim := by
  have hRead :
      readProof (sampleMemory (sampleProofBlob 500 501))
          0x80 =
        .ok (500, 501) := by
    decide +kernel
  rcases sample_pays placed_recent hRead rfl with
    ⟨result, hOk⟩
  refine ⟨sampleClaim 500 501 placed_recent, result, hOk, ?_⟩
  apply (collectBounty_recent_iff samplePrecompiles
    sampleBlocks sampleMsg rfl _ _ _ _ _ hOk).mpr
  intro n hZero
  have hPair := hRead.symm.trans hZero
  cases hPair

end Honeypot
