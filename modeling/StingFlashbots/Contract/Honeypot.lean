import StingFlashbots.Base.Trace
import StingFlashbots.Contract.ProofBlob
import StingFlashbots.Contract.Signature

/-
  The `Honeypot` contract.

  A call runs to its end or reverts and changes nothing. The
  payout hands control to the payee, who may call the
  contract again before the transfer returns, so a call is a
  tree: `collectBounty` carries the calls its payee makes
  and whether the payee lets the transfer succeed. Ether may
  also arrive without a call.

  Key definitions include:
    * `Honeypot.State`
    * `Honeypot.Call`
    * `Honeypot.exec`, `Honeypot.execAll`
-/

namespace Honeypot

open EVM Sting

------------------------------------------------------------
-- State
------------------------------------------------------------

/- The `EnclaveData` struct. -/
structure EnclaveData where
  sgxReport : Bytes
  iasSig : Bytes
deriving DecidableEq, Repr

/- The storage of the contract and its ether. -/
structure State where
  owner : Address
  bounty : Nat
  claimed : Bool
  enclaveRequested : Address → Bool
  enclaveApproved : Address → Bool
  enclaveData : Address → EnclaveData
  balance : Nat

/-
  The constructor. Ether may have been sent to the address
  before.
-/
def deploy
    (sender : Address)
    (value earlier : Nat) : State :=
  { owner := sender
    bounty := value
    claimed := false
    enclaveRequested := fun _ => false
    enclaveApproved := fun _ => false
    enclaveData := fun _ => ⟨[], []⟩
    balance := earlier + value }

------------------------------------------------------------
-- Calls
------------------------------------------------------------

/-
  What a call comes with: its sender and value, the block
  hashes it can see and whether its gas runs out.
-/
structure Msg where
  sender : Address
  value : Nat
  blockhash : Nat → Nat
  outOfGas : Bool

/- The arguments of `collectBounty`, the blob in memory. -/
structure Claim where
  enclaveAddr : Address
  proofBlob : Bytes
  sig : Bytes
  memory : Memory
  pointer : Nat
  placed : BytesAt memory pointer proofBlob

/- A call with all calls made from inside it. -/
inductive Call where
| submitEnclave
    (msg : Msg)
    (enclaveAddr : Address)
    (sgxReport iasSig : Bytes)
| approveEnclave
    (msg : Msg)
    (enclaveAddr : Address)
| collectBounty
    (msg : Msg)
    (claim : Claim)
    (payee : List Call)
    (accepts : Bool)
| forceEther (amount : Nat)

/- What a successful step did. -/
inductive Label where
| submitEnclave
    (sender enclaveAddr : Address)
    (data : EnclaveData)
| approveEnclave
    (sender enclaveAddr : Address)
| payout
    (winner enclaveAddr : Address)
    (proofBlob sig : Bytes)
    (amount : Nat)
| forceEther (amount : Nat)

/- Steps of the contract. -/
abbrev Steps :=
  List (Transition State Label)

------------------------------------------------------------
-- Functions
------------------------------------------------------------

/- The functions do not accept ether. -/
def enter (msg : Msg) : Sol Unit :=
  if msg.outOfGas then
    .error .outOfGas
  else
    require (msg.value = 0) ""

/- `submitEnclave` -/
def submitEnclave
    (msg : Msg)
    (enclaveAddr : Address)
    (sgxReport iasSig : Bytes)
    (s : State) : Sol State := do
  enter msg
  require (s.enclaveRequested enclaveAddr = false)
    "address already requested"
  require (s.enclaveApproved enclaveAddr = false)
    "address already approved"
  require (sgxReport.length > 0) "empty sgx_report"
  require (iasSig.length > 0) "empty ias_sig"
  return { s with
      enclaveData :=
        Function.update s.enclaveData enclaveAddr
          ⟨sgxReport, iasSig⟩
      enclaveRequested :=
        Function.update s.enclaveRequested enclaveAddr
          true }

/- `approveEnclave` -/
def approveEnclave
    (msg : Msg)
    (enclaveAddr : Address)
    (s : State) : Sol State := do
  enter msg
  require (msg.sender = s.owner) ""
  require (s.enclaveRequested enclaveAddr = true)
    "address not requested"
  require (s.enclaveApproved enclaveAddr = false)
    "address already approved"
  return { s with
      enclaveRequested :=
        Function.update s.enclaveRequested enclaveAddr
          false
      enclaveApproved :=
        Function.update s.enclaveApproved enclaveAddr
          true }

/-
  `collectBounty` up to the point where the ether leaves the
  contract.
-/
def payBounty
    (pre : Precompiles)
    (msg : Msg)
    (claim : Claim)
    (s : State) : Sol State := do
  enter msg
  require (s.claimed = false) "bounty already claimed"
  require (s.enclaveApproved claim.enclaveAddr = true)
    "address not approved"
  let hash ← hashData pre claim.proofBlob
  let signer ← recover pre hash claim.sig
  require (signer = claim.enclaveAddr) "incorrect signature"
  let (blockNum, blockHash) ←
    readProof claim.memory claim.pointer
  require (msg.blockhash blockNum = blockHash)
    "block hash does not match block number"
  require (s.bounty ≤ s.balance) ""
  return { s with
      claimed := true
      balance := s.balance - s.bounty }

/- The step that pays the bounty. -/
def payoutLabel
    (msg : Msg)
    (claim : Claim)
    (s : State) : Label :=
  .payout msg.sender claim.enclaveAddr claim.proofBlob
    claim.sig s.bounty

mutual

/- Run a call; a failed one changes nothing. -/
def exec
    (pre : Precompiles) :
    Call → State → Sol (State × Steps)
| .submitEnclave msg enclaveAddr sgxReport iasSig, s => do
    let s' ←
      submitEnclave msg enclaveAddr sgxReport iasSig s
    return (s',
      [⟨s, .submitEnclave msg.sender enclaveAddr
        ⟨sgxReport, iasSig⟩, s'⟩])
| .approveEnclave msg enclaveAddr, s => do
    let s' ← approveEnclave msg enclaveAddr s
    return (s',
      [⟨s, .approveEnclave msg.sender enclaveAddr, s'⟩])
| .collectBounty msg claim payee accepts, s => do
    let paid ← payBounty pre msg claim s
    let (s', steps) := execAll pre payee paid
    require (accepts = true) ""
    return (s', ⟨s, payoutLabel msg claim s, paid⟩ :: steps)
| .forceEther amount, s =>
    let s' := { s with balance := s.balance + amount }
    .ok (s', [⟨s, .forceEther amount, s'⟩])

/- Run calls one after the other. -/
def execAll
    (pre : Precompiles) :
    List Call → State → State × Steps
| [], s => (s, [])
| call :: calls, s =>
    match exec pre call s with
    | .error _ => execAll pre calls s
    | .ok (s', steps) =>
        let (s'', more) := execAll pre calls s'
        (s'', steps ++ more)

end

end Honeypot
