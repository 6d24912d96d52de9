import StingFlashbots.Contract.Honeypot

/-
  What holds in every run of the contract.

  Whatever calls are made, by whom and from inside which
  transfer, a run is a sequence of atomic steps of four
  kinds. What each kind of step preserves holds in every
  state the contract reaches.

  Key definitions include:
    * `Honeypot.Step`
    * `Honeypot.paidOut`

  Main results:
    * `Honeypot.execAll_chain`
    * `Honeypot.bounty_paid_once`
    * `Honeypot.enclave_frozen`
-/

namespace Honeypot

open EVM Sting Trace

------------------------------------------------------------
-- Atomic Steps
------------------------------------------------------------

/- The state after a submission. -/
def State.submitted
    (s : State)
    (a : Address)
    (data : EnclaveData) : State :=
  { s with
    enclaveData := Function.update s.enclaveData a data
    enclaveRequested :=
      Function.update s.enclaveRequested a true }

/- The state after an approval. -/
def State.approved
    (s : State)
    (a : Address) : State :=
  { s with
    enclaveRequested :=
      Function.update s.enclaveRequested a false
    enclaveApproved :=
      Function.update s.enclaveApproved a true }

/- The state after the payout. -/
def State.paid (s : State) : State :=
  { s with
    claimed := true
    balance := s.balance - s.bounty }

/- The state after ether arrived. -/
def State.received
    (s : State)
    (amount : Nat) : State :=
  { s with balance := s.balance + amount }

/- The steps the contract can make. -/
inductive Step
    (pre : Precompiles) :
    State → Label → State → Prop where
| submit
    {s : State}
    {sender a : Address}
    {data : EnclaveData} :
    s.enclaveRequested a = false →
    s.enclaveApproved a = false →
    data.sgxReport ≠ [] →
    data.iasSig ≠ [] →
      Step pre s (.submitEnclave sender a data)
        (s.submitted a data)
| approve
    {s : State}
    {a : Address} :
    s.enclaveRequested a = true →
    s.enclaveApproved a = false →
      Step pre s (.approveEnclave s.owner a) (s.approved a)
| payout
    {s : State}
    {winner a : Address}
    {proofBlob sig : Bytes} :
    s.claimed = false →
    s.enclaveApproved a = true →
    RecoversTo pre proofBlob sig a →
    s.bounty ≤ s.balance →
      Step pre s (.payout winner a proofBlob sig s.bounty)
        s.paid
| forceEther
    {s : State}
    {amount : Nat} :
    Step pre s (.forceEther amount) (s.received amount)

------------------------------------------------------------
-- Calls Are Sequences of Steps
------------------------------------------------------------

section

variable {pre : Precompiles}
variable {msg : Msg}
variable {s s' : State}

private theorem submitEnclave_step
    {a : Address}
    {sgxReport iasSig : Bytes}
    (hOk : submitEnclave msg a sgxReport iasSig s = .ok s') :
    Step pre s
      (.submitEnclave msg.sender a ⟨sgxReport, iasSig⟩) s' := by
  unfold submitEnclave at hOk
  rcases bind_eq_ok.mp hOk with ⟨_, _, hOk⟩
  rcases bind_eq_ok.mp hOk with ⟨_, hRequested, hOk⟩
  rcases bind_eq_ok.mp hOk with ⟨_, hApproved, hOk⟩
  rcases bind_eq_ok.mp hOk with ⟨_, hReport, hOk⟩
  rcases bind_eq_ok.mp hOk with ⟨_, hSig, hOk⟩
  cases hOk
  exact Step.submit (require_eq_ok.mp hRequested)
    (require_eq_ok.mp hApproved)
    (List.length_pos_iff.mp (require_eq_ok.mp hReport))
    (List.length_pos_iff.mp (require_eq_ok.mp hSig))

private theorem approveEnclave_step
    {a : Address}
    (hOk : approveEnclave msg a s = .ok s') :
    Step pre s (.approveEnclave msg.sender a) s' := by
  unfold approveEnclave at hOk
  rcases bind_eq_ok.mp hOk with ⟨_, _, hOk⟩
  rcases bind_eq_ok.mp hOk with ⟨_, hOwner, hOk⟩
  rcases bind_eq_ok.mp hOk with ⟨_, hRequested, hOk⟩
  rcases bind_eq_ok.mp hOk with ⟨_, hApproved, hOk⟩
  cases hOk
  rw [require_eq_ok.mp hOwner]
  exact Step.approve (require_eq_ok.mp hRequested)
    (require_eq_ok.mp hApproved)

private theorem payBounty_step
    {claim : Claim}
    (hOk : payBounty pre msg claim s = .ok s') :
    Step pre s (payoutLabel msg claim s) s' := by
  unfold payBounty at hOk
  rcases bind_eq_ok.mp hOk with ⟨_, _, hOk⟩
  rcases bind_eq_ok.mp hOk with ⟨_, hClaimed, hOk⟩
  rcases bind_eq_ok.mp hOk with ⟨_, hApproved, hOk⟩
  rcases bind_eq_ok.mp hOk with ⟨hash, hHash, hOk⟩
  rcases bind_eq_ok.mp hOk with ⟨signer, hRecover, hOk⟩
  rcases bind_eq_ok.mp hOk with ⟨_, hSigner, hOk⟩
  rcases bind_eq_ok.mp hOk with ⟨_, _, hOk⟩
  rcases bind_eq_ok.mp hOk with ⟨_, _, hOk⟩
  rcases bind_eq_ok.mp hOk with ⟨_, hBalance, hOk⟩
  cases hOk
  rw [require_eq_ok.mp hSigner] at hRecover
  exact Step.payout (require_eq_ok.mp hClaimed)
    (require_eq_ok.mp hApproved) ⟨hash, hHash, hRecover⟩
    (require_eq_ok.mp hBalance)

end

/-
  Induction on the tree of calls: the calls a payee makes
  continue the run from the state in which it was paid.
-/
mutual

theorem exec_chain
    {pre : Precompiles} :
    ∀ {call : Call} {s s' : State} {steps : Steps},
      exec pre call s = .ok (s', steps) →
        Chain (Step pre) s steps ∧ last s steps = s'
| .submitEnclave msg a sgxReport iasSig, s, s', steps, hOk => by
    rw [exec] at hOk
    rcases bind_eq_ok.mp hOk with ⟨s₁, hCall, hOk⟩
    cases hOk
    exact ⟨.singleton (submitEnclave_step hCall), rfl⟩
| .approveEnclave msg a, s, s', steps, hOk => by
    rw [exec] at hOk
    rcases bind_eq_ok.mp hOk with ⟨s₁, hCall, hOk⟩
    cases hOk
    exact ⟨.singleton (approveEnclave_step hCall), rfl⟩
| .collectBounty msg claim payee accepts, s, s', steps, hOk => by
    rw [exec] at hOk
    rcases bind_eq_ok.mp hOk with ⟨s₁, hPay, hOk⟩
    rcases bind_eq_ok.mp hOk with ⟨_, _, hOk⟩
    cases hOk
    rcases execAll_chain pre payee s₁ with ⟨hChain, hLast⟩
    exact ⟨.cons (payBounty_step hPay) hChain, hLast⟩
| .forceEther amount, s, s', steps, hOk => by
    rw [exec] at hOk
    cases hOk
    exact ⟨.singleton Step.forceEther, rfl⟩

theorem execAll_chain
    (pre : Precompiles) :
    ∀ (calls : List Call) (s : State),
      Chain (Step pre) s (execAll pre calls s).2 ∧
        last s (execAll pre calls s).2 =
          (execAll pre calls s).1
| [], s => ⟨.nil s, rfl⟩
| call :: calls, s => by
    rw [execAll]
    cases hExec : exec pre call s with
    | error e =>
        exact execAll_chain pre calls s
    | ok result =>
        rcases result with ⟨s₁, first⟩
        rcases exec_chain hExec with ⟨hFirst, rfl⟩
        rcases execAll_chain pre calls (last s first) with
          ⟨hRest, hEnd⟩
        refine ⟨hFirst.append hRest, ?_⟩
        simpa only [last_append] using hEnd

end

/- A call that fails leaves the state as it was. -/
theorem execAll_of_error
    {pre : Precompiles}
    {call : Call}
    {s : State}
    {e : Revert}
    (hFail : exec pre call s = .error e) :
    execAll pre [call] s = (s, []) := by
  simp only [execAll, hFail]

------------------------------------------------------------
-- The Bounty
------------------------------------------------------------

/- The ether a step pays out. -/
def Label.paid : Label → Nat
| .payout _ _ _ _ amount => amount
| .submitEnclave _ _ _ => 0
| .approveEnclave _ _ => 0
| .forceEther _ => 0

/- The ether paid out so far. -/
def paidOut (steps : Steps) : Nat :=
  (steps.map fun t => t.label.paid).sum

/- The state fits what has been paid out. -/
structure Sound
    (owner : Address)
    (bounty : Nat)
    (done : Steps)
    (s : State) : Prop where
  owner_eq : s.owner = owner
  bounty_eq : s.bounty = bounty
  covered : s.claimed = false → bounty ≤ s.balance
  paidOut_eq :
    paidOut done = if s.claimed then bounty else 0

private theorem paidOut_concat
    (done : Steps)
    (t : Transition State Label) :
    paidOut (done ++ [t]) =
      paidOut done + t.label.paid := by
  simp [paidOut]

theorem sound_deploy
    (owner : Address)
    (bounty earlier : Nat) :
    Sound owner bounty []
      (deploy owner bounty earlier) where
  owner_eq := rfl
  bounty_eq := rfl
  covered := fun _ => Nat.le_add_left _ _
  paidOut_eq := rfl

/- Every step keeps the state sound. -/
theorem sound_step
    {pre : Precompiles}
    {owner : Address}
    {bounty : Nat}
    (done : Steps)
    (s : State)
    (l : Label)
    (s' : State)
    (hSound : Sound owner bounty done s)
    (hStep : Step pre s l s') :
    Sound owner bounty (done ++ [⟨s, l, s'⟩]) s' := by
  rcases hSound with ⟨hOwner, hBounty, hCovered, hPaid⟩
  cases hStep with
  | submit _ _ _ _ =>
      refine ⟨hOwner, hBounty, hCovered, ?_⟩
      rw [paidOut_concat, hPaid]
      rfl
  | approve _ _ =>
      refine ⟨hOwner, hBounty, hCovered, ?_⟩
      rw [paidOut_concat, hPaid]
      rfl
  | payout hClaimed _ _ _ =>
      refine ⟨hOwner, hBounty, fun h => (by cases h), ?_⟩
      rw [paidOut_concat, hPaid, hClaimed]
      simp [Label.paid, State.paid, hBounty]
  | forceEther =>
      refine ⟨hOwner, hBounty, fun h => ?_, ?_⟩
      · exact (hCovered h).trans (Nat.le_add_right _ _)
      · rw [paidOut_concat, hPaid]
        rfl

theorem claimed_mono
    {pre : Precompiles}
    {s s' : State}
    {l : Label}
    (hStep : Step pre s l s')
    (hClaimed : s.claimed = true) :
    s'.claimed = true := by
  cases hStep with
  | payout _ _ _ _ => rfl
  | _ => exact hClaimed

private theorem payout_checked
    {pre : Precompiles}
    {s s' : State}
    {winner a : Address}
    {proofBlob sig : Bytes}
    {amount : Nat}
    (hStep :
      Step pre s (.payout winner a proofBlob sig amount)
        s') :
    s.enclaveApproved a = true ∧
      RecoversTo pre proofBlob sig a := by
  cases hStep with
  | payout _ hApproved hSigned _ =>
      exact ⟨hApproved, hSigned⟩

/-
  In every run from the constructor: owner and bounty stay,
  the bounty is covered until it is claimed, the ether paid
  out is nothing before and exactly the bounty after, and
  every payout was approved and signed when it happened.
-/
theorem bounty_paid_once
    (pre : Precompiles)
    (owner : Address)
    (bounty earlier : Nat)
    (calls : List Call) :
    let s₀ := deploy owner bounty earlier
    let steps := (execAll pre calls s₀).2
    last s₀ steps = (execAll pre calls s₀).1 ∧
    (∀ done rest, steps = done ++ rest →
      Sound owner bounty done (last s₀ done)) ∧
    (∀ t ∈ steps, t.before.claimed = true →
      t.after.claimed = true) ∧
    (∀ t ∈ steps, ∀ winner a proofBlob sig amount,
      t.label = .payout winner a proofBlob sig amount →
        t.before.enclaveApproved a = true ∧
          RecoversTo pre proofBlob sig a) ∧
    (∀ call s e, exec pre call s = .error e →
      execAll pre [call] s = (s, [])) := by
  intro s₀ steps
  rcases execAll_chain pre calls s₀ with
    ⟨hChain, hLast⟩
  refine ⟨hLast, ?_, ?_, ?_, fun _ _ _ => execAll_of_error⟩
  · intro done rest hSteps
    have hDone : Chain (Step pre) s₀ done := by
      have hAll : Chain (Step pre) s₀ steps := hChain
      rw [hSteps] at hAll
      exact hAll.split.1
    exact hDone.invariant sound_step
      (sound_deploy owner bounty earlier)
  · intro t ht
    exact claimed_mono (hChain.step_of_mem ht)
  · intro t ht winner a proofBlob sig amount hLabel
    have hStep := hChain.step_of_mem ht
    rw [hLabel] at hStep
    exact payout_checked hStep

------------------------------------------------------------
-- Enclaves
------------------------------------------------------------

/- An address never has both flags. -/
def OneFlag
    (a : Address)
    (s : State) : Prop :=
  ¬ (s.enclaveRequested a = true ∧
    s.enclaveApproved a = true)

/- The data of a submitted address is on record. -/
def OnRecord
    (a : Address)
    (data : EnclaveData)
    (s : State) : Prop :=
  s.enclaveData a = data ∧
    (s.enclaveRequested a = true ∨
      s.enclaveApproved a = true)

/- The two ways in which the flags of an address move. -/
inductive FlagsMove
    (owner a : Address) :
    Transition State Label → Prop where
| stay
    {t : Transition State Label} :
    t.after.enclaveRequested a =
      t.before.enclaveRequested a →
    t.after.enclaveApproved a =
      t.before.enclaveApproved a →
      FlagsMove owner a t
| submit
    {t : Transition State Label}
    {sender : Address}
    {data : EnclaveData} :
    t.label = .submitEnclave sender a data →
    data.sgxReport ≠ [] →
    data.iasSig ≠ [] →
    t.before.enclaveRequested a = false →
    t.before.enclaveApproved a = false →
    t.after.enclaveRequested a = true →
    t.after.enclaveApproved a = false →
      FlagsMove owner a t
| approve
    {t : Transition State Label} :
    t.label = .approveEnclave owner a →
    t.before.enclaveRequested a = true →
    t.before.enclaveApproved a = false →
    t.after.enclaveRequested a = false →
    t.after.enclaveApproved a = true →
      FlagsMove owner a t

section

variable {pre : Precompiles}
variable {s s' : State}
variable {l : Label}

theorem flagsMove_of_step
    (a : Address)
    (hStep : Step pre s l s') :
    FlagsMove s.owner a ⟨s, l, s'⟩ := by
  cases hStep with
  | @submit _ b data hRequested hApproved hReport hSig =>
      by_cases hab : a = b
      · subst hab
        exact .submit rfl hReport hSig hRequested hApproved
          (Function.update_self _ _ _) hApproved
      · exact .stay (Function.update_of_ne hab _ _) rfl
  | @approve b hRequested hApproved =>
      by_cases hab : a = b
      · subst hab
        exact .approve rfl hRequested hApproved
          (Function.update_self _ _ _)
          (Function.update_self _ _ _)
      · exact .stay (Function.update_of_ne hab _ _)
          (Function.update_of_ne hab _ _)
  | payout _ _ _ _ => exact .stay rfl rfl
  | forceEther => exact .stay rfl rfl

private theorem oneFlag_of_flagsMove
    {owner a : Address}
    {t : Transition State Label}
    (hFlag : OneFlag a t.before)
    (hMove : FlagsMove owner a t) :
    OneFlag a t.after := by
  unfold OneFlag at *
  cases hMove with
  | stay hRequested hApproved =>
      rw [hRequested, hApproved]
      exact hFlag
  | submit _ _ _ _ _ _ hApproved =>
      rw [hApproved]
      simp
  | approve _ _ _ hRequested _ =>
      rw [hRequested]
      simp

private theorem approved_mono_of_flagsMove
    {owner a : Address}
    {t : Transition State Label}
    (hMove : FlagsMove owner a t)
    (hBefore : t.before.enclaveApproved a = true) :
    t.after.enclaveApproved a = true := by
  cases hMove with
  | stay _ hApproved => rw [hApproved, hBefore]
  | submit _ _ _ _ hApproved _ _ =>
      rw [hBefore] at hApproved
      cases hApproved
  | approve _ _ _ _ hApproved => exact hApproved

/- Data on record stays as it is. -/
theorem onRecord_step
    (a : Address)
    (data : EnclaveData)
    (s : State)
    (l : Label)
    (s' : State)
    (hRecord : OnRecord a data s)
    (hStep : Step pre s l s') :
    OnRecord a data s' := by
  rcases hRecord with ⟨hData, hFlag⟩
  cases hStep with
  | @submit _ b _ hRequested hApproved _ _ =>
      have hab : a ≠ b := by
        rintro rfl
        rw [hRequested, hApproved] at hFlag
        simp at hFlag
      refine ⟨?_, ?_⟩
      · rw [← hData]
        exact Function.update_of_ne hab _ _
      · rcases hFlag with h | h
        · left
          rw [← h]
          exact Function.update_of_ne hab _ _
        · exact Or.inr h
  | @approve b _ _ =>
      refine ⟨hData, ?_⟩
      by_cases hab : a = b
      · subst hab
        exact Or.inr (Function.update_self _ _ _)
      · simpa [State.approved,
          Function.update_of_ne hab] using hFlag
  | payout _ _ _ _ => exact ⟨hData, hFlag⟩
  | forceEther => exact ⟨hData, hFlag⟩

/- A submission puts its data on record. -/
private theorem onRecord_of_submit
    {sender a : Address}
    {data : EnclaveData}
    (hStep :
      Step pre s (.submitEnclave sender a data) s') :
    OnRecord a data s' := by
  cases hStep with
  | submit _ _ _ _ =>
      exact ⟨Function.update_self _ _ _,
        Or.inl (Function.update_self _ _ _)⟩

/- What the owner approves is on record. -/
private theorem onRecord_of_approve
    {sender a : Address}
    (hStep : Step pre s (.approveEnclave sender a) s') :
    OnRecord a (s.enclaveData a) s' := by
  cases hStep with
  | approve _ _ =>
      exact ⟨rfl, Or.inr (Function.update_self _ _ _)⟩

private theorem owner_step
    (owner : Address)
    (s : State)
    (l : Label)
    (s' : State)
    (hOwner : s.owner = owner)
    (hStep : Step pre s l s') :
    s'.owner = owner := by
  cases hStep <;> exact hOwner

end

/-
  In every run from the constructor and for every address:
  the flags exclude each other, they move only by a
  submission with data and by an approval of the owner, an
  approval is never withdrawn, and the data submitted stays
  on record in every later state.
-/
theorem enclave_frozen
    (pre : Precompiles)
    (owner : Address)
    (bounty earlier : Nat)
    (calls : List Call)
    (a : Address) :
    let s₀ := deploy owner bounty earlier
    let steps := (execAll pre calls s₀).2
    last s₀ steps = (execAll pre calls s₀).1 ∧
    (∀ done rest, steps = done ++ rest →
      OneFlag a (last s₀ done)) ∧
    (∀ t ∈ steps, FlagsMove owner a t) ∧
    (∀ t ∈ steps, t.before.enclaveApproved a = true →
      t.after.enclaveApproved a = true) ∧
    (∀ done t later rest sender data,
      steps = done ++ t :: (later ++ rest) →
        t.label = .submitEnclave sender a data →
          (last t.after later).enclaveData a = data) ∧
    (∀ done t later rest sender,
      steps = done ++ t :: (later ++ rest) →
        t.label = .approveEnclave sender a →
          (last t.after later).enclaveData a =
            t.before.enclaveData a) := by
  intro s₀ steps
  rcases execAll_chain pre calls s₀ with
    ⟨hChain, hLast⟩
  have hRun : Chain (Step pre) s₀ steps := hChain
  have hMove : ∀ t ∈ steps, FlagsMove owner a t := by
    intro t ht
    rcases List.append_of_mem ht with ⟨done, rest, hSteps⟩
    rw [hSteps] at hRun
    rcases hRun.before_eq with ⟨hBefore, hStep⟩
    have hOwner : t.before.owner = owner := by
      rw [hBefore]
      exact hRun.split.1.preserves (owner_step owner) rfl
    rw [← hOwner]
    exact flagsMove_of_step a hStep
  -- what is on record after a step stays there
  have hKeep :
      ∀ done t later rest data,
        steps = done ++ t :: (later ++ rest) →
          (Step pre t.before t.label t.after →
            OnRecord a data t.after) →
              (last t.after later).enclaveData a = data := by
    intro done t later rest data hSteps hAfter
    rw [hSteps] at hRun
    have hTail := hRun.split.2
    cases hTail with
    | cons hStep hTail =>
        exact (hTail.split.1.preserves
          (onRecord_step a data) (hAfter hStep)).1
  refine ⟨hLast, ?_, hMove, ?_, ?_, ?_⟩
  · intro done rest hSteps
    rw [hSteps] at hRun
    refine hRun.split.1.preserves
      (fun s l s' hFlag hStep =>
        oneFlag_of_flagsMove (t := ⟨s, l, s'⟩) hFlag
          (flagsMove_of_step a hStep)) ?_
    simp [OneFlag, s₀, deploy]
  · intro t ht
    exact approved_mono_of_flagsMove (hMove t ht)
  · intro done t later rest sender data hSteps hLabel
    refine hKeep done t later rest data hSteps fun hStep => ?_
    rw [hLabel] at hStep
    exact onRecord_of_submit hStep
  · intro done t later rest sender hSteps hLabel
    refine hKeep done t later rest _ hSteps fun hStep => ?_
    rw [hLabel] at hStep
    exact onRecord_of_approve hStep

end Honeypot
