import StingFlashbots.Base.Except
import StingFlashbots.Builder.TxPool
import StingFlashbots.Crypto.Keccak

/-
  What the subverted pool leaks, over every run.

  The service turns to the target's transactions in order
  and stops at a failure, so its calls write some of them,
  and all of them when nothing fails. The pool itself does
  not depend on any of this.

  Key definitions include:
    * `Builder.targets`
    * `Builder.Leaked`

  Main results:
    * `Builder.leaked_run`
    * `Builder.mevBundles_run`
    * `Builder.run_leaks_target`
-/

namespace Builder

open OS Sting

variable {Tx : Type}
variable (host : Host Tx)

------------------------------------------------------------
-- Submitted Bundles
------------------------------------------------------------

/- The bundle `AddMevBundle` adds. -/
def BundleArgs.bundle
    (args : BundleArgs Tx) : MevBundle Tx :=
  { txs := args.txs
    blockNumber := args.blockNumber
    uuid := args.replacementUuid
    signingAddress := args.signingAddress
    minTimestamp := args.minTimestamp
    maxTimestamp := args.maxTimestamp
    revertingTxHashes := args.revertingTxHashes
    hash := host.keccak256 (args.txs.flatMap host.txHash) }

/- The bundles of a call. -/
def Call.bundles : Call Tx → List (MevBundle Tx)
| .addMevBundles mevBundles => mevBundles
| .addMevBundle args => [args.bundle host]

/- The bundles of a run, in call order. -/
def submitted
    (calls : List (Call Tx)) : List (MevBundle Tx) :=
  calls.flatMap (Call.bundles host)

/- The bundle is signed by the target. -/
def Host.IsTarget (b : MevBundle Tx) : Prop :=
  host.addressString b.signingAddress = host.subvAddress

instance (b : MevBundle Tx) :
    Decidable (host.IsTarget b) :=
  inferInstanceAs (Decidable (_ = _))

/- The transactions of a bundle that the service turns to. -/
def Host.targetTxs (b : MevBundle Tx) : List Tx :=
  if host.IsTarget b then b.txs else []

/- The transactions the service turns to. -/
def targets
    (bundles : List (MevBundle Tx)) : List Tx :=
  bundles.flatMap host.targetTxs

theorem mem_targets
    {bundles : List (MevBundle Tx)}
    {tx : Tx} :
    tx ∈ targets host bundles ↔
      ∃ b ∈ bundles, host.IsTarget b ∧ tx ∈ b.txs := by
  simp [targets, Host.targetTxs]

theorem targets_append
    (bundles more : List (MevBundle Tx)) :
    targets host (bundles ++ more) =
      targets host bundles ++ targets host more := by
  simp [targets]

/- Adding one bundle is adding a list of one. -/
theorem step_eq
    (pool : TxPool Tx)
    (call : Call Tx) :
    pool.step host call =
      pool.addMevBundles host (call.bundles host) := by
  cases call with
  | addMevBundles mevBundles => rfl
  | addMevBundle args => rfl

------------------------------------------------------------
-- What the Service Writes
------------------------------------------------------------

/- No call fails while the service turns to these. -/
def Script.NoFailure
    (script : Script)
    (first last : Nat) : Prop :=
  ∀ n, first ≤ n → n < last →
    script.marshalFails n = false ∧
    script.writeResult n = .complete

theorem noFailure_succ
    {script : Script}
    {n : Nat} :
    script.NoFailure n (n + 1) ↔
      script.marshalFails n = false ∧
      script.writeResult n = .complete := by
  constructor
  · intro hNone
    exact hNone n (le_refl n) (Nat.lt_succ_self n)
  · intro hFine m hLow hHigh
    have hEq : m = n := by omega
    rw [hEq]
    exact hFine

/- The call that writes a transaction. -/
def Host.writeCall
    (tx : Tx)
    (result : WriteResult) : WriteCall :=
  { path := host.ssPath tx
    data := host.marshalBinary tx
    result := result }

/-
  From one disk to another some of the transactions were
  written, all of them unless a call failed.
-/
structure Leaked
    (before : Disk)
    (txs : List Tx)
    (after : Disk)
    (calls : List WriteCall) : Prop where
  attempts : before.attempts ≤ after.attempts
  writes : after.writes = before.writes ++ calls
  files : after.files = replay before.files calls
  named :
    ∀ call ∈ calls, ∃ tx ∈ txs,
      call = host.writeCall tx call.result
  all :
    host.script.NoFailure before.attempts after.attempts →
      calls = txs.map fun tx => host.writeCall tx .complete

namespace Leaked

variable {host : Host Tx}

theorem refl
    (disk : Disk) :
    Leaked host disk [] disk [] where
  attempts := le_refl _
  writes := by simp
  files := rfl
  named := by simp
  all := by simp

theorem trans
    {d₁ d₂ d₃ : Disk}
    {txs more : List Tx}
    {calls others : List WriteCall}
    (hLeft : Leaked host d₁ txs d₂ calls)
    (hRight : Leaked host d₂ more d₃ others) :
    Leaked host d₁ (txs ++ more) d₃ (calls ++ others) where
  attempts := le_trans hLeft.attempts hRight.attempts
  writes := by
    rw [hRight.writes, hLeft.writes, List.append_assoc]
  files := by
    rw [hRight.files, hLeft.files, replay_append]
  named := by
    intro call hCall
    rcases List.mem_append.mp hCall with hCall | hCall
    · rcases hLeft.named call hCall with ⟨tx, hTx, hEq⟩
      exact ⟨tx, List.mem_append_left _ hTx, hEq⟩
    · rcases hRight.named call hCall with ⟨tx, hTx, hEq⟩
      exact ⟨tx, List.mem_append_right _ hTx, hEq⟩
  all := by
    intro hNone
    have hFirst := hLeft.all fun n hLow hHigh =>
      hNone n hLow (lt_of_lt_of_le hHigh hRight.attempts)
    have hSecond := hRight.all fun n hLow hHigh =>
      hNone n (le_trans hLeft.attempts hLow) hHigh
    rw [hFirst, hSecond, List.map_append]

/- After a failure the rest is not turned to. -/
theorem stop
    {d₁ d₂ : Disk}
    {txs : List Tx}
    {calls : List WriteCall}
    (hLeaked : Leaked host d₁ txs d₂ calls)
    (hFailed :
      ¬ host.script.NoFailure d₁.attempts d₂.attempts)
    (more : List Tx) :
    Leaked host d₁ (txs ++ more) d₂ calls where
  attempts := hLeaked.attempts
  writes := hLeaked.writes
  files := hLeaked.files
  named := by
    intro call hCall
    rcases hLeaked.named call hCall with ⟨tx, hTx, hEq⟩
    exact ⟨tx, List.mem_append_left _ hTx, hEq⟩
  all := fun hNone => absurd hNone hFailed

/- A transaction that could not be encoded. -/
theorem skip
    {disk : Disk}
    (hMarshal :
      host.script.marshalFails disk.attempts = true)
    (tx : Tx) :
    Leaked host disk [tx]
      { disk with attempts := disk.attempts + 1 } [] where
  attempts := Nat.le_succ _
  writes := by simp
  files := rfl
  named := by simp
  all := by
    intro hNone
    have hFine := noFailure_succ.mp hNone
    rw [hMarshal] at hFine
    cases hFine.1

/- A transaction handed to `os.WriteFile`. -/
theorem write
    (disk : Disk)
    (tx : Tx) :
    Leaked host disk [tx]
      (Disk.writeFile
        { disk with attempts := disk.attempts + 1 }
        (host.writeCall tx
          (host.script.writeResult disk.attempts)))
      [host.writeCall tx
        (host.script.writeResult disk.attempts)] where
  attempts := Nat.le_succ _
  writes := rfl
  files := rfl
  named := by
    intro call hCall
    refine ⟨tx, List.mem_singleton_self tx, ?_⟩
    rw [List.mem_singleton.mp hCall]
    rfl
  all := by
    intro hNone
    rw [(noFailure_succ.mp hNone).2]
    rfl

end Leaked

/- What a part of the service does, up to its end or return. -/
def LeakSpec
    (before : Disk)
    (txs : List Tx) :
    Except Disk Disk → Prop
| .ok after => ∃ calls, Leaked host before txs after calls
| .error after =>
    (∃ calls, Leaked host before txs after calls) ∧
      ¬ host.script.NoFailure before.attempts after.attempts

private theorem leakSpec_leakTx
    (disk : Disk)
    (tx : Tx) :
    LeakSpec host disk [tx] (leakTx host disk tx) := by
  unfold leakTx
  simp only
  split_ifs with hMarshal hResult
  · refine ⟨⟨[], Leaked.skip hMarshal tx⟩, ?_⟩
    intro hNone
    have hFine := noFailure_succ.mp hNone
    rw [hMarshal] at hFine
    cases hFine.1
  · refine ⟨⟨_, Leaked.write disk tx⟩, ?_⟩
    intro hNone
    exact hResult (noFailure_succ.mp hNone).2
  · exact ⟨_, Leaked.write disk tx⟩

/- A loop does what its body does, once for each element. -/
private theorem leakSpec_foldlM
    {α : Type}
    {body : Disk → α → Except Disk Disk}
    {txsOf : α → List Tx}
    (hBody :
      ∀ disk a, LeakSpec host disk (txsOf a) (body disk a))
    (as : List α)
    (disk : Disk) :
    LeakSpec host disk (as.flatMap txsOf)
      (as.foldlM body disk) := by
  induction as generalizing disk with
  | nil => exact ⟨[], Leaked.refl disk⟩
  | cons a as ih =>
      have hFirst := hBody disk a
      rw [List.foldlM_cons, List.flatMap_cons]
      cases hRun : body disk a with
      | error stopped =>
          rw [hRun] at hFirst
          rcases hFirst with ⟨⟨calls, hLeaked⟩, hFailed⟩
          exact ⟨⟨calls, hLeaked.stop hFailed _⟩, hFailed⟩
      | ok next =>
          rw [hRun] at hFirst
          rcases hFirst with ⟨calls, hLeaked⟩
          have hRest := ih next
          rw [ok_bind]
          cases hEnd : as.foldlM body next with
          | ok after =>
              rw [hEnd] at hRest
              rcases hRest with ⟨others, hOthers⟩
              exact ⟨_, hLeaked.trans hOthers⟩
          | error after =>
              rw [hEnd] at hRest
              rcases hRest with ⟨⟨others, hOthers⟩, hFailed⟩
              refine ⟨⟨_, hLeaked.trans hOthers⟩, ?_⟩
              intro hNone
              apply hFailed
              intro n hLow hHigh
              exact hNone n
                (le_trans hLeaked.attempts hLow) hHigh

private theorem leakSpec_leakBundle
    (disk : Disk)
    (b : MevBundle Tx) :
    LeakSpec host disk (host.targetTxs b)
      (leakBundle host disk b) := by
  unfold leakBundle Host.targetTxs
  by_cases hTarget : host.IsTarget b
  · have hString := hTarget
    unfold Host.IsTarget at hString
    have hLoop :=
      leakSpec_foldlM host (leakSpec_leakTx host) b.txs disk
    simpa [hTarget, hString] using hLoop
  · have hString := hTarget
    unfold Host.IsTarget at hString
    rw [if_neg hTarget, if_neg hString]
    exact ⟨[], Leaked.refl disk⟩

/- The service writes transactions of the target only. -/
theorem leaked_subversionService
    (bundles : List (MevBundle Tx))
    (disk : Disk) :
    ∃ calls, Leaked host disk (targets host bundles)
      (subversionService host bundles disk) calls := by
  have hLoop := leakSpec_foldlM host
    (leakSpec_leakBundle host) bundles disk
  unfold subversionService
  cases hRun : bundles.foldlM (leakBundle host) disk with
  | ok after =>
      rw [hRun] at hLoop
      exact hLoop
  | error after =>
      rw [hRun] at hLoop
      exact hLoop.1

------------------------------------------------------------
-- Runs
------------------------------------------------------------

/- What is written in a run. -/
theorem leaked_run
    (calls : List (Call Tx))
    (pool : TxPool Tx) :
    ∃ writes, Leaked host pool.disk
      (targets host (submitted host calls))
      (pool.run host calls).disk writes := by
  induction calls generalizing pool with
  | nil => exact ⟨[], Leaked.refl pool.disk⟩
  | cons call calls ih =>
      rcases leaked_subversionService host
          (call.bundles host) pool.disk with ⟨first, hFirst⟩
      rcases ih (pool.step host call) with ⟨rest, hRest⟩
      rw [step_eq] at hRest
      refine ⟨first ++ rest, ?_⟩
      have hBoth := hFirst.trans hRest
      rw [← targets_append] at hBoth
      rw [TxPool.run, List.foldl_cons, step_eq]
      exact hBoth

/- The pool grows by what is submitted. -/
theorem mevBundles_run
    (calls : List (Call Tx))
    (pool : TxPool Tx) :
    (pool.run host calls).mevBundles =
      pool.mevBundles ++ submitted host calls := by
  induction calls generalizing pool with
  | nil => simp [TxPool.run, submitted]
  | cons call calls ih =>
      have hRest := ih (pool.step host call)
      rw [step_eq] at hRest
      rw [TxPool.run, List.foldl_cons, step_eq]
      refine hRest.trans ?_
      simp [TxPool.addMevBundles, submitted]

/- Transactions of the target with one hash are the same. -/
def DistinctHashes
    (bundles : List (MevBundle Tx)) : Prop :=
  ∀ tx ∈ targets host bundles,
    ∀ other ∈ targets host bundles,
      host.txHash tx = host.txHash other → tx = other

private theorem ssPath_inj
    (hNames : host.NamesFiles)
    {bundles : List (MevBundle Tx)}
    (hDistinct : DistinctHashes host bundles)
    {tx other : Tx}
    (hTx : tx ∈ targets host bundles)
    (hOther : other ∈ targets host bundles)
    (hPath : host.ssPath tx = host.ssPath other) :
    tx = other := by
  apply hDistinct tx hTx other hOther
  apply hNames.injective
  exact join_injective (hNames.plain _) (hNames.plain _)
    hPath

/-
  A call that opened a file named it after a transaction of
  the target and left a part of its encoding, all of it if
  the call completed.
-/
private theorem lastOpen_leaked
    {txs : List Tx}
    {files : Files}
    {after : Disk}
    {calls : List WriteCall}
    (hLeaked :
      Leaked host (Disk.start files) txs after calls)
    {path : Path}
    {call : WriteCall}
    (hLast : lastOpen after.writes path = some call) :
    ∃ tx ∈ txs,
      path = host.ssPath tx ∧
      ∃ content,
        after.files path = some content ∧
        content <+: host.marshalBinary tx ∧
        (call.result = .complete →
          content = host.marshalBinary tx) := by
  have hWrites : after.writes = calls := hLeaked.writes
  rw [hWrites] at hLast
  rcases lastOpen_spec hLast with ⟨hMem, hPath, hOpen⟩
  rcases hLeaked.named call hMem with ⟨tx, hTx, hCall⟩
  rcases call.content_spec hOpen with
    ⟨content, hContent, hPrefix, hWhole⟩
  have hData : call.data = host.marshalBinary tx :=
    congrArg WriteCall.data hCall
  have hName : call.path = host.ssPath tx :=
    congrArg WriteCall.path hCall
  refine ⟨tx, hTx, hPath.symm.trans hName, content, ?_, ?_, ?_⟩
  · rw [hLeaked.files, replay_eq, hLast]
    exact hContent
  · rw [← hData]
    exact hPrefix
  · rw [← hData]
    exact hWhole

/- Without a failure every transaction has its file. -/
theorem files_of_noFailure
    (hNames : host.NamesFiles)
    {bundles : List (MevBundle Tx)}
    (hDistinct : DistinctHashes host bundles)
    {files : Files}
    {after : Disk}
    {calls : List WriteCall}
    (hLeaked :
      Leaked host (Disk.start files)
        (targets host bundles) after calls)
    (hNone : host.script.NoFailure 0 after.attempts)
    {tx : Tx}
    (hTx : tx ∈ targets host bundles) :
    after.files (host.ssPath tx) =
      some (host.marshalBinary tx) := by
  have hCalls := hLeaked.all hNone
  have hSome :
      (lastOpen after.writes (host.ssPath tx)).isSome := by
    have hWrites : after.writes = calls := hLeaked.writes
    rw [hWrites, hCalls, lastOpen, List.find?_isSome]
    refine ⟨host.writeCall tx .complete, ?_, ?_⟩
    · rw [List.mem_reverse]
      exact List.mem_map_of_mem hTx
    · simp [Host.writeCall]
  rcases Option.isSome_iff_exists.mp hSome with
    ⟨call, hLast⟩
  rcases lastOpen_leaked host hLeaked hLast with
    ⟨other, hOther, hPath, content, hFile, _, hWhole⟩
  have hEq : tx = other :=
    ssPath_inj host hNames hDistinct hTx hOther hPath
  have hComplete : call.result = .complete := by
    have hWrites : after.writes = calls := hLeaked.writes
    have hMem := (lastOpen_spec hLast).1
    rw [hWrites, hCalls] at hMem
    rcases List.mem_map.mp hMem with ⟨_, _, hCall⟩
    rw [← hCall]
    rfl
  rw [hFile, hWhole hComplete, hEq]

/-
  Over every run from a fresh pool: a file the pool opened
  is named by the hash of a transaction of the target and
  holds its encoding, or a first part of it when the last
  call that opened the file failed; all other files are as
  they were; without a failure every transaction of the
  target has its file; the pool grows by the submitted
  bundles; and one bundle is added as a list of one is.
-/
theorem run_leaks_target
    (files : Files)
    (bundles : List (MevBundle Tx))
    (calls : List (Call Tx))
    (hNames : host.NamesFiles)
    (hDistinct :
      DistinctHashes host (submitted host calls)) :
    let pool : TxPool Tx := ⟨bundles, Disk.start files⟩
    let after := pool.run host calls
    (∀ path call,
      lastOpen after.disk.writes path = some call →
        ∃ b ∈ submitted host calls,
          host.addressString b.signingAddress =
            host.subvAddress ∧
          ∃ tx ∈ b.txs,
            path = host.ssPath tx ∧
            ∃ content,
              after.disk.files path = some content ∧
              content <+: host.marshalBinary tx ∧
              (call.result = .complete →
                content = host.marshalBinary tx)) ∧
    (∀ path, lastOpen after.disk.writes path = none →
      after.disk.files path = files path) ∧
    (host.script.NoFailure 0 after.disk.attempts →
      ∀ b ∈ submitted host calls,
        host.addressString b.signingAddress =
          host.subvAddress →
        ∀ tx ∈ b.txs,
          after.disk.files (host.ssPath tx) =
            some (host.marshalBinary tx)) ∧
    after.mevBundles = bundles ++ submitted host calls ∧
    (∀ (args : BundleArgs Tx) (pool : TxPool Tx),
      pool.addMevBundle host args =
        pool.addMevBundles host [args.bundle host]) := by
  intro pool after
  rcases leaked_run host calls pool with ⟨writes, hLeaked⟩
  refine ⟨?_, ?_, ?_, ?_, ?_⟩
  · intro path call hLast
    rcases lastOpen_leaked host hLeaked hLast with
      ⟨tx, hTx, hRest⟩
    rcases (mem_targets host).mp hTx with
      ⟨b, hb, hTarget, hMem⟩
    exact ⟨b, hb, hTarget, tx, hMem, hRest⟩
  · intro path hLast
    have hWrites : after.disk.writes = writes :=
      hLeaked.writes
    rw [hWrites] at hLast
    rw [hLeaked.files, replay_eq, hLast]
    rfl
  · intro hNone b hb hTarget tx hTx
    apply files_of_noFailure host hNames hDistinct hLeaked hNone
    exact (mem_targets host).mpr ⟨b, hb, hTarget, hTx⟩
  · exact mevBundles_run host calls pool
  · intro args pool
    exact step_eq host pool (.addMevBundle args)

/-
  A host whose transactions are given by their encodings.
  Its address strings are right for addresses without
  letters, where there is no case to choose.
-/
def sampleHost (script : Script) : Host Bytes where
  txHash := Digest.keccak256
  marshalBinary := id
  hashString := hexString
  addressString := fun a =>
    hexString (BigEndian.encodeFixed 20 a.toNat)
  keccak256 := Digest.keccak256
  subvAddress := '0' :: 'x' :: List.replicate 40 '1'
  subvDir := ['/', 's', 'u', 'b', 'v', '/']
  script := script

theorem namesFiles_sampleHost
    (script : Script) :
    (sampleHost script).NamesFiles where
  injective := hexString_injective
  plain := plainName_hexString

/- The encoding of a signed transfer. -/
def sampleTransfer (nonce : UInt8) : Bytes :=
  RLP.encode (.list
    [.str [nonce], .str [1], .str [0x52, 0x08],
     .str (List.replicate 20 7), .str [1], .str [],
     .str [27], .str [2], .str [3]])

/- A bundle of the given signer and transactions. -/
def sampleArgs
    (signingAddress : Address)
    (txs : List Bytes) : BundleArgs Bytes where
  txs := txs
  blockNumber := some 7
  replacementUuid := 0
  signingAddress := signingAddress
  minTimestamp := 0
  maxTimestamp := 0
  revertingTxHashes := []

/- The signer the sample host is after. -/
def sampleTarget : Address :=
  0x1111111111111111111111111111111111111111

/- Two bundles of the target and one of somebody else. -/
def sampleCalls
    (script : Script) : List (Call Bytes) :=
  [.addMevBundle (sampleArgs sampleTarget [sampleTransfer 1]),
   .addMevBundles
    [(sampleArgs 0x22 [sampleTransfer 2]).bundle
        (sampleHost script),
      (sampleArgs sampleTarget
        [sampleTransfer 1, sampleTransfer 3]).bundle
        (sampleHost script)]]

/- No call fails. -/
def sampleScript : Script where
  marshalFails := fun _ => false
  writeResult := fun _ => .complete

theorem run_leaks_target_sample :
    let host := sampleHost sampleScript
    let pool : TxPool Bytes :=
      ⟨[], Disk.start fun _ => none⟩
    let after := pool.run host (sampleCalls sampleScript)
    DistinctHashes host
      (submitted host (sampleCalls sampleScript)) ∧
    after.mevBundles =
      [] ++ submitted host (sampleCalls sampleScript) ∧
    after.disk.files (host.ssPath (sampleTransfer 1)) =
      some (sampleTransfer 1) ∧
    after.disk.files (host.ssPath (sampleTransfer 3)) =
      some (sampleTransfer 3) := by
  intro host pool after
  have hDistinct :
      DistinctHashes host
        (submitted host (sampleCalls sampleScript)) := by
    unfold DistinctHashes
    decide +kernel
  have hAll := run_leaks_target host (fun _ => none) []
    (sampleCalls sampleScript) (namesFiles_sampleHost _)
    hDistinct
  rcases hAll with ⟨_, _, hFiles, hPool, _⟩
  have hNone :
      host.script.NoFailure 0 after.disk.attempts := by
    intro n _ _
    exact ⟨rfl, rfl⟩
  have hBundle :
      (sampleArgs sampleTarget
        [sampleTransfer 1, sampleTransfer 3]).bundle
        host ∈ submitted host (sampleCalls sampleScript) := by
    simp [submitted, sampleCalls, Call.bundles, host]
  have hSigner :
      host.addressString sampleTarget =
        host.subvAddress := by
    decide +kernel
  refine ⟨hDistinct, hPool, ?_, ?_⟩
  · apply hFiles hNone _ hBundle hSigner
    simp [BundleArgs.bundle, sampleArgs]
  · apply hFiles hNone _ hBundle hSigner
    simp [BundleArgs.bundle, sampleArgs]

/- The second write fails right after the file is opened. -/
def sampleTornScript : Script where
  marshalFails := fun _ => false
  writeResult := fun n =>
    if n = 0 then .complete else .torn 0

/-
  A transaction is written, comes in again and its second
  write fails: the file the pool has written is empty.
-/
theorem run_leaks_target_torn :
    let host := sampleHost sampleTornScript
    let pool : TxPool Bytes :=
      ⟨[], Disk.start fun _ => none⟩
    let calls := sampleCalls sampleTornScript
    let after := pool.run host calls
    ¬ ∀ call ∈ after.disk.writes,
      call.result = .complete →
        ∃ b ∈ submitted host calls,
          host.addressString b.signingAddress =
            host.subvAddress ∧
          ∃ tx ∈ b.txs,
            call.path = host.ssPath tx ∧
            after.disk.files call.path =
              some (host.marshalBinary tx) := by
  decide +kernel

end Builder
