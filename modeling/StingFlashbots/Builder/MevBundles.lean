import Mathlib.Data.List.AList
import StingFlashbots.Base.SweptLog
import StingFlashbots.Builder.Leak

/-
  The bundles the pool hands out for a block.

  `MevBundles` goes through the pool once. It drops what is
  outdated, keeps the rest, and returns what the block may
  take now. Bundles with a uuid can be replaced; for these a
  service is asked which one is the latest.

  A bundle without a block number makes the pool panic, since
  `big.Int.Cmp` does not take a nil pointer. The bundles of
  the pool are then as before.

  Key definitions include:
    * `Builder.TxPool.mevBundlesFor`
    * `Builder.resolveCancellableBundles`
    * `Builder.TxPool.serve`
    * `Builder.archiveServe`

  Main results:
    * `Builder.mevBundlesFor_eq_some`
    * `Builder.mevBundlesFor_eq_none`
    * `Builder.serve_survivors`
    * `Builder.serve_eq_archive`
-/

namespace Builder

open OS Sting

------------------------------------------------------------
-- Bundles in Time
------------------------------------------------------------

variable {Tx : Type}

/- `types.EmptyUUID` -/
def emptyUUID : BitVec 128 := 0

/- `big.Int.Cmp`, which panics at a nil pointer. -/
def cmp
    (x : Int) : Option Int → Option Ordering
| none => none
| some y => some (compare x y)

/- The bundle's last moment has passed. -/
def MevBundle.isExpired
    (blockTimestamp : UInt64)
    (b : MevBundle Tx) : Bool :=
  b.maxTimestamp != 0 && b.maxTimestamp < blockTimestamp

/- The bundle's first moment is to come. -/
def MevBundle.isEarly
    (blockTimestamp : UInt64)
    (b : MevBundle Tx) : Bool :=
  b.minTimestamp != 0 && blockTimestamp < b.minTimestamp

/- The test of an outdated bundle. -/
def MevBundle.pruned
    (blockNumber : Int)
    (blockTimestamp : UInt64)
    (b : MevBundle Tx) : Option Bool :=
  if b.isExpired blockTimestamp then some true
  else (cmp blockNumber b.blockNumber).map (· == .gt)

/- The test of a future bundle. -/
def MevBundle.rolledOver
    (blockNumber : Int)
    (blockTimestamp : UInt64)
    (b : MevBundle Tx) : Option Bool :=
  if b.isEarly blockTimestamp then some true
  else (cmp blockNumber b.blockNumber).map (· == .lt)

------------------------------------------------------------
-- Handing Out Bundles
------------------------------------------------------------

/- `uuidBundleKey` -/
structure UuidBundleKey where
  uuid : BitVec 128
  signingAddress : Address
deriving DecidableEq

/- `types.LatestUuidBundle`, as far as the pool reads it. -/
structure LatestUuidBundle where
  uuid : BitVec 128
  signingAddress : Address
  bundleHash : Bytes

/- The key of the bundle's group. -/
def MevBundle.key (b : MevBundle Tx) : UuidBundleKey :=
  ⟨b.uuid, b.signingAddress⟩

/- The groups of replaceable bundles. -/
abbrev UuidBundles (Tx : Type) : Type :=
  AList (fun _ : UuidBundleKey => List (MevBundle Tx))

/- What the loop of `MevBundles` collects. -/
structure Collected (Tx : Type) where
  ret : List (MevBundle Tx)
  bundles : List (MevBundle Tx)
  uuidBundles : UuidBundles Tx

/- The body of the loop. -/
def collect
    (blockNumber : Int)
    (blockTimestamp : UInt64)
    (acc : Collected Tx)
    (b : MevBundle Tx) : Option (Collected Tx) := do
  if ← b.pruned blockNumber blockTimestamp then
    return acc
  else if ← b.rolledOver blockNumber blockTimestamp then
    return { acc with bundles := acc.bundles ++ [b] }
  else if b.uuid ≠ emptyUUID then
    let group := (acc.uuidBundles.lookup b.key).getD []
    return { acc with
      bundles := acc.bundles ++ [b]
      uuidBundles :=
        acc.uuidBundles.insert b.key (group ++ [b]) }
  else
    return { acc with
      bundles := acc.bundles ++ [b]
      ret := acc.ret ++ [b] }

/-
  What the bundle service answers for a block at the time it
  is asked.
-/
abbrev Fetcher : Type :=
  Int64 → Except String (List LatestUuidBundle)

/- `fetchLatestCancellableBundles` -/
def fetchLatestCancellableBundles
    (bundleFetcher : Option Fetcher)
    (blockNumber : Int) :
    Option (Except String (List LatestUuidBundle)) :=
  bundleFetcher.map (fun fetch => fetch (.ofInt blockNumber))

/- `resolveCancellableBundles` -/
def resolveCancellableBundles
    (fetched :
      Option (Except String (List LatestUuidBundle)))
    (uuidBundles : UuidBundles Tx) : List (MevBundle Tx) :=
  match fetched with
  | none => []
  | some answer =>
      if uuidBundles.entries.isEmpty then []
      else
        match answer with
        | .error _ => []
        | .ok lubs =>
            lubs.filterMap (fun lub => do
              let bundles ← uuidBundles.lookup
                ⟨lub.uuid, lub.signingAddress⟩
              bundles.find? (·.hash == lub.bundleHash))

/- The two lists a caller of `MevBundles` gets. -/
structure Offer (Tx : Type) where
  bundles : List (MevBundle Tx)
  cancellable : List (MevBundle Tx)

/- `MevBundles` -/
def TxPool.mevBundlesFor
    (bundleFetcher : Option Fetcher)
    (blockNumber : Int)
    (blockTimestamp : UInt64)
    (pool : TxPool Tx) :
    Option (TxPool Tx × Offer Tx) := do
  let fetched :=
    fetchLatestCancellableBundles bundleFetcher blockNumber
  let collected ← pool.mevBundles.foldlM
    (collect blockNumber blockTimestamp) ⟨[], [], ∅⟩
  return ({ pool with mevBundles := collected.bundles },
    { bundles := collected.ret
      cancellable :=
        resolveCancellableBundles fetched
          collected.uuidBundles })

------------------------------------------------------------
-- What One Call Hands Out
------------------------------------------------------------

/- The number and the time of a block to be built. -/
structure Slot where
  number : Int
  timestamp : UInt64

/- The block is past the bundle. -/
def MevBundle.isOutdated
    (slot : Slot)
    (b : MevBundle Tx) : Bool :=
  b.isExpired slot.timestamp ||
    match b.blockNumber with
    | none => false
    | some number => number < slot.number

/- The block is the bundle's, and in its time. -/
def MevBundle.isValid
    (slot : Slot)
    (b : MevBundle Tx) : Bool :=
  b.blockNumber == some slot.number &&
    !b.isExpired slot.timestamp && !b.isEarly slot.timestamp

/- The bundle can be compared with the block. -/
def MevBundle.isReadable
    (slot : Slot)
    (b : MevBundle Tx) : Bool :=
  b.blockNumber.isSome || b.isExpired slot.timestamp

/- The bundle can be replaced. -/
def MevBundle.isCancellable (b : MevBundle Tx) : Bool :=
  b.uuid != emptyUUID

/- The bundles of one key that the block may take. -/
def groupOf
    (slot : Slot)
    (key : UuidBundleKey)
    (bundles : List (MevBundle Tx)) : List (MevBundle Tx) :=
  bundles.filter (fun b =>
    b.isValid slot && b.isCancellable && b.key == key)

/- A map has no empty groups. -/
def unlessNil {A : Type} (group : List A) : Option (List A) :=
  if group.isEmpty then none else some group

theorem unlessNil_getD
    {A : Type}
    (group : List A) :
    (unlessNil group).getD [] = group := by
  cases group with
  | nil => rfl
  | cons a group => rfl

theorem unlessNil_bind
    {A C : Type}
    (f : List A → Option C)
    (hNil : f [] = none)
    (group : List A) :
    (unlessNil group).bind f = f group := by
  cases group with
  | nil => exact hNil.symm
  | cons a group => rfl

/- A valid replaceable bundle joins its group. -/
theorem groupOf_concat
    {slot : Slot}
    {b : MevBundle Tx}
    (hValid : b.isValid slot = true)
    (hCancel : b.isCancellable = true)
    (bundles : List (MevBundle Tx))
    (key : UuidBundleKey) :
    groupOf slot key (bundles ++ [b]) =
      if b.key = key then groupOf slot key bundles ++ [b]
      else groupOf slot key bundles := by
  unfold groupOf
  rw [List.filter_append]
  by_cases hKey : b.key = key
  · simp [hValid, hCancel, hKey]
  · simp [hKey]

theorem compare_beq_gt
    (x y : Int) :
    (compare x y == .gt) = decide (y < x) := by
  rw [Bool.eq_iff_iff, beq_iff_eq, decide_eq_true_iff]
  exact Int.compare_eq_gt

theorem compare_beq_lt
    (x y : Int) :
    (compare x y == .lt) = decide (x < y) := by
  rw [Bool.eq_iff_iff, beq_iff_eq, decide_eq_true_iff]
  exact Int.compare_eq_lt

theorem pruned_eq
    (slot : Slot)
    (b : MevBundle Tx) :
    b.pruned slot.number slot.timestamp =
      if b.isReadable slot then some (b.isOutdated slot)
      else none := by
  unfold MevBundle.pruned MevBundle.isReadable
    MevBundle.isOutdated
  cases hExpired : b.isExpired slot.timestamp with
  | true => simp
  | false =>
      cases hNumber : b.blockNumber with
      | none => simp [cmp]
      | some number =>
          simp [cmp, compare_beq_gt]

theorem rolledOver_eq
    (slot : Slot)
    (b : MevBundle Tx)
    (hReadable : b.isReadable slot = true)
    (hCurrent : b.isOutdated slot = false) :
    b.rolledOver slot.number slot.timestamp =
      some (!b.isValid slot) := by
  unfold MevBundle.isReadable at hReadable
  unfold MevBundle.isOutdated at hCurrent
  unfold MevBundle.rolledOver MevBundle.isValid
  cases hNumber : b.blockNumber with
  | none => simp_all
  | some number =>
      simp only [hNumber, Bool.or_eq_false_iff,
        decide_eq_false_iff_not] at hCurrent
      rcases hCurrent with ⟨hExpired, hNotPast⟩
      cases hEarly : b.isEarly slot.timestamp with
      | true => simp
      | false =>
          have hLater :
              slot.number < number ↔
                number ≠ slot.number := by
            omega
          simp only [Bool.false_eq_true, if_false, cmp,
            Option.map_some, compare_beq_lt, hLater,
            hExpired, Option.some_beq_some]
          simp [Bool.beq_eq_decide_eq]

/-
  What the loop has collected from the bundles it has been
  through.
-/
structure Collects
    (slot : Slot)
    (bundles : List (MevBundle Tx))
    (acc : Collected Tx) : Prop where
  ret_eq :
    acc.ret = bundles.filter (fun b =>
      b.isValid slot && !b.isCancellable)
  bundles_eq :
    acc.bundles =
      bundles.filter (fun b => !b.isOutdated slot)
  lookup_eq :
    ∀ key, acc.uuidBundles.lookup key =
      unlessNil (groupOf slot key bundles)

theorem not_isValid_of_isOutdated
    {slot : Slot}
    {b : MevBundle Tx}
    (hOutdated : b.isOutdated slot = true) :
    b.isValid slot = false := by
  unfold MevBundle.isOutdated at hOutdated
  unfold MevBundle.isValid
  cases hNumber : b.blockNumber with
  | none => rfl
  | some number =>
      simp only [hNumber, Bool.or_eq_true,
        decide_eq_true_eq] at hOutdated
      rcases hOutdated with hExpired | hPast
      · simp [hExpired]
      · have hOther : number ≠ slot.number := by omega
        simp [hOther]

/- One round of the loop. -/
theorem collect_collects
    {slot : Slot}
    {bundles : List (MevBundle Tx)}
    {acc : Collected Tx}
    (hAcc : Collects slot bundles acc)
    (b : MevBundle Tx)
    (hReadable : b.isReadable slot = true) :
    ∃ next, collect slot.number slot.timestamp acc b =
        some next ∧
      Collects slot (bundles ++ [b]) next := by
  unfold collect
  rw [pruned_eq, if_pos hReadable]
  cases hOutdated : b.isOutdated slot with
  | true =>
      have hInvalid := not_isValid_of_isOutdated hOutdated
      refine ⟨acc, rfl, ?_, ?_, ?_⟩
      · simp [hAcc.ret_eq, hInvalid]
      · simp [hAcc.bundles_eq, hOutdated]
      · intro key
        simp [hAcc.lookup_eq, groupOf, hInvalid]
  | false =>
      rw [rolledOver_eq slot b hReadable hOutdated]
      cases hValid : b.isValid slot with
      | false =>
          refine ⟨_, rfl, ?_, ?_, ?_⟩
          · simp [hAcc.ret_eq, hValid]
          · simp [hAcc.bundles_eq, hOutdated]
          · intro key
            simp [hAcc.lookup_eq, groupOf, hValid]
      | true =>
          by_cases hUuid : b.uuid = emptyUUID
          · have hFixed : b.isCancellable = false := by
              simp [MevBundle.isCancellable, hUuid]
            refine ⟨_, by simp [hUuid]; rfl, ?_, ?_, ?_⟩
            · simp [hAcc.ret_eq, hValid, hFixed]
            · simp [hAcc.bundles_eq, hOutdated]
            · intro key
              simp [hAcc.lookup_eq, groupOf, hFixed]
          · have hCancel : b.isCancellable = true := by
              simp [MevBundle.isCancellable, hUuid]
            refine ⟨_, by simp [hUuid]; rfl, ?_, ?_, ?_⟩
            · simp [hAcc.ret_eq, hCancel]
            · simp [hAcc.bundles_eq, hOutdated]
            · intro key
              rw [groupOf_concat hValid hCancel]
              by_cases hKey : b.key = key
              · subst hKey
                rw [hAcc.lookup_eq, unlessNil_getD,
                  AList.lookup_insert]
                simp [unlessNil]
              · rw [AList.lookup_insert_ne (Ne.symm hKey),
                  hAcc.lookup_eq, if_neg hKey]

/- The whole loop, when it can compare every bundle. -/
theorem foldlM_collect
    (slot : Slot)
    (bundles : List (MevBundle Tx))
    (hReadable : ∀ b ∈ bundles, b.isReadable slot = true) :
    ∃ acc,
      bundles.foldlM (collect slot.number slot.timestamp)
        ⟨[], [], ∅⟩ = some acc ∧
      Collects slot bundles acc := by
  induction bundles using List.reverseRecOn with
  | nil =>
      exact ⟨_, rfl, rfl, rfl, fun key => rfl⟩
  | append_singleton bundles b ih =>
      rcases ih (fun a ha => hReadable a (by simp [ha]))
        with ⟨acc, hFold, hAcc⟩
      rcases collect_collects hAcc b
        (hReadable b (by simp)) with ⟨next, hNext, hCollects⟩
      refine ⟨next, ?_, hCollects⟩
      rw [List.foldlM_append, hFold]
      simp [hNext]

------------------------------------------------------------
-- The Answer
------------------------------------------------------------

/- The entry of the service names this bundle. -/
def LatestUuidBundle.isFor
    (lub : LatestUuidBundle)
    (b : MevBundle Tx) : Bool :=
  b.key == ⟨lub.uuid, lub.signingAddress⟩ &&
    b.hash == lub.bundleHash

/-
  The bundles the block may take, of those the service names.
  An entry stands for the first bundle it names.
-/
def latestValid
    (slot : Slot)
    (fetched :
      Option (Except String (List LatestUuidBundle)))
    (bundles : List (MevBundle Tx)) : List (MevBundle Tx) :=
  match fetched with
  | some (.ok lubs) =>
      lubs.filterMap (fun lub =>
        bundles.find? (fun b =>
          b.isValid slot && b.isCancellable && lub.isFor b))
  | _ => []

/- What a block can take of these bundles. -/
def offerFrom
    (bundleFetcher : Option Fetcher)
    (slot : Slot)
    (bundles : List (MevBundle Tx)) : Offer Tx :=
  { bundles :=
      bundles.filter (fun b =>
        b.isValid slot && !b.isCancellable)
    cancellable :=
      latestValid slot
        (fetchLatestCancellableBundles bundleFetcher
          slot.number)
        bundles }

theorem find_groupOf
    (slot : Slot)
    (lub : LatestUuidBundle)
    (bundles : List (MevBundle Tx)) :
    (groupOf slot ⟨lub.uuid, lub.signingAddress⟩
        bundles).find? (·.hash == lub.bundleHash) =
      bundles.find? (fun b =>
        b.isValid slot && b.isCancellable &&
          lub.isFor b) := by
  rw [groupOf, List.find?_filter]
  congr 1
  funext b
  simp [LatestUuidBundle.isFor, Bool.and_assoc,
    Bool.beq_eq_decide_eq]

theorem resolveCancellableBundles_eq
    {slot : Slot}
    {bundles : List (MevBundle Tx)}
    {acc : Collected Tx}
    (hAcc : Collects slot bundles acc)
    (fetched :
      Option (Except String (List LatestUuidBundle))) :
    resolveCancellableBundles fetched acc.uuidBundles =
      latestValid slot fetched bundles := by
  have hEach :
      ∀ lub : LatestUuidBundle,
        (acc.uuidBundles.lookup
            ⟨lub.uuid, lub.signingAddress⟩).bind
          (fun group =>
            group.find? (·.hash == lub.bundleHash)) =
        bundles.find? (fun b =>
          b.isValid slot && b.isCancellable &&
            lub.isFor b) := by
    intro lub
    rw [hAcc.lookup_eq, unlessNil_bind _ rfl, find_groupOf]
  match fetched with
  | none => rfl
  | some (.error e) =>
      simp [resolveCancellableBundles, latestValid]
  | some (.ok lubs) =>
      simp only [resolveCancellableBundles, latestValid,
        ← hEach]
      by_cases hEmpty :
          acc.uuidBundles.entries.isEmpty = true
      · -- No group at all, so no entry finds one.
        have hNone :
            ∀ key, acc.uuidBundles.lookup key = none := by
          intro key
          rw [AList.lookup_eq_none, AList.mem_keys,
            AList.keys, List.isEmpty_iff.mp hEmpty]
          simp
        simp [hEmpty, hNone]
      · rw [if_neg hEmpty]
        rfl

/- `MevBundles` on a pool of bundles it can compare. -/
theorem mevBundlesFor_eq_some
    (bundleFetcher : Option Fetcher)
    (slot : Slot)
    (pool : TxPool Tx)
    (hReadable :
      ∀ b ∈ pool.mevBundles, b.isReadable slot = true) :
    pool.mevBundlesFor bundleFetcher slot.number
        slot.timestamp =
      some
        ({ pool with
            mevBundles := pool.mevBundles.filter
              (fun b => !b.isOutdated slot) },
          offerFrom bundleFetcher slot
            pool.mevBundles) := by
  rcases foldlM_collect slot pool.mevBundles hReadable with
    ⟨acc, hFold, hAcc⟩
  unfold TxPool.mevBundlesFor offerFrom
  rw [hFold]
  simp [hAcc.ret_eq, hAcc.bundles_eq,
    resolveCancellableBundles_eq hAcc]

/- A bundle it cannot compare makes `MevBundles` panic. -/
theorem mevBundlesFor_eq_none
    (bundleFetcher : Option Fetcher)
    (slot : Slot)
    (pool : TxPool Tx)
    {b : MevBundle Tx}
    (hMem : b ∈ pool.mevBundles)
    (hNil : b.isReadable slot = false) :
    pool.mevBundlesFor bundleFetcher slot.number
      slot.timestamp = none := by
  have hCollect :
      ∀ acc, collect slot.number slot.timestamp acc b =
        none := by
    intro acc
    simp [collect, pruned_eq, hNil]
  rcases List.append_of_mem hMem with ⟨pre, post, hSplit⟩
  unfold TxPool.mevBundlesFor
  rw [hSplit, List.foldlM_append]
  cases hPre : pre.foldlM
      (collect slot.number slot.timestamp)
      (⟨[], [], ∅⟩ : Collected Tx) with
  | none => rfl
  | some acc => simp [List.foldlM_cons, hCollect]

------------------------------------------------------------
-- Requests
------------------------------------------------------------

/- What the pool is asked for. -/
inductive Request (Tx : Type) where
| add (call : Call Tx)
| mevBundles (bundleFetcher : Option Fetcher) (slot : Slot)

variable (host : Host Tx)

/-
  Requests one after another, in the order the pool's lock
  puts them. The offers are the answers of `MevBundles`. A
  panic ends the run.
-/
def TxPool.serve
    (pool : TxPool Tx) :
    List (Request Tx) → Option (TxPool Tx × List (Offer Tx))
| [] => some (pool, [])
| .add call :: requests =>
    TxPool.serve (pool.step host call) requests
| .mevBundles bundleFetcher slot :: requests => do
    let (pool, offer) ← pool.mevBundlesFor bundleFetcher
      slot.number slot.timestamp
    let (pool, offers) ← TxPool.serve pool requests
    return (pool, offer :: offers)

/- The calls that add bundles. -/
def addCalls
    (requests : List (Request Tx)) : List (Call Tx) :=
  requests.flatMap (fun
    | .add call => [call]
    | .mevBundles _ _ => [])

/- The blocks bundles are asked for. -/
def slots (requests : List (Request Tx)) : List Slot :=
  requests.flatMap (fun
    | .add _ => []
    | .mevBundles _ slot => [slot])

/- To the bundles, a request for a block is a sweep. -/
def Request.event :
    Request Tx → SweptLog.Event (MevBundle Tx) Slot
| .add call => .add (call.bundles host)
| .mevBundles _ slot => .sweep slot

/- Bundles that no later block is past. -/
def surviving
    (requests : List (Request Tx)) : List (MevBundle Tx) :=
  SweptLog.survivors MevBundle.isOutdated
    (requests.map (Request.event host))

theorem sweeps_event
    (requests : List (Request Tx)) :
    SweptLog.sweeps (requests.map (Request.event host)) =
      slots requests := by
  induction requests with
  | nil => rfl
  | cons request requests ih =>
      rw [List.map_cons, SweptLog.sweeps_cons, ih]
      cases request with
      | add call => rfl
      | mevBundles bundleFetcher slot => rfl

theorem added_event
    (requests : List (Request Tx)) :
    SweptLog.added (requests.map (Request.event host)) =
      submitted host (addCalls requests) := by
  induction requests with
  | nil => rfl
  | cons request requests ih =>
      rw [List.map_cons, SweptLog.added_cons, ih]
      cases request with
      | add call => rfl
      | mevBundles bundleFetcher slot => rfl

/- A call of `MevBundles` that returns is as specified. -/
theorem mevBundlesFor_spec
    {bundleFetcher : Option Fetcher}
    {slot : Slot}
    {pool after : TxPool Tx}
    {offer : Offer Tx}
    (hCall :
      pool.mevBundlesFor bundleFetcher slot.number
        slot.timestamp = some (after, offer)) :
    (∀ b ∈ pool.mevBundles, b.isReadable slot = true) ∧
      after =
        { pool with
          mevBundles := pool.mevBundles.filter
            (fun b => !b.isOutdated slot) } ∧
      offer =
        offerFrom bundleFetcher slot pool.mevBundles := by
  have hReadable :
      ∀ b ∈ pool.mevBundles, b.isReadable slot = true := by
    intro b hb
    by_contra hNot
    rw [mevBundlesFor_eq_none bundleFetcher slot pool hb
      (by simpa using hNot)] at hCall
    cases hCall
  rw [mevBundlesFor_eq_some bundleFetcher slot pool
    hReadable] at hCall
  cases hCall
  exact ⟨hReadable, rfl, rfl⟩

/- What is written does not depend on the pool's bundles. -/
theorem disk_run
    (calls : List (Call Tx))
    {pool other : TxPool Tx}
    (hDisk : pool.disk = other.disk) :
    (pool.run host calls).disk =
      (other.run host calls).disk := by
  induction calls generalizing pool other with
  | nil => exact hDisk
  | cons call calls ih =>
      apply ih
      simp [step_eq, TxPool.addMevBundles, hDisk]

/-
  The pool after any run, in which blocks may be asked for in
  any order: the log swept by them, and the files of the calls
  that add bundles alone.
-/
theorem serve_run
    {requests : List (Request Tx)}
    {pool after : TxPool Tx}
    {offers : List (Offer Tx)}
    (hServe :
      pool.serve host requests = some (after, offers)) :
    after.mevBundles =
        SweptLog.run MevBundle.isOutdated pool.mevBundles
          (requests.map (Request.event host)) ∧
      after.disk =
        (pool.run host (addCalls requests)).disk := by
  induction requests generalizing pool offers with
  | nil =>
      cases hServe
      exact ⟨rfl, rfl⟩
  | cons request requests ih =>
      cases request with
      | add call =>
          rcases ih hServe with ⟨hBundles, hDisk⟩
          refine ⟨?_, hDisk⟩
          rw [hBundles, step_eq]
          rfl
      | mevBundles bundleFetcher slot =>
          simp only [TxPool.serve, Option.bind_eq_bind,
            Option.bind_eq_some_iff] at hServe
          rcases hServe with
            ⟨⟨next, offer⟩, hCall, ⟨last, rest⟩, hRest, hEnd⟩
          cases hEnd
          rcases mevBundlesFor_spec hCall with
            ⟨_, hNext, _⟩
          rcases ih hRest with ⟨hBundles, hDisk⟩
          refine ⟨?_, ?_⟩
          · rw [hBundles, hNext]
            rfl
          · rw [hDisk]
            exact disk_run host _ (by rw [hNext])

theorem serve_append
    (requests more : List (Request Tx))
    (pool : TxPool Tx) :
    pool.serve host (requests ++ more) = (do
      let (pool, offers) ← pool.serve host requests
      let (pool, others) ← pool.serve host more
      return (pool, offers ++ others)) := by
  induction requests generalizing pool with
  | nil =>
      simp [TxPool.serve]
  | cons request requests ih =>
      cases request with
      | add call => exact ih (pool.step host call)
      | mevBundles bundleFetcher slot =>
          simp [TxPool.serve, ih, Option.bind_assoc]

/-
  Over every run, in whatever order blocks are asked for, the
  pool holds of what was submitted, in order, exactly what no
  later block was past. What it offers for a block is picked
  from these. Nothing else is lost, comes back or changes
  place, and the leak is that of the calls alone.
-/
theorem serve_survivors
    (files : Files)
    (requests : List (Request Tx))
    (bundleFetcher : Option Fetcher)
    (slot : Slot)
    {after : TxPool Tx}
    {offers : List (Offer Tx)}
    (hServe :
      TxPool.serve host ⟨[], Disk.start files⟩
        (requests ++ [.mevBundles bundleFetcher slot]) =
          some (after, offers)) :
    after.mevBundles =
        (surviving host requests).filter
          (fun b => !b.isOutdated slot) ∧
      offers.getLast? =
        some (offerFrom bundleFetcher slot
          (surviving host requests)) ∧
      after.disk =
        (TxPool.run host ⟨[], Disk.start files⟩
          (addCalls requests)).disk := by
  rw [serve_append] at hServe
  simp only [TxPool.serve, Option.bind_eq_bind,
    Option.bind_eq_some_iff] at hServe
  rcases hServe with
    ⟨⟨before, earlier⟩, hBefore, ⟨last, others⟩, hLast, hEnd⟩
  rcases hLast with
    ⟨⟨next, offer⟩, hCall, ⟨_, hNil, hPure⟩⟩
  cases hNil
  cases hPure
  cases hEnd
  rcases serve_run host hBefore with ⟨hBundles, hDisk⟩
  rcases mevBundlesFor_spec hCall with ⟨_, hNext, hOffer⟩
  have hHeld :
      before.mevBundles = surviving host requests := by
    rw [hBundles, SweptLog.run_eq]
    rfl
  rw [hHeld] at hNext hOffer
  refine ⟨by rw [hNext], ?_, by rw [hNext, hDisk]⟩
  simp [hOffer]

/- A bundle for block 7 and what is asked for around it. -/
def sampleRequests : List (Request Bytes) :=
  [.mevBundles none ⟨9, 100⟩,
   .add (.addMevBundle
    (sampleArgs sampleTarget [sampleTransfer 1])),
   .mevBundles none ⟨6, 101⟩]

theorem serve_survivors_sample :
    ∃ after offers,
      TxPool.serve (sampleHost sampleScript)
        ⟨[], Disk.start fun _ => none⟩
        (sampleRequests ++ [.mevBundles none ⟨7, 102⟩]) =
          some (after, offers) ∧
      after.mevBundles =
        (surviving (sampleHost sampleScript)
          sampleRequests).filter
          (fun b => !b.isOutdated ⟨7, 102⟩) ∧
      after.mevBundles.length = 1 := by
  have hSome :
      (TxPool.serve (sampleHost sampleScript)
        ⟨[], Disk.start fun _ => none⟩
        (sampleRequests ++
          [.mevBundles none ⟨7, 102⟩])).isSome = true := by
    decide +kernel
  rcases Option.isSome_iff_exists.mp hSome with
    ⟨⟨after, offers⟩, hServe⟩
  have hAll := serve_survivors (sampleHost sampleScript)
    (fun _ => none) sampleRequests none ⟨7, 102⟩ hServe
  refine ⟨after, offers, hServe, hAll.1, ?_⟩
  rw [hAll.1]
  decide +kernel

------------------------------------------------------------
-- A Pool that Keeps Everything
------------------------------------------------------------

/-
  The pool as its callers see it. It holds all that was ever
  submitted, drops nothing, and answers by looking through
  all of it.
-/
def archiveServe
    (archive : List (MevBundle Tx)) :
    List (Request Tx) → Option (List (Offer Tx))
| [] => some []
| .add call :: requests =>
    archiveServe (archive ++ call.bundles host) requests
| .mevBundles bundleFetcher slot :: requests =>
    if archive.all (·.isReadable slot) then do
      let offers ← archiveServe archive requests
      return offerFrom bundleFetcher slot archive :: offers
    else none

/- The block does not come before the other. -/
def Slot.le (earlier later : Slot) : Prop :=
  earlier.number ≤ later.number ∧
    earlier.timestamp ≤ later.timestamp

theorem isExpired_of_le
    {earlier later : UInt64}
    (hLe : earlier ≤ later)
    {b : MevBundle Tx}
    (hExpired : b.isExpired earlier = true) :
    b.isExpired later = true := by
  simp only [MevBundle.isExpired, Bool.and_eq_true,
    decide_eq_true_eq] at hExpired ⊢
  exact ⟨hExpired.1, UInt64.lt_of_lt_of_le hExpired.2 hLe⟩

/- An outdated bundle is no bundle of a later block. -/
theorem not_isOutdated_of_isValid
    {earlier later : Slot}
    (hLe : earlier.le later)
    {b : MevBundle Tx}
    (hValid : b.isValid later = true) :
    b.isOutdated earlier = false := by
  simp only [MevBundle.isValid, Bool.and_eq_true,
    Bool.not_eq_true', beq_iff_eq] at hValid
  rcases hValid with ⟨⟨hNumber, hTime⟩, _⟩
  have hBefore : b.isExpired earlier.timestamp = false := by
    by_contra hNot
    rw [isExpired_of_le hLe.2 (by simpa using hNot)] at hTime
    cases hTime
  have hNumbers := hLe.1
  simp only [MevBundle.isOutdated, hNumber, hBefore,
    Bool.false_or, decide_eq_false_iff_not]
  omega

/- Nor is a bundle that a later block cannot compare. -/
theorem not_isOutdated_of_not_isReadable
    {earlier later : Slot}
    (hLe : earlier.le later)
    {b : MevBundle Tx}
    (hNil : b.isReadable later = false) :
    b.isOutdated earlier = false := by
  simp only [MevBundle.isReadable, Bool.or_eq_false_iff,
    Option.isSome_eq_false_iff, Option.isNone_iff_eq_none]
    at hNil
  rcases hNil with ⟨hNumber, hTime⟩
  have hBefore : b.isExpired earlier.timestamp = false := by
    by_contra hNot
    rw [isExpired_of_le hLe.2 (by simpa using hNot)] at hTime
    cases hTime
  simp [MevBundle.isOutdated, hNumber, hBefore]

theorem find_congr_of_filter
    {p : MevBundle Tx → Bool}
    {held archive : List (MevBundle Tx)}
    (hFilter : held.filter p = archive.filter p) :
    held.find? p = archive.find? p := by
  rw [← List.head?_filter, hFilter, List.head?_filter]

/-
  A swept pool makes the same offer as the whole archive, when
  it was swept for no later block.
-/
theorem offerFrom_congr
    {held archive : List (MevBundle Tx)}
    {slot : Slot}
    (hSame :
      ∀ wanted : MevBundle Tx → Bool,
        (∀ b, wanted b = true → b.isValid slot = true) →
        held.filter wanted = archive.filter wanted)
    (bundleFetcher : Option Fetcher) :
    offerFrom bundleFetcher slot held =
      offerFrom bundleFetcher slot archive := by
  unfold offerFrom
  congr 1
  · exact hSame _ (fun b hb => (Bool.and_eq_true_iff.mp hb).1)
  · unfold latestValid
    split
    · congr 1
      funext lub
      apply find_congr_of_filter
      apply hSame
      intro b hb
      simp only [Bool.and_eq_true] at hb
      exact hb.1.1
    · rfl

/-
  The pool has been swept for blocks before those to come,
  and the archive has not.
-/
structure Simulates
    (upcoming : List Slot)
    (held archive : List (MevBundle Tx))
    (past : List (SweptLog.Event (MevBundle Tx) Slot)) :
    Prop where
  held_eq :
    held = SweptLog.run MevBundle.isOutdated [] past
  archive_eq : archive = SweptLog.added past
  le :
    ∀ earlier ∈ SweptLog.sweeps past,
      ∀ later ∈ upcoming, earlier.le later

theorem Simulates.filter_eq
    {upcoming : List Slot}
    {held archive : List (MevBundle Tx)}
    {past : List (SweptLog.Event (MevBundle Tx) Slot)}
    (hSim : Simulates upcoming held archive past)
    {slot : Slot}
    (hSlot : slot ∈ upcoming)
    (wanted : MevBundle Tx → Bool)
    (hWanted :
      ∀ earlier : Slot, earlier.le slot →
        ∀ b, wanted b = true →
          b.isOutdated earlier = false) :
    held.filter wanted = archive.filter wanted := by
  rw [hSim.held_eq, hSim.archive_eq,
    SweptLog.filter_run MevBundle.isOutdated wanted [] past]
  · simp
  · intro earlier hEarlier
    exact hWanted earlier (hSim.le earlier hEarlier slot hSlot)

/- The pool panics for the block if the archive does. -/
theorem Simulates.all_isReadable
    {upcoming : List Slot}
    {held archive : List (MevBundle Tx)}
    {past : List (SweptLog.Event (MevBundle Tx) Slot)}
    (hSim : Simulates upcoming held archive past)
    {slot : Slot}
    (hSlot : slot ∈ upcoming) :
    held.all (·.isReadable slot) =
      archive.all (·.isReadable slot) := by
  have hNil := hSim.filter_eq hSlot
    (fun b => !b.isReadable slot)
    (fun earlier hLe b hb =>
      not_isOutdated_of_not_isReadable hLe (by simpa using hb))
  rw [Bool.eq_iff_iff]
  have hEmpty := congrArg (· = []) hNil
  simpa [List.filter_eq_nil_iff] using hEmpty

/- A block is asked for. -/
theorem Simulates.sweep
    {slot : Slot}
    {upcoming : List Slot}
    {held archive : List (MevBundle Tx)}
    {past : List (SweptLog.Event (MevBundle Tx) Slot)}
    (hSim : Simulates (slot :: upcoming) held archive past)
    (hForward : (slot :: upcoming).Pairwise Slot.le) :
    Simulates upcoming
      (held.filter (fun b => !b.isOutdated slot)) archive
      (past ++ [.sweep slot]) := by
  constructor
  · simp [hSim.held_eq, SweptLog.run, SweptLog.step]
  · simp [hSim.archive_eq, SweptLog.added,
      SweptLog.Event.entries]
  · intro earlier hEarlier later hLater
    simp only [SweptLog.sweeps, SweptLog.Event.sweeps,
      List.flatMap_append, List.flatMap_cons,
      List.flatMap_nil, List.append_nil, List.mem_append,
      List.mem_singleton] at hEarlier
    rcases hEarlier with hPast | rfl
    · exact hSim.le earlier hPast later
        (List.mem_cons_of_mem slot hLater)
    · exact (List.pairwise_cons.mp hForward).1 later hLater

theorem serve_eq_archiveServe
    (past : List (SweptLog.Event (MevBundle Tx) Slot))
    {requests : List (Request Tx)}
    {pool : TxPool Tx}
    {archive : List (MevBundle Tx)}
    (hForward : (slots requests).Pairwise Slot.le)
    (hSim :
      Simulates (slots requests) pool.mevBundles archive
        past) :
    (pool.serve host requests).map Prod.snd =
      archiveServe host archive requests := by
  induction requests generalizing pool archive past with
  | nil => rfl
  | cons request requests ih =>
      cases request with
      | add call =>
          apply ih (past ++ [.add (call.bundles host)])
            hForward
          constructor
          · rw [step_eq]
            simp [TxPool.addMevBundles, hSim.held_eq,
              SweptLog.run, SweptLog.step]
          · simp [hSim.archive_eq, SweptLog.added,
              SweptLog.Event.entries]
          · intro earlier hEarlier
            apply hSim.le
            simpa [SweptLog.sweeps, SweptLog.Event.sweeps]
              using hEarlier
      | mevBundles bundleFetcher slot =>
          have hSlot :
              slot ∈ slots
                (.mevBundles bundleFetcher slot ::
                  requests) := by
            simp [slots]
          have hAll := hSim.all_isReadable hSlot
          by_cases hReadable :
              archive.all (·.isReadable slot) = true
          · have hOffer :=
              offerFrom_congr
                (fun wanted hWanted =>
                  hSim.filter_eq hSlot wanted
                    (fun earlier hLe b hb =>
                      not_isOutdated_of_isValid hLe
                        (hWanted b hb)))
                bundleFetcher
            have hCall :=
              mevBundlesFor_eq_some bundleFetcher slot pool
                (List.all_eq_true.mp (hAll.trans hReadable))
            let swept : TxPool Tx :=
              { pool with
                mevBundles := pool.mevBundles.filter
                  (fun b => !b.isOutdated slot) }
            have hSwept :
                Simulates (slots requests)
                  swept.mevBundles archive
                  (past ++ [.sweep slot]) :=
              hSim.sweep hForward
            have hRest :=
              ih _ (List.pairwise_cons.mp hForward).2 hSwept
            rw [TxPool.serve, archiveServe, hCall, hOffer,
              if_pos hReadable, ← hRest]
            change Option.map Prod.snd
              ((swept.serve host requests).bind
                (fun result => some (result.1,
                  offerFrom bundleFetcher slot archive ::
                    result.2))) = _
            cases swept.serve host requests with
            | none => rfl
            | some result => rfl
          · have hSome :
                ∃ b ∈ pool.mevBundles,
                  b.isReadable slot = false := by
              rw [← hAll] at hReadable
              simpa using hReadable
            rcases hSome with ⟨b, hb, hNil⟩
            rw [TxPool.serve, archiveServe,
              mevBundlesFor_eq_none bundleFetcher slot pool
                hb hNil, if_neg hReadable]
            rfl

/-
  As long as the blocks asked for do not go back, in number
  or in time, dropping outdated bundles is not observable:
  the pool answers, and panics, as one that keeps everything.
-/
theorem serve_eq_archive
    (files : Files)
    (requests : List (Request Tx))
    (hForward : (slots requests).Pairwise Slot.le) :
    (TxPool.serve host ⟨[], Disk.start files⟩
        requests).map Prod.snd =
      archiveServe host [] requests :=
  serve_eq_archiveServe host [] hForward
    ⟨rfl, rfl, fun _ hEarlier => by cases hEarlier⟩

/- Bundles for block 7, and the blocks up to it. -/
def sampleForward : List (Request Bytes) :=
  [.add (.addMevBundle
    (sampleArgs sampleTarget [sampleTransfer 1])),
   .mevBundles none ⟨6, 101⟩,
   .add (.addMevBundle
    (sampleArgs 0x22 [sampleTransfer 2])),
   .mevBundles none ⟨7, 102⟩,
   .mevBundles none ⟨8, 103⟩]

theorem serve_eq_archive_sample :
    (slots sampleForward).Pairwise Slot.le ∧
      (TxPool.serve (sampleHost sampleScript)
        ⟨[], Disk.start fun _ => none⟩
        sampleForward).map Prod.snd =
          archiveServe (sampleHost sampleScript) []
            sampleForward := by
  have hForward :
      (slots sampleForward).Pairwise Slot.le := by
    simp [slots, sampleForward, Slot.le]
  exact ⟨hForward,
    serve_eq_archive (sampleHost sampleScript)
      (fun _ => none) sampleForward hForward⟩

/-
  Going back is observable: after a block past the bundle, the
  bundle's own block no longer gets it.
-/
example :
    ((TxPool.serve (sampleHost sampleScript)
        ⟨[], Disk.start fun _ => none⟩
        (sampleForward ++
          [.mevBundles none ⟨7, 102⟩])).map
      (fun result => result.2.map (·.bundles.length))) =
        some [0, 2, 0, 0] := by
  decide +kernel

end Builder
