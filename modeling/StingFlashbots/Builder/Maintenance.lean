import StingFlashbots.Builder.Accounting
import StingFlashbots.Builder.ReferenceLists

/-
  The pool between two blocks.

  Transactions that can be executed become pending, those
  that no longer can go back to the queue or are dropped,
  and lists that are too long are cut. All of it is done in
  loops over maps and lists, and every round leaves the pool
  in balance, with nothing in hand.

  Key definitions include:
    * `Builder.Mempool.promoteExecutables`
    * `Builder.Mempool.demoteUnexecutables`
    * `Builder.Mempool.truncatePending`
    * `Builder.Mempool.truncateQueue`
    * `Builder.Mempool.runReorg`
    * `Builder.Mempool.run`

  Main results:
    * `Builder.Mempool.Accounted.run`
    * `Builder.Mempool.run_accounted`
-/

namespace Builder

namespace Mempool

open Sting

variable {Tx L N : Type}
variable (types : PoolTypes Tx L N)

------------------------------------------------------------
-- Promoting and Demoting
------------------------------------------------------------

/- One round of the loop over what is ready. -/
def promoteOne
    (now : Nat)
    (addr : Address)
    (acc : Mempool Tx L N × List Tx)
    (tx : Tx) : Mempool Tx L N × List Tx :=
  let result := promoteTx types now acc.1 addr tx
  (result.2, if result.1 then acc.2 ++ [tx] else acc.2)

/- Transactions of a queue that are too old are dropped. -/
def dropOldQueued
    (pool : Mempool Tx L N)
    (addr : Address)
    (list : L) : Mempool Tx L N × L :=
  let forwards := types.lists.forward list
    (pool.currentState.getNonce addr)
  (forwards.1.foldl (forget types)
    (pool.setQueue addr forwards.2), forwards.2)

/- Transactions of a queue that cost too much are dropped. -/
def dropCostlyQueued
    (pool : Mempool Tx L N)
    (addr : Address)
    (list : L) : Mempool Tx L N × L :=
  let drops := types.lists.filter list
    (pool.currentState.getBalance addr) pool.currentMaxGas
  (drops.1.1.foldl (forget types)
    (pool.setQueue addr drops.2), drops.2)

/- What is ready is promoted. -/
def promoteReady
    (now : Nat)
    (pool : Mempool Tx L N)
    (promoted : List Tx)
    (addr : Address)
    (list : L) : (Mempool Tx L N × List Tx) × L :=
  let readies := types.lists.ready list
    (types.noncers.get pool.pendingNonces addr)
  (readies.1.foldl (promoteOne types now addr)
    (pool.setQueue addr readies.2, promoted), readies.2)

/-
  A queue over its limit is cut, unless it is local. From
  `2 ^ 63` on the limit is negative as an `int`, and `Cap`
  panics.
-/
def dropCappedQueued
    (pool : Mempool Tx L N)
    (addr : Address)
    (list : L) : Option (Mempool Tx L N × L) :=
  if pool.locals.contains addr then some (pool, list)
  else if 2 ^ 63 ≤ pool.config.accountQueue.toNat then
    none
  else
    let caps := types.lists.cap list
      pool.config.accountQueue.toNat
    some (caps.1.foldl (forget types)
      (pool.setQueue addr caps.2), caps.2)

/- The body of the loop of `promoteExecutables`. -/
def promoteAccount
    (now : Nat)
    (acc : Mempool Tx L N × List Tx)
    (addr : Address) : Option (Mempool Tx L N × List Tx) :=
  match acc.1.queue.lookup addr with
  | none => some acc
  | some list => do
      let (pool, list) :=
        dropOldQueued types acc.1 addr list
      let (pool, list) := dropCostlyQueued types pool addr list
      let ((pool, promoted), list) :=
        promoteReady types now pool acc.2 addr list
      let (pool, list) ←
        dropCappedQueued types pool addr list
      some (dropEmptyQueue types pool addr list, promoted)

/- `promoteExecutables`, which may panic -/
def promoteExecutables
    (now : Nat)
    (pool : Mempool Tx L N)
    (accounts : List Address) :
    Option (Mempool Tx L N × List Tx) :=
  accounts.foldlM (promoteAccount types now) (pool, [])

/- Pending transactions that are too old are dropped. -/
def dropOldPending
    (pool : Mempool Tx L N)
    (addr : Address)
    (list : L) : Mempool Tx L N × L :=
  let olds := types.lists.forward list
    (pool.currentState.getNonce addr)
  (olds.1.foldl (forget types)
    (pool.setPending addr olds.2), olds.2)

/-
  Pending transactions that cost too much are dropped, and
  those behind them go back to the queue.
-/
def dropCostlyPending
    (now : Nat)
    (pool : Mempool Tx L N)
    (addr : Address)
    (list : L) : Mempool Tx L N × L :=
  let drops := types.lists.filter list
    (pool.currentState.getBalance addr) pool.currentMaxGas
  let pool := drops.1.1.foldl (forget types)
    (pool.setPending addr drops.2)
  (drops.1.2.foldl (requeue types now) pool, drops.2)

/- A list with a gap in front goes back to the queue. -/
def closeGap
    (now : Nat)
    (pool : Mempool Tx L N)
    (addr : Address)
    (list : L) : Mempool Tx L N × L :=
  if 0 < types.lists.len list ∧
      types.lists.get list
        (pool.currentState.getNonce addr) = none then
    let gapped := types.lists.cap list 0
    (gapped.1.foldl (requeue types now)
      (pool.setPending addr gapped.2), gapped.2)
  else
    (pool, list)

/- The body of the loop of `demoteUnexecutables`. -/
def demoteAccount
    (now : Nat)
    (pool : Mempool Tx L N)
    (addr : Address) : Mempool Tx L N :=
  match pool.pending.lookup addr with
  | none => pool
  | some list =>
      let (pool, list) := dropOldPending types pool addr list
      let (pool, list) :=
        dropCostlyPending types now pool addr list
      let (pool, list) := closeGap types now pool addr list
      dropEmptyPending types pool addr list

/- `demoteUnexecutables`, in the order of the map -/
def demoteUnexecutables
    (now : Nat)
    (pool : Mempool Tx L N)
    (order : List Address) : Mempool Tx L N :=
  order.foldl (demoteAccount types now) pool

------------------------------------------------------------
-- Truncating the Pending Lists
------------------------------------------------------------

/- The number of transactions in all lists. -/
def lenAll (map : ListMap L) : Nat :=
  Tally.total types.lists.len map

/- The number of transactions in the list of an account. -/
def lenAt (map : ListMap L) (addr : Address) : Nat :=
  Tally.part types.lists.len addr map

/- A transaction is dropped, and its nonce is free again. -/
def dropCapped
    (addr : Address)
    (pool : Mempool Tx L N)
    (tx : Tx) : Mempool Tx L N :=
  { forget types pool tx with
    pendingNonces :=
      types.noncers.setIfLower pool.pendingNonces addr
        (types.view.nonce tx) }

/- One transaction less for an offender. -/
def trim
    (pool : Mempool Tx L N)
    (addr : Address) : Mempool Tx L N :=
  match pool.pending.lookup addr with
  | none => pool
  | some list =>
      let caps := types.lists.cap list
        (types.lists.len list - 1)
      caps.1.foldl (dropCapped types addr)
        (pool.setPending addr caps.2)

/-
  Trim all of them, round by round, until there is room or
  the list of the last one is short enough.
-/
def trimRounds
    (globalSlots bound : Nat)
    (offenders : List Address)
    (last : Address) :
    Nat → Mempool Tx L N × Nat → Mempool Tx L N × Nat
| 0, acc => acc
| fuel + 1, (pool, pending) =>
    if globalSlots < pending ∧
        bound < lenAt types pool.pending last then
      trimRounds globalSlots bound offenders last fuel
        (offenders.foldl (trim types) pool,
          pending - offenders.length)
    else
      (pool, pending)

/-
  Take the next offender and bring those before down to its
  length. The last offender so far stands at the end.
-/
def equalize
    (globalSlots : Nat) :
    List Address → List Address → Mempool Tx L N × Nat →
      List Address × (Mempool Tx L N × Nat)
| offenders, [], acc => (offenders, acc)
| offenders, offender :: spammers, (pool, pending) =>
    if globalSlots < pending then
      let acc :=
        match offenders.getLast? with
        | none => (pool, pending)
        | some last =>
            trimRounds types globalSlots
              (lenAt types pool.pending offender) offenders
              last pending (pool, pending)
      equalize globalSlots (offenders ++ [offender]) spammers
        acc
    else
      (offenders, (pool, pending))

/- The accounts that may have to give up transactions. -/
def isSpammer
    (pool : Mempool Tx L N)
    (addr : Address) : Prop :=
  pool.locals.contains addr = false ∧
    pool.config.accountSlots.toNat <
      lenAt types pool.pending addr

/-
  `truncatePending`. The queue of spammers hands them out in
  the given order.
-/
def truncatePending
    (pool : Mempool Tx L N)
    (spammers : List Address) : Mempool Tx L N :=
  let globalSlots := pool.config.globalSlots.toNat
  let pending := lenAll types pool.pending
  if pending ≤ globalSlots then pool
  else
    let result :=
      equalize types globalSlots [] spammers (pool, pending)
    match result.1.getLast? with
    | none => result.2.1
    | some last =>
        (trimRounds types globalSlots
          pool.config.accountSlots.toNat result.1 last
          result.2.2 result.2).1

------------------------------------------------------------
-- Truncating the Queues
------------------------------------------------------------

/- The loop of `truncateQueue` over the accounts. -/
def dropQueued
    (now : Nat) :
    List Address → Nat → Mempool Tx L N → Mempool Tx L N
| [], _, pool => pool
| _ :: _, 0, pool => pool
| addr :: addresses, drop + 1, pool =>
    match pool.queue.lookup addr with
    | none => dropQueued now addresses (drop + 1) pool
    | some list =>
        let txs := types.lists.flatten list
        if types.lists.len list ≤ drop + 1 then
          dropQueued now addresses
            (drop + 1 - types.lists.len list)
            (removeTxs types now pool txs)
        else
          dropQueued now addresses 0
            (removeTxs types now pool
              (txs.reverse.take (drop + 1)))

/-
  `truncateQueue`. The accounts come in the order of their
  heartbeats, the longest silent one first.
-/
def truncateQueue
    (now : Nat)
    (pool : Mempool Tx L N)
    (addresses : List Address) : Mempool Tx L N :=
  let queued := lenAll types pool.queue
  let globalQueue := pool.config.globalQueue.toNat
  if queued ≤ globalQueue then pool
  else
    dropQueued types now addresses (queued - globalQueue) pool

/- An account that was silent for too long. -/
def isStale
    (now : Nat)
    (pool : Mempool Tx L N)
    (addr : Address) : Bool :=
  match pool.beats.lookup addr with
  | none => true
  | some beat => pool.config.lifetime < now - beat

/- The eviction of `loop`, in the order of the map. -/
def evict
    (now : Nat)
    (pool : Mempool Tx L N)
    (order : List Address) : Mempool Tx L N :=
  order.foldl
    (fun pool addr =>
      match pool.queue.lookup addr with
      | none => pool
      | some list =>
          if !pool.locals.contains addr &&
              isStale now pool addr then
            removeTxs types now pool (types.lists.flatten list)
          else
            pool)
    pool

/- `SetGasPrice`, in the order of the remote transactions -/
def setGasPrice
    (now : Nat)
    (pool : Mempool Tx L N)
    (price : Int)
    (remotes : List Bytes) : Mempool Tx L N :=
  let raised := { pool with gasPrice := price }
  if pool.gasPrice < price then
    removeTxs types now raised
      (pool.all.remotesBelowTip types.view remotes price)
  else
    raised

------------------------------------------------------------
-- Adding a Batch
------------------------------------------------------------

/- What became of a batch. -/
structure Added (Tx L N : Type) where
  errs : List (Option PoolError)
  dirty : AccountSet
  pool : Mempool Tx L N

/- The error of one call of `add`. -/
def errOf : Except PoolError Bool → Option PoolError
| .ok _ => none
| .error err => some err

/- Accounts with something new are dirty. -/
def markDirty
    (dirty : AccountSet)
    (tx : Tx) : Except PoolError Bool → AccountSet
| .ok false => dirty.addTx types.view tx
| .ok true => dirty
| .error _ => dirty

/-
  `addTxsLocked`, from the `i`-th call on. There are answers
  for each call.
-/
def addTxsLocked
    (answers : Nat → AddAnswers Tx)
    (now : Nat)
    (fromLocal : Bool) :
    Nat → Mempool Tx L N → AccountSet → List Tx →
      Added Tx L N
| _, pool, dirty, [] => ⟨[], dirty, pool⟩
| i, pool, dirty, tx :: txs =>
    let result := add types (answers i) now pool tx fromLocal
    let rest := addTxsLocked answers now fromLocal (i + 1)
      result.2 (markDirty types dirty tx result.1) txs
    { rest with errs := errOf result.1 :: rest.errs }

------------------------------------------------------------
-- Resets
------------------------------------------------------------

/- `params.ChainConfig` -/
structure ChainConfig where
  isIstanbul : Nat → Bool
  isBerlin : Nat → Bool
  isLondon : Nat → Bool
  isShanghai : Nat → Bool

/- Everything outside the pool that a reset reads. -/
structure ResetWorld (Tx : Type) where
  chain : BlockChain Tx StateView
  chainconfig : ChainConfig
  answers : Nat → AddAnswers Tx

/- `time.Now().Unix()`, of a time in nanoseconds -/
def unixSeconds (now : Nat) : Nat := now / 10 ^ 9

/- `reset`, which may panic -/
def reset
    (world : ResetWorld Tx)
    (now : Nat)
    (pool : Mempool Tx L N)
    (oldHead newHead : Option Header) :
    Option (Mempool Tx L N) :=
  match world.chain.reinject types.view.toTxTypes oldHead
      newHead with
  | .error .panic => none
  | .error _ => some pool
  | .ok txs =>
      let head := newHead.getD world.chain.currentBlock
      match world.chain.stateAt head.root with
      | .error _ => some pool
      | .ok state =>
          let pool :=
            { pool with
              currentState := state
              pendingNonces := types.noncers.newNoncer state
              currentMaxGas := head.gasLimit }
          let pool := (addTxsLocked types world.answers now
            false 0 pool .empty txs).pool
          let next := head.number.toNat + 1
          some { pool with
            istanbul := world.chainconfig.isIstanbul next
            eip2718 := world.chainconfig.isBerlin next
            eip1559 := world.chainconfig.isLondon next
            shanghai := world.chainconfig.isShanghai
              (unixSeconds now) }

/- The nonce behind the last pending transaction. -/
def nextNonces
    (pool : Mempool Tx L N) : List (Address × UInt64) :=
  pool.pending.entries.filterMap (fun e =>
    (types.lists.flatten e.2).getLast?.map (fun tx =>
      (e.1, types.view.nonce tx + 1)))

/- All accounts get the latest pending nonce. -/
def updateNonces
    (pool : Mempool Tx L N) : Mempool Tx L N :=
  { pool with
    pendingNonces := types.noncers.setAll
      pool.pendingNonces (nextNonces types pool) }

/- The orders of the maps a run goes through. -/
structure RunOrders where
  queue : List Address
  pending : List Address
  spammers : List Address
  heartbeats : List Address

/- What `runReorg` is asked to do. -/
inductive ReorgWork where
| promote (accounts : List Address)
| reset (oldHead newHead : Option Header)

/- `runReorg`, up to the events -/
def runReorg
    (world : ResetWorld Tx)
    (now : Nat)
    (orders : RunOrders)
    (pool : Mempool Tx L N) :
    ReorgWork → Option (Mempool Tx L N)
| .promote accounts => do
    let (pool, _) ←
      promoteExecutables types now pool accounts
    let pool := truncatePending types pool orders.spammers
    let pool := truncateQueue types now pool orders.heartbeats
    some { pool with changesSinceReorg := 0 }
| .reset oldHead newHead => do
    let pool ← reset types world now pool oldHead newHead
    let (pool, _) ←
      promoteExecutables types now pool orders.queue
    let pool :=
      demoteUnexecutables types now pool orders.pending
    let pool := updateNonces types pool
    let pool := truncatePending types pool orders.spammers
    let pool := truncateQueue types now pool orders.heartbeats
    some { pool with changesSinceReorg := 0 }

------------------------------------------------------------
-- Runs
------------------------------------------------------------

/- A pool without transactions, before its first reset. -/
def empty (config : Config) : Mempool Tx L N :=
  let state : StateView := ⟨fun _ => 0, fun _ => 0⟩
  { config := config
    gasPrice := config.priceLimit.toNat
    istanbul := false
    eip2718 := false
    eip1559 := false
    shanghai := false
    currentState := state
    pendingNonces := types.noncers.newNoncer state
    currentMaxGas := 0
    locals := .ofList config.locals
    pending := ∅
    queue := ∅
    beats := ∅
    all := .new
    changesSinceReorg := 0 }

/- `NewTxPool` -/
def newTxPool
    (config : Config)
    (world : ResetWorld Tx)
    (now : Nat) : Option (Mempool Tx L N) :=
  reset types world now (empty types config.sanitize) none
    (some world.chain.currentBlock)

/- What is done to the pool while its lock is held. -/
inductive PoolCall (Tx : Type) where
| addTxs
    (answers : Nat → AddAnswers Tx)
    (txs : List Tx)
    (fromLocal : Bool)
| runReorg
    (world : ResetWorld Tx)
    (orders : RunOrders)
    (work : ReorgWork)
| evict (order : List Address)
| setGasPrice
    (price : Int)
    (remotes : List Bytes)

/- One call at one time. -/
def call
    (pool : Mempool Tx L N) :
    Nat × PoolCall Tx → Option (Mempool Tx L N)
| (now, .addTxs answers txs fromLocal) =>
    some (addTxsLocked types answers now fromLocal 0 pool
      .empty txs).pool
| (now, .runReorg world orders work) =>
    runReorg types world now orders pool work
| (now, .evict order) =>
    some (evict types now pool order)
| (now, .setGasPrice price remotes) =>
    some (setGasPrice types now pool price remotes)

/- The lock orders the calls. -/
def run
    (pool : Mempool Tx L N)
    (calls : List (Nat × PoolCall Tx)) :
    Option (Mempool Tx L N) :=
  calls.foldlM (call types) pool

------------------------------------------------------------
-- Promoting and Demoting Keep the Balance
------------------------------------------------------------

variable {types}

theorem foldl_forget_queue
    (pool : Mempool Tx L N)
    (txs : List Tx) :
    (txs.foldl (forget types) pool).queue = pool.queue := by
  induction txs generalizing pool with
  | nil => rfl
  | cons tx txs ih => exact ih _

theorem foldl_forget_pending
    (pool : Mempool Tx L N)
    (txs : List Tx) :
    (txs.foldl (forget types) pool).pending =
      pool.pending := by
  induction txs generalizing pool with
  | nil => rfl
  | cons tx txs ih => exact ih _

theorem requeue_pending
    (now : Nat)
    (pool : Mempool Tx L N)
    (tx : Tx) :
    (requeue types now pool tx).pending = pool.pending := by
  unfold requeue enqueueTx
  simp only
  split <;> rfl

theorem foldl_requeue_pending
    (now : Nat)
    (pool : Mempool Tx L N)
    (txs : List Tx) :
    (txs.foldl (requeue types now) pool).pending =
      pool.pending := by
  induction txs generalizing pool with
  | nil => rfl
  | cons tx txs ih =>
      rw [List.foldl_cons, ih, requeue_pending]

theorem promoteTx_queue
    (now : Nat)
    (pool : Mempool Tx L N)
    (addr : Address)
    (tx : Tx) :
    (promoteTx types now pool addr tx).2.queue =
      pool.queue := by
  unfold promoteTx
  simp only
  split <;> rfl

theorem foldl_promoteOne_queue
    (now : Nat)
    (addr : Address)
    (acc : Mempool Tx L N × List Tx)
    (txs : List Tx) :
    (txs.foldl (promoteOne types now addr) acc).1.queue =
      acc.1.queue := by
  induction txs generalizing acc with
  | nil => rfl
  | cons tx txs ih =>
      rw [List.foldl_cons, ih]
      exact promoteTx_queue now acc.1 addr tx

namespace Accounted

variable {pool : Mempool Tx L N}
variable {loose : Multiset Tx}

/- What a queue gives up is dropped. -/
theorem drainQueue
    (hAcc : Accounted types pool 0)
    {addr : Address}
    {list list' : L}
    {out : List Tx}
    (hLookup : pool.queue.lookup addr = some list)
    (hSplit :
      listTxs types list = out + listTxs types list')
    (hStrict :
      types.lists.strict list' = types.lists.strict list) :
    (out.foldl (Mempool.forget types)
        (pool.setQueue addr list')).queue.lookup addr =
        some list' ∧
      Accounted types
        (out.foldl (Mempool.forget types)
          (pool.setQueue addr list'))
        0 := by
  have hTaken := hAcc.takeQueue hLookup hSplit hStrict
  refine ⟨?_, hTaken.foldl_hand (fun hRound => hRound.forget)⟩
  rw [foldl_forget_queue]
  exact AList.lookup_insert _

/- What a pending list gives up is dropped. -/
theorem drainPending
    (hAcc : Accounted types pool loose)
    {addr : Address}
    {list list' : L}
    {out : List Tx}
    {more : Multiset Tx}
    (hLookup : pool.pending.lookup addr = some list)
    (hSplit :
      listTxs types list =
        out + more + listTxs types list') :
    (out.foldl (Mempool.forget types)
        (pool.setPending addr list')).pending.lookup addr =
        some list' ∧
      Accounted types
        (out.foldl (Mempool.forget types)
          (pool.setPending addr list'))
        (more + loose) := by
  have hTaken := hAcc.takePending hLookup hSplit
  rw [add_assoc] at hTaken
  refine ⟨?_, hTaken.foldl_hand (fun hRound => hRound.forget)⟩
  rw [foldl_forget_pending]
  exact AList.lookup_insert _

/- What is ready becomes pending. -/
theorem promoteAll
    {addr : Address}
    {txs promoted : List Tx}
    (hAcc : Accounted types pool (txs + loose))
    (hHome : ∀ tx ∈ txs, senderOf types tx = addr)
    (now : Nat) :
    Accounted types
      (txs.foldl (promoteOne types now addr)
        (pool, promoted)).1
      loose := by
  induction txs generalizing pool promoted with
  | nil => simpa using hAcc
  | cons tx txs ih =>
      rw [← Multiset.cons_coe, Multiset.cons_add] at hAcc
      have hNext := (hAcc.promoteTx now).2
      rw [hHome tx List.mem_cons_self] at hNext
      exact ih hNext (fun tx' hTx' =>
        hHome tx' (List.mem_cons_of_mem _ hTx'))

end Accounted

/- The balance is kept, and the account has this queue. -/
structure QueueAt
    (types : PoolTypes Tx L N)
    (addr : Address)
    (state : Mempool Tx L N × L) : Prop where
  accounted : Accounted types state.1 0
  lookup : state.1.queue.lookup addr = some state.2

namespace QueueAt

variable {addr : Address}
variable {pool : Mempool Tx L N}
variable {list : L}

theorem dropOldQueued
    (hAt : QueueAt types addr (pool, list)) :
    QueueAt types addr
      (Mempool.dropOldQueued types pool addr list) := by
  rcases hAt.accounted.drainQueue hAt.lookup
    types.lists.forward_split types.lists.strict_forward with
    ⟨hLookup, hAcc⟩
  exact ⟨hAcc, hLookup⟩

theorem dropCostlyQueued
    (hAt : QueueAt types addr (pool, list)) :
    QueueAt types addr
      (Mempool.dropCostlyQueued types pool addr list) := by
  have hLax := hAt.accounted.lax addr list hAt.lookup
  have hSplit :
      listTxs types list =
        (types.lists.filter list
            (pool.currentState.getBalance addr)
            pool.currentMaxGas).1.1 +
          listTxs types
            (types.lists.filter list
              (pool.currentState.getBalance addr)
              pool.currentMaxGas).2 := by
    unfold listTxs
    rw [types.lists.filter_split,
      types.lists.filter_lax hLax, Multiset.coe_nil,
      add_zero]
  rcases hAt.accounted.drainQueue hAt.lookup hSplit
    types.lists.strict_filter with ⟨hLookup, hAcc⟩
  exact ⟨hAcc, hLookup⟩

theorem promoteReady
    (hAt : QueueAt types addr (pool, list))
    (now : Nat)
    (promoted : List Tx) :
    QueueAt types addr
      ((Mempool.promoteReady types now pool promoted addr
          list).1.1,
        (Mempool.promoteReady types now pool promoted addr
          list).2) := by
  have hTaken := hAt.accounted.takeQueue hAt.lookup
    (types.lists.ready_split
      (n := types.noncers.get pool.pendingNonces addr))
    types.lists.strict_ready
  refine ⟨hTaken.promoteAll ?_ now, ?_⟩
  · intro tx hTx
    refine hAt.accounted.queue_home addr list hAt.lookup tx ?_
    unfold listTxs
    rw [types.lists.ready_split
      (n := types.noncers.get pool.pendingNonces addr)]
    exact Multiset.mem_add.mpr (.inl hTx)
  · simp only [Mempool.promoteReady]
    rw [foldl_promoteOne_queue]
    exact AList.lookup_insert _

theorem dropCappedQueued
    (hAt : QueueAt types addr (pool, list))
    {state : Mempool Tx L N × L}
    (hOk :
      Mempool.dropCappedQueued types pool addr list =
        some state) :
    QueueAt types addr state := by
  unfold Mempool.dropCappedQueued at hOk
  split at hOk
  · rw [← Option.some.inj hOk]
    exact hAt
  · split at hOk
    · cases hOk
    · rw [← Option.some.inj hOk]
      rcases hAt.accounted.drainQueue hAt.lookup
        types.lists.cap_split types.lists.strict_cap with
        ⟨hLookup, hAcc⟩
      exact ⟨hAcc, hLookup⟩

end QueueAt

/- The balance is kept, and the account has this list. -/
structure PendingAt
    (types : PoolTypes Tx L N)
    (addr : Address)
    (state : Mempool Tx L N × L) : Prop where
  accounted : Accounted types state.1 0
  lookup : state.1.pending.lookup addr = some state.2

namespace PendingAt

variable {addr : Address}
variable {pool : Mempool Tx L N}
variable {list : L}

theorem dropOldPending
    (hAt : PendingAt types addr (pool, list)) :
    PendingAt types addr
      (Mempool.dropOldPending types pool addr list) := by
  have hSplit :
      listTxs types list =
        (types.lists.forward list
            (pool.currentState.getNonce addr)).1 + 0 +
          listTxs types
            (types.lists.forward list
              (pool.currentState.getNonce addr)).2 := by
    rw [add_zero]
    exact types.lists.forward_split
  rcases hAt.accounted.drainPending hAt.lookup hSplit with
    ⟨hLookup, hAcc⟩
  rw [add_zero] at hAcc
  exact ⟨hAcc, hLookup⟩

theorem dropCostlyPending
    (hAt : PendingAt types addr (pool, list))
    (now : Nat) :
    PendingAt types addr
      (Mempool.dropCostlyPending types now pool addr
        list) := by
  rcases hAt.accounted.drainPending hAt.lookup
    types.lists.filter_split with ⟨hLookup, hAcc⟩
  refine ⟨(hAcc.requeueAll_spec now).2, ?_⟩
  simp only [Mempool.dropCostlyPending]
  rw [foldl_requeue_pending]
  exact hLookup

theorem closeGap
    (hAt : PendingAt types addr (pool, list))
    (now : Nat) :
    PendingAt types addr
      (Mempool.closeGap types now pool addr list) := by
  unfold Mempool.closeGap
  split
  · have hTaken := hAt.accounted.takePending hAt.lookup
      (types.lists.cap_split (n := 0))
    refine ⟨(hTaken.requeueAll_spec now).2, ?_⟩
    rw [foldl_requeue_pending]
    exact AList.lookup_insert _
  · exact hAt

end PendingAt

namespace Accounted

variable {pool : Mempool Tx L N}

/- One account is promoted. -/
theorem promoteAccount
    {acc acc' : Mempool Tx L N × List Tx}
    (hAcc : Accounted types acc.1 0)
    {now : Nat}
    {addr : Address}
    (hOk :
      Mempool.promoteAccount types now acc addr =
        some acc') :
    Accounted types acc'.1 0 := by
  unfold Mempool.promoteAccount at hOk
  cases hLookup : acc.1.queue.lookup addr with
  | none =>
      rw [hLookup] at hOk
      rw [← Option.some.inj hOk]
      exact hAcc
  | some list =>
      have hStart : QueueAt types addr (acc.1, list) :=
        ⟨hAcc, hLookup⟩
      rw [hLookup] at hOk
      rcases Option.bind_eq_some_iff.mp hOk with
        ⟨state, hCapped, hRest⟩
      have hLast := ((hStart.dropOldQueued.dropCostlyQueued
        ).promoteReady now acc.2).dropCappedQueued hCapped
      rw [← Option.some.inj hRest]
      exact hLast.accounted.dropEmptyQueue hLast.lookup

/- `promoteExecutables` keeps the balance. -/
theorem promoteExecutables
    (hAcc : Accounted types pool 0)
    {now : Nat}
    {accounts : List Address}
    {result : Mempool Tx L N × List Tx}
    (hOk :
      Mempool.promoteExecutables types now pool accounts =
        some result) :
    Accounted types result.1 0 := by
  have hRound :
      ∀ acc addr next, Accounted types acc.1 0 →
        Mempool.promoteAccount types now acc addr =
          some next →
        Accounted types next.1 0 :=
    fun _ _ _ hAcc hOk => hAcc.promoteAccount hOk
  exact Trace.foldlM_invariant hRound hAcc hOk

/- One account is demoted. -/
theorem demoteAccount
    (hAcc : Accounted types pool 0)
    (now : Nat)
    (addr : Address) :
    Accounted types
      (Mempool.demoteAccount types now pool addr) 0 := by
  unfold Mempool.demoteAccount
  cases hLookup : pool.pending.lookup addr with
  | none => exact hAcc
  | some list =>
      have hStart : PendingAt types addr (pool, list) :=
        ⟨hAcc, hLookup⟩
      have hLast := ((hStart.dropOldPending
        ).dropCostlyPending now).closeGap now
      exact hLast.accounted.dropEmptyPending hLast.lookup

/- What one round keeps, a loop keeps. -/
theorem foldl_of_round
    {A : Type}
    {f : Mempool Tx L N → A → Mempool Tx L N}
    (hRound :
      ∀ {pool a}, Accounted types pool 0 →
        Accounted types (f pool a) 0)
    (hAcc : Accounted types pool 0)
    (as : List A) :
    Accounted types (as.foldl f pool) 0 := by
  induction as generalizing pool with
  | nil => exact hAcc
  | cons a as ih => exact ih (hRound hAcc)

/- `demoteUnexecutables` keeps the balance. -/
theorem demoteUnexecutables
    (hAcc : Accounted types pool 0)
    (now : Nat)
    (order : List Address) :
    Accounted types
      (Mempool.demoteUnexecutables types now pool order) 0 :=
  hAcc.foldl_of_round
    (fun hRound => hRound.demoteAccount now _) order

theorem removeTxs
    (hAcc : Accounted types pool 0)
    (now : Nat)
    (txs : List Tx) :
    Accounted types
      (Mempool.removeTxs types now pool txs) 0 :=
  hAcc.foldl_of_round (fun hRound => hRound.removeTx now _)
    txs

------------------------------------------------------------
-- Truncating Keeps the Balance
------------------------------------------------------------

/- A transaction in hand is dropped with its nonce. -/
theorem dropCapped
    {loose : Multiset Tx}
    {tx : Tx}
    (hAcc : Accounted types pool (tx ::ₘ loose))
    (addr : Address) :
    Accounted types (Mempool.dropCapped types addr pool tx)
      loose :=
  hAcc.forget.of_eq rfl rfl rfl

theorem trim
    (hAcc : Accounted types pool 0)
    (addr : Address) :
    Accounted types (Mempool.trim types pool addr) 0 := by
  unfold Mempool.trim
  cases hLookup : pool.pending.lookup addr with
  | none => exact hAcc
  | some list =>
      have hTaken := hAcc.takePending hLookup
        (types.lists.cap_split
          (n := types.lists.len list - 1))
      exact hTaken.foldl_hand
        (fun hRound => hRound.dropCapped addr)

theorem trimRounds
    {acc : Mempool Tx L N × Nat}
    (hAcc : Accounted types acc.1 0)
    (globalSlots bound : Nat)
    (offenders : List Address)
    (last : Address)
    (fuel : Nat) :
    Accounted types
      (Mempool.trimRounds types globalSlots bound offenders
        last fuel acc).1 0 := by
  induction fuel generalizing acc with
  | zero => exact hAcc
  | succ fuel ih =>
      unfold Mempool.trimRounds
      split
      · exact ih (hAcc.foldl_of_round
          (fun hRound => hRound.trim _) offenders)
      · exact hAcc

theorem equalize
    {acc : Mempool Tx L N × Nat}
    (hAcc : Accounted types acc.1 0)
    (globalSlots : Nat)
    (offenders spammers : List Address) :
    Accounted types
      (Mempool.equalize types globalSlots offenders spammers
        acc).2.1 0 := by
  induction spammers generalizing offenders acc with
  | nil => exact hAcc
  | cons offender spammers ih =>
      unfold Mempool.equalize
      split
      · refine ih ?_ _
        cases offenders.getLast? with
        | none => exact hAcc
        | some last =>
            exact trimRounds hAcc globalSlots _ offenders
              last _
      · exact hAcc

/- `truncatePending` keeps the balance. -/
theorem truncatePending
    (hAcc : Accounted types pool 0)
    (spammers : List Address) :
    Accounted types
      (Mempool.truncatePending types pool spammers) 0 := by
  unfold Mempool.truncatePending
  simp only
  split
  · exact hAcc
  · have hStart :
        Accounted types (pool, lenAll types pool.pending).1
          0 := hAcc
    have hEqual := hStart.equalize
      pool.config.globalSlots.toNat [] spammers
    split
    · exact hEqual
    · exact hEqual.trimRounds _ _ _ _ _

theorem dropQueued
    (hAcc : Accounted types pool 0)
    (now : Nat)
    (addresses : List Address)
    (drop : Nat) :
    Accounted types
      (Mempool.dropQueued types now addresses drop pool)
      0 := by
  induction addresses generalizing pool drop with
  | nil =>
      unfold Mempool.dropQueued
      exact hAcc
  | cons addr addresses ih =>
      cases drop with
      | zero =>
          unfold Mempool.dropQueued
          exact hAcc
      | succ drop =>
          unfold Mempool.dropQueued
          split
          · exact ih hAcc _
          · simp only
            split
            · exact ih (hAcc.removeTxs now _) _
            · exact ih (hAcc.removeTxs now _) _

/- `truncateQueue` keeps the balance. -/
theorem truncateQueue
    (hAcc : Accounted types pool 0)
    (now : Nat)
    (addresses : List Address) :
    Accounted types
      (Mempool.truncateQueue types now pool addresses) 0 := by
  unfold Mempool.truncateQueue
  simp only
  split
  · exact hAcc
  · exact hAcc.dropQueued now addresses _

------------------------------------------------------------
-- Runs Keep the Balance
------------------------------------------------------------

theorem evict
    (hAcc : Accounted types pool 0)
    (now : Nat)
    (order : List Address) :
    Accounted types
      (Mempool.evict types now pool order) 0 := by
  refine hAcc.foldl_of_round ?_ order
  intro pool addr hRound
  split
  · exact hRound
  · split
    · exact hRound.removeTxs now _
    · exact hRound

theorem setGasPrice
    (hAcc : Accounted types pool 0)
    (now : Nat)
    (price : Int)
    (remotes : List Bytes) :
    Accounted types
      (Mempool.setGasPrice types now pool price remotes)
      0 := by
  have hRaised :
      Accounted types { pool with gasPrice := price } 0 :=
    hAcc.of_eq rfl rfl rfl
  unfold Mempool.setGasPrice
  simp only
  split
  · exact hRaised.removeTxs now _
  · exact hRaised

/- A batch keeps the balance. -/
theorem addTxsLocked
    (hAcc : Accounted types pool 0)
    (answers : Nat → AddAnswers Tx)
    (now : Nat)
    (fromLocal : Bool)
    (i : Nat)
    (dirty : AccountSet)
    (txs : List Tx) :
    Accounted types
      (Mempool.addTxsLocked types answers now fromLocal i
        pool dirty txs).pool 0 := by
  induction txs generalizing pool i dirty with
  | nil => exact hAcc
  | cons tx txs ih =>
      exact ih (hAcc.add (answers i) now tx fromLocal) _ _

/- A reset keeps the balance. -/
theorem reset
    {pool' : Mempool Tx L N}
    (hAcc : Accounted types pool 0)
    {world : ResetWorld Tx}
    {now : Nat}
    {oldHead newHead : Option Header}
    (hReset :
      Mempool.reset types world now pool oldHead newHead =
        some pool') :
    Accounted types pool' 0 := by
  unfold Mempool.reset at hReset
  split at hReset
  · cases hReset
  · rw [← Option.some.inj hReset]
    exact hAcc
  · simp only at hReset
    split at hReset
    · rw [← Option.some.inj hReset]
      exact hAcc
    · next state _ =>
      rw [← Option.some.inj hReset]
      have hMoved :
          ∀ gasLimit,
            Accounted types
              { pool with
                currentState := state
                pendingNonces := types.noncers.newNoncer state
                currentMaxGas := gasLimit }
              0 :=
        fun _ => hAcc.of_eq rfl rfl rfl
      exact ((hMoved _).addTxsLocked world.answers now false 0
        .empty _).of_eq rfl rfl rfl

theorem updateNonces
    (hAcc : Accounted types pool 0) :
    Accounted types (Mempool.updateNonces types pool) 0 :=
  hAcc.of_eq rfl rfl rfl

/- `runReorg` keeps the balance. -/
theorem runReorg
    {pool' : Mempool Tx L N}
    (hAcc : Accounted types pool 0)
    {world : ResetWorld Tx}
    {now : Nat}
    {orders : RunOrders}
    {work : ReorgWork}
    (hReorg :
      Mempool.runReorg types world now orders pool work =
        some pool') :
    Accounted types pool' 0 := by
  cases work with
  | promote accounts =>
      rcases Option.bind_eq_some_iff.mp hReorg with
        ⟨_, hPromote, hRest⟩
      rw [← Option.some.inj hRest]
      have hPromoted := hAcc.promoteExecutables hPromote
      have hTruncated :=
        (hPromoted.truncatePending orders.spammers
          ).truncateQueue now orders.heartbeats
      exact hTruncated.of_eq rfl rfl rfl
  | reset oldHead newHead =>
      rcases Option.bind_eq_some_iff.mp hReorg with
        ⟨fresh, hReset, hRest⟩
      rcases Option.bind_eq_some_iff.mp hRest with
        ⟨_, hPromote, hRest⟩
      rw [← Option.some.inj hRest]
      have hPromoted :=
        (hAcc.reset hReset).promoteExecutables hPromote
      have hDemoted :=
        hPromoted.demoteUnexecutables now orders.pending
      have hTruncated :=
        (hDemoted.updateNonces.truncatePending orders.spammers
          ).truncateQueue now orders.heartbeats
      exact hTruncated.of_eq rfl rfl rfl

/- One call keeps the balance. -/
theorem call
    {pool' : Mempool Tx L N}
    (hAcc : Accounted types pool 0)
    {entry : Nat × PoolCall Tx}
    (hCall : Mempool.call types pool entry = some pool') :
    Accounted types pool' 0 := by
  rcases entry with ⟨now, what⟩
  cases what with
  | addTxs answers txs fromLocal =>
      rw [← Option.some.inj hCall]
      exact hAcc.addTxsLocked answers now fromLocal 0 .empty
        txs
  | runReorg world orders work => exact hAcc.runReorg hCall
  | evict order =>
      rw [← Option.some.inj hCall]
      exact hAcc.evict now order
  | setGasPrice price remotes =>
      rw [← Option.some.inj hCall]
      exact hAcc.setGasPrice now price remotes

/- Calls one after another keep the balance. -/
theorem run
    {pool' : Mempool Tx L N}
    (hAcc : Accounted types pool 0)
    {calls : List (Nat × PoolCall Tx)}
    (hRun : Mempool.run types pool calls = some pool') :
    Accounted types pool' 0 := by
  have hStep :
      ∀ pool entry next, Accounted types pool 0 →
        Mempool.call types pool entry = some next →
        Accounted types next 0 :=
    fun _ _ _ hAcc hCall => hAcc.call hCall
  exact Trace.foldlM_invariant hStep hAcc hRun

end Accounted

/- A pool without transactions is in balance. -/
theorem accounted_empty
    (config : Config) :
    Accounted types
      (empty types config : Mempool Tx L N) 0 where
  valid := Lookup.valid_new types.view
  balance := rfl
  keys := by simp [empty, Lookup.new, Lookup.txs]
  known := by simp [empty, Lookup.new, Lookup.txs]
  pending_home := by simp [AtHome, empty]
  queue_home := by simp [AtHome, empty]
  lax := by simp [empty]

------------------------------------------------------------
-- What Holds in Every Run
------------------------------------------------------------

variable (types)

/- The transaction of an account with a nonce. -/
def itemAt
    (map : ListMap L)
    (addr : Address)
    (nonce : UInt64) : Option Tx :=
  (map.lookup addr).bind (fun list =>
    types.lists.get list nonce)

/- `TxStatus` -/
inductive TxStatus where
| unknown
| queued
| pending
deriving DecidableEq

/- `Status`, of one transaction -/
def status
    (pool : Mempool Tx L N)
    (hash : Bytes) : TxStatus :=
  match pool.all.get hash with
  | none => .unknown
  | some tx =>
      let sender := senderOf types tx
      let nonce := types.view.nonce tx
      if (itemAt types pool.pending sender nonce).isSome then
        .pending
      else if (itemAt types pool.queue sender nonce).isSome then
        .queued
      else
        .unknown

/- `stats` -/
def stats (pool : Mempool Tx L N) : Nat × Nat :=
  (lenAll types pool.pending, lenAll types pool.queue)

variable {types}

/- The items of an account are those listed. -/
theorem itemAt_eq_some
    {map : ListMap L}
    (hHome : AtHome types map)
    {addr : Address}
    {nonce : UInt64}
    {tx : Tx} :
    itemAt types map addr nonce = some tx ↔
      tx ∈ listed types map ∧ senderOf types tx = addr ∧
        types.view.nonce tx = nonce := by
  unfold itemAt
  rw [Option.bind_eq_some_iff]
  constructor
  · rintro ⟨list, hLookup, hGet⟩
    rcases types.lists.get_eq_some.mp hGet with
      ⟨hMem, hNonce⟩
    refine ⟨?_, hHome addr list hLookup tx hMem, hNonce⟩
    rw [listed_of_lookup hLookup]
    exact Multiset.mem_add.mpr (.inl hMem)
  · rintro ⟨hListed, rfl, hNonce⟩
    rcases senderOf_of_listed hHome hListed with
      ⟨list, hLookup, hMem⟩
    exact ⟨list, hLookup,
      types.lists.get_eq_some.mpr ⟨hMem, hNonce⟩⟩

/- The number of listed transactions. -/
theorem lenAll_eq
    (map : ListMap L) :
    lenAll types map = (listed types map).card := by
  have hCard :=
    Tally.map_total Multiset.cardHom (listTxs types) map
  have hLen :
      types.lists.len =
        fun list => Multiset.cardHom (listTxs types list) := by
    funext list
    rw [types.lists.len_eq]
    rfl
  unfold lenAll
  rw [hLen]
  exact hCard.symm

/- The number of transactions in the lookup. -/
theorem count_eq (t : Lookup Tx) :
    t.count = t.txs.card := by
  have hLength :
      ∀ m : TxMap Tx,
        m.entries.length =
          (Tally.total ({·}) m : Multiset Tx).card := by
    intro m
    have hCard := Tally.map_total
      Multiset.cardHom (fun tx : Tx => {tx}) m
    simpa [Tally.total] using hCard.symm
  rw [Lookup.count, Lookup.txs, Multiset.card_add,
    hLength t.locals, hLength t.remotes]

namespace Accounted

variable {pool : Mempool Tx L N}

/- The sender of a transaction of the pool is known. -/
theorem sender_eq
    {loose : Multiset Tx}
    (hAcc : Accounted types pool loose)
    {tx : Tx}
    (hTx : tx ∈ pool.all.txs) :
    types.view.sender tx = some (senderOf types tx) := by
  rcases Option.isSome_iff_exists.mp (hAcc.known tx hTx) with
    ⟨addr, hAddr⟩
  simp [senderOf, hAddr]

/- The lookup finds what the lists have, and nothing else. -/
theorem get_iff
    (hAcc : Accounted types pool 0)
    (hash : Bytes)
    (tx : Tx) :
    pool.all.get hash = some tx ↔
      types.view.hash tx = hash ∧
        ∃ addr, types.view.sender tx = some addr ∧
          (itemAt types pool.pending addr
              (types.view.nonce tx) = some tx ∨
            itemAt types pool.queue addr
              (types.view.nonce tx) = some tx) := by
  have hBalance := hAcc.balance
  rw [add_zero] at hBalance
  rw [hAcc.valid.get_eq_some]
  constructor
  · rintro ⟨hTx, hHash⟩
    refine ⟨hHash, senderOf types tx, hAcc.sender_eq hTx, ?_⟩
    rw [hBalance, Multiset.mem_add] at hTx
    rcases hTx with hPending | hQueue
    · exact .inl ((itemAt_eq_some hAcc.pending_home).mpr
        ⟨hPending, rfl, rfl⟩)
    · exact .inr ((itemAt_eq_some hAcc.queue_home).mpr
        ⟨hQueue, rfl, rfl⟩)
  · rintro ⟨hHash, addr, _, hPending | hQueue⟩
    · have hListed :=
        ((itemAt_eq_some hAcc.pending_home).mp hPending).1
      refine ⟨?_, hHash⟩
      rw [hBalance]
      exact Multiset.mem_add.mpr (.inl hListed)
    · have hListed :=
        ((itemAt_eq_some hAcc.queue_home).mp hQueue).1
      refine ⟨?_, hHash⟩
      rw [hBalance]
      exact Multiset.mem_add.mpr (.inr hListed)

/- No nonce of an account is both pending and queued. -/
theorem apart
    (hAcc : Accounted types pool 0)
    (addr : Address)
    (nonce : UInt64) :
    itemAt types pool.pending addr nonce = none ∨
      itemAt types pool.queue addr nonce = none := by
  cases hPending : itemAt types pool.pending addr nonce with
  | none => exact .inl rfl
  | some tx =>
      right
      cases hQueue : itemAt types pool.queue addr nonce with
      | none => rfl
      | some tx' =>
          rcases (itemAt_eq_some hAcc.pending_home).mp
            hPending with ⟨hTx, hSender, hNonce⟩
          rcases (itemAt_eq_some hAcc.queue_home).mp
            hQueue with ⟨hTx', hSender', hNonce'⟩
          have hKeys := hAcc.keys
          rw [hAcc.balance, add_zero] at hKeys
          refine absurd ?_ (ne_of_nodup_map hKeys hTx hTx')
          simp [key, hSender, hSender', hNonce, hNonce']

/- A transaction of the pool has a status. -/
theorem status_eq_unknown
    (hAcc : Accounted types pool 0)
    (hash : Bytes) :
    status types pool hash = .unknown ↔
      pool.all.get hash = none := by
  unfold status
  cases hGet : pool.all.get hash with
  | none => simp
  | some tx =>
      rcases (hAcc.get_iff hash tx).mp hGet with
        ⟨_, addr, hSender, hItem⟩
      have hAddr : senderOf types tx = addr := by
        simp [senderOf, hSender]
      simp only [hAddr]
      rcases hItem with hPending | hQueue
      · simp [hPending]
      · by_cases hPending :
          (itemAt types pool.pending addr
            (types.view.nonce tx)).isSome
        · simp [hPending]
        · simp [hPending, hQueue]

end Accounted

/-
  Whatever was added, dropped, replaced, promoted and
  demoted: the lookup has the transactions of the lists, no
  nonce stands in two lists, and the counts agree.
-/
theorem run_accounted
    {config : Config}
    {world : ResetWorld Tx}
    {now : Nat}
    {new pool : Mempool Tx L N}
    {calls : List (Nat × PoolCall Tx)}
    (hNew : newTxPool types config world now = some new)
    (hRun : run types new calls = some pool) :
    (∀ hash tx,
      pool.all.get hash = some tx ↔
        types.view.hash tx = hash ∧
          ∃ addr, types.view.sender tx = some addr ∧
            (itemAt types pool.pending addr
                (types.view.nonce tx) = some tx ∨
              itemAt types pool.queue addr
                (types.view.nonce tx) = some tx)) ∧
    (∀ addr nonce,
      itemAt types pool.pending addr nonce = none ∨
        itemAt types pool.queue addr nonce = none) ∧
    (∀ hash, status types pool hash = .unknown ↔
      pool.all.get hash = none) ∧
    (stats types pool).1 + (stats types pool).2 =
      pool.all.count ∧
    pool.all.slots =
      ((listed types pool.pending +
        listed types pool.queue).map
          types.view.numSlots).sum := by
  have hStart :
      Accounted types
        (empty types config.sanitize : Mempool Tx L N) 0 :=
    accounted_empty config.sanitize
  have hAcc := (hStart.reset hNew).run hRun
  have hBalance := hAcc.balance
  rw [add_zero] at hBalance
  refine ⟨hAcc.get_iff, hAcc.apart, hAcc.status_eq_unknown,
    ?_, ?_⟩
  · simp only [stats]
    rw [lenAll_eq, lenAll_eq, count_eq, hBalance,
      Multiset.card_add]
  · rw [← hBalance]
    exact hAcc.valid.slots

/- A chain without blocks, where everybody is rich. -/
def sampleWorld : ResetWorld SampleTx where
  chain :=
    { currentBlock := (sampleBlock 1 0 0 []).toHeader
      getBlock := fun _ _ => none
      stateAt := fun _ => .ok ⟨fun _ => 0, fun _ => 10 ^ 9⟩
      getBlock_hash := by simp
      getBlock_number := by simp
      getBlock_unique := by simp
      getBlock_parent := by simp }
  chainconfig := ⟨fun _ => true, fun _ => true, fun _ => true,
    fun _ => true⟩
  answers _ := ⟨⟨false, [], true⟩, []⟩

/-
  Account one sends three transactions, the last after a gap,
  and then a better second one. Two become pending.
-/
def sampleCalls : List (Nat × PoolCall SampleTx) :=
  [(1, .addTxs (fun _ => ⟨⟨false, [], true⟩, []⟩)
      [⟨1, 0, 5⟩, ⟨1, 1, 5⟩, ⟨1, 3, 5⟩, ⟨1, 1, 9⟩] false),
    (2, .runReorg sampleWorld ⟨[1], [1], [], [1]⟩
      (.promote [1]))]

/- The pool after these calls. -/
theorem run_accounted_sample :
    ∃ new pool,
      newTxPool samplePoolTypes defaultConfig sampleWorld 0 =
        some new ∧
      run samplePoolTypes new sampleCalls = some pool ∧
      stats samplePoolTypes pool = (2, 1) ∧
      status samplePoolTypes pool [1, 1, 9] = .pending ∧
      status samplePoolTypes pool [1, 1, 5] = .unknown ∧
      (stats samplePoolTypes pool).1 +
          (stats samplePoolTypes pool).2 =
        pool.all.count := by
  have hEval :
      ((newTxPool samplePoolTypes defaultConfig sampleWorld
          0).bind (fun new =>
            run samplePoolTypes new sampleCalls)).map
          (fun pool => (stats samplePoolTypes pool,
            status samplePoolTypes pool [1, 1, 9],
            status samplePoolTypes pool [1, 1, 5])) =
        some ((2, 1), .pending, .unknown) := by
    decide
  rcases Option.map_eq_some_iff.mp hEval with
    ⟨pool, hBind, hStats⟩
  rcases Option.bind_eq_some_iff.mp hBind with
    ⟨new, hNew, hRun⟩
  simp only [Prod.mk.injEq] at hStats
  have hAll := run_accounted hNew hRun
  exact ⟨new, pool, hNew, hRun, hStats.1, hStats.2.1,
    hStats.2.2, hAll.2.2.2.1⟩

end Mempool

end Builder
