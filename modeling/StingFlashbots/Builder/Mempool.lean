import StingFlashbots.Base.Trace
import StingFlashbots.Builder.Lookup

/-
  The transactions of the pool.

  Every transaction is in the lookup and in a list of its
  sender: the pending list, if it can be executed, or the
  queue. Lists move transactions to each other, drop them
  and replace them, and the lookup has to follow.

  The lists, the nonces, the limit of init code and the list
  sorted by price are those of go-ethereum. Lists come with
  what their comments say about them. What the sorted list
  answers in a call is an argument of the call, and so is
  the order in which a loop goes through a map.

  Key definitions include:
    * `Builder.TxLists`
    * `Builder.Mempool`
    * `Builder.Mempool.add`
    * `Builder.Mempool.removeTx`
    * `Builder.Mempool.promoteTx`
    * `Builder.Mempool.enqueueTx`
-/

namespace Builder

open Sting

------------------------------------------------------------
-- Lists of Transactions
------------------------------------------------------------

/-
  `list`: the transactions of one account, one for each
  nonce. A strict list has no gaps, and gives up the
  transactions behind one that it loses.
-/
structure TxLists
    (Tx L : Type)
    (view : TxView Tx) where
  newList : Bool → L
  strict : L → Bool
  flatten : L → List Tx
  get : L → UInt64 → Option Tx
  overlaps : L → Tx → Bool
  totalcost : L → Int
  len : L → Nat
  isEmpty : L → Bool
  add : L → Tx → UInt64 → (Bool × Option Tx) × L
  forward : L → UInt64 → List Tx × L
  filter : L → Int → UInt64 → (List Tx × List Tx) × L
  cap : L → Nat → List Tx × L
  remove : L → Tx → (Bool × List Tx) × L
  ready : L → UInt64 → List Tx × L
  flatten_newList : ∀ {b}, flatten (newList b) = []
  get_eq_some :
    ∀ {l n tx}, get l n = some tx ↔
      tx ∈ flatten l ∧ view.nonce tx = n
  overlaps_eq :
    ∀ {l tx}, overlaps l tx = (get l (view.nonce tx)).isSome
  len_eq : ∀ {l}, len l = (flatten l).length
  isEmpty_eq : ∀ {l}, isEmpty l = (flatten l).isEmpty
  add_new :
    ∀ {l tx bump}, get l (view.nonce tx) = none →
      (add l tx bump).1.1 = true
  add_old :
    ∀ {l tx bump}, (add l tx bump).1.1 = true →
      (add l tx bump).1.2 = get l (view.nonce tx)
  add_inserted :
    ∀ {l tx bump}, (add l tx bump).1.1 = true →
      (flatten (add l tx bump).2 : Multiset Tx) +
          (get l (view.nonce tx)).toList =
        tx ::ₘ flatten l
  add_rejected :
    ∀ {l tx bump}, (add l tx bump).1.1 = false →
      (add l tx bump).2 = l
  forward_split :
    ∀ {l n}, (flatten l : Multiset Tx) =
      (forward l n).1 + flatten (forward l n).2
  filter_split :
    ∀ {l c g}, (flatten l : Multiset Tx) =
      (filter l c g).1.1 + (filter l c g).1.2 +
        flatten (filter l c g).2
  filter_lax :
    ∀ {l c g}, strict l = false → (filter l c g).1.2 = []
  cap_split :
    ∀ {l n}, (flatten l : Multiset Tx) =
      (cap l n).1 + flatten (cap l n).2
  cap_length :
    ∀ {l n}, (flatten (cap l n).2).length =
      min n (flatten l).length
  remove_found :
    ∀ {l tx}, (remove l tx).1.1 = true →
      ∃ found, get l (view.nonce tx) = some found ∧
        (flatten l : Multiset Tx) =
          found ::ₘ ((remove l tx).1.2 +
            flatten (remove l tx).2)
  remove_missing :
    ∀ {l tx}, (remove l tx).1.1 = false →
      get l (view.nonce tx) = none ∧ (remove l tx).2 = l
  remove_lax :
    ∀ {l tx}, strict l = false → (remove l tx).1.2 = []
  ready_split :
    ∀ {l n}, (flatten l : Multiset Tx) =
      (ready l n).1 + flatten (ready l n).2
  strict_newList : ∀ {b}, strict (newList b) = b
  strict_add :
    ∀ {l tx bump}, strict (add l tx bump).2 = strict l
  strict_forward :
    ∀ {l n}, strict (forward l n).2 = strict l
  strict_filter :
    ∀ {l c g}, strict (filter l c g).2 = strict l
  strict_cap : ∀ {l n}, strict (cap l n).2 = strict l
  strict_remove :
    ∀ {l tx}, strict (remove l tx).2 = strict l
  strict_ready : ∀ {l n}, strict (ready l n).2 = strict l

/- `state.StateDB`, as far as the pool reads it. -/
structure StateView where
  getNonce : Address → UInt64
  getBalance : Address → Int

/- `noncer` -/
structure Noncers (N : Type) where
  newNoncer : StateView → N
  get : N → Address → UInt64
  set : N → Address → UInt64 → N
  setIfLower : N → Address → UInt64 → N
  setAll : N → List (Address × UInt64) → N

/-
  The types of go-ethereum the pool is built from, and
  `params.MaxInitCodeSize`.
-/
structure PoolTypes (Tx L N : Type) where
  view : TxView Tx
  lists : TxLists Tx L view
  noncers : Noncers N
  maxInitCodeSize : Nat

/- The order of the nonces in the lists. -/
structure TxLists.Ordered
    {Tx L : Type}
    {view : TxView Tx}
    (lists : TxLists Tx L view) : Prop where
  flatten_sorted :
    ∀ {l}, (lists.flatten l).Pairwise
      (fun a b => view.nonce a < view.nonce b)
  forward_out :
    ∀ {l n tx}, tx ∈ (lists.forward l n).1 →
      view.nonce tx < n
  forward_kept :
    ∀ {l n tx}, tx ∈ lists.flatten (lists.forward l n).2 →
      n ≤ view.nonce tx
  filter_kept :
    ∀ {l c g tx out}, lists.strict l = true →
      tx ∈ lists.flatten (lists.filter l c g).2 →
      out ∈ (lists.filter l c g).1.1 →
        view.nonce tx < view.nonce out
  filter_invalids :
    ∀ {l c g tx}, tx ∈ (lists.filter l c g).1.2 →
      ∃ out ∈ (lists.filter l c g).1.1,
        view.nonce out < view.nonce tx
  cap_kept :
    ∀ {l n tx out}, tx ∈ lists.flatten (lists.cap l n).2 →
      out ∈ (lists.cap l n).1 →
        view.nonce tx < view.nonce out
  remove_kept :
    ∀ {l tx other}, lists.strict l = true →
      (lists.remove l tx).1.1 = true →
      other ∈ lists.flatten (lists.remove l tx).2 →
        view.nonce other < view.nonce tx
  remove_invalids :
    ∀ {l tx other}, other ∈ (lists.remove l tx).1.2 →
      view.nonce tx < view.nonce other
  ready_chain :
    ∀ {l n}, (lists.ready l n).1.IsChain
      (fun a b => view.nonce b = view.nonce a + 1)
  ready_head :
    ∀ {l n tx}, (lists.ready l n).1.head? = some tx →
      view.nonce tx ≤ n

/-
  What a `noncer` returns. Accounts that were not set have
  the nonce of the state it was made from.
-/
structure Noncers.Lawful
    {N : Type}
    (noncers : Noncers N)
    (fallback : N → StateView) : Prop where
  get_newNoncer :
    ∀ {state addr},
      noncers.get (noncers.newNoncer state) addr =
        state.getNonce addr
  get_set :
    ∀ {nonces addr nonce other},
      noncers.get (noncers.set nonces addr nonce) other =
        if other = addr then nonce
        else noncers.get nonces other
  get_setIfLower :
    ∀ {nonces addr nonce other},
      noncers.get (noncers.setIfLower nonces addr nonce)
          other =
        if other = addr ∧ nonce < noncers.get nonces addr then
          nonce
        else
          noncers.get nonces other
  get_setAll :
    ∀ {nonces all addr nonce}, (all.map Prod.fst).Nodup →
      (addr, nonce) ∈ all →
        noncers.get (noncers.setAll nonces all) addr = nonce
  get_setAll_other :
    ∀ {nonces all addr}, addr ∉ all.map Prod.fst →
      noncers.get (noncers.setAll nonces all) addr =
        (fallback nonces).getNonce addr
  fallback_newNoncer :
    ∀ {state}, fallback (noncers.newNoncer state) = state
  fallback_set :
    ∀ {nonces addr nonce},
      fallback (noncers.set nonces addr nonce) =
        fallback nonces
  fallback_setIfLower :
    ∀ {nonces addr nonce},
      fallback (noncers.setIfLower nonces addr nonce) =
        fallback nonces
  fallback_setAll :
    ∀ {nonces all},
      fallback (noncers.setAll nonces all) = fallback nonces

/- The nonce that has no next one. -/
def lastNonce : UInt64 := .ofNat (2 ^ 64 - 1)

/-
  What the pool needs of its types to keep nonces in order.
  The last nonce is not in use.
-/
structure PoolTypes.Ordered
    {Tx L N : Type}
    (types : PoolTypes Tx L N)
    (fallback : N → StateView) : Prop where
  lists : types.lists.Ordered
  noncers : types.noncers.Lawful fallback
  nonce_ne : ∀ tx, types.view.nonce tx ≠ lastNonce

------------------------------------------------------------
-- The Pool
------------------------------------------------------------

/- `Config`, as far as the operations read it. -/
structure Config where
  locals : List Address
  priceLimit : UInt64
  priceBump : UInt64
  accountSlots : UInt64
  globalSlots : UInt64
  accountQueue : UInt64
  globalQueue : UInt64
  lifetime : Nat

/- `DefaultConfig`, with times in nanoseconds -/
def defaultConfig : Config :=
  { locals := []
    priceLimit := 1
    priceBump := 10
    accountSlots := 16
    globalSlots := 4096 + 1024
    accountQueue := 64
    globalQueue := 1024
    lifetime := 3 * 3600 * 10 ^ 9 }

/- A setting below one is not taken over. -/
def orDefault (value default : UInt64) : UInt64 :=
  if value < 1 then default else value

/- `sanitize` -/
def Config.sanitize (config : Config) : Config :=
  { locals := config.locals
    priceLimit :=
      orDefault config.priceLimit defaultConfig.priceLimit
    priceBump :=
      orDefault config.priceBump defaultConfig.priceBump
    accountSlots :=
      orDefault config.accountSlots defaultConfig.accountSlots
    globalSlots :=
      orDefault config.globalSlots defaultConfig.globalSlots
    accountQueue :=
      orDefault config.accountQueue defaultConfig.accountQueue
    globalQueue :=
      orDefault config.globalQueue defaultConfig.globalQueue
    lifetime :=
      if config.lifetime < 1 then defaultConfig.lifetime
      else config.lifetime }

/- Lists by account. -/
abbrev ListMap (L : Type) : Type :=
  AList (fun _ : Address => L)

/- The part of `TxPool` that has to do with transactions. -/
structure Mempool (Tx L N : Type) where
  config : Config
  gasPrice : Int
  istanbul : Bool
  eip2718 : Bool
  eip1559 : Bool
  shanghai : Bool
  currentState : StateView
  pendingNonces : N
  currentMaxGas : UInt64
  locals : AccountSet
  pending : ListMap L
  queue : ListMap L
  beats : AList (fun _ : Address => Nat)
  all : Lookup Tx
  changesSinceReorg : Int

/-
  What the list sorted by price answers to `Underpriced` and
  to `Discard`.
-/
structure PricedAnswers (Tx : Type) where
  underpriced : Bool
  drop : List Tx
  success : Bool

/-
  What a call of `add` gets from outside: these answers, and
  the order of the remote transactions in the lookup.
-/
structure AddAnswers (Tx : Type)
    extends PricedAnswers Tx where
  remotes : List Bytes

namespace Mempool

variable {Tx L N : Type}
variable (types : PoolTypes Tx L N)

/- The sender of a transaction, zero if there is none. -/
def senderOf (tx : Tx) : Address :=
  (types.view.sender tx).getD 0

/- `txMaxSize` -/
def txMaxSize : UInt64 := 4 * txSlotSize

/- The cost of what the sender has pending with it. -/
def requiredFunds
    (tx : Tx)
    (list : L) : Int :=
  let sum := types.view.cost tx + types.lists.totalcost list
  match types.lists.get list (types.view.nonce tx) with
  | none => sum
  | some repl => sum - types.view.cost repl

/- The checks of `validateTx` before it asks who sent it. -/
def validateFields
    (pool : Mempool Tx L N)
    (tx : Tx) : Except PoolError Unit :=
  let view := types.view
  if !pool.eip2718 && view.txType tx != 0 then
    .error .txTypeNotSupported
  else if !pool.eip1559 && view.txType tx == 2 then
    .error .txTypeNotSupported
  else if txMaxSize < view.size tx then
    .error .oversizedData
  else if pool.shanghai && (view.recipient tx).isNone &&
      types.maxInitCodeSize < view.dataLen tx then
    .error .maxInitCodeSizeExceeded
  else if view.value tx < 0 then
    .error .negativeValue
  else if pool.currentMaxGas < view.gas tx then
    .error .gasLimit
  else if 2 ^ 256 ≤ (view.gasFeeCap tx).natAbs then
    .error .feeCapVeryHigh
  else if 2 ^ 256 ≤ (view.gasTipCap tx).natAbs then
    .error .tipVeryHigh
  else if view.gasFeeCap tx < view.gasTipCap tx then
    .error .tipAboveFeeCap
  else
    .ok ()

/- The sender has not enough for all that is pending. -/
def overdraws
    (pool : Mempool Tx L N)
    (tx : Tx)
    (sender : Address) : Bool :=
  match pool.pending.lookup sender with
  | none => false
  | some list =>
      pool.currentState.getBalance sender <
        requiredFunds types tx list

/- The checks of `validateTx` after that. -/
def validateSender
    (pool : Mempool Tx L N)
    (tx : Tx)
    (isLocal : Bool)
    (sender : Address) : Except PoolError Unit :=
  let view := types.view
  let state := pool.currentState
  if !isLocal && view.gasTipCap tx < pool.gasPrice then
    .error .underpriced
  else if view.nonce tx < state.getNonce sender then
    .error .nonceTooLow
  else if state.getBalance sender < view.cost tx then
    .error .insufficientFunds
  else if overdraws types pool tx sender then
    .error .overdraft
  else
    match view.intrinsicGas tx pool.istanbul
        pool.shanghai with
    | .error err => .error err
    | .ok intrGas =>
        if view.gas tx < intrGas then .error .intrinsicGas
        else .ok ()

/- `validateTx` -/
def validateTx
    (pool : Mempool Tx L N)
    (tx : Tx)
    (isLocal : Bool) : Except PoolError Unit :=
  match validateFields types pool tx with
  | .error err => .error err
  | .ok _ =>
      match types.view.sender tx with
      | none => .error .invalidSender
      | some sender =>
          validateSender types pool tx isLocal sender

/- `isFuture` -/
def isFuture
    (pool : Mempool Tx L N)
    (sender : Address)
    (tx : Tx) : Bool :=
  let nonce := types.view.nonce tx
  match pool.pending.lookup sender with
  | none =>
      types.noncers.get pool.pendingNonces sender != nonce
  | some list =>
      match types.lists.get list nonce with
      | some _ => false
      | none => (types.lists.get list (nonce - 1)).isNone

/- The list of an account, or a new one. -/
def listOf
    (map : ListMap L)
    (strict : Bool)
    (addr : Address) : L :=
  (map.lookup addr).getD (types.lists.newList strict)

/- A replaced transaction leaves the lookup. -/
def forgetOld
    (all : Lookup Tx) : Option Tx → Lookup Tx
| none => all
| some old =>
    all.remove types.view (types.view.hash old)

/- `enqueueTx` -/
def enqueueTx
    (now : Nat)
    (pool : Mempool Tx L N)
    (tx : Tx)
    (isLocal addAll : Bool) :
    Except PoolError Bool × Mempool Tx L N :=
  let sender := senderOf types tx
  let result := types.lists.add
    (listOf types pool.queue false sender) tx
    pool.config.priceBump
  let queue := pool.queue.insert sender result.2
  if !result.1.1 then
    (.error .replaceUnderpriced, { pool with queue := queue })
  else
    let all := forgetOld types pool.all result.1.2
    (.ok result.1.2.isSome,
      { pool with
        queue := queue
        all :=
          if addAll then all.add types.view tx isLocal
          else all
        beats :=
          if (pool.beats.lookup sender).isSome then pool.beats
          else pool.beats.insert sender now })

/- `promoteTx` -/
def promoteTx
    (now : Nat)
    (pool : Mempool Tx L N)
    (addr : Address)
    (tx : Tx) : Bool × Mempool Tx L N :=
  let result := types.lists.add
    (listOf types pool.pending true addr) tx
    pool.config.priceBump
  let pending := pool.pending.insert addr result.2
  if !result.1.1 then
    (false,
      { pool with
        pending := pending
        all := pool.all.remove types.view
          (types.view.hash tx) })
  else
    (true,
      { pool with
        pending := pending
        all := forgetOld types pool.all result.1.2
        pendingNonces := types.noncers.set pool.pendingNonces
          addr (types.view.nonce tx + 1)
        beats := pool.beats.insert addr now })

/- The list of an account changes. -/
def setPending
    (pool : Mempool Tx L N)
    (addr : Address)
    (list : L) : Mempool Tx L N :=
  { pool with pending := pool.pending.insert addr list }

def setQueue
    (pool : Mempool Tx L N)
    (addr : Address)
    (list : L) : Mempool Tx L N :=
  { pool with queue := pool.queue.insert addr list }

/- A list that became empty is deleted. -/
def dropEmptyPending
    (pool : Mempool Tx L N)
    (addr : Address)
    (list : L) : Mempool Tx L N :=
  if types.lists.isEmpty list then
    { pool with pending := pool.pending.erase addr }
  else
    pool

def dropEmptyQueue
    (pool : Mempool Tx L N)
    (addr : Address)
    (list : L) : Mempool Tx L N :=
  if types.lists.isEmpty list then
    { pool with
      queue := pool.queue.erase addr
      beats := pool.beats.erase addr }
  else
    pool

/- A transaction leaves the lookup. -/
def forget
    (pool : Mempool Tx L N)
    (tx : Tx) : Mempool Tx L N :=
  { pool with
    all := pool.all.remove types.view (types.view.hash tx) }

/- A transaction goes back to the queue. -/
def requeue
    (now : Nat)
    (pool : Mempool Tx L N)
    (tx : Tx) : Mempool Tx L N :=
  (enqueueTx types now pool tx false false).2

------------------------------------------------------------
-- Removing Transactions
------------------------------------------------------------

/- The last part of `removeTx`. -/
def removeQueued
    (pool : Mempool Tx L N)
    (addr : Address)
    (tx : Tx) : Mempool Tx L N :=
  match pool.queue.lookup addr with
  | none => pool
  | some future =>
      let list := (types.lists.remove future tx).2
      dropEmptyQueue types (pool.setQueue addr list) addr list

/-
  The part of `removeTx` for a transaction that was pending,
  with the list it was in and what it invalidates.
-/
def removePending
    (now : Nat)
    (pool : Mempool Tx L N)
    (addr : Address)
    (tx : Tx)
    (list : L)
    (invalids : List Tx) : Mempool Tx L N :=
  let pool := dropEmptyPending types
    (pool.setPending addr list) addr list
  let pool := invalids.foldl (requeue types now) pool
  { pool with
    pendingNonces :=
      types.noncers.setIfLower pool.pendingNonces addr
        (types.view.nonce tx) }

/- `removeTx` -/
def removeTx
    (now : Nat)
    (pool : Mempool Tx L N)
    (hash : Bytes) : Nat × Mempool Tx L N :=
  match pool.all.get hash with
  | none => (0, pool)
  | some tx =>
      let addr := senderOf types tx
      let pool :=
        { pool with all := pool.all.remove types.view hash }
      match pool.pending.lookup addr with
      | none => (0, removeQueued types pool addr tx)
      | some pending =>
          let result := types.lists.remove pending tx
          if result.1.1 then
            (1 + result.1.2.length,
              removePending types now pool addr tx result.2
                result.1.2)
          else
            (0, removeQueued types pool addr tx)

/- Transactions are removed one after another. -/
def removeTxs
    (now : Nat)
    (pool : Mempool Tx L N)
    (txs : List Tx) : Mempool Tx L N :=
  txs.foldl
    (fun pool tx =>
      (removeTx types now pool (types.view.hash tx)).2)
    pool

------------------------------------------------------------
-- Adding Transactions
------------------------------------------------------------

/- Dropped transactions count as changes. -/
def dropTxs
    (now : Nat)
    (pool : Mempool Tx L N)
    (drop : List Tx) : Mempool Tx L N :=
  drop.foldl
    (fun pool tx =>
      let result := removeTx types now pool
        (types.view.hash tx)
      { result.2 with
        changesSinceReorg :=
          result.2.changesSinceReorg + result.1 })
    pool

/-
  The pool is full: make room, unless the transaction is not
  worth it.
-/
def makeRoom
    (priced : PricedAnswers Tx)
    (now : Nat)
    (pool : Mempool Tx L N)
    (tx : Tx)
    (isLocal : Bool) :
    Except PoolError (Mempool Tx L N) :=
  let replacesPending :=
    priced.drop.any (fun dropTx =>
      match pool.pending.lookup (senderOf types dropTx) with
      | none => false
      | some list => types.lists.overlaps list dropTx)
  if !isLocal && priced.underpriced then
    .error .underpriced
  else if (pool.config.globalSlots / 4).toNat <
      pool.changesSinceReorg then
    .error .txPoolOverflow
  else if !isLocal && !priced.success then
    .error .txPoolOverflow
  else if !isLocal &&
      isFuture types pool (senderOf types tx) tx &&
      replacesPending then
    .error .futureReplacePending
  else
    .ok (dropTxs types now pool priced.drop)

/- A transaction takes the place of a pending one, or not. -/
def replacePending
    (now : Nat)
    (pool : Mempool Tx L N)
    (tx : Tx)
    (isLocal : Bool)
    (list : L) : Except PoolError Bool × Mempool Tx L N :=
  let sender := senderOf types tx
  let result :=
    types.lists.add list tx pool.config.priceBump
  if !result.1.1 then
    (.error .replaceUnderpriced,
      pool.setPending sender result.2)
  else
    (.ok result.1.2.isSome,
      { pool with
        pending := pool.pending.insert sender result.2
        all := (forgetOld types pool.all result.1.2).add
          types.view tx isLocal
        beats := pool.beats.insert sender now })

/- A transaction goes to the queue, and its sender may turn
   out to be local. -/
def addQueued
    (remotes : List Bytes)
    (now : Nat)
    (pool : Mempool Tx L N)
    (tx : Tx)
    (fromLocal isLocal : Bool) :
    Except PoolError Bool × Mempool Tx L N :=
  let sender := senderOf types tx
  match enqueueTx types now pool tx isLocal true with
  | (.error err, pool) => (.error err, pool)
  | (.ok replaced, pool) =>
      if fromLocal && !pool.locals.contains sender then
        let locals := pool.locals.add sender
        (.ok replaced,
          { pool with
            locals := locals
            all :=
              (pool.all.remoteToLocals types.view remotes
                locals).1 })
      else
        (.ok replaced, pool)

/- `add` -/
def add
    (answers : AddAnswers Tx)
    (now : Nat)
    (pool : Mempool Tx L N)
    (tx : Tx)
    (fromLocal : Bool) :
    Except PoolError Bool × Mempool Tx L N :=
  let sender := senderOf types tx
  if (pool.all.get (types.view.hash tx)).isSome then
    (.error .alreadyKnown, pool)
  else
    let isLocal :=
      fromLocal || pool.locals.containsTx types.view tx
    match validateTx types pool tx isLocal with
    | .error err => (.error err, pool)
    | .ok _ =>
        let slots := pool.all.slots + types.view.numSlots tx
        let roomy :=
          if pool.config.globalSlots + pool.config.globalQueue <
              UInt64.ofInt slots then
            makeRoom types answers.toPricedAnswers now pool tx
              isLocal
          else
            .ok pool
        match roomy with
        | .error err => (.error err, pool)
        | .ok pool =>
            match pool.pending.lookup sender with
            | none =>
                addQueued types answers.remotes now pool tx
                  fromLocal isLocal
            | some list =>
                if types.lists.overlaps list tx then
                  replacePending types now pool tx isLocal
                    list
                else
                  addQueued types answers.remotes now pool tx
                    fromLocal isLocal

end Mempool

end Builder
