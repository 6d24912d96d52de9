import Mathlib.Tactic.Abel
import StingFlashbots.Builder.Mempool

/-
  No transaction is lost or kept twice.

  The invariant is a balance. What the lookup has is what
  the pending lists, the queues and the hands of the running
  operation have together. Operations move transactions from
  one side to the other, and drop them on both.

  A transaction is told by its sender and its nonce. The
  lists work with these alone, so that the balance is only
  kept because no two transactions of the pool agree in
  both.

  Key definitions include:
    * `Builder.Mempool.Accounted`

  Main results:
    * `Builder.Mempool.Accounted.removeTx`
    * `Builder.Mempool.Accounted.add`
-/

namespace Builder

namespace Mempool

open Sting

variable {Tx L N : Type}
variable {types : PoolTypes Tx L N}

------------------------------------------------------------
-- The Balance
------------------------------------------------------------

variable (types) in
/- The transactions of a list. -/
def listTxs (list : L) : Multiset Tx :=
  types.lists.flatten list

variable (types) in
/- What tells transactions apart. -/
def key (tx : Tx) : Address × UInt64 :=
  (senderOf types tx, types.view.nonce tx)

variable (types) in
/- The transactions of all lists. -/
def listed (map : ListMap L) : Multiset Tx :=
  Tally.total (listTxs types) map

variable (types) in
/- Every list has the transactions of its account. -/
def AtHome (map : ListMap L) : Prop :=
  ∀ addr list, map.lookup addr = some list →
    ∀ tx ∈ listTxs types list, senderOf types tx = addr

variable (types) in
/-
  The lookup has the transactions of the lists and those in
  hand.
-/
structure Accounted
    (pool : Mempool Tx L N)
    (loose : Multiset Tx) : Prop where
  valid : pool.all.Valid types.view
  balance :
    pool.all.txs =
      listed types pool.pending + listed types pool.queue +
        loose
  keys : (pool.all.txs.map (key types)).Nodup
  known :
    ∀ tx ∈ pool.all.txs, (types.view.sender tx).isSome
  pending_home : AtHome types pool.pending
  queue_home : AtHome types pool.queue
  lax :
    ∀ addr list, pool.queue.lookup addr = some list →
      types.lists.strict list = false

/- Members of different parts differ in their keys. -/
theorem ne_of_nodup_map
    {A B : Type}
    {f : A → B}
    {left right : Multiset A}
    (hNodup : ((left + right).map f).Nodup)
    {a b : A}
    (ha : a ∈ left)
    (hb : b ∈ right) :
    f a ≠ f b := by
  rw [Multiset.map_add, Multiset.nodup_add] at hNodup
  intro hSame
  have hLeft := Multiset.mem_map_of_mem f ha
  rw [hSame] at hLeft
  exact Multiset.disjoint_left.mp hNodup.2.2 hLeft
    (Multiset.mem_map_of_mem f hb)

/- A list under its key, and the lists of the others. -/
theorem listed_eq
    (map : ListMap L)
    (strict : Bool)
    (addr : Address) :
    listed types map =
      listTxs types (listOf types map strict addr) +
        listed types (map.erase addr) := by
  unfold listed listOf
  rw [Tally.total_eq (listTxs types) addr map]
  congr 1
  cases hLookup : map.lookup addr with
  | none =>
      rw [Tally.part_of_none hLookup]
      simp [listTxs, types.lists.flatten_newList]
  | some list =>
      rw [Tally.part_of_some hLookup]
      rfl

theorem listed_of_lookup
    {map : ListMap L}
    {addr : Address}
    {list : L}
    (hLookup : map.lookup addr = some list) :
    listed types map =
      listTxs types list + listed types (map.erase addr) :=
  Tally.total_of_lookup hLookup

theorem listed_insert
    (map : ListMap L)
    (addr : Address)
    (list : L) :
    listed types (map.insert addr list) =
      listTxs types list + listed types (map.erase addr) :=
  Tally.total_insert (listTxs types) addr list map

/- An account without a list has no transactions. -/
theorem get_listOf_of_none
    {map : ListMap L}
    {addr : Address}
    (hLookup : map.lookup addr = none)
    (strict : Bool)
    (nonce : UInt64) :
    types.lists.get (listOf types map strict addr) nonce =
      none := by
  cases hGet : types.lists.get
      (listOf types map strict addr) nonce with
  | none => rfl
  | some tx =>
      have hMem := (types.lists.get_eq_some.mp hGet).1
      simp [listOf, hLookup,
        types.lists.flatten_newList] at hMem

namespace AtHome

theorem listOf
    {map : ListMap L}
    (hHome : AtHome types map)
    (strict : Bool)
    (addr : Address) :
    ∀ tx ∈ listTxs types
        (Mempool.listOf types map strict addr),
      senderOf types tx = addr := by
  intro tx hTx
  unfold Mempool.listOf at hTx
  cases hLookup : map.lookup addr with
  | none =>
      rw [hLookup] at hTx
      simp [listTxs, types.lists.flatten_newList] at hTx
  | some list =>
      rw [hLookup] at hTx
      exact hHome addr list hLookup tx hTx

theorem insert
    {map : ListMap L}
    (hHome : AtHome types map)
    {addr : Address}
    {list : L}
    (hList :
      ∀ tx ∈ listTxs types list, senderOf types tx = addr) :
    AtHome types (map.insert addr list) := by
  intro other found hFound
  by_cases hSame : other = addr
  · rw [hSame, AList.lookup_insert] at hFound
    rw [hSame, ← Option.some.inj hFound]
    exact hList
  · rw [AList.lookup_insert_ne hSame] at hFound
    exact hHome other found hFound

theorem erase
    {map : ListMap L}
    (hHome : AtHome types map)
    (addr : Address) :
    AtHome types (map.erase addr) := by
  intro other found hFound
  by_cases hSame : other = addr
  · rw [hSame, AList.lookup_erase] at hFound
    cases hFound
  · rw [AList.lookup_erase_ne hSame] at hFound
    exact hHome other found hFound

end AtHome

/- Nothing of an account is listed at the others. -/
theorem senderOf_of_listed
    {map : ListMap L}
    (hHome : AtHome types map)
    {tx : Tx}
    (hTx : tx ∈ listed types map) :
    ∃ list, map.lookup (senderOf types tx) = some list ∧
      tx ∈ listTxs types list := by
  rcases Tally.mem_total.mp hTx with
    ⟨addr, list, hLookup, hMem⟩
  rw [hHome addr list hLookup tx hMem]
  exact ⟨list, hLookup, hMem⟩

------------------------------------------------------------
-- Moving Transactions
------------------------------------------------------------

namespace Accounted

variable {pool : Mempool Tx L N}
variable {loose : Multiset Tx}

/- Only the lookup and the lists matter. -/
theorem of_eq
    {pool' : Mempool Tx L N}
    (hAcc : Accounted types pool loose)
    (hAll : pool'.all = pool.all)
    (hPending : pool'.pending = pool.pending)
    (hQueue : pool'.queue = pool.queue) :
    Accounted types pool' loose := by
  refine ⟨?_, ?_, ?_, ?_, ?_, ?_, ?_⟩
  · rw [hAll]
    exact hAcc.valid
  · rw [hAll, hPending, hQueue]
    exact hAcc.balance
  · rw [hAll]
    exact hAcc.keys
  · rw [hAll]
    exact hAcc.known
  · rw [hPending]
    exact hAcc.pending_home
  · rw [hQueue]
    exact hAcc.queue_home
  · rw [hQueue]
    exact hAcc.lax

/- A pending list gives up some transactions. -/
theorem takePending
    (hAcc : Accounted types pool loose)
    {addr : Address}
    {list list' : L}
    {out : Multiset Tx}
    (hLookup : pool.pending.lookup addr = some list)
    (hSplit :
      listTxs types list = out + listTxs types list') :
    Accounted types (pool.setPending addr list')
      (out + loose) where
  valid := hAcc.valid
  balance := by
    simp only [setPending]
    rw [hAcc.balance, listed_of_lookup hLookup, hSplit,
      listed_insert]
    abel
  keys := hAcc.keys
  known := hAcc.known
  pending_home := by
    refine hAcc.pending_home.insert ?_
    intro tx hTx
    refine hAcc.pending_home addr list hLookup tx ?_
    rw [hSplit]
    exact Multiset.mem_add.mpr (.inr hTx)
  queue_home := hAcc.queue_home
  lax := hAcc.lax

/- A queue gives up some transactions. -/
theorem takeQueue
    (hAcc : Accounted types pool loose)
    {addr : Address}
    {list list' : L}
    {out : Multiset Tx}
    (hLookup : pool.queue.lookup addr = some list)
    (hSplit :
      listTxs types list = out + listTxs types list')
    (hStrict :
      types.lists.strict list' = types.lists.strict list) :
    Accounted types (pool.setQueue addr list')
      (out + loose) where
  valid := hAcc.valid
  balance := by
    simp only [setQueue]
    rw [hAcc.balance, listed_of_lookup hLookup, hSplit,
      listed_insert]
    abel
  keys := hAcc.keys
  known := hAcc.known
  pending_home := hAcc.pending_home
  queue_home := by
    refine hAcc.queue_home.insert ?_
    intro tx hTx
    refine hAcc.queue_home addr list hLookup tx ?_
    rw [hSplit]
    exact Multiset.mem_add.mpr (.inr hTx)
  lax := by
    intro other found hFound
    by_cases hSame : other = addr
    · rw [hSame] at hFound
      simp only [setQueue, AList.lookup_insert,
        Option.some.injEq] at hFound
      rw [← hFound, hStrict]
      exact hAcc.lax addr list hLookup
    · simp only [setQueue,
        AList.lookup_insert_ne hSame] at hFound
      exact hAcc.lax other found hFound

/- An empty pending list is deleted. -/
theorem dropEmptyPending
    (hAcc : Accounted types pool loose)
    {addr : Address}
    {list : L}
    (hLookup : pool.pending.lookup addr = some list) :
    Accounted types
      (Mempool.dropEmptyPending types pool addr list)
      loose := by
  unfold Mempool.dropEmptyPending
  split
  · next hEmpty =>
      rw [types.lists.isEmpty_eq,
        List.isEmpty_iff] at hEmpty
      have hNone : listTxs types list = 0 := by
        simp [listTxs, hEmpty]
      refine ⟨hAcc.valid, ?_, hAcc.keys, hAcc.known,
        hAcc.pending_home.erase addr, hAcc.queue_home,
        hAcc.lax⟩
      rw [hAcc.balance, listed_of_lookup hLookup, hNone,
        zero_add]
  · exact hAcc

/- An empty queue is deleted. -/
theorem dropEmptyQueue
    (hAcc : Accounted types pool loose)
    {addr : Address}
    {list : L}
    (hLookup : pool.queue.lookup addr = some list) :
    Accounted types
      (Mempool.dropEmptyQueue types pool addr list)
      loose := by
  unfold Mempool.dropEmptyQueue
  split
  · next hEmpty =>
      rw [types.lists.isEmpty_eq,
        List.isEmpty_iff] at hEmpty
      have hNone : listTxs types list = 0 := by
        simp [listTxs, hEmpty]
      refine ⟨hAcc.valid, ?_, hAcc.keys, hAcc.known,
        hAcc.pending_home, hAcc.queue_home.erase addr, ?_⟩
      · rw [hAcc.balance, listed_of_lookup hLookup, hNone,
          zero_add]
      · intro other found hFound
        by_cases hSame : other = addr
        · rw [hSame, AList.lookup_erase] at hFound
          cases hFound
        · rw [AList.lookup_erase_ne hSame] at hFound
          exact hAcc.lax other found hFound
  · exact hAcc

/- A transaction in hand is in the lookup. -/
theorem get_eq_some
    {tx : Tx}
    (hAcc : Accounted types pool (tx ::ₘ loose)) :
    pool.all.get (types.view.hash tx) = some tx := by
  refine hAcc.valid.get_eq_some.mpr ⟨?_, rfl⟩
  rw [hAcc.balance]
  exact Multiset.mem_add.mpr (.inr (Multiset.mem_cons_self _ _))

/- A transaction in hand is dropped. -/
theorem forget
    {tx : Tx}
    (hAcc : Accounted types pool (tx ::ₘ loose)) :
    Accounted types (Mempool.forget types pool tx) loose := by
  have hTxs := hAcc.valid.txs_remove hAcc.get_eq_some
  have hSubset :
      ∀ tx' ∈ (Mempool.forget types pool tx).all.txs,
        tx' ∈ pool.all.txs := by
    intro tx' hTx'
    rw [hTxs]
    exact Multiset.mem_cons_of_mem hTx'
  refine ⟨hAcc.valid.remove _, ?_, ?_, ?_,
    hAcc.pending_home, hAcc.queue_home, hAcc.lax⟩
  · have hBalance := hAcc.balance
    rw [hTxs, Multiset.add_cons] at hBalance
    exact (Multiset.cons_inj_right tx).mp hBalance
  · have hKeys := hAcc.keys
    rw [hTxs, Multiset.map_cons] at hKeys
    exact (Multiset.nodup_cons.mp hKeys).2
  · intro tx' hTx'
    exact hAcc.known tx' (hSubset tx' hTx')

/- A queue stays lax when something is added to it. -/
theorem lax_insert
    (hAcc : Accounted types pool loose)
    (addr : Address)
    (tx : Tx)
    (bump : UInt64) :
    ∀ other list,
      (pool.queue.insert addr
          (types.lists.add
            (listOf types pool.queue false addr) tx
            bump).2).lookup other =
        some list →
      types.lists.strict list = false := by
  intro other list hLookup
  by_cases hSame : other = addr
  · rw [hSame, AList.lookup_insert] at hLookup
    rw [← Option.some.inj hLookup, types.lists.strict_add]
    unfold listOf
    cases hOld : pool.queue.lookup addr with
    | none => exact types.lists.strict_newList
    | some old => exact hAcc.lax addr old hOld
  · rw [AList.lookup_insert_ne hSame] at hLookup
    exact hAcc.lax other list hLookup

/-
  The place of a transaction in hand is free in every list
  of its sender.
-/
theorem get_eq_none
    {map : ListMap L}
    {rest : Multiset Tx}
    {tx : Tx}
    (hAcc : Accounted types pool (tx ::ₘ loose))
    (hSplit : pool.all.txs =
      listed types map + (tx ::ₘ rest))
    (hHome : AtHome types map)
    (strict : Bool) :
    types.lists.get
        (listOf types map strict (senderOf types tx))
        (types.view.nonce tx) =
      none := by
  cases hGet : types.lists.get
      (listOf types map strict (senderOf types tx))
      (types.view.nonce tx) with
  | none => rfl
  | some other =>
      rcases types.lists.get_eq_some.mp hGet with
        ⟨hOther, hNonce⟩
      have hSender := hHome.listOf strict
        (senderOf types tx) other hOther
      have hListed : other ∈ listed types map := by
        rw [listed_eq map strict (senderOf types tx)]
        exact Multiset.mem_add.mpr (.inl hOther)
      have hKeys := hAcc.keys
      rw [hSplit] at hKeys
      refine absurd ?_ (ne_of_nodup_map hKeys hListed
        (Multiset.mem_cons_self tx rest))
      simp [key, hSender, hNonce]

/- A list takes a transaction whose place is free. -/
theorem add_of_free
    {list : L}
    {tx : Tx}
    (hFree :
      types.lists.get list (types.view.nonce tx) = none)
    (bump : UInt64) :
    (types.lists.add list tx bump).1 = (true, none) ∧
      listTxs types (types.lists.add list tx bump).2 =
        tx ::ₘ listTxs types list := by
  have hInserted : (types.lists.add list tx bump).1.1 = true :=
    types.lists.add_new hFree
  have hOld := types.lists.add_old hInserted
  have hList := types.lists.add_inserted hInserted
  rw [hFree] at hOld hList
  refine ⟨Prod.ext hInserted hOld, ?_⟩
  simpa [listTxs] using hList

/- A transaction in hand goes to the queue. -/
theorem requeue_spec
    {tx : Tx}
    (hAcc : Accounted types pool (tx ::ₘ loose))
    (now : Nat) :
    (Mempool.requeue types now pool tx).all = pool.all ∧
      Accounted types (Mempool.requeue types now pool tx)
        loose := by
  have hSplit : pool.all.txs =
      listed types pool.queue +
        (tx ::ₘ (listed types pool.pending + loose)) := by
    rw [hAcc.balance]
    simp only [Multiset.add_cons]
    congr 1
    abel
  have hFree :=
    hAcc.get_eq_none hSplit hAcc.queue_home false
  rcases add_of_free hFree pool.config.priceBump with
    ⟨hAdded, hList⟩
  have hPool :
      (Mempool.requeue types now pool tx).all = pool.all ∧
      (Mempool.requeue types now pool tx).pending =
        pool.pending ∧
      (Mempool.requeue types now pool tx).queue =
        pool.queue.insert (senderOf types tx)
          (types.lists.add
            (listOf types pool.queue false
              (senderOf types tx))
            tx pool.config.priceBump).2 := by
    simp [Mempool.requeue, enqueueTx, hAdded, forgetOld]
  refine ⟨hPool.1, ?_, ?_, ?_, ?_, ?_, ?_, ?_⟩
  · rw [hPool.1]
    exact hAcc.valid
  · rw [hPool.1, hPool.2.1, hPool.2.2, hSplit,
      listed_insert, hList,
      listed_eq pool.queue false (senderOf types tx)]
    simp only [Multiset.add_cons, Multiset.cons_add]
    congr 1
    abel
  · rw [hPool.1]
    exact hAcc.keys
  · rw [hPool.1]
    exact hAcc.known
  · rw [hPool.2.1]
    exact hAcc.pending_home
  · rw [hPool.2.2]
    refine hAcc.queue_home.insert ?_
    intro other hOther
    rw [hList] at hOther
    rcases Multiset.mem_cons.mp hOther with rfl | hOther
    · rfl
    · exact hAcc.queue_home.listOf false _ other hOther
  · rw [hPool.2.2]
    exact hAcc.lax_insert _ tx _

/- A transaction in hand becomes pending. -/
theorem promoteTx
    {tx : Tx}
    (hAcc : Accounted types pool (tx ::ₘ loose))
    (now : Nat) :
    (Mempool.promoteTx types now pool
        (senderOf types tx) tx).1 = true ∧
      Accounted types
        (Mempool.promoteTx types now pool
          (senderOf types tx) tx).2
        loose := by
  have hSplit : pool.all.txs =
      listed types pool.pending +
        (tx ::ₘ (listed types pool.queue + loose)) := by
    rw [hAcc.balance]
    simp only [Multiset.add_cons]
    congr 1
    abel
  have hFree :=
    hAcc.get_eq_none hSplit hAcc.pending_home true
  rcases add_of_free hFree pool.config.priceBump with
    ⟨hAdded, hList⟩
  refine ⟨by simp [Mempool.promoteTx, hAdded], ?_⟩
  have hPromoted :
      Accounted types
        (pool.setPending (senderOf types tx)
          (types.lists.add
            (listOf types pool.pending true
              (senderOf types tx))
            tx pool.config.priceBump).2)
        loose := by
    refine ⟨hAcc.valid, ?_, hAcc.keys, hAcc.known, ?_,
      hAcc.queue_home, hAcc.lax⟩
    · simp only [setPending]
      rw [hSplit, listed_insert, hList,
        listed_eq pool.pending true (senderOf types tx)]
      simp only [Multiset.add_cons, Multiset.cons_add]
      congr 1
      abel
    · refine hAcc.pending_home.insert ?_
      intro other hOther
      rw [hList] at hOther
      rcases Multiset.mem_cons.mp hOther with rfl | hOther
      · rfl
      · exact hAcc.pending_home.listOf true _ other hOther
  exact hPromoted.of_eq
    (by simp [Mempool.promoteTx, hAdded, forgetOld,
      setPending])
    (by simp [Mempool.promoteTx, hAdded, setPending])
    (by simp [Mempool.promoteTx, hAdded, setPending])

end Accounted

------------------------------------------------------------
-- New Transactions
------------------------------------------------------------

/- The place of a transaction is free in all lists. -/
theorem key_notMem_listed
    {map : ListMap L}
    {strict : Bool}
    {tx : Tx}
    (hHome : AtHome types map)
    (hFree :
      types.lists.get
          (listOf types map strict (senderOf types tx))
          (types.view.nonce tx) =
        none) :
    key types tx ∉ (listed types map).map (key types) := by
  intro hMem
  rcases Multiset.mem_map.mp hMem with ⟨other, hOther, hKey⟩
  simp only [key, Prod.mk.injEq] at hKey
  rcases senderOf_of_listed hHome hOther with
    ⟨list, hLookup, hList⟩
  rw [hKey.1] at hLookup
  have hGet :
      types.lists.get list (types.view.nonce tx) =
        some other :=
    types.lists.get_eq_some.mpr ⟨hList, hKey.2⟩
  simp [listOf, hLookup, hGet] at hFree

variable (types) in
/- The lookup has these transactions, each once. -/
structure Indexes
    (all : Lookup Tx)
    (txs : Multiset Tx) : Prop where
  valid : all.Valid types.view
  txs_eq : all.txs = txs
  keys : (all.txs.map (key types)).Nodup
  known : ∀ tx ∈ all.txs, (types.view.sender tx).isSome

/-
  A new transaction enters the lookup, and the one whose
  place it takes in its list leaves.
-/
theorem indexes_replace
    {all : Lookup Tx}
    {tx : Tx}
    {old : Option Tx}
    {side side' others : Multiset Tx}
    (hIndexes : Indexes types all (side + others))
    (hSide : side' + old.toList = tx ::ₘ side)
    (hOld : ∀ o ∈ old, o ∈ side ∧ key types o = key types tx)
    (hFree :
      old = none → key types tx ∉ side.map (key types))
    (hOthers : key types tx ∉ others.map (key types))
    (hNew : all.get (types.view.hash tx) = none)
    (hSender : (types.view.sender tx).isSome)
    (isLocal : Bool) :
    Indexes types
      ((forgetOld types all old).add types.view tx isLocal)
      (side' + others) := by
  rcases hIndexes with ⟨hValid, hTxs, hKeys, hKnown⟩
  cases old with
  | none =>
      have hAdd := Lookup.Valid.txs_add tx isLocal hNew
      have hMore :
          (all.add types.view tx isLocal).txs =
            side' + others := by
        rw [hAdd, hTxs, ← Multiset.cons_add, ← hSide]
        simp
      refine ⟨hValid.add tx isLocal hNew, hMore, ?_, ?_⟩
      · simp only [forgetOld]
        rw [hAdd, Multiset.map_cons, Multiset.nodup_cons]
        refine ⟨?_, hKeys⟩
        rw [hTxs, Multiset.map_add, Multiset.mem_add, not_or]
        exact ⟨hFree rfl, hOthers⟩
      · simp only [forgetOld]
        rw [hAdd]
        intro other hOther
        rcases Multiset.mem_cons.mp hOther with rfl | hOther
        · exact hSender
        · exact hKnown other hOther
  | some old =>
      rcases hOld old rfl with ⟨hMem, hSame⟩
      have hIn : old ∈ all.txs := by
        rw [hTxs]
        exact Multiset.mem_add.mpr (.inl hMem)
      have hGet := hValid.get_eq_some.mpr ⟨hIn, rfl⟩
      have hRemove := hValid.txs_remove hGet
      have hValid' := hValid.remove (types.view.hash old)
      -- the lookup does not know the new one afterwards
      have hNew' :
          (all.remove types.view
              (types.view.hash old)).get
            (types.view.hash tx) = none := by
        cases hFound : (all.remove types.view
            (types.view.hash old)).get
          (types.view.hash tx) with
        | none => rfl
        | some found =>
            rcases hValid'.get_eq_some.mp hFound with
              ⟨hLeft, hHash⟩
            have hBefore : found ∈ all.txs := by
              rw [hRemove]
              exact Multiset.mem_cons_of_mem hLeft
            rw [hValid.get_eq_some.mpr ⟨hBefore, hHash⟩]
              at hNew
            cases hNew
      have hAdd := Lookup.Valid.txs_add tx isLocal hNew'
      refine ⟨hValid'.add tx isLocal hNew', ?_, ?_, ?_⟩
      · simp only [forgetOld]
        rw [hAdd]
        apply (Multiset.cons_inj_right old).mp
        rw [Multiset.cons_swap, ← hRemove, hTxs,
          ← Multiset.cons_add, ← hSide]
        simp only [Option.toList_some, Multiset.coe_singleton]
        rw [← Multiset.singleton_add]
        abel
      · simp only [forgetOld]
        rw [hRemove, Multiset.map_cons, hSame] at hKeys
        rw [hAdd, Multiset.map_cons]
        exact hKeys
      · simp only [forgetOld]
        rw [hAdd]
        intro other hOther
        rcases Multiset.mem_cons.mp hOther with rfl | hOther
        · exact hSender
        · refine hKnown other ?_
          rw [hRemove]
          exact Multiset.mem_cons_of_mem hOther

namespace Accounted

variable {pool : Mempool Tx L N}

/- Both lists of the sender have room for it. -/
theorem old_mem
    {map : ListMap L}
    {tx old : Tx}
    {strict : Bool}
    (hHome : AtHome types map)
    (hOld :
      types.lists.get
          (listOf types map strict (senderOf types tx))
          (types.view.nonce tx) =
        some old) :
    old ∈ listed types map ∧
      key types old = key types tx := by
  rcases types.lists.get_eq_some.mp hOld with
    ⟨hMem, hNonce⟩
  have hSender :=
    hHome.listOf strict (senderOf types tx) old hMem
  refine ⟨?_, ?_⟩
  · rw [listed_eq map strict (senderOf types tx)]
    exact Multiset.mem_add.mpr (.inl hMem)
  · simp [key, hSender, hNonce]

/-
  A list that takes a transaction, and all lists with it.
-/
theorem listed_add
    {map : ListMap L}
    {tx : Tx}
    {strict : Bool}
    {bump : UInt64}
    (hInserted :
      (types.lists.add
        (listOf types map strict (senderOf types tx)) tx
        bump).1.1 = true) :
    listed types
          (map.insert (senderOf types tx)
            (types.lists.add
              (listOf types map strict (senderOf types tx))
              tx bump).2) +
        (types.lists.get
          (listOf types map strict (senderOf types tx))
          (types.view.nonce tx)).toList =
      tx ::ₘ listed types map := by
  have hList := types.lists.add_inserted hInserted
  rw [listed_insert,
    listed_eq map strict (senderOf types tx),
    ← Multiset.cons_add]
  unfold listTxs
  rw [← hList]
  abel

/- The lists of an account stay at home. -/
theorem home_add
    {map : ListMap L}
    {tx : Tx}
    {strict : Bool}
    {bump : UInt64}
    (hHome : AtHome types map)
    (hInserted :
      (types.lists.add
        (listOf types map strict (senderOf types tx)) tx
        bump).1.1 = true) :
    AtHome types
      (map.insert (senderOf types tx)
        (types.lists.add
          (listOf types map strict (senderOf types tx)) tx
          bump).2) := by
  refine hHome.insert ?_
  intro other hOther
  have hList := types.lists.add_inserted hInserted
  have hMem : other ∈ tx ::ₘ
      listTxs types
        (listOf types map strict (senderOf types tx)) := by
    unfold listTxs
    rw [← hList]
    exact Multiset.mem_add.mpr (.inl hOther)
  rcases Multiset.mem_cons.mp hMem with rfl | hMem
  · rfl
  · exact hHome.listOf strict _ other hMem

/- A list that takes nothing is as before. -/
theorem listed_reject
    {map : ListMap L}
    {tx : Tx}
    {strict : Bool}
    {bump : UInt64}
    (hRejected :
      (types.lists.add
        (listOf types map strict (senderOf types tx)) tx
        bump).1.1 = false) :
    listed types
        (map.insert (senderOf types tx)
          (types.lists.add
            (listOf types map strict (senderOf types tx)) tx
            bump).2) =
      listed types map := by
  rw [types.lists.add_rejected hRejected, listed_insert,
    ← listed_eq]

/- A new transaction is put into the queue. -/
theorem enqueueNew
    (hAcc : Accounted types pool 0)
    {tx : Tx}
    (hNew : pool.all.get (types.view.hash tx) = none)
    (hSender : (types.view.sender tx).isSome)
    (hPending :
      types.lists.get
          (listOf types pool.pending true (senderOf types tx))
          (types.view.nonce tx) =
        none)
    (now : Nat)
    (isLocal : Bool) :
    Accounted types
      (enqueueTx types now pool tx isLocal true).2 0 := by
  have hBalance := hAcc.balance
  rw [add_zero] at hBalance
  cases hInserted : (types.lists.add
      (listOf types pool.queue false (senderOf types tx)) tx
      pool.config.priceBump).1.1 with
  | false =>
      have hSame := types.lists.add_rejected hInserted
      have hPool :
          (enqueueTx types now pool tx isLocal true).2 =
            pool.setQueue (senderOf types tx)
              (types.lists.add
                (listOf types pool.queue false
                  (senderOf types tx))
                tx pool.config.priceBump).2 := by
        simp [enqueueTx, hInserted, setQueue]
      rw [hPool]
      refine ⟨hAcc.valid, ?_, hAcc.keys, hAcc.known,
        hAcc.pending_home, ?_, hAcc.lax_insert _ tx _⟩
      · simp only [setQueue]
        rw [listed_reject hInserted]
        exact hAcc.balance
      · refine hAcc.queue_home.insert ?_
        rw [hSame]
        exact hAcc.queue_home.listOf false _
  | true =>
      have hAll :
          (enqueueTx types now pool tx isLocal true).2.all =
            (forgetOld types pool.all
              (types.lists.get
                (listOf types pool.queue false
                  (senderOf types tx))
                (types.view.nonce tx))).add
              types.view tx isLocal := by
        simp [enqueueTx, hInserted,
          types.lists.add_old hInserted]
      have hLists :
          (enqueueTx types now pool tx isLocal true).2.pending =
            pool.pending ∧
          (enqueueTx types now pool tx isLocal true).2.queue =
            pool.queue.insert (senderOf types tx)
              (types.lists.add
                (listOf types pool.queue false
                  (senderOf types tx))
                tx pool.config.priceBump).2 := by
        simp [enqueueTx, hInserted]
      have hIndexes := indexes_replace
        ⟨hAcc.valid, hBalance.trans (add_comm _ _),
          hAcc.keys, hAcc.known⟩
        (listed_add hInserted)
        (fun old hOld => old_mem hAcc.queue_home hOld)
        (fun hNone => key_notMem_listed hAcc.queue_home hNone)
        (key_notMem_listed hAcc.pending_home hPending)
        hNew hSender isLocal
      rw [← hAll] at hIndexes
      refine ⟨hIndexes.valid, ?_, hIndexes.keys,
        hIndexes.known, ?_, ?_, ?_⟩
      · rw [hIndexes.txs_eq, hLists.1, hLists.2]
        abel
      · rw [hLists.1]
        exact hAcc.pending_home
      · rw [hLists.2]
        exact home_add hAcc.queue_home hInserted
      · rw [hLists.2]
        exact hAcc.lax_insert _ tx _

/- A new transaction takes the place of a pending one. -/
theorem replacePending
    (hAcc : Accounted types pool 0)
    {tx : Tx}
    (hNew : pool.all.get (types.view.hash tx) = none)
    (hSender : (types.view.sender tx).isSome)
    {list : L}
    (hLookup :
      pool.pending.lookup (senderOf types tx) = some list)
    (hOverlaps : types.lists.overlaps list tx = true)
    (now : Nat)
    (isLocal : Bool) :
    Accounted types
      (Mempool.replacePending types now pool tx isLocal
        list).2 0 := by
  have hBalance := hAcc.balance
  rw [add_zero] at hBalance
  have hList :
      listOf types pool.pending true (senderOf types tx) =
        list := by
    simp [listOf, hLookup]
  subst hList
  rw [types.lists.overlaps_eq] at hOverlaps
  rcases Option.isSome_iff_exists.mp hOverlaps with
    ⟨old, hOld⟩
  cases hInserted : (types.lists.add
      (listOf types pool.pending true (senderOf types tx)) tx
      pool.config.priceBump).1.1 with
  | false =>
      have hSame := types.lists.add_rejected hInserted
      simp only [Mempool.replacePending, hInserted,
        Bool.not_false, if_true]
      refine ⟨hAcc.valid, ?_, hAcc.keys, hAcc.known, ?_,
        hAcc.queue_home, hAcc.lax⟩
      · simp only [setPending]
        rw [listed_reject hInserted]
        exact hAcc.balance
      · refine hAcc.pending_home.insert ?_
        rw [hSame]
        exact hAcc.pending_home.listOf true _
  | true =>
      -- the pending transaction is not in the queue as well
      have hQueue :
          key types tx ∉
            (listed types pool.queue).map (key types) := by
        rcases old_mem hAcc.pending_home hOld with
          ⟨hMem, hKey⟩
        have hKeys := hAcc.keys
        rw [hBalance] at hKeys
        intro hIn
        rcases Multiset.mem_map.mp hIn with
          ⟨other, hOther, hSame⟩
        exact ne_of_nodup_map hKeys hMem hOther
          (hKey.trans hSame.symm)
      have hIndexes := indexes_replace
        ⟨hAcc.valid, hBalance, hAcc.keys, hAcc.known⟩
        (listed_add hInserted)
        (fun old hOld => old_mem hAcc.pending_home hOld)
        (fun hNone =>
          key_notMem_listed hAcc.pending_home hNone)
        hQueue hNew hSender isLocal
      rw [← types.lists.add_old hInserted] at hIndexes
      simp only [Mempool.replacePending, hInserted,
        Bool.not_true, Bool.false_eq_true, if_false]
      refine ⟨hIndexes.valid, ?_, hIndexes.keys,
        hIndexes.known, home_add hAcc.pending_home hInserted,
        hAcc.queue_home, hAcc.lax⟩
      rw [add_zero]
      exact hIndexes.txs_eq

end Accounted

------------------------------------------------------------
-- Removing Transactions
------------------------------------------------------------

theorem dropEmptyPending_all
    (pool : Mempool Tx L N)
    (addr : Address)
    (list : L) :
    (dropEmptyPending types pool addr list).all =
      pool.all := by
  unfold dropEmptyPending
  split <;> rfl

theorem dropEmptyQueue_all
    (pool : Mempool Tx L N)
    (addr : Address)
    (list : L) :
    (dropEmptyQueue types pool addr list).all =
      pool.all := by
  unfold dropEmptyQueue
  split <;> rfl

theorem removeQueued_all
    (types : PoolTypes Tx L N)
    (pool : Mempool Tx L N)
    (addr : Address)
    (tx : Tx) :
    (removeQueued types pool addr tx).all = pool.all := by
  unfold removeQueued
  split
  · rfl
  · exact dropEmptyQueue_all _ _ _

namespace Accounted

variable {pool : Mempool Tx L N}
variable {loose : Multiset Tx}

/- What each round takes from the hand, a loop takes. -/
theorem foldl_hand
    {f : Mempool Tx L N → Tx → Mempool Tx L N}
    (hRound :
      ∀ {pool tx loose},
        Accounted types pool (tx ::ₘ loose) →
          Accounted types (f pool tx) loose)
    {txs : List Tx}
    (hAcc : Accounted types pool (txs + loose)) :
    Accounted types (txs.foldl f pool) loose := by
  induction txs generalizing pool with
  | nil => simpa using hAcc
  | cons tx txs ih =>
      rw [← Multiset.cons_coe, Multiset.cons_add] at hAcc
      exact ih (hRound hAcc)

/- The transaction under a key is the one. -/
theorem eq_of_key
    (hAcc : Accounted types pool loose)
    {tx tx' : Tx}
    (hTx : tx ∈ pool.all.txs)
    (hTx' : tx' ∈ pool.all.txs)
    (hKey : key types tx = key types tx') :
    tx = tx' :=
  Multiset.inj_on_of_nodup_map hAcc.keys tx hTx tx' hTx' hKey

/- A transaction that is not pending is in the queue. -/
theorem removeQueued
    (hAcc : Accounted types pool 0)
    {tx : Tx}
    (hTx : tx ∈ pool.all.txs)
    (hNot : tx ∉ listed types pool.pending) :
    Accounted types
      (Mempool.removeQueued types
        (Mempool.forget types pool tx)
        (senderOf types tx) tx)
      0 := by
  have hQueued : tx ∈ listed types pool.queue := by
    rw [hAcc.balance, add_zero] at hTx
    exact (Multiset.mem_add.mp hTx).resolve_left hNot
  rcases senderOf_of_listed hAcc.queue_home hQueued with
    ⟨future, hLookup, hMem⟩
  have hGet :
      types.lists.get future (types.view.nonce tx) =
        some tx :=
    types.lists.get_eq_some.mpr ⟨hMem, rfl⟩
  have hRemoved :
      (types.lists.remove future tx).1.1 = true := by
    by_contra hMissing
    rw [Bool.not_eq_true] at hMissing
    rw [(types.lists.remove_missing hMissing).1] at hGet
    cases hGet
  rcases types.lists.remove_found hRemoved with
    ⟨found, hFound, hSplit⟩
  have hSame : found = tx :=
    Option.some.inj (hFound.symm.trans hGet)
  have hLax := hAcc.lax _ future hLookup
  rw [hSame, types.lists.remove_lax hLax,
    Multiset.coe_nil, zero_add,
    ← Multiset.singleton_add] at hSplit
  have hTaken := hAcc.takeQueue hLookup hSplit
    types.lists.strict_remove
  rw [Multiset.singleton_add] at hTaken
  simp only [Mempool.removeQueued, Mempool.forget, hLookup]
  exact hTaken.forget.dropEmptyQueue
    (AList.lookup_insert _)

/- Transactions in hand go to the queue. -/
theorem requeueAll_spec
    {txs : List Tx}
    (hAcc : Accounted types pool (txs + loose))
    (now : Nat) :
    (txs.foldl (Mempool.requeue types now) pool).all =
        pool.all ∧
      Accounted types
        (txs.foldl (Mempool.requeue types now) pool)
        loose := by
  induction txs generalizing pool with
  | nil => exact ⟨rfl, by simpa using hAcc⟩
  | cons tx txs ih =>
      rw [← Multiset.cons_coe, Multiset.cons_add] at hAcc
      rcases hAcc.requeue_spec now with ⟨hAll, hNext⟩
      rcases ih hNext with ⟨hAll', hLast⟩
      exact ⟨hAll'.trans hAll, hLast⟩

/- A transaction that is pending, as its list finds it. -/
theorem removePending_spec
    (hAcc : Accounted types pool 0)
    {tx : Tx}
    {list : L}
    (hTx : tx ∈ pool.all.txs)
    (hLookup :
      pool.pending.lookup (senderOf types tx) = some list)
    (hRemoved : (types.lists.remove list tx).1.1 = true)
    (now : Nat) :
    (removePending types now (Mempool.forget types pool tx)
        (senderOf types tx) tx
        (types.lists.remove list tx).2
        (types.lists.remove list tx).1.2).all =
        (Mempool.forget types pool tx).all ∧
      Accounted types
        (removePending types now
          (Mempool.forget types pool tx)
          (senderOf types tx) tx
          (types.lists.remove list tx).2
          (types.lists.remove list tx).1.2)
        0 := by
  rcases types.lists.remove_found hRemoved with
    ⟨found, hFound, hSplit⟩
  rcases types.lists.get_eq_some.mp hFound with
    ⟨hMem, hNonce⟩
  have hSender :=
    hAcc.pending_home _ list hLookup found hMem
  have hIn : found ∈ pool.all.txs := by
    rw [hAcc.balance, listed_of_lookup hLookup]
    simp only [Multiset.mem_add]
    exact .inl (.inl (.inl hMem))
  have hSame : found = tx :=
    hAcc.eq_of_key hIn hTx (by simp [key, hSender, hNonce])
  rw [hSame, ← Multiset.cons_add] at hSplit
  have hTaken := hAcc.takePending hLookup hSplit
  rw [Multiset.cons_add] at hTaken
  have hDropped := hTaken.forget.dropEmptyPending
    (AList.lookup_insert _)
  rcases hDropped.requeueAll_spec now with ⟨hAll, hLast⟩
  rw [dropEmptyPending_all] at hAll
  exact ⟨hAll, hLast.of_eq rfl rfl rfl⟩

/-
  `removeTx` keeps the balance, and takes one transaction
  out of the lookup.
-/
theorem removeTx_spec
    (hAcc : Accounted types pool 0)
    (now : Nat)
    (hash : Bytes) :
    (Mempool.removeTx types now pool hash).2.all =
        pool.all.remove types.view hash ∧
      Accounted types
        (Mempool.removeTx types now pool hash).2 0 := by
  unfold Mempool.removeTx
  cases hGet : pool.all.get hash with
  | none => exact ⟨by simp [Lookup.remove, hGet], hAcc⟩
  | some tx =>
      rcases hAcc.valid.get_eq_some.mp hGet with ⟨hTx, rfl⟩
      simp only
      cases hLookup :
          pool.pending.lookup (senderOf types tx) with
      | none =>
          refine ⟨removeQueued_all _ _ _ _,
            hAcc.removeQueued hTx ?_⟩
          intro hListed
          rcases senderOf_of_listed hAcc.pending_home hListed
            with ⟨list, hList, _⟩
          rw [hList] at hLookup
          cases hLookup
      | some list =>
          cases hRemoved :
              (types.lists.remove list tx).1.1 with
          | false =>
              simp only [hRemoved, Bool.false_eq_true,
                if_false]
              refine ⟨removeQueued_all _ _ _ _,
                hAcc.removeQueued hTx ?_⟩
              intro hListed
              rcases senderOf_of_listed hAcc.pending_home
                hListed with ⟨list', hList, hMem⟩
              rw [hLookup] at hList
              rw [← Option.some.inj hList] at hMem
              have hFound := types.lists.get_eq_some.mpr
                ⟨hMem, rfl⟩
              rw [(types.lists.remove_missing hRemoved).1]
                at hFound
              cases hFound
          | true =>
              simp only [hRemoved, if_true]
              exact hAcc.removePending_spec hTx hLookup
                hRemoved now

theorem removeTx
    (hAcc : Accounted types pool 0)
    (now : Nat)
    (hash : Bytes) :
    Accounted types
      (Mempool.removeTx types now pool hash).2 0 :=
  (hAcc.removeTx_spec now hash).2

end Accounted

------------------------------------------------------------
-- Adding Transactions
------------------------------------------------------------

/- What was validated has a sender. -/
theorem isSome_sender_of_validateTx
    {pool : Mempool Tx L N}
    {tx : Tx}
    {isLocal : Bool}
    (hOk : validateTx types pool tx isLocal = .ok ()) :
    (types.view.sender tx).isSome := by
  cases hSender : types.view.sender tx with
  | some sender => rfl
  | none =>
      unfold validateTx at hOk
      rw [hSender] at hOk
      cases hFields : validateFields types pool tx with
      | error err => simp [hFields] at hOk
      | ok fields => simp [hFields] at hOk

namespace Accounted

variable {pool : Mempool Tx L N}

/- Dropped transactions leave, and nothing comes in. -/
theorem dropTxs_spec
    (hAcc : Accounted types pool 0)
    {hash : Bytes}
    (hNew : pool.all.get hash = none)
    (now : Nat)
    (drop : List Tx) :
    (dropTxs types now pool drop).all.get hash = none ∧
      Accounted types (dropTxs types now pool drop) 0 := by
  unfold dropTxs
  induction drop generalizing pool with
  | nil => exact ⟨hNew, hAcc⟩
  | cons tx drop ih =>
      rcases hAcc.removeTx_spec now (types.view.hash tx) with
        ⟨hAll, hNext⟩
      refine ih (hNext.of_eq rfl rfl rfl) ?_
      simp only [hAll]
      exact Lookup.Valid.get_remove_of_none hNew _

/- Room is made, or the pool stays as it is. -/
theorem makeRoom_spec
    {pool' : Mempool Tx L N}
    (hAcc : Accounted types pool 0)
    {tx : Tx}
    (hNew : pool.all.get (types.view.hash tx) = none)
    {priced : PricedAnswers Tx}
    {now : Nat}
    {isLocal : Bool}
    (hRoom :
      makeRoom types priced now pool tx isLocal =
        .ok pool') :
    pool'.all.get (types.view.hash tx) = none ∧
      Accounted types pool' 0 := by
  simp only [makeRoom] at hRoom
  split at hRoom
  · cases hRoom
  split at hRoom
  · cases hRoom
  split at hRoom
  · cases hRoom
  split at hRoom
  · cases hRoom
  rw [← Except.ok.inj hRoom]
  exact hAcc.dropTxs_spec hNew now priced.drop

/- A sender may turn out to be local. -/
theorem addQueued
    (hAcc : Accounted types pool 0)
    {tx : Tx}
    (hNew : pool.all.get (types.view.hash tx) = none)
    (hSender : (types.view.sender tx).isSome)
    (hPending :
      types.lists.get
          (listOf types pool.pending true (senderOf types tx))
          (types.view.nonce tx) =
        none)
    (remotes : List Bytes)
    (now : Nat)
    (fromLocal isLocal : Bool) :
    Accounted types
      (Mempool.addQueued types remotes now pool tx fromLocal
        isLocal).2 0 := by
  have hEnqueued :=
    hAcc.enqueueNew hNew hSender hPending now isLocal
  unfold Mempool.addQueued
  rcases hResult : enqueueTx types now pool tx isLocal true
    with ⟨result, pool'⟩
  rw [hResult] at hEnqueued
  cases result with
  | error err => exact hEnqueued
  | ok replaced =>
      simp only
      split
      · have hMigrated := hEnqueued.valid.remoteToLocals
          remotes (pool'.locals.add (senderOf types tx))
        refine ⟨hMigrated.1, ?_, ?_, ?_,
          hEnqueued.pending_home, hEnqueued.queue_home,
          hEnqueued.lax⟩
        · simp only [hMigrated.2]
          exact hEnqueued.balance
        · simp only [hMigrated.2]
          exact hEnqueued.keys
        · simp only [hMigrated.2]
          exact hEnqueued.known
      · exact hEnqueued

/- `add` keeps the balance, whatever it answers. -/
theorem add
    (hAcc : Accounted types pool 0)
    (answers : AddAnswers Tx)
    (now : Nat)
    (tx : Tx)
    (fromLocal : Bool) :
    Accounted types
      (Mempool.add types answers now pool tx fromLocal).2
      0 := by
  unfold Mempool.add
  split
  · exact hAcc
  next hUnknown =>
  have hNew : pool.all.get (types.view.hash tx) = none := by
    simpa using hUnknown
  simp only
  cases hValid : validateTx types pool tx
      (fromLocal || pool.locals.containsTx types.view tx) with
  | error err => exact hAcc
  | ok fields =>
      have hSender := isSome_sender_of_validateTx hValid
      simp only
      -- both ways to get room leave the balance
      cases hRoomy :
          (if pool.config.globalSlots +
                pool.config.globalQueue <
              UInt64.ofInt
                (pool.all.slots + types.view.numSlots tx) then
            makeRoom types answers.toPricedAnswers now pool tx
              (fromLocal ||
                pool.locals.containsTx types.view tx)
          else
            .ok pool) with
      | error err => exact hAcc
      | ok roomy =>
          have hRoom :
              roomy.all.get (types.view.hash tx) = none ∧
                Accounted types roomy 0 := by
            split at hRoomy
            · exact hAcc.makeRoom_spec hNew hRoomy
            · rw [← Except.ok.inj hRoomy]
              exact ⟨hNew, hAcc⟩
          simp only
          cases hLookup :
              roomy.pending.lookup (senderOf types tx) with
          | none =>
              refine hRoom.2.addQueued hRoom.1 hSender ?_ _
                now fromLocal _
              exact get_listOf_of_none hLookup _ _
          | some list =>
              simp only
              split
              · next hOverlaps =>
                  exact hRoom.2.replacePending hRoom.1 hSender
                    hLookup hOverlaps now _
              · next hApart =>
                  refine hRoom.2.addQueued hRoom.1 hSender ?_
                    _ now fromLocal _
                  rw [types.lists.overlaps_eq] at hApart
                  simpa [listOf, hLookup] using hApart

end Accounted

end Mempool

end Builder
