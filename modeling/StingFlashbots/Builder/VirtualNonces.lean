import StingFlashbots.Builder.PendingCuts

/-
  Pending transactions follow each other.

  The pool tells every account its next nonce. It is the one
  behind the last pending transaction, and the pending ones
  have all nonces from the one of the state up to there, so
  that they can be executed one after another.

  Cuts keep this. Promotion goes on where the pending ones
  end. A reset breaks the order, and demoting restores it,
  unless the nonces of the new state are lower.

  Key definitions include:
    * `Builder.Mempool.Lined`
    * `Builder.Mempool.Demoted`
    * `Builder.Mempool.RunsForward`

  Main results:
    * `Builder.Mempool.run_lined`
    * `Builder.Mempool.run_nonces`
-/

namespace Builder

namespace Mempool

open Sting

variable {Tx L N : Type}
variable {types : PoolTypes Tx L N}

------------------------------------------------------------
-- Nonces in a Line
------------------------------------------------------------

/- The nonces up to a nonce that is not the last one. -/
theorem lt_succ_iff
    {m : UInt64}
    (hLast : m ≠ lastNonce)
    (n : UInt64) :
    n < m + 1 ↔ n ≤ m := by
  have hMax : m ≠ 18446744073709551615 := hLast
  grind

variable (types) in
/-
  From the nonce of the state on, the pending transactions of
  an account end at one place, and the next nonce is not
  behind it. Between two calls it is that place, and nothing
  is pending below.
-/
structure LinedAt
    (settled : Prop)
    (pool : Mempool Tx L N)
    (addr : Address)
    (stop : UInt64) : Prop where
  start_le : pool.currentState.getNonce addr ≤ stop
  nonce_le : nonce types pool addr ≤ stop
  isPending :
    ∀ n, pool.currentState.getNonce addr ≤ n →
      (IsPending types pool.pending addr n ↔ n < stop)
  exact :
    settled → nonce types pool addr = stop ∧
      ∀ n, IsPending types pool.pending addr n →
        pool.currentState.getNonce addr ≤ n

variable (types) in
/- The pending transactions of all accounts are in a line. -/
structure Lined
    (fallback : N → StateView)
    (settled : Prop)
    (pool : Mempool Tx L N) : Prop where
  strict : AllStrict types pool.pending
  fallback : fallback pool.pendingNonces = pool.currentState
  accounts : ∀ addr, ∃ stop, LinedAt types settled pool addr stop

namespace Lined

variable {fallback : N → StateView}
variable {settled : Prop}
variable {pool pool' : Mempool Tx L N}

/- Cut lines are lines. -/
theorem cut
    (hLined : Lined types fallback settled pool)
    (hCut : Cut types fallback pool pool') :
    Lined types fallback settled pool' where
  strict := hCut.strict
  fallback := by
    rw [hCut.fallback, hCut.state]
    exact hLined.fallback
  accounts := by
    intro addr
    rcases hLined.accounts addr with ⟨stop, hAt⟩
    rcases hCut.accounts addr with hSame | ⟨cut, hCutAt⟩
    · refine ⟨stop, ?_, ?_, ?_, ?_⟩
      · rw [hCut.state]
        exact hAt.start_le
      · rw [hSame.nonce]
        exact hAt.nonce_le
      · intro n
        rw [hCut.state, hSame.isPending]
        exact hAt.isPending n
      · intro hSettled
        rw [hCut.state, hSame.nonce]
        refine ⟨(hAt.exact hSettled).1, ?_⟩
        intro n
        rw [hSame.isPending]
        exact (hAt.exact hSettled).2 n
    · -- a cut below the line leaves nothing of it
      have hStart := hAt.start_le
      have hNonce := hAt.nonce_le
      have hWas := hAt.isPending cut
      refine ⟨if pool.currentState.getNonce addr ≤ cut then
          cut else pool.currentState.getNonce addr,
        ?_, ?_, ?_, ?_⟩
      · rw [hCut.state]
        grind
      · rw [hCutAt.nonce]
        grind
      · intro n hLe
        rw [hCut.state] at hLe
        rw [hCutAt.isPending, hAt.isPending n hLe]
        have := hCutAt.was
        grind
      · intro hSettled
        rcases hAt.exact hSettled with ⟨hExact, hAbove⟩
        have hBelow := hAbove cut hCutAt.was
        have hLt := (hWas hBelow).mp hCutAt.was
        rw [hCut.state, hCutAt.nonce]
        refine ⟨by grind, ?_⟩
        intro n hn
        exact hAbove n ((hCutAt.isPending n).mp hn).1

/- Nothing pending changes, and so the line is the same. -/
theorem still
    (hLined : Lined types fallback settled pool)
    (hStill : Still pool pool') :
    Lined types fallback settled pool' :=
  hLined.cut (.of_still hLined.strict hStill)

/- What was exact is in a line. -/
theorem weaken
    (hLined : Lined types fallback True pool) :
    Lined types fallback settled pool where
  strict := hLined.strict
  fallback := hLined.fallback
  accounts := by
    intro addr
    rcases hLined.accounts addr with ⟨stop, hAt⟩
    exact ⟨stop, hAt.start_le, hAt.nonce_le, hAt.isPending,
      fun _ => hAt.exact trivial⟩

/- What is exact, in terms of the lists. -/
theorem isPending_iff
    (hLined : Lined types fallback True pool)
    (addr : Address)
    (n : UInt64) :
    IsPending types pool.pending addr n ↔
      pool.currentState.getNonce addr ≤ n ∧
        n < nonce types pool addr := by
  rcases hLined.accounts addr with ⟨stop, hAt⟩
  rcases hAt.exact trivial with ⟨hExact, hAbove⟩
  rw [hExact]
  constructor
  · intro hPending
    have hLe := hAbove n hPending
    exact ⟨hLe, (hAt.isPending n hLe).mp hPending⟩
  · rintro ⟨hLe, hLt⟩
    exact (hAt.isPending n hLe).mpr hLt

------------------------------------------------------------
-- Promoting
------------------------------------------------------------

/- What is pending is in the list of the account. -/
theorem hasNonce_listOf
    {map : ListMap L}
    {addr : Address}
    {n : UInt64} :
    HasNonce types (listOf types map true addr) n ↔
      IsPending types map addr n := by
  cases hLookup : map.lookup addr with
  | none =>
      rw [hasNonce_iff, get_listOf_of_none hLookup]
      simp [IsPending, hLookup]
  | some list =>
      rw [isPending_of_lookup hLookup]
      simp [listOf, hLookup]

theorem strict_listOf
    {map : ListMap L}
    (hStrict : AllStrict types map)
    (addr : Address) :
    types.lists.strict (listOf types map true addr) =
      true := by
  unfold listOf
  cases hLookup : map.lookup addr with
  | none => exact types.lists.strict_newList
  | some list => exact hStrict addr list hLookup

/- A transaction whose nonce is free becomes pending. -/
theorem promoteTx_eq
    {addr : Address}
    {tx : Tx}
    (hFree :
      ¬ IsPending types pool.pending addr
        (types.view.nonce tx))
    (now : Nat) :
    (promoteTx types now pool addr tx).2.pending =
        pool.pending.insert addr
          (types.lists.add
            (listOf types pool.pending true addr) tx
            pool.config.priceBump).2 ∧
      (promoteTx types now pool addr tx).2.pendingNonces =
        types.noncers.set pool.pendingNonces addr
          (types.view.nonce tx + 1) ∧
      (promoteTx types now pool addr tx).2.currentState =
        pool.currentState ∧
      ∀ n, HasNonce types
          (types.lists.add
            (listOf types pool.pending true addr) tx
            pool.config.priceBump).2 n ↔
        n = types.view.nonce tx ∨
          IsPending types pool.pending addr n := by
  have hNone :
      types.lists.get (listOf types pool.pending true addr)
        (types.view.nonce tx) = none := by
    rw [← hasNonce_listOf, hasNonce_iff] at hFree
    simpa using hFree
  rcases Accounted.add_of_free hNone pool.config.priceBump
    with ⟨hAdded, hList⟩
  unfold promoteTx
  simp only [hAdded, Bool.not_true, Bool.false_eq_true,
    if_false]
  refine ⟨trivial, trivial, trivial, ?_⟩
  intro n
  rw [← hasNonce_listOf]
  unfold HasNonce
  rw [hList]
  simp only [Multiset.mem_cons, exists_eq_or_imp]
  rw [eq_comm]

/- The next nonce is promoted. -/
theorem promoteOne
    (hTypes : types.Ordered fallback)
    (hLined : Lined types fallback settled pool)
    {addr : Address}
    (hAt : LinedAt types settled pool addr
      (nonce types pool addr))
    {tx : Tx}
    (hNext : types.view.nonce tx = nonce types pool addr)
    (now : Nat)
    (promoted : List Tx) :
    Lined types fallback settled
        (Mempool.promoteOne types now addr (pool, promoted)
          tx).1 ∧
      LinedAt types settled
        (Mempool.promoteOne types now addr (pool, promoted)
          tx).1 addr
        (nonce types
          (Mempool.promoteOne types now addr (pool, promoted)
            tx).1 addr) ∧
      nonce types
          (Mempool.promoteOne types now addr (pool, promoted)
            tx).1 addr =
        types.view.nonce tx + 1 := by
  have hStart := hAt.start_le
  have hFree :
      ¬ IsPending types pool.pending addr
        (types.view.nonce tx) := by
    rw [hNext, hAt.isPending _ hStart]
    exact UInt64.lt_irrefl _
  rcases promoteTx_eq hFree now with
    ⟨hPending, hNonces, hState, hHas⟩
  simp only [Mempool.promoteOne]
  have hNonce :
      ∀ other,
        nonce types (promoteTx types now pool addr tx).2
            other =
          if other = addr then types.view.nonce tx + 1
          else nonce types pool other := by
    intro other
    unfold nonce
    rw [hNonces]
    exact hTypes.noncers.get_set
  have hOwn : nonce types
      (promoteTx types now pool addr tx).2 addr =
        types.view.nonce tx + 1 := by
    rw [hNonce, if_pos rfl]
  have hLast := hTypes.nonce_ne tx
  have hSucc := lt_succ_iff hLast
  have hNew : LinedAt types settled
      (promoteTx types now pool addr tx).2 addr
      (types.view.nonce tx + 1) := by
    refine ⟨?_, ?_, ?_, ?_⟩
    · rw [hState]
      grind
    · rw [hOwn]
      exact UInt64.le_refl _
    · intro n hLe
      rw [hState] at hLe
      rw [hPending, isPending_insert, if_pos rfl, hHas,
        hAt.isPending n hLe, hSucc, hNext]
      grind
    · intro hSettled
      refine ⟨hOwn, ?_⟩
      intro n
      rw [hPending, isPending_insert, if_pos rfl, hHas,
        hState]
      rintro (rfl | hOld)
      · rw [hNext]
        exact hStart
      · exact (hAt.exact hSettled).2 n hOld
  refine ⟨⟨?_, ?_, ?_⟩, ?_, hOwn⟩
  · rw [hPending]
    refine hLined.strict.insert ?_
    rw [types.lists.strict_add]
    exact strict_listOf hLined.strict addr
  · rw [hNonces, hState, hTypes.noncers.fallback_set]
    exact hLined.fallback
  · intro other
    by_cases hSame : other = addr
    · rw [hSame]
      exact ⟨_, hNew⟩
    · rcases hLined.accounts other with ⟨stop, hOther⟩
      have hKeep := hNonce other
      rw [if_neg hSame] at hKeep
      refine ⟨stop, ?_, ?_, ?_, ?_⟩
      · rw [hState]
        exact hOther.start_le
      · rw [hKeep]
        exact hOther.nonce_le
      · intro n
        rw [hState, hPending, isPending_insert, if_neg hSame]
        exact hOther.isPending n
      · rw [hKeep, hState, hPending]
        intro hSettled
        refine ⟨(hOther.exact hSettled).1, ?_⟩
        intro n
        rw [isPending_insert, if_neg hSame]
        exact (hOther.exact hSettled).2 n
  · rw [hOwn]
    exact hNew

/- Nonces that follow each other are promoted. -/
theorem promoteAll
    (hTypes : types.Ordered fallback)
    (hLined : Lined types fallback settled pool)
    {addr : Address}
    (hAt : LinedAt types settled pool addr
      (nonce types pool addr))
    {txs promoted : List Tx}
    (hChain : txs.IsChain (fun a b =>
      types.view.nonce b = types.view.nonce a + 1))
    (hHead :
      ∀ tx, txs.head? = some tx →
        types.view.nonce tx = nonce types pool addr)
    (now : Nat) :
    Lined types fallback settled
      (txs.foldl (Mempool.promoteOne types now addr)
        (pool, promoted)).1 := by
  induction txs generalizing pool promoted with
  | nil => exact hLined
  | cons tx txs ih =>
      rcases hLined.promoteOne hTypes hAt (hHead tx rfl) now
        promoted with ⟨hNext, hNextAt, hNonce⟩
      refine ih hNext hNextAt hChain.tail ?_
      intro next hNextHead
      rw [hNonce]
      cases txs with
      | nil => cases hNextHead
      | cons first txs =>
          rw [← Option.some.inj hNextHead]
          exact (List.isChain_cons_cons.mp hChain).1

/- What is ready goes on where the pending ones end. -/
theorem promoteReady
    (hTypes : types.Ordered fallback)
    (hLined : Lined types fallback settled pool)
    {addr : Address}
    {list : L}
    (hQueue : QueueAt types addr (pool, list))
    (hLow :
      ∀ tx ∈ listTxs types list,
        pool.currentState.getNonce addr ≤
          types.view.nonce tx)
    (now : Nat)
    (promoted : List Tx) :
    Lined types fallback settled
      (Mempool.promoteReady types now pool promoted addr
        list).1.1 := by
  have hStill :
      Still pool (pool.setQueue addr
        (types.lists.ready list
          (nonce types pool addr)).2) :=
    ⟨rfl, rfl, rfl⟩
  unfold Mempool.promoteReady
  simp only
  cases hHead : (types.lists.ready list
      (types.noncers.get pool.pendingNonces addr)).1 with
  | nil => exact hLined.still hStill
  | cons first txs =>
      have hFirst :
          (types.lists.ready list
            (nonce types pool addr)).1.head? =
              some first := by
        unfold nonce
        rw [hHead]
        rfl
      have hMem : first ∈ listTxs types list := by
        unfold listTxs
        rw [types.lists.ready_split
          (n := nonce types pool addr)]
        exact Multiset.mem_add.mpr
          (.inl (List.mem_of_head? hFirst))
      have hStart := hLow first hMem
      have hReady := hTypes.lists.ready_head hFirst
      -- a queued nonce is not pending as well
      have hFree :
          ¬ IsPending types pool.pending addr
            (types.view.nonce first) := by
        rw [Mempool.isPending_iff]
        rcases hQueue.accounted.apart addr
          (types.view.nonce first) with hNone | hNone
        · simp [hNone]
        · have hGet := types.lists.get_eq_some.mpr
            ⟨hMem, rfl⟩
          have hLookup :
              pool.queue.lookup addr = some list :=
            hQueue.lookup
          simp [itemAt, hLookup, hGet] at hNone
      rcases hLined.accounts addr with ⟨stop, hAt⟩
      have hNonce := hAt.nonce_le
      rw [hAt.isPending _ hStart] at hFree
      have hStop : stop = nonce types pool addr := by
        grind
      have hHere : types.view.nonce first =
          nonce types pool addr := by
        grind
      rw [hStop] at hAt
      have hChain := hTypes.lists.ready_chain
        (l := list) (n := nonce types pool addr)
      unfold nonce at hChain
      rw [hHead] at hChain
      refine promoteAll hTypes (hLined.still hStill) ?_
        hChain ?_ now
      · exact ⟨hAt.start_le, hAt.nonce_le, hAt.isPending,
          hAt.exact⟩
      · intro tx hTx
        rw [← Option.some.inj hTx]
        exact hHere

end Lined

namespace Still

theorem setQueue
    (pool : Mempool Tx L N)
    (addr : Address)
    (list : L)
    (txs : List Tx) :
    Still pool
      (txs.foldl (Mempool.forget types)
        (pool.setQueue addr list)) := by
  have hSet : Still pool (pool.setQueue addr list) :=
    ⟨rfl, rfl, rfl⟩
  refine hSet.trans (.foldl ?_ _ _)
  exact fun _ _ => ⟨rfl, rfl, rfl⟩

theorem dropCappedQueued
    (types : PoolTypes Tx L N)
    (pool : Mempool Tx L N)
    (addr : Address)
    (list : L)
    {state : Mempool Tx L N × L}
    (hOk :
      Mempool.dropCappedQueued types pool addr list =
        some state) :
    Still pool state.1 := by
  unfold Mempool.dropCappedQueued at hOk
  split at hOk
  · rw [← Option.some.inj hOk]
    exact .refl
  · split at hOk
    · cases hOk
    · rw [← Option.some.inj hOk]
      exact .setQueue pool addr _ _

end Still

namespace Lined

variable {fallback : N → StateView}
variable {settled : Prop}
variable {pool : Mempool Tx L N}

/- One account is promoted. -/
theorem promoteAccount
    (hTypes : types.Ordered fallback)
    {acc acc' : Mempool Tx L N × List Tx}
    (hAcc : Accounted types acc.1 0)
    (hLined : Lined types fallback settled acc.1)
    {now : Nat}
    {addr : Address}
    (hOk :
      Mempool.promoteAccount types now acc addr =
        some acc') :
    Lined types fallback settled acc'.1 := by
  unfold Mempool.promoteAccount at hOk
  cases hLookup : acc.1.queue.lookup addr with
  | none =>
      rw [hLookup] at hOk
      rw [← Option.some.inj hOk]
      exact hLined
  | some list =>
      rw [hLookup] at hOk
      rcases Option.bind_eq_some_iff.mp hOk with
        ⟨state, hCapped, hRest⟩
      rw [← Option.some.inj hRest]
      have hStart : QueueAt types addr (acc.1, list) :=
        ⟨hAcc, hLookup⟩
      have hOld :
          Still acc.1
            (dropOldQueued types acc.1 addr list).1 :=
        .setQueue _ addr _ _
      have hCostly :
          Still (dropOldQueued types acc.1 addr list).1
            (dropCostlyQueued types
              (dropOldQueued types acc.1 addr list).1 addr
              (dropOldQueued types acc.1 addr list).2).1 :=
        .setQueue _ addr _ _
      have hBoth := hOld.trans hCostly
      have hLow :
          ∀ tx ∈ listTxs types
              (dropCostlyQueued types
                (dropOldQueued types acc.1 addr list).1 addr
                (dropOldQueued types acc.1 addr list).2).2,
            acc.1.currentState.getNonce addr ≤
              types.view.nonce tx := by
        intro tx hTx
        refine hTypes.lists.forward_kept ?_ (l := list)
        refine Multiset.mem_coe.mp ?_
        rw [types.lists.filter_split]
        exact Multiset.mem_add.mpr (.inr hTx)
      rw [← hBoth.state] at hLow
      have hReady := (hLined.still hBoth).promoteReady hTypes
        hStart.dropOldQueued.dropCostlyQueued hLow now acc.2
      exact (hReady.still
        (.dropCappedQueued types _ addr _ hCapped)).still
          (.dropEmptyQueue types _ addr _)

/- `promoteExecutables` keeps the line. -/
theorem promoteExecutables
    (hTypes : types.Ordered fallback)
    (hAcc : Accounted types pool 0)
    (hLined : Lined types fallback settled pool)
    {now : Nat}
    {accounts : List Address}
    {result : Mempool Tx L N × List Tx}
    (hOk :
      Mempool.promoteExecutables types now pool accounts =
        some result) :
    Lined types fallback settled result.1 := by
  have hRound :
      ∀ acc addr next,
        (Accounted types acc.1 0 ∧
          Lined types fallback settled acc.1) →
        Mempool.promoteAccount types now acc addr =
          some next →
        Accounted types next.1 0 ∧
          Lined types fallback settled next.1 :=
    fun _ _ _ hBoth hOk =>
      ⟨hBoth.1.promoteAccount hOk,
        promoteAccount hTypes hBoth.1 hBoth.2 hOk⟩
  exact (Trace.foldlM_invariant hRound ⟨hAcc, hLined⟩ hOk).2

end Lined

------------------------------------------------------------
-- Demoting
------------------------------------------------------------

variable (types) in
/- From the nonce of the state on there is no gap. -/
def FrontAt
    (pool : Mempool Tx L N)
    (addr : Address) : Prop :=
  ∃ stop, pool.currentState.getNonce addr ≤ stop ∧
    ∀ n, pool.currentState.getNonce addr ≤ n →
      (IsPending types pool.pending addr n ↔ n < stop)

variable (types) in
/- And nothing is pending below it. -/
def DemotedAt
    (pool : Mempool Tx L N)
    (addr : Address) : Prop :=
  FrontAt types pool addr ∧
    ∀ n, IsPending types pool.pending addr n →
      pool.currentState.getNonce addr ≤ n

/- What is not too old is left. -/
theorem hasNonce_forward
    {fallback : N → StateView}
    (hTypes : types.Ordered fallback)
    (list : L)
    (start n : UInt64) :
    HasNonce types (types.lists.forward list start).2 n ↔
      HasNonce types list n ∧ start ≤ n := by
  have hSplit : listTxs types list =
      (types.lists.forward list start).1 +
        listTxs types (types.lists.forward list start).2 :=
    types.lists.forward_split
  constructor
  · rintro ⟨tx, hTx, rfl⟩
    refine ⟨⟨tx, ?_, rfl⟩, hTypes.lists.forward_kept hTx⟩
    rw [hSplit]
    exact Multiset.mem_add.mpr (.inr hTx)
  · rintro ⟨⟨tx, hTx, rfl⟩, hLe⟩
    rw [hSplit, Multiset.mem_add] at hTx
    rcases hTx with hOut | hKept
    · have hLt := hTypes.lists.forward_out hOut
      exact absurd hLt (UInt64.not_lt.mpr hLe)
    · exact ⟨tx, hKept, rfl⟩

/- What is before everything that costs too much is left. -/
theorem hasNonce_filter
    {fallback : N → StateView}
    (hTypes : types.Ordered fallback)
    {list : L}
    (hStrict : types.lists.strict list = true)
    (costLimit : Int)
    (gasLimit n : UInt64) :
    HasNonce types
        (types.lists.filter list costLimit gasLimit).2 n ↔
      HasNonce types list n ∧
        ∀ d ∈ (types.lists.filter list costLimit
            gasLimit).1.1.map types.view.nonce,
          n < d := by
  have hSplit : listTxs types list =
      (types.lists.filter list costLimit gasLimit).1.1 +
          (types.lists.filter list costLimit gasLimit).1.2 +
        listTxs types
          (types.lists.filter list costLimit gasLimit).2 :=
    types.lists.filter_split
  constructor
  · rintro ⟨tx, hTx, rfl⟩
    refine ⟨⟨tx, ?_, rfl⟩, ?_⟩
    · rw [hSplit]
      exact Multiset.mem_add.mpr (.inr hTx)
    · intro d hd
      rcases List.mem_map.mp hd with ⟨out, hOut, rfl⟩
      exact hTypes.lists.filter_kept hStrict hTx hOut
  · rintro ⟨⟨tx, hTx, rfl⟩, hBefore⟩
    rw [hSplit, Multiset.mem_add, Multiset.mem_add] at hTx
    rcases hTx with (hOut | hInvalid) | hKept
    · have hLt := hBefore _ (List.mem_map_of_mem hOut)
      exact absurd hLt (UInt64.lt_irrefl _)
    · rcases hTypes.lists.filter_invalids hInvalid with
        ⟨out, hOut, hLt⟩
      have hBack := hBefore _ (List.mem_map_of_mem hOut)
      exact absurd (UInt64.lt_trans hLt hBack)
        (UInt64.lt_irrefl _)
    · exact ⟨tx, hKept, rfl⟩

/- To be before some numbers is to be before the least. -/
theorem exists_least
    {start stop : UInt64}
    (hStop : start ≤ stop)
    {ds : List UInt64}
    (hds : ∀ d ∈ ds, start ≤ d) :
    ∃ least, start ≤ least ∧
      ∀ n, n < least ↔ n < stop ∧ ∀ d ∈ ds, n < d := by
  induction ds with
  | nil => exact ⟨stop, hStop, by simp⟩
  | cons d ds ih =>
      rcases ih (fun d hd =>
        hds d (List.mem_cons_of_mem _ hd)) with
        ⟨least, hLe, hIff⟩
      have hd := hds d List.mem_cons_self
      refine ⟨if d < least then d else least, ?_, ?_⟩
      · split <;> assumption
      · intro n
        have hLeast := hIff n
        simp only [List.forall_mem_cons]
        grind

variable (types) in
/- One account was demoted, and the others are the same. -/
structure Demoted
    (addr : Address)
    (pool pool' : Mempool Tx L N) : Prop where
  strict : AllStrict types pool'.pending
  nonces : pool'.pendingNonces = pool.pendingNonces
  state : pool'.currentState = pool.currentState
  others :
    ∀ other n, other ≠ addr →
      (IsPending types pool'.pending other n ↔
        IsPending types pool.pending other n)
  demoted : DemotedAt types pool' addr

/- An account without a list has nothing to demote. -/
theorem demotedAt_of_none
    {pool : Mempool Tx L N}
    {addr : Address}
    (hLookup : pool.pending.lookup addr = none) :
    DemotedAt types pool addr := by
  refine ⟨⟨pool.currentState.getNonce addr,
    UInt64.le_refl _, ?_⟩, ?_⟩
  · intro n hLe
    simp [IsPending, hLookup, UInt64.not_lt.mpr hLe]
  · intro n hPending
    simp [IsPending, hLookup] at hPending

/- Old and costly transactions leave a line. -/
theorem exists_kept_line
    {fallback : N → StateView}
    (hTypes : types.Ordered fallback)
    {list : L}
    (hStrict : types.lists.strict list = true)
    {start stop : UInt64}
    (hStart : start ≤ stop)
    (hIff :
      ∀ n, start ≤ n → (HasNonce types list n ↔ n < stop))
    (costLimit : Int)
    (gasLimit : UInt64) :
    ∃ stop', start ≤ stop' ∧
      ∀ n, HasNonce types
          (types.lists.filter
            (types.lists.forward list start).2 costLimit
            gasLimit).2 n ↔
        start ≤ n ∧ n < stop' := by
  have hKept : types.lists.strict
      (types.lists.forward list start).2 = true :=
    types.lists.strict_forward.trans hStrict
  have hAbove :
      ∀ d ∈ (types.lists.filter
          (types.lists.forward list start).2 costLimit
          gasLimit).1.1.map types.view.nonce,
        start ≤ d := by
    intro d hd
    rcases List.mem_map.mp hd with ⟨tx, hTx, rfl⟩
    refine hTypes.lists.forward_kept ?_ (l := list)
    refine Multiset.mem_coe.mp ?_
    rw [types.lists.filter_split]
    exact Multiset.mem_add.mpr
      (.inl (Multiset.mem_add.mpr (.inl hTx)))
  rcases exists_least hStart hAbove with
    ⟨least, hLe, hLeast⟩
  refine ⟨least, hLe, ?_⟩
  intro n
  rw [hasNonce_filter hTypes hKept,
    hasNonce_forward hTypes, hLeast]
  constructor
  · rintro ⟨⟨hHas, hFrom⟩, hBefore⟩
    exact ⟨hFrom, (hIff n hFrom).mp hHas, hBefore⟩
  · rintro ⟨hFrom, hLt, hBefore⟩
    exact ⟨⟨(hIff n hFrom).mpr hLt, hFrom⟩, hBefore⟩

namespace Still

theorem foldl_forget
    (types : PoolTypes Tx L N)
    (pool : Mempool Tx L N)
    (txs : List Tx) :
    Still pool (txs.foldl (forget types) pool) := by
  refine .foldl ?_ pool txs
  exact fun _ _ => ⟨rfl, rfl, rfl⟩

theorem foldl_requeue
    (types : PoolTypes Tx L N)
    (now : Nat)
    (pool : Mempool Tx L N)
    (txs : List Tx) :
    Still pool (txs.foldl (requeue types now) pool) := by
  refine .foldl ?_ pool txs
  exact fun pool tx => .enqueueTx types now pool tx false false

theorem dropOldPending
    (types : PoolTypes Tx L N)
    (pool : Mempool Tx L N)
    (addr : Address)
    (list : L) :
    Still
      (pool.setPending addr
        (Mempool.dropOldPending types pool addr list).2)
      (Mempool.dropOldPending types pool addr list).1 :=
  .foldl_forget types _ _

theorem dropCostlyPending
    (types : PoolTypes Tx L N)
    (now : Nat)
    (pool : Mempool Tx L N)
    (addr : Address)
    (list : L) :
    Still
      (pool.setPending addr
        (Mempool.dropCostlyPending types now pool addr
          list).2)
      (Mempool.dropCostlyPending types now pool addr
        list).1 :=
  (foldl_forget types _ _).trans
    (foldl_requeue types now _ _)

end Still

/- A list without a gap in front stays. -/
theorem closeGap_eq
    {pool : Mempool Tx L N}
    {addr : Address}
    {list : L}
    (hFront :
      ∀ n, HasNonce types list n →
        HasNonce types list
          (pool.currentState.getNonce addr))
    (now : Nat) :
    closeGap types now pool addr list = (pool, list) := by
  unfold closeGap
  refine if_neg ?_
  rintro ⟨hLen, hNone⟩
  rw [types.lists.len_eq] at hLen
  rcases List.exists_mem_of_length_pos hLen with ⟨tx, hTx⟩
  have hHas := hasNonce_iff.mp (hFront _ ⟨tx, hTx, rfl⟩)
  rw [hNone] at hHas
  cases hHas

/- A line that begins at the state is all that is left. -/
theorem demoted_of_line
    {pool : Mempool Tx L N}
    {addr : Address}
    {result : Mempool Tx L N × L}
    (hLookup : result.1.pending.lookup addr = some result.2)
    (hStrict : AllStrict types result.1.pending)
    (hNonces : result.1.pendingNonces = pool.pendingNonces)
    (hState : result.1.currentState = pool.currentState)
    (hOthers :
      ∀ other n, other ≠ addr →
        (IsPending types result.1.pending other n ↔
          IsPending types pool.pending other n))
    {stop : UInt64}
    (hLe : pool.currentState.getNonce addr ≤ stop)
    (hLine :
      ∀ n, HasNonce types result.2 n ↔
        pool.currentState.getNonce addr ≤ n ∧ n < stop)
    (now : Nat) :
    Demoted types addr pool
      (dropEmptyPending types
        (closeGap types now result.1 addr result.2).1 addr
        (closeGap types now result.1 addr result.2).2) := by
  have hGap :
      closeGap types now result.1 addr result.2 =
        (result.1, result.2) := by
    refine closeGap_eq ?_ now
    intro n hHas
    rw [hState, hLine]
    rcases (hLine n).mp hHas with ⟨hFrom, hLt⟩
    exact ⟨UInt64.le_refl _, UInt64.lt_of_le_of_lt hFrom hLt⟩
  rw [hGap]
  have hFrame :=
    dropEmptyPending_frame types result.1 addr result.2
  have hOwn :
      ∀ n, IsPending types
          (dropEmptyPending types result.1 addr
            result.2).pending addr n ↔
        pool.currentState.getNonce addr ≤ n ∧ n < stop := by
    intro n
    rw [isPending_dropEmpty hLookup,
      isPending_of_lookup hLookup, hLine]
  have hSame := hFrame.2.trans hState
  refine ⟨hStrict.dropEmptyPending addr _,
    hFrame.1.trans hNonces, hSame, ?_, ⟨stop, ?_, ?_⟩, ?_⟩
  · intro other n hOther
    rw [isPending_dropEmpty hLookup]
    exact hOthers other n hOther
  · rw [hSame]
    exact hLe
  · intro n hFrom
    rw [hSame] at hFrom
    rw [hOwn]
    exact ⟨fun hBoth => hBoth.2, fun hLt => ⟨hFrom, hLt⟩⟩
  · intro n hPending
    rw [hSame]
    exact ((hOwn n).mp hPending).1

/- Demoting leaves a line that begins at the state. -/
theorem demoteAccount_demoted
    {fallback : N → StateView}
    (hTypes : types.Ordered fallback)
    {pool : Mempool Tx L N}
    (hStrict : AllStrict types pool.pending)
    {addr : Address}
    (hFront : FrontAt types pool addr)
    (now : Nat) :
    Demoted types addr pool
      (demoteAccount types now pool addr) := by
  unfold demoteAccount
  cases hLookup : pool.pending.lookup addr with
  | none =>
      exact ⟨hStrict, rfl, rfl, fun _ _ _ => Iff.rfl,
        demotedAt_of_none hLookup⟩
  | some list =>
      rcases hFront with ⟨stop, hStart, hIff⟩
      simp only [isPending_of_lookup hLookup] at hIff
      have hList := hStrict addr list hLookup
      have hOld := Still.dropOldPending types pool addr list
      have hCostly := Still.dropCostlyPending types now
        (dropOldPending types pool addr list).1 addr
        (dropOldPending types pool addr list).2
      have hPending := hCostly.pending
      simp only [setPending, hOld.pending] at hPending
      have hNonces :
          (dropCostlyPending types now
              (dropOldPending types pool addr list).1 addr
              (dropOldPending types pool addr
                list).2).1.pendingNonces =
            pool.pendingNonces :=
        hCostly.nonces.trans hOld.nonces
      rcases exists_kept_line hTypes hList hStart hIff
        ((dropOldPending types pool addr
          list).1.currentState.getBalance addr)
        (dropOldPending types pool addr
          list).1.currentMaxGas with ⟨stop', hLe, hLine⟩
      refine demoted_of_line ?_ ?_ hNonces
        (hCostly.state.trans hOld.state) ?_ hLe hLine now
      · rw [hPending]
        exact AList.lookup_insert _
      · rw [hPending]
        refine (hStrict.insert ?_).insert ?_
        · exact types.lists.strict_forward.trans hList
        · exact types.lists.strict_filter.trans
            (types.lists.strict_forward.trans hList)
      · intro other n hOther
        rw [hPending, isPending_insert, if_neg hOther,
          isPending_insert, if_neg hOther]

/- Accounts that are the same have the same front. -/
theorem FrontAt.of_same
    {pool pool' : Mempool Tx L N}
    {addr : Address}
    (hState : pool'.currentState = pool.currentState)
    (hSame :
      ∀ n, IsPending types pool'.pending addr n ↔
        IsPending types pool.pending addr n)
    (hFront : FrontAt types pool addr) :
    FrontAt types pool' addr := by
  rcases hFront with ⟨stop, hStart, hIff⟩
  refine ⟨stop, ?_, ?_⟩
  · rw [hState]
    exact hStart
  · intro n
    rw [hState, hSame]
    exact hIff n

theorem DemotedAt.of_same
    {pool pool' : Mempool Tx L N}
    {addr : Address}
    (hState : pool'.currentState = pool.currentState)
    (hSame :
      ∀ n, IsPending types pool'.pending addr n ↔
        IsPending types pool.pending addr n)
    (hDemoted : DemotedAt types pool addr) :
    DemotedAt types pool' addr := by
  refine ⟨hDemoted.1.of_same hState hSame, ?_⟩
  intro n
  rw [hState, hSame]
  exact hDemoted.2 n

/- The loop demotes all accounts it comes to. -/
theorem demoteUnexecutables_spec
    {fallback : N → StateView}
    (hTypes : types.Ordered fallback)
    {pool : Mempool Tx L N}
    (hStrict : AllStrict types pool.pending)
    (hFront : ∀ addr, FrontAt types pool addr)
    (now : Nat)
    (order : List Address) :
    AllStrict types
        (demoteUnexecutables types now pool order).pending ∧
      (demoteUnexecutables types now pool
          order).pendingNonces =
        pool.pendingNonces ∧
      (demoteUnexecutables types now pool
          order).currentState =
        pool.currentState ∧
      ∀ addr, addr ∈ order ∨ DemotedAt types pool addr →
        DemotedAt types
          (demoteUnexecutables types now pool order)
          addr := by
  unfold demoteUnexecutables
  induction order generalizing pool with
  | nil =>
      refine ⟨hStrict, rfl, rfl, ?_⟩
      rintro addr (hNone | hDemoted)
      · cases hNone
      · exact hDemoted
  | cons first order ih =>
      have hFirst := demoteAccount_demoted hTypes hStrict
        (hFront first) now
      have hNext :
          ∀ addr,
            FrontAt types (demoteAccount types now pool first)
              addr := by
        intro addr
        by_cases hSame : addr = first
        · rw [hSame]
          exact hFirst.demoted.1
        · exact (hFront addr).of_same hFirst.state
            (fun n => hFirst.others addr n hSame)
      rcases ih hFirst.strict hNext with
        ⟨hStrict', hNonces, hState, hAll⟩
      refine ⟨hStrict', hNonces.trans hFirst.nonces,
        hState.trans hFirst.state, ?_⟩
      intro addr hAddr
      refine hAll addr ?_
      by_cases hSame : addr = first
      · right
        rw [hSame]
        exact hFirst.demoted
      · rcases hAddr with hMem | hDemoted
        · rcases List.mem_cons.mp hMem with hEq | hTail
          · exact absurd hEq hSame
          · exact .inl hTail
        · exact .inr (hDemoted.of_same hFirst.state
            (fun n => hFirst.others addr n hSame))

------------------------------------------------------------
-- The Next Nonces
------------------------------------------------------------

/- The entries for the accounts that have something. -/
theorem mem_nextNonces
    {pool : Mempool Tx L N}
    {addr : Address}
    {n : UInt64} :
    (addr, n) ∈ nextNonces types pool ↔
      ∃ list tx, pool.pending.lookup addr = some list ∧
        (types.lists.flatten list).getLast? = some tx ∧
        types.view.nonce tx + 1 = n := by
  unfold nextNonces
  rw [List.mem_filterMap]
  constructor
  · rintro ⟨⟨other, list⟩, hMem, hEntry⟩
    rcases Option.map_eq_some_iff.mp hEntry with
      ⟨tx, hLast, hPair⟩
    cases hPair
    exact ⟨list, tx, AList.mem_lookup_iff.mpr hMem, hLast,
      rfl⟩
  · rintro ⟨list, tx, hLookup, hLast, rfl⟩
    exact ⟨⟨addr, list⟩, AList.mem_lookup_iff.mp hLookup,
      by simp [hLast]⟩

theorem nodup_nextNonces
    (pool : Mempool Tx L N) :
    ((nextNonces types pool).map Prod.fst).Nodup := by
  have hSub :
      ∀ entries : List (Sigma (fun _ : Address => L)),
        ((entries.filterMap (fun e =>
          (types.lists.flatten e.2).getLast?.map (fun tx =>
            (e.1, types.view.nonce tx + 1)))).map
              Prod.fst).Sublist entries.keys := by
    intro entries
    induction entries with
    | nil => exact List.Sublist.refl _
    | cons e entries ih =>
        rw [List.filterMap_cons, List.keys_cons]
        cases (types.lists.flatten e.2).getLast? with
        | none => exact ih.cons _
        | some tx => exact ih.cons_cons _
  have hKeys : pool.pending.entries.keys.Nodup :=
    pool.pending.nodupKeys
  exact hKeys.sublist (hSub _)

/- The last transaction of a list has the highest nonce. -/
theorem le_last
    {fallback : N → StateView}
    (hTypes : types.Ordered fallback)
    {list : L}
    {last : Tx}
    (hLast :
      (types.lists.flatten list).getLast? = some last)
    {n : UInt64}
    (hHas : HasNonce types list n) :
    n ≤ types.view.nonce last := by
  rcases hHas with ⟨tx, hTx, rfl⟩
  rcases List.getLast?_eq_some_iff.mp hLast with
    ⟨front, hFront⟩
  have hSorted : (types.lists.flatten list).Pairwise
      (fun a b => types.view.nonce a < types.view.nonce b) :=
    hTypes.lists.flatten_sorted
  rw [hFront, List.pairwise_append] at hSorted
  have hMem : tx ∈ types.lists.flatten list := hTx
  rw [hFront, List.mem_append, List.mem_singleton] at hMem
  rcases hMem with hBefore | rfl
  · exact UInt64.le_of_lt (hSorted.2.2 tx hBefore last
      (List.mem_singleton_self last))
  · exact UInt64.le_refl _

/- A line from the state on has the next nonce at its end. -/
theorem updateNonces_linedAt
    {fallback : N → StateView}
    (hTypes : types.Ordered fallback)
    {pool : Mempool Tx L N}
    (hFallback :
      fallback pool.pendingNonces = pool.currentState)
    {addr : Address}
    (hDemoted : DemotedAt types pool addr) :
    ∃ stop, LinedAt types True (updateNonces types pool) addr
      stop := by
  rcases hDemoted with ⟨⟨stop, hStart, hIff⟩, hAbove⟩
  have hNonce :
      nonce types (updateNonces types pool) addr = stop := by
    by_cases hSome :
        pool.currentState.getNonce addr < stop
    · -- the last transaction is the one before the end
      rcases (hIff _ (UInt64.le_refl _)).mpr hSome with
        ⟨list, hLookup, first, hFirst, _⟩
      simp only [isPending_of_lookup hLookup] at hIff hAbove
      have hNil : types.lists.flatten list ≠ [] :=
        List.ne_nil_of_mem hFirst
      have hLast := List.getLast?_eq_getLast_of_ne_nil hNil
      generalize
        (types.lists.flatten list).getLast hNil = last
        at hLast
      have hHas : HasNonce types list
          (types.view.nonce last) :=
        ⟨last, List.mem_of_getLast? hLast, rfl⟩
      have hFrom := hAbove _ hHas
      have hBefore := (hIff _ hFrom).mp hHas
      have hSucc := lt_succ_iff (hTypes.nonce_ne last)
      have hEnd : types.view.nonce last + 1 = stop := by
        have hNext := hSucc (types.view.nonce last)
        by_contra hNe
        have hLater : HasNonce types list
            (types.view.nonce last + 1) :=
          (hIff _ (by grind)).mpr (by grind)
        have hBack := le_last hTypes hLast hLater
        grind
      rw [← hEnd]
      exact hTypes.noncers.get_setAll
        (nodup_nextNonces pool)
        (mem_nextNonces.mpr
          ⟨list, last, hLookup, hLast, rfl⟩)
    · have hStop : pool.currentState.getNonce addr = stop := by
        grind
      rw [← hStop, ← hFallback]
      refine hTypes.noncers.get_setAll_other ?_
      intro hMem
      rcases List.mem_map.mp hMem with ⟨⟨other, n⟩, hIn, rfl⟩
      rcases mem_nextNonces.mp hIn with
        ⟨list, last, hLookup, hLast, _⟩
      simp only [isPending_of_lookup hLookup] at hIff hAbove
      have hHas : HasNonce types list
          (types.view.nonce last) :=
        ⟨last, List.mem_of_getLast? hLast, rfl⟩
      have hFrom := hAbove _ hHas
      have hBefore := (hIff _ hFrom).mp hHas
      grind
  refine ⟨stop, hStart, ?_, hIff, fun _ => ⟨hNonce, hAbove⟩⟩
  rw [hNonce]
  exact UInt64.le_refl _

------------------------------------------------------------
-- Runs
------------------------------------------------------------

namespace Lined

variable {fallback : N → StateView}
variable {settled : Prop}
variable {pool pool' : Mempool Tx L N}

/- What holds when the line is settled holds. -/
theorem settle
    (hLined : Lined types fallback settled pool)
    (hSettled : settled) :
    Lined types fallback True pool where
  strict := hLined.strict
  fallback := hLined.fallback
  accounts := by
    intro addr
    rcases hLined.accounts addr with ⟨stop, hAt⟩
    exact ⟨stop, hAt.start_le, hAt.nonce_le, hAt.isPending,
      fun _ => hAt.exact hSettled⟩

/-
  A later state cuts the front off every line. The line stays
  exact if there was nothing to cut.
-/
theorem advance
    (hTypes : types.Ordered fallback)
    (hLined : Lined types fallback True pool)
    {state : StateView}
    (hForward :
      ∀ addr, pool.currentState.getNonce addr ≤
        state.getNonce addr)
    (gasLimit : UInt64) :
    Lined types fallback
      (∀ addr n, ¬ IsPending types pool.pending addr n)
      { pool with
        currentState := state
        pendingNonces := types.noncers.newNoncer state
        currentMaxGas := gasLimit } where
  strict := hLined.strict
  fallback := hTypes.noncers.fallback_newNoncer
  accounts := by
    intro addr
    have hLater := hForward addr
    have hIff := hLined.isPending_iff addr
    have hNonce :
        types.noncers.get (types.noncers.newNoncer state)
            addr =
          state.getNonce addr :=
      hTypes.noncers.get_newNoncer
    refine ⟨if state.getNonce addr ≤ nonce types pool addr
        then nonce types pool addr
        else state.getNonce addr, ?_, ?_, ?_, ?_⟩
    · simp only
      grind
    · simp only [nonce, hNonce]
      grind
    · intro n hLe
      simp only at hLe ⊢
      rw [hIff]
      grind
    · intro hNone
      simp only [nonce, hNonce]
      refine ⟨?_, fun n hPending =>
        absurd hPending (hNone addr n)⟩
      have hFirst := hNone addr
        (pool.currentState.getNonce addr)
      rw [hIff] at hFirst
      unfold nonce at hFirst
      grind

/- A reset to a later state. -/
theorem reset
    (hTypes : types.Ordered fallback)
    (hLined : Lined types fallback True pool)
    {world : ResetWorld Tx}
    {now : Nat}
    {oldHead newHead : Option Header}
    (hReset :
      Mempool.reset types world now pool oldHead newHead =
        some pool')
    (hForward :
      ∀ addr, pool.currentState.getNonce addr ≤
        pool'.currentState.getNonce addr) :
    Lined types fallback
      (∀ addr n, ¬ IsPending types pool.pending addr n)
      pool' := by
  unfold Mempool.reset at hReset
  split at hReset
  · cases hReset
  · rw [← Option.some.inj hReset]
    exact hLined.weaken
  · simp only at hReset
    split at hReset
    · rw [← Option.some.inj hReset]
      exact hLined.weaken
    · next txs _ _ state _ =>
      rw [← Option.some.inj hReset] at hForward ⊢
      simp only at hForward
      have hMoved :
          ∀ gasLimit, AllStrict types
            ({ pool with
              currentState := state
              pendingNonces := types.noncers.newNoncer state
              currentMaxGas := gasLimit } :
                Mempool Tx L N).pending :=
        fun _ => hLined.strict
      have hCut := Cut.addTxsLocked hTypes (hMoved
        (newHead.getD world.chain.currentBlock).gasLimit)
        world.answers now false 0 .empty txs
      rw [hCut.state] at hForward
      exact ((hLined.advance hTypes hForward _).cut hCut
        ).still ⟨rfl, rfl, rfl⟩

/- Both truncations leave lines. -/
theorem truncate
    (hTypes : types.Ordered fallback)
    (hLined : Lined types fallback settled pool)
    (now : Nat)
    (spammers addresses : List Address) :
    Lined types fallback settled
      { Mempool.truncateQueue types now
          (Mempool.truncatePending types pool spammers)
          addresses with
        changesSinceReorg := 0 } := by
  have hPending :=
    Cut.truncatePending hTypes hLined.strict spammers
  have hQueue :=
    Cut.truncateQueue hTypes hPending.strict now addresses
  exact ((hLined.cut hPending).cut hQueue).still
    ⟨rfl, rfl, rfl⟩

/- Demoting and new nonces restore the exact line. -/
theorem demote
    (hTypes : types.Ordered fallback)
    (hLined : Lined types fallback settled pool)
    {order : List Address}
    (hOrder :
      ∀ addr, (pool.pending.lookup addr).isSome →
        addr ∈ order)
    (now : Nat) :
    Lined types fallback True
      (updateNonces types
        (demoteUnexecutables types now pool order)) := by
  have hFront : ∀ addr, FrontAt types pool addr := by
    intro addr
    rcases hLined.accounts addr with ⟨stop, hAt⟩
    exact ⟨stop, hAt.start_le, hAt.isPending⟩
  rcases demoteUnexecutables_spec hTypes hLined.strict hFront
    now order with ⟨hStrict, hNonces, hState, hAll⟩
  have hFallback :
      fallback
          (demoteUnexecutables types now pool
            order).pendingNonces =
        (demoteUnexecutables types now pool
          order).currentState := by
    rw [hNonces, hState]
    exact hLined.fallback
  refine ⟨hStrict, ?_, ?_⟩
  · exact hTypes.noncers.fallback_setAll.trans hFallback
  · intro addr
    refine updateNonces_linedAt hTypes hFallback
      (hAll addr ?_)
    cases hLookup : pool.pending.lookup addr with
    | none => exact .inr (demotedAt_of_none hLookup)
    | some list =>
        exact .inl (hOrder addr (by rw [hLookup]; rfl))

end Lined

variable (types) in
/-
  A reset that goes forward: no account has a lower nonce in
  the new state, and the loop over the pending lists comes to
  all of them.
-/
def GoesForward
    (pool : Mempool Tx L N) : Nat × PoolCall Tx → Prop
| (now, .runReorg world orders (.reset oldHead newHead)) =>
    ∀ fresh,
      reset types world now pool oldHead newHead =
          some fresh →
        (∀ addr, pool.currentState.getNonce addr ≤
          fresh.currentState.getNonce addr) ∧
        ∀ promoted,
          promoteExecutables types now fresh orders.queue =
              some promoted →
            ∀ addr,
              (promoted.1.pending.lookup addr).isSome →
                addr ∈ orders.pending
| (_, .runReorg _ _ (.promote _)) => True
| (_, .addTxs _ _ _) => True
| (_, .evict _) => True
| (_, .setGasPrice _ _) => True

variable (types) in
/- All resets of a run go forward. -/
def RunsForward :
    Mempool Tx L N → List (Nat × PoolCall Tx) → Prop
| _, [] => True
| pool, entry :: calls =>
    GoesForward types pool entry ∧
      ∀ next, call types pool entry = some next →
        RunsForward next calls

/- One call keeps the line. -/
theorem Lined.call
    {fallback : N → StateView}
    {pool pool' : Mempool Tx L N}
    (hTypes : types.Ordered fallback)
    (hAcc : Accounted types pool 0)
    (hLined : Lined types fallback True pool)
    {entry : Nat × PoolCall Tx}
    (hForward : GoesForward types pool entry)
    (hCall : Mempool.call types pool entry = some pool') :
    Lined types fallback True pool' := by
  rcases entry with ⟨now, what⟩
  cases what with
  | addTxs answers txs fromLocal =>
      rw [← Option.some.inj hCall]
      exact hLined.cut (.addTxsLocked hTypes hLined.strict
        answers now fromLocal 0 .empty txs)
  | evict order =>
      rw [← Option.some.inj hCall]
      exact hLined.cut
        (.evict hTypes hLined.strict now order)
  | setGasPrice price remotes =>
      rw [← Option.some.inj hCall]
      exact hLined.cut
        (.setGasPrice hTypes hLined.strict now price remotes)
  | runReorg world orders work =>
      cases work with
      | promote accounts =>
          rcases Option.bind_eq_some_iff.mp hCall with
            ⟨promoted, hPromote, hRest⟩
          rw [← Option.some.inj hRest]
          exact (hLined.promoteExecutables hTypes hAcc
            hPromote).truncate hTypes now _ _
      | reset oldHead newHead =>
          rcases Option.bind_eq_some_iff.mp hCall with
            ⟨fresh, hReset, hRest⟩
          rcases Option.bind_eq_some_iff.mp hRest with
            ⟨promoted, hPromote, hRest⟩
          rw [← Option.some.inj hRest]
          rcases hForward fresh hReset with
            ⟨hLater, hOrder⟩
          have hFresh := hLined.reset hTypes hReset hLater
          have hPromoted := hFresh.promoteExecutables hTypes
            (hAcc.reset hReset) hPromote
          exact (hPromoted.demote hTypes
            (hOrder promoted hPromote) now).truncate
              hTypes now _ _

/- Calls one after another keep the line. -/
theorem run_lined
    {fallback : N → StateView}
    {pool pool' : Mempool Tx L N}
    (hTypes : types.Ordered fallback)
    (hAcc : Accounted types pool 0)
    (hLined : Lined types fallback True pool)
    {calls : List (Nat × PoolCall Tx)}
    (hForward : RunsForward types pool calls)
    (hRun : run types pool calls = some pool') :
    Lined types fallback True pool' := by
  unfold run at hRun
  induction calls generalizing pool with
  | nil =>
      rw [← Option.some.inj hRun]
      exact hLined
  | cons entry calls ih =>
      rw [List.foldlM_cons] at hRun
      rcases Option.bind_eq_some_iff.mp hRun with
        ⟨next, hCall, hRest⟩
      rcases hForward with ⟨hFirst, hLater⟩
      exact ih (hAcc.call hCall)
        (hLined.call hTypes hAcc hFirst hCall)
        (hLater next hCall) hRest

/- A pool without transactions has an empty line. -/
theorem lined_empty
    {fallback : N → StateView}
    (hTypes : types.Ordered fallback)
    (config : Config) :
    Lined types fallback True
      (empty types config : Mempool Tx L N) where
  strict := by simp [AllStrict, empty]
  fallback := hTypes.noncers.fallback_newNoncer
  accounts := by
    intro addr
    have hNonce :
        nonce types (empty types config : Mempool Tx L N)
            addr = 0 :=
      hTypes.noncers.get_newNoncer
    have hNone :
        ∀ n, ¬ IsPending types
          (empty types config : Mempool Tx L N).pending addr
          n := by
      simp [IsPending, empty]
    refine ⟨0, UInt64.le_refl _, ?_, ?_, ?_⟩
    · rw [hNonce]
      exact UInt64.le_refl _
    · intro n _
      simp [hNone n]
    · exact fun _ => ⟨hNonce, fun n hPending =>
        absurd hPending (hNone n)⟩

/-
  In every run whose resets go forward, the pending
  transactions of an account are those from the nonce of the
  state up to the next nonce the pool tells, without a gap.
-/
theorem run_nonces
    {fallback : N → StateView}
    (hTypes : types.Ordered fallback)
    {config : Config}
    {world : ResetWorld Tx}
    {now : Nat}
    {new pool : Mempool Tx L N}
    {calls : List (Nat × PoolCall Tx)}
    (hNew : newTxPool types config world now = some new)
    (hForward : RunsForward types new calls)
    (hRun : run types new calls = some pool)
    (addr : Address) :
    pool.currentState.getNonce addr ≤ nonce types pool addr ∧
      ∀ n, (itemAt types pool.pending addr n).isSome ↔
        pool.currentState.getNonce addr ≤ n ∧
          n < nonce types pool addr := by
  have hStart :
      Accounted types
        (empty types config.sanitize : Mempool Tx L N) 0 :=
    accounted_empty config.sanitize
  have hLine := (lined_empty hTypes config.sanitize).reset
    hTypes hNew (fun _ => UInt64.zero_le)
  have hSettled := hLine.settle (by simp [IsPending, empty])
  have hLined := run_lined hTypes (hStart.reset hNew)
    hSettled hForward hRun
  refine ⟨?_, ?_⟩
  · rcases hLined.accounts addr with ⟨stop, hAt⟩
    rw [(hAt.exact trivial).1]
    exact hAt.start_le
  · intro n
    rw [← isPending_iff]
    exact hLined.isPending_iff addr n

/- The first call of a run. -/
theorem run_cons
    {pool next : Mempool Tx L N}
    {entry : Nat × PoolCall Tx}
    {calls : List (Nat × PoolCall Tx)}
    (hCall : call types pool entry = some next) :
    run types pool (entry :: calls) =
      run types next calls := by
  unfold run
  rw [List.foldlM_cons, hCall]
  rfl

/- The state after the first transaction of account one. -/
def laterState : StateView :=
  ⟨fun addr => if addr = 1 then 1 else 0, fun _ => 10 ^ 9⟩

/- The chain with this state. -/
def laterWorld : ResetWorld SampleTx :=
  { sampleWorld with
    chain :=
      { sampleWorld.chain with
        stateAt := fun _ => .ok laterState } }

/- The orders of the maps in the reset. -/
def laterOrders : RunOrders := ⟨[1], [1], [], [1]⟩

/- The reset to the next block. -/
def laterReset : Nat × PoolCall SampleTx :=
  (3, .runReorg laterWorld laterOrders
    (.reset (some (sampleBlock 1 0 0 []).toHeader)
      (some (sampleBlock 2 1 1 []).toHeader)))

/- The pool before the reset. -/
def beforeLater :
    Option (Mempool SampleTx (PlainList SampleTx.view)
      PlainNoncer) :=
  (newTxPool samplePoolTypes defaultConfig sampleWorld
    0).bind (fun new => run samplePoolTypes new sampleCalls)

/- The only pending list is the one of account one. -/
theorem goesForward_laterReset
    {pool : Mempool SampleTx (PlainList SampleTx.view)
      PlainNoncer}
    (hPool : beforeLater = some pool) :
    GoesForward samplePoolTypes pool laterReset := by
  have hState :
      beforeLater.map (fun pool =>
          pool.currentState.getNonce) =
        some (fun _ => 0) := rfl
  have hLater :
      (beforeLater.bind (fun pool =>
          reset samplePoolTypes laterWorld 3 pool
            (some (sampleBlock 1 0 0 []).toHeader)
            (some (sampleBlock 2 1 1 []).toHeader))).map
          (fun fresh =>
            (promoteExecutables samplePoolTypes 3 fresh
              [1]).map (fun promoted =>
                promoted.1.pending.keys)) =
        some (some [1]) := by
    decide
  rw [hPool] at hState hLater
  intro fresh hFresh
  rw [Option.bind_some, hFresh, Option.map_some,
    Option.some.injEq] at hLater
  refine ⟨?_, ?_⟩
  · intro addr
    have hZero : pool.currentState.getNonce addr = 0 :=
      congrFun (Option.some.inj hState) addr
    rw [hZero]
    exact UInt64.zero_le
  · intro promoted hPromoted addr hAddr
    have hKeys : promoted.1.pending.keys = [1] := by
      change promoteExecutables samplePoolTypes 3 fresh [1] =
        some promoted at hPromoted
      rw [hPromoted] at hLater
      exact Option.some.inj hLater
    rw [AList.lookup_isSome, AList.mem_keys, hKeys] at hAddr
    exact hAddr

/- Account one has one transaction left, with the nonce one. -/
theorem run_nonces_sample :
    ∃ new pool : Mempool SampleTx (PlainList SampleTx.view)
        PlainNoncer,
      newTxPool samplePoolTypes defaultConfig sampleWorld 0 =
        some new ∧
      run samplePoolTypes new (sampleCalls ++ [laterReset]) =
        some pool ∧
      pool.currentState.getNonce 1 = 1 ∧
      nonce samplePoolTypes pool 1 = 2 ∧
      ∀ n, (itemAt samplePoolTypes pool.pending 1 n).isSome ↔
        1 ≤ n ∧ n < 2 := by
  have hEval :
      ((newTxPool samplePoolTypes defaultConfig sampleWorld
          0).bind (fun new =>
            run samplePoolTypes new
              (sampleCalls ++ [laterReset]))).map
          (fun pool => (pool.currentState.getNonce 1,
            nonce samplePoolTypes pool 1)) =
        some (1, 2) := by
    decide
  rcases Option.map_eq_some_iff.mp hEval with
    ⟨pool, hBind, hResult⟩
  rcases Option.bind_eq_some_iff.mp hBind with
    ⟨new, hNew, hRun⟩
  simp only [Prod.mk.injEq] at hResult
  have hForward :
      RunsForward samplePoolTypes new
        (sampleCalls ++ [laterReset]) := by
    refine ⟨trivial, fun second hFirst =>
      ⟨trivial, fun third hSecond =>
        ⟨goesForward_laterReset ?_, fun _ _ => trivial⟩⟩⟩
    rw [beforeLater, hNew, Option.bind_some, sampleCalls,
      run_cons hFirst, run_cons hSecond]
    rfl
  have hAll := (run_nonces samplePoolTypes_ordered hNew
    hForward hRun 1).2
  rw [hResult.1, hResult.2] at hAll
  exact ⟨new, pool, hNew, hRun, hResult.1, hResult.2, hAll⟩

end Mempool

end Builder
