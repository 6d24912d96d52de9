import StingFlashbots.Builder.PendingLevel

/-
  The limits of the pool.

  Queues are emptied one after another, the one of the
  account that was silent for longest first, and what is
  pending is left alone. Both truncations together keep the
  pool within its limits after every run.

  Key definitions include:
    * `Builder.Mempool.Drained`
    * `Builder.Mempool.HeartbeatOrder`

  Main results:
    * `Builder.Mempool.dropQueued_drained`
    * `Builder.Mempool.truncateQueue_spec`
    * `Builder.Mempool.reorg_limits`
-/

namespace Builder

namespace Mempool

open Sting

variable {Tx L N : Type}
variable {types : PoolTypes Tx L N}

------------------------------------------------------------
-- Shorter Queues
------------------------------------------------------------

variable (types) in
/- The transactions of one account. -/
def txsAt (map : ListMap L) (addr : Address) : Multiset Tx :=
  Tally.part (listTxs types) addr map

theorem lenAt_eq
    (map : ListMap L)
    (addr : Address) :
    lenAt types map addr = (txsAt types map addr).card := by
  unfold lenAt txsAt
  cases hLookup : map.lookup addr with
  | none =>
      rw [Tally.part_of_none hLookup,
        Tally.part_of_none hLookup]
      rfl
  | some list =>
      rw [Tally.part_of_some hLookup,
        Tally.part_of_some hLookup, types.lists.len_eq]
      rfl

/- Lists at home are told by the senders. -/
theorem txsAt_eq_filter
    {map : ListMap L}
    (hHome : AtHome types map)
    (addr : Address) :
    txsAt types map addr =
      (listed types map).filter
        (fun tx => senderOf types tx = addr) := by
  have hOwn :
      ∀ tx ∈ txsAt types map addr,
        senderOf types tx = addr := by
    intro tx hTx
    cases hLookup : map.lookup addr with
    | none =>
        rw [txsAt, Tally.part_of_none hLookup] at hTx
        exact absurd hTx (Multiset.notMem_zero tx)
    | some list =>
        rw [txsAt, Tally.part_of_some hLookup] at hTx
        exact hHome addr list hLookup tx hTx
  have hOthers :
      ∀ tx ∈ listed types (map.erase addr),
        ¬ senderOf types tx = addr := by
    intro tx hTx hSame
    rcases senderOf_of_listed (hHome.erase addr) hTx with
      ⟨list, hLookup, _⟩
    rw [hSame, AList.lookup_erase] at hLookup
    cases hLookup
  have hParts : listed types map =
      txsAt types map addr +
        listed types (map.erase addr) :=
    Tally.total_eq (listTxs types) addr map
  rw [hParts, Multiset.filter_add,
    Multiset.filter_eq_self.mpr hOwn,
    Multiset.filter_eq_nil.mpr hOthers, add_zero]

variable (types) in
/- Transactions of one account left the queue. -/
structure Dequeued
    (addr : Address)
    (txs : Multiset Tx)
    (pool pool' : Mempool Tx L N) : Prop where
  settings : SameSettings pool pool'
  accounted : Accounted types pool' 0
  pending : pool'.pending = pool.pending
  listed :
    Mempool.listed types pool.queue =
      txs + Mempool.listed types pool'.queue
  others :
    ∀ other, other ≠ addr →
      pool'.queue.lookup other = pool.queue.lookup other

theorem removeQueued_frame
    (types : PoolTypes Tx L N)
    (pool : Mempool Tx L N)
    (addr : Address)
    (tx : Tx) :
    SameSettings pool (removeQueued types pool addr tx) ∧
      (removeQueued types pool addr tx).pending =
        pool.pending ∧
      ∀ other, other ≠ addr →
        (removeQueued types pool addr tx).queue.lookup other =
          pool.queue.lookup other := by
  unfold removeQueued
  split
  · exact ⟨.refl, rfl, fun _ _ => rfl⟩
  · simp only [dropEmptyQueue, setQueue]
    split
    · refine ⟨⟨rfl, rfl⟩, rfl, ?_⟩
      intro other hOther
      simp only [AList.lookup_erase_ne hOther,
        AList.lookup_insert_ne hOther]
    · refine ⟨⟨rfl, rfl⟩, rfl, ?_⟩
      intro other hOther
      exact AList.lookup_insert_ne hOther

/- A transaction in the queue is removed from there. -/
theorem removeTx_queued
    {pool : Mempool Tx L N}
    (hAcc : Accounted types pool 0)
    {tx : Tx}
    (hTx : tx ∈ listed types pool.queue)
    (now : Nat) :
    (removeTx types now pool (types.view.hash tx)).2 =
      removeQueued types (forget types pool tx)
        (senderOf types tx) tx := by
  have hBalance := hAcc.balance
  rw [add_zero] at hBalance
  have hIn : tx ∈ pool.all.txs := by
    rw [hBalance]
    exact Multiset.mem_add.mpr (.inr hTx)
  have hGet : pool.all.get (types.view.hash tx) = some tx :=
    hAcc.valid.get_eq_some.mpr ⟨hIn, rfl⟩
  unfold removeTx
  simp only [hGet]
  cases hLookup :
      pool.pending.lookup (senderOf types tx) with
  | none => rfl
  | some list =>
      have hMissing :
          (types.lists.remove list tx).1.1 = false := by
        by_contra hFound
        rw [Bool.not_eq_false] at hFound
        rcases types.lists.remove_found hFound with
          ⟨found, hGetFound, _⟩
        rcases types.lists.get_eq_some.mp hGetFound with
          ⟨hMem, hNonce⟩
        have hSender :=
          hAcc.pending_home _ list hLookup found hMem
        have hPending : found ∈ listed types pool.pending := by
          rw [listed_of_lookup hLookup]
          exact Multiset.mem_add.mpr (.inl hMem)
        have hKeys := hAcc.keys
        rw [hBalance] at hKeys
        refine ne_of_nodup_map hKeys hPending hTx ?_
        simp [key, hSender, hNonce]
      simp only [hMissing, Bool.false_eq_true, if_false]
      rfl

namespace Dequeued

variable {pool pool' pool'' : Mempool Tx L N}
variable {addr : Address}

theorem refl
    (hAcc : Accounted types pool 0) :
    Dequeued types addr 0 pool pool where
  settings := .refl
  accounted := hAcc
  pending := rfl
  listed := (zero_add _).symm
  others := fun _ _ => rfl

theorem trans
    {txs txs' : Multiset Tx}
    (hLeft : Dequeued types addr txs pool pool')
    (hRight : Dequeued types addr txs' pool' pool'') :
    Dequeued types addr (txs + txs') pool pool'' where
  settings := hLeft.settings.trans hRight.settings
  accounted := hRight.accounted
  pending := hRight.pending.trans hLeft.pending
  listed := by rw [hLeft.listed, hRight.listed, add_assoc]
  others := fun other hOther =>
    (hRight.others other hOther).trans
      (hLeft.others other hOther)

/- One transaction leaves. -/
theorem removeTx
    (hAcc : Accounted types pool 0)
    {tx : Tx}
    (hTx : tx ∈ Mempool.listed types pool.queue)
    (now : Nat) :
    Dequeued types (senderOf types tx) {tx} pool
      (Mempool.removeTx types now pool
        (types.view.hash tx)).2 := by
  have hNext := hAcc.removeTx now (types.view.hash tx)
  rcases hAcc.removeTx_spec now (types.view.hash tx) with
    ⟨hAll, _⟩
  have hBalance := hAcc.balance
  have hIn : tx ∈ pool.all.txs := by
    rw [hBalance, add_zero]
    exact Multiset.mem_add.mpr (.inr hTx)
  have hTxs := hAcc.valid.txs_remove
    (hAcc.valid.get_eq_some.mpr ⟨hIn, rfl⟩)
  rw [← hAll] at hTxs
  rw [removeTx_queued hAcc hTx] at hNext hTxs ⊢
  rcases removeQueued_frame types (forget types pool tx)
    (senderOf types tx) tx with
    ⟨hSettings, hPending, hOthers⟩
  refine ⟨⟨hSettings.config, hSettings.locals⟩, hNext,
    hPending, ?_, hOthers⟩
  -- what the lookup has lost, the queues have lost
  have hBalance' := hNext.balance
  rw [hTxs, hBalance', hPending, add_zero, add_zero,
    ← Multiset.add_cons] at hBalance
  rw [Multiset.singleton_add]
  exact (add_left_cancel hBalance).symm

/- What the account has lost. -/
theorem txsAt_eq
    {txs : Multiset Tx}
    (hLeft : Dequeued types addr txs pool pool')
    (hAcc : Accounted types pool 0)
    (hOwn : ∀ tx ∈ txs, senderOf types tx = addr) :
    txsAt types pool.queue addr =
      txs + txsAt types pool'.queue addr := by
  rw [txsAt_eq_filter hAcc.queue_home,
    txsAt_eq_filter hLeft.accounted.queue_home, hLeft.listed,
    Multiset.filter_add, Multiset.filter_eq_self.mpr hOwn]

/- Transactions of one account leave. -/
theorem removeTxs
    (hAcc : Accounted types pool 0)
    {txs : List Tx}
    (hTxs : (txs : Multiset Tx) ≤ txsAt types pool.queue addr)
    (now : Nat) :
    Dequeued types addr txs pool
      (Mempool.removeTxs types now pool txs) := by
  induction txs generalizing pool with
  | nil => exact .refl hAcc
  | cons tx txs ih =>
      have hTx : tx ∈ txsAt types pool.queue addr :=
        Multiset.mem_of_le hTxs List.mem_cons_self
      rw [txsAt_eq_filter hAcc.queue_home,
        Multiset.mem_filter] at hTx
      rcases hTx with ⟨hListed, rfl⟩
      have hFirst := Dequeued.removeTx hAcc hListed now
      have hRest := hFirst.txsAt_eq hAcc (by simp)
      rw [hRest, ← Multiset.cons_coe, Multiset.singleton_add,
        Multiset.cons_le_cons_iff] at hTxs
      rw [← Multiset.cons_coe, ← Multiset.singleton_add]
      exact hFirst.trans (ih hFirst.accounted hTxs)

end Dequeued

variable (types) in
/-
  The accounts have given up what was to be dropped, or all
  they had. They come one after another, and each keeps the
  beginning of its queue.
-/
structure Drained
    (addresses : List Address)
    (drop : Nat)
    (pool pool' : Mempool Tx L N) : Prop where
  settings : SameSettings pool pool'
  pending : pool'.pending = pool.pending
  others :
    ∀ addr, addr ∉ addresses →
      pool'.queue.lookup addr = pool.queue.lookup addr
  kept :
    ∀ addr list, pool.queue.lookup addr = some list →
      ∃ n, txsAt types pool'.queue addr =
        ((types.lists.flatten list).take n : Multiset Tx)
  order :
    addresses.Pairwise (fun a b =>
      lenAt types pool'.queue a = 0 ∨
        pool'.queue.lookup b = pool.queue.lookup b)
  enough :
    lenAll types pool.queue ≤
      lenAll types pool'.queue + drop
  done :
    lenAll types pool'.queue + drop =
        lenAll types pool.queue ∨
      ∀ addr ∈ addresses, lenAt types pool'.queue addr = 0

namespace Drained

variable {pool pool' pool'' : Mempool Tx L N}
variable {addresses : List Address}
variable {drop : Nat}

/- Nobody has to give up anything. -/
theorem refl
    (hDone : drop = 0 ∨ addresses = []) :
    Drained types addresses drop pool pool where
  settings := .refl
  pending := rfl
  others := fun _ _ => rfl
  kept := by
    intro addr list hLookup
    refine ⟨(types.lists.flatten list).length, ?_⟩
    rw [List.take_length, txsAt, Tally.part_of_some hLookup]
    rfl
  order :=
    List.pairwise_of_forall (fun _ _ => .inr rfl)
  enough := Nat.le_add_right _ _
  done := by
    rcases hDone with rfl | rfl
    · exact .inl (add_zero _)
    · exact .inr (by simp)

/- The queues of the others keep their lengths. -/
theorem lenAt_other
    (hDrained : Drained types addresses drop pool pool')
    {addr : Address}
    (hAddr : addr ∉ addresses) :
    lenAt types pool'.queue addr =
      lenAt types pool.queue addr := by
  unfold lenAt Tally.part
  rw [hDrained.others addr hAddr]

/- One account first, and then the others. -/
theorem cons
    {addr : Address}
    {out : Multiset Tx}
    {more : Nat}
    (hFirst : Dequeued types addr out pool pool')
    (hRest : Drained types addresses more pool' pool'')
    (hNew : addr ∉ addresses)
    (hDrop : out.card + more = drop)
    (hKept :
      ∀ list, pool.queue.lookup addr = some list →
        ∃ n, txsAt types pool'.queue addr =
          ((types.lists.flatten list).take n : Multiset Tx))
    (hHead :
      lenAt types pool'.queue addr = 0 ∨
        pool'' = pool' ∧ more = 0) :
    Drained types (addr :: addresses) drop pool pool'' := by
  have hSame := hRest.others addr hNew
  have hTotal :
      lenAll types pool.queue =
        out.card + lenAll types pool'.queue := by
    rw [lenAll_eq, lenAll_eq, hFirst.listed,
      Multiset.card_add]
  have hTxs :
      txsAt types pool''.queue addr =
        txsAt types pool'.queue addr := by
    simp only [txsAt, Tally.part, hSame]
  have hLen := hRest.lenAt_other hNew
  have hEnough := hRest.enough
  refine ⟨hFirst.settings.trans hRest.settings,
    hRest.pending.trans hFirst.pending, ?_, ?_, ?_, ?_, ?_⟩
  · intro other hOther
    rw [List.mem_cons, not_or] at hOther
    exact (hRest.others other hOther.2).trans
      (hFirst.others other hOther.1)
  · intro other list hLookup
    by_cases hOther : other = addr
    · rw [hOther, hTxs]
      rw [hOther] at hLookup
      exact hKept list hLookup
    · rw [← hFirst.others other hOther] at hLookup
      exact hRest.kept other list hLookup
  · refine List.pairwise_cons.mpr ⟨?_, ?_⟩
    · intro other hOther
      rcases hHead with hZero | ⟨rfl, _⟩
      · exact .inl (hLen.trans hZero)
      · exact .inr (hFirst.others other (by
          intro hAddr
          exact hNew (hAddr ▸ hOther)))
    · refine hRest.order.imp_of_mem ?_
      intro a b _ hb hOrder
      rw [← hFirst.others b (by
        intro hAddr
        exact hNew (hAddr ▸ hb))]
      exact hOrder
  · omega
  · rcases hHead with hZero | ⟨rfl, rfl⟩
    · rcases hRest.done with hExact | hEmpty
      · exact .inl (by omega)
      · right
        intro other hOther
        rcases List.mem_cons.mp hOther with rfl | hTail
        · exact hLen.trans hZero
        · exact hEmpty other hTail
    · exact .inl (by omega)

end Drained

/- Two members stand in one order or in the other. -/
theorem pairwise_or
    {A : Type}
    {r : A → A → Prop}
    {as : List A}
    (hPairwise : as.Pairwise r)
    {a b : A}
    (ha : a ∈ as)
    (hb : b ∈ as)
    (hNe : a ≠ b) :
    r a b ∨ r b a := by
  have hSymm : Std.Symm (fun a b => r a b ∨ r b a) :=
    ⟨fun _ _ => Or.symm⟩
  have hEither :
      as.Pairwise (fun a b => r a b ∨ r b a) :=
    hPairwise.imp Or.inl
  exact hEither.forall ha hb hNe

/- The end of a list, backwards, and its beginning. -/
theorem take_reverse_add
    {A : Type}
    (as : List A)
    (k : Nat) :
    (as : Multiset A) =
      as.reverse.take k + as.take (as.length - k) := by
  rw [List.take_reverse, Multiset.coe_reverse, add_comm,
    Multiset.coe_add, List.take_append_drop]

/- A queue gives up a part, and keeps the other. -/
theorem removeTxs_front
    {pool : Mempool Tx L N}
    (hAcc : Accounted types pool 0)
    {addr : Address}
    {list : L}
    (hLookup : pool.queue.lookup addr = some list)
    {out kept : List Tx}
    (hSplit :
      (types.lists.flatten list : Multiset Tx) = out + kept)
    (now : Nat) :
    Dequeued types addr out pool
        (removeTxs types now pool out) ∧
      txsAt types (removeTxs types now pool out).queue addr =
        kept := by
  have hTxs : txsAt types pool.queue addr = out + kept := by
    rw [txsAt, Tally.part_of_some hLookup]
    exact hSplit
  have hFirst := Dequeued.removeTxs hAcc
    (hTxs ▸ Multiset.le_add_right _ _) now
  refine ⟨hFirst, ?_⟩
  have hOwn : ∀ tx ∈ (out : Multiset Tx),
      senderOf types tx = addr := by
    intro tx hTx
    refine hAcc.queue_home addr list hLookup tx ?_
    unfold listTxs
    rw [hSplit]
    exact Multiset.mem_add.mpr (.inl hTx)
  have hLeft := hFirst.txsAt_eq hAcc hOwn
  rw [hTxs] at hLeft
  exact (add_left_cancel hLeft).symm

theorem dropQueued_zero
    (now : Nat)
    (addresses : List Address)
    (pool : Mempool Tx L N) :
    dropQueued types now addresses 0 pool = pool := by
  cases addresses <;> rfl

/- The loop drops as much as it should, if there is enough. -/
theorem dropQueued_drained
    {pool : Mempool Tx L N}
    (hAcc : Accounted types pool 0)
    {addresses : List Address}
    (hNodup : addresses.Nodup)
    (now drop : Nat) :
    Drained types addresses drop pool
      (dropQueued types now addresses drop pool) := by
  induction addresses generalizing pool drop with
  | nil =>
      unfold dropQueued
      exact .refl (.inr rfl)
  | cons addr addresses ih =>
      rcases List.nodup_cons.mp hNodup with ⟨hNew, hNodup⟩
      cases drop with
      | zero =>
          unfold dropQueued
          exact .refl (.inl rfl)
      | succ drop =>
          unfold dropQueued
          cases hLookup : pool.queue.lookup addr with
          | none =>
              refine .cons (.refl hAcc) (ih hAcc hNodup _)
                hNew (by simp) (by simp [hLookup]) (.inl ?_)
              exact Tally.part_of_none hLookup
          | some list =>
              simp only
              split
              · next hFits =>
                have hAll :
                    (types.lists.flatten list : Multiset Tx) =
                      types.lists.flatten list +
                        ([] : List Tx) := by
                  rw [Multiset.coe_nil, add_zero]
                rcases removeTxs_front hAcc hLookup hAll now
                  with ⟨hFirst, hNone⟩
                rw [types.lists.len_eq] at hFits ⊢
                refine .cons hFirst
                  (ih hFirst.accounted hNodup _) hNew ?_ ?_
                  (.inl ?_)
                · rw [Multiset.coe_card]
                  omega
                · exact fun _ _ => ⟨0, hNone⟩
                · rw [lenAt_eq, hNone]
                  rfl
              · next hLong =>
                rcases removeTxs_front hAcc hLookup
                  (take_reverse_add _ (drop + 1)) now with
                  ⟨hFirst, hKept⟩
                rw [types.lists.len_eq] at hLong
                refine .cons hFirst
                  (ih hFirst.accounted hNodup _) hNew ?_ ?_
                  (.inr ⟨dropQueued_zero now _ _, rfl⟩)
                · rw [Multiset.coe_card, List.length_take,
                    List.length_reverse]
                  omega
                · intro list' hList'
                  rw [hLookup] at hList'
                  rw [← Option.some.inj hList']
                  exact ⟨_, hKept⟩

/- The last sign of an account, time zero without one. -/
def heartbeat
    (pool : Mempool Tx L N)
    (addr : Address) : Nat :=
  (pool.beats.lookup addr).getD 0

/-
  The order of `addressesByHeartbeat`: the accounts that have
  a queue and are not local, the oldest heartbeat first.
-/
structure HeartbeatOrder
    (pool : Mempool Tx L N)
    (addresses : List Address) : Prop where
  nodup : addresses.Nodup
  mem_iff :
    ∀ addr, addr ∈ addresses ↔
      pool.locals.contains addr = false ∧
        (pool.queue.lookup addr).isSome
  order :
    addresses.Pairwise (fun a b =>
      heartbeat pool a ≤ heartbeat pool b)

namespace HeartbeatOrder

variable {pool pool' : Mempool Tx L N}
variable {addresses : List Address}

/- Accounts outside have no queue or are local. -/
theorem lenAt_eq_zero
    (hBeats : HeartbeatOrder pool addresses)
    {addr : Address}
    (hRemote : pool.locals.contains addr = false)
    (hAddr : addr ∉ addresses) :
    lenAt types pool.queue addr = 0 := by
  cases hLookup : pool.queue.lookup addr with
  | none => exact Tally.part_of_none hLookup
  | some list =>
      refine absurd ((hBeats.mem_iff addr).mpr ⟨hRemote, ?_⟩)
        hAddr
      rw [hLookup]
      rfl

/- The loop leaves the limit, or nothing that is not local. -/
theorem lenAll_eq_or
    (hBeats : HeartbeatOrder pool addresses)
    {limit : Nat}
    (hOver : limit < lenAll types pool.queue)
    (hDrained : Drained types addresses
      (lenAll types pool.queue - limit) pool pool') :
    lenAll types pool'.queue = limit ∨
      ∀ addr, pool.locals.contains addr = false →
        lenAt types pool'.queue addr = 0 := by
  rcases hDrained.done with hExact | hEmpty
  · exact .inl (by omega)
  · right
    intro addr hRemote
    by_cases hAddr : addr ∈ addresses
    · exact hEmpty addr hAddr
    · rw [hDrained.lenAt_other hAddr]
      exact hBeats.lenAt_eq_zero hRemote hAddr

/- Who was silent for longer gives up everything first. -/
theorem silent_first
    (hBeats : HeartbeatOrder pool addresses)
    {drop : Nat}
    (hDrained : Drained types addresses drop pool pool')
    {addr other : Address}
    (hRemote : pool.locals.contains addr = false)
    (hSilent : heartbeat pool addr < heartbeat pool other) :
    lenAt types pool'.queue addr = 0 ∨
      pool'.queue.lookup other = pool.queue.lookup other := by
  by_cases hOther : other ∈ addresses
  · by_cases hAddr : addr ∈ addresses
    · have hNe : addr ≠ other := by
        rintro rfl
        exact lt_irrefl _ hSilent
      rcases pairwise_or
        (hBeats.order.and hDrained.order) hAddr hOther hNe
        with hBefore | hAfter
      · exact hBefore.2
      · exact absurd hSilent (Nat.not_lt_of_le hAfter.1)
    · left
      rw [hDrained.lenAt_other hAddr]
      exact hBeats.lenAt_eq_zero hRemote hAddr
  · exact .inr (hDrained.others other hOther)

end HeartbeatOrder

/-
  Overfull queues shrink to their limit, or to those of the
  local accounts. Nobody loses a transaction while somebody
  who was silent for longer has one, and everybody loses
  those at the end of the queue.
-/
theorem truncateQueue_spec
    {pool : Mempool Tx L N}
    (hAcc : Accounted types pool 0)
    {addresses : List Address}
    (hBeats : HeartbeatOrder pool addresses)
    (hOver :
      pool.config.globalQueue.toNat <
        lenAll types pool.queue)
    (now : Nat) :
    (truncateQueue types now pool addresses).pending =
        pool.pending ∧
      pool.config.globalQueue.toNat ≤
        lenAll types
          (truncateQueue types now pool addresses).queue ∧
      (lenAll types
            (truncateQueue types now pool addresses).queue =
          pool.config.globalQueue.toNat ∨
        ∀ addr, pool.locals.contains addr = false →
          lenAt types
              (truncateQueue types now pool addresses).queue
              addr = 0) ∧
      (∀ addr, pool.locals.contains addr →
        (truncateQueue types now pool addresses).queue.lookup
            addr =
          pool.queue.lookup addr) ∧
      (∀ addr list, pool.queue.lookup addr = some list →
        ∃ n, txsAt types
            (truncateQueue types now pool addresses).queue
            addr =
          ((types.lists.flatten list).take n :
            Multiset Tx)) ∧
      ∀ addr other,
        pool.locals.contains addr = false →
        heartbeat pool addr < heartbeat pool other →
        lenAt types
            (truncateQueue types now pool addresses).queue
            addr = 0 ∨
          (truncateQueue types now pool addresses
              ).queue.lookup other =
            pool.queue.lookup other := by
  have hDrained := dropQueued_drained hAcc hBeats.nodup now
    (lenAll types pool.queue -
      pool.config.globalQueue.toNat)
  have hTruncate :
      truncateQueue types now pool addresses =
        dropQueued types now addresses
          (lenAll types pool.queue -
            pool.config.globalQueue.toNat) pool :=
    if_neg (Nat.not_le_of_lt hOver)
  rw [hTruncate]
  have hEnough := hDrained.enough
  refine ⟨hDrained.pending, by omega,
    hBeats.lenAll_eq_or hOver hDrained, ?_, hDrained.kept,
    ?_⟩
  · intro addr hLocal
    refine hDrained.others addr ?_
    intro hAddr
    rw [((hBeats.mem_iff addr).mp hAddr).1] at hLocal
    cases hLocal
  · intro addr other hRemote hSilent
    exact hBeats.silent_first hDrained hRemote hSilent

/- Settings for two transactions in all queues. -/
def narrowConfig : Config :=
  { defaultConfig with globalQueue := 2 }

/- Two accounts send transactions that cannot be executed. -/
def gappedCalls : List (Nat × PoolCall SampleTx) :=
  [(1, .addTxs (fun _ => ⟨⟨false, [], true⟩, []⟩)
      [⟨1, 1, 5⟩, ⟨1, 2, 5⟩] false),
    (2, .addTxs (fun _ => ⟨⟨false, [], true⟩, []⟩)
      [⟨2, 1, 5⟩, ⟨2, 2, 5⟩] false)]

/- The pool after these calls. -/
theorem gappedCalls_run :
    ∃ new pool,
      newTxPool samplePoolTypes narrowConfig sampleWorld 0 =
        some new ∧
      run samplePoolTypes new gappedCalls = some pool ∧
      pool.config.globalQueue.toNat = 2 ∧
      pool.locals.accounts = ∅ ∧
      pool.pending.keys = [] ∧
      pool.queue.keys = [2, 1] ∧
      heartbeat pool 1 = 1 ∧
      heartbeat pool 2 = 2 ∧
      lenAll samplePoolTypes pool.queue = 4 := by
  have hEval :
      ((newTxPool samplePoolTypes narrowConfig sampleWorld
          0).bind (fun new =>
            run samplePoolTypes new gappedCalls)).map
          (fun pool =>
            ((pool.config.globalQueue.toNat,
                pool.locals.accounts),
              (pool.pending.keys, pool.queue.keys),
              heartbeat pool 1, heartbeat pool 2,
              lenAll samplePoolTypes pool.queue)) =
        some ((2, ∅), ([], [2, 1]), 1, 2, 4) := by
    decide
  rcases Option.map_eq_some_iff.mp hEval with
    ⟨pool, hBind, hResult⟩
  rcases Option.bind_eq_some_iff.mp hBind with
    ⟨new, hNew, hRun⟩
  simp only [Prod.mk.injEq] at hResult
  rcases hResult with ⟨⟨hLimit, hLocals⟩, hKeys, hBeats⟩
  exact ⟨new, pool, hNew, hRun, hLimit, hLocals, hKeys.1,
    hKeys.2, hBeats⟩

/- Account one was silent for longer. -/
theorem gapped_heartbeatOrder
    {pool : Mempool SampleTx (PlainList SampleTx.view)
      PlainNoncer}
    (hLocals : pool.locals.accounts = ∅)
    (hKeys : pool.queue.keys = [2, 1])
    (hOne : heartbeat pool 1 = 1)
    (hTwo : heartbeat pool 2 = 2) :
    HeartbeatOrder pool [1, 2] where
  nodup := by decide
  mem_iff := by
    intro addr
    rw [AList.lookup_isSome, AList.mem_keys, hKeys]
    simp [AccountSet.contains, hLocals, or_comm]
  order := by
    refine List.pairwise_pair.mpr ?_
    omega

/- Both transactions of account one are dropped. -/
theorem truncateQueue_spec_sample :
    ∃ pool : Mempool SampleTx (PlainList SampleTx.view)
        PlainNoncer,
      Accounted samplePoolTypes pool 0 ∧
      lenAll samplePoolTypes pool.queue = 4 ∧
      2 ≤ lenAll samplePoolTypes
        (truncateQueue samplePoolTypes 3 pool
          [1, 2]).queue ∧
      (lenAt samplePoolTypes
            (truncateQueue samplePoolTypes 3 pool
              [1, 2]).queue 1 = 0 ∨
        (truncateQueue samplePoolTypes 3 pool
            [1, 2]).queue.lookup 2 =
          pool.queue.lookup 2) := by
  rcases gappedCalls_run with
    ⟨new, pool, hNew, hRun, hQueue, hLocals, _, hKeys, hOne,
      hTwo, hAll⟩
  have hStart :
      Accounted samplePoolTypes
        (empty samplePoolTypes narrowConfig.sanitize) 0 :=
    accounted_empty narrowConfig.sanitize
  have hAcc := (hStart.reset hNew).run hRun
  rcases truncateQueue_spec hAcc
    (gapped_heartbeatOrder hLocals hKeys hOne hTwo)
    (by omega) 3 with ⟨_, hLeast, _, _, _, hSilent⟩
  refine ⟨pool, hAcc, hAll, by omega, hSilent 1 2 ?_ ?_⟩
  · simp [AccountSet.contains, hLocals]
  · omega

------------------------------------------------------------
-- Limits After Every Run
------------------------------------------------------------

variable (types) in
/- The part of `runReorg` before the truncation. -/
def beforeTruncation
    (world : ResetWorld Tx)
    (now : Nat)
    (orders : RunOrders)
    (pool : Mempool Tx L N) :
    ReorgWork → Option (Mempool Tx L N)
| .promote accounts => do
    let (pool, _) ←
      promoteExecutables types now pool accounts
    some pool
| .reset oldHead newHead => do
    let pool ← reset types world now pool oldHead newHead
    let (pool, _) ←
      promoteExecutables types now pool orders.queue
    let pool :=
      demoteUnexecutables types now pool orders.pending
    some (updateNonces types pool)

/- The truncation comes last. -/
theorem runReorg_eq
    (types : PoolTypes Tx L N)
    (world : ResetWorld Tx)
    (now : Nat)
    (orders : RunOrders)
    (pool : Mempool Tx L N)
    (work : ReorgWork) :
    runReorg types world now orders pool work =
      (beforeTruncation types world now orders pool work).map
        (fun mid =>
          { truncateQueue types now
              (truncatePending types mid orders.spammers)
              orders.heartbeats with
            changesSinceReorg := 0 }) := by
  cases work with
  | promote accounts =>
      simp only [runReorg, beforeTruncation]
      cases promoteExecutables types now pool accounts <;> rfl
  | reset oldHead newHead =>
      simp only [runReorg, beforeTruncation]
      cases reset types world now pool oldHead newHead with
      | none => rfl
      | some fresh =>
          simp only [Option.bind_eq_bind, Option.bind_some]
          cases promoteExecutables types now fresh
            orders.queue <;> rfl

theorem Accounted.beforeTruncation
    {pool mid : Mempool Tx L N}
    (hAcc : Accounted types pool 0)
    {world : ResetWorld Tx}
    {now : Nat}
    {orders : RunOrders}
    {work : ReorgWork}
    (hMid :
      Mempool.beforeTruncation types world now orders pool
        work = some mid) :
    Accounted types mid 0 := by
  cases work with
  | promote accounts =>
      rcases Option.bind_eq_some_iff.mp hMid with
        ⟨_, hPromote, hRest⟩
      rw [← Option.some.inj hRest]
      exact hAcc.promoteExecutables hPromote
  | reset oldHead newHead =>
      rcases Option.bind_eq_some_iff.mp hMid with
        ⟨fresh, hReset, hRest⟩
      rcases Option.bind_eq_some_iff.mp hRest with
        ⟨_, hPromote, hRest⟩
      rw [← Option.some.inj hRest]
      exact (((hAcc.reset hReset).promoteExecutables hPromote
        ).demoteUnexecutables now orders.pending
          ).updateNonces

/- Cutting lists leaves the settings. -/
theorem trimRounds_settings
    (limit bound : Nat)
    (offenders : List Address)
    (last : Address)
    (fuel : Nat)
    (acc : Mempool Tx L N × Nat) :
    SameSettings acc.1
      (trimRounds types limit bound offenders last fuel
        acc).1 := by
  induction fuel generalizing acc with
  | zero => exact .refl
  | succ fuel ih =>
      unfold trimRounds
      split
      · have hRound :
            SameSettings acc.1
              (offenders.foldl (trim types) acc.1) :=
          .foldl trim_settings acc.1 offenders
        exact hRound.trans (ih (_, acc.2 - offenders.length))
      · exact .refl

theorem equalize_settings
    (types : PoolTypes Tx L N)
    (limit : Nat)
    (offenders spammers : List Address)
    (acc : Mempool Tx L N × Nat) :
    SameSettings acc.1
      (equalize types limit offenders spammers acc).2.1 := by
  induction spammers generalizing offenders acc with
  | nil => exact .refl
  | cons offender spammers ih =>
      unfold equalize
      split
      · refine SameSettings.trans ?_ (ih _ _)
        cases offenders.getLast? with
        | none => exact .refl
        | some last =>
            exact trimRounds_settings limit _ _ last _ acc
      · exact .refl

theorem truncatePending_settings
    (types : PoolTypes Tx L N)
    (pool : Mempool Tx L N)
    (spammers : List Address) :
    SameSettings pool
      (truncatePending types pool spammers) := by
  unfold truncatePending
  simp only
  split
  · exact .refl
  · have hEqual := equalize_settings types
      pool.config.globalSlots.toNat [] spammers
      (pool, lenAll types pool.pending)
    split
    · exact hEqual
    · exact hEqual.trans (trimRounds_settings _ _ _ _ _ _)

/- After the first truncation. -/
theorem truncatePending_limits
    {pool : Mempool Tx L N}
    {spammers : List Address}
    (hSpam : SpamOrder types pool spammers) :
    lenAll types
          (truncatePending types pool spammers).pending ≤
        pool.config.globalSlots.toNat ∨
      ∀ addr, pool.locals.contains addr = false →
        lenAt types
            (truncatePending types pool spammers).pending
            addr ≤
          pool.config.accountSlots.toNat := by
  by_cases hFits :
      lenAll types pool.pending ≤
        pool.config.globalSlots.toNat
  · left
    unfold truncatePending
    simp only [if_pos hFits]
    exact hFits
  · rcases exists_leveled hSpam (Nat.lt_of_not_le hFits) with
      ⟨level, acc, hTruncate, _, hLevel, hRoom | hFloor⟩
    · left
      rw [hTruncate, ← hLevel.pending]
      exact hRoom
    · right
      intro addr hRemote
      rw [hTruncate, hLevel.lenAt, hFloor]
      split
      · exact Nat.min_le_right _ _
      · next hAddr =>
        by_contra hLong
        exact hAddr ((hSpam.mem_iff addr).mpr
          ⟨hRemote, Nat.lt_of_not_le hLong⟩)

/- After the second one, which leaves the first result. -/
theorem truncateQueue_limits
    {pool : Mempool Tx L N}
    (hAcc : Accounted types pool 0)
    {addresses : List Address}
    (hBeats : HeartbeatOrder pool addresses)
    (now : Nat) :
    SameSettings pool
        (truncateQueue types now pool addresses) ∧
      (truncateQueue types now pool addresses).pending =
        pool.pending ∧
      (lenAll types
            (truncateQueue types now pool addresses).queue ≤
          pool.config.globalQueue.toNat ∨
        ∀ addr, pool.locals.contains addr = false →
          lenAt types
              (truncateQueue types now pool addresses).queue
              addr = 0) := by
  unfold truncateQueue
  simp only
  split
  · next hFits => exact ⟨.refl, rfl, .inl hFits⟩
  · next hOver =>
    have hDrained := dropQueued_drained hAcc hBeats.nodup
      now
      (lenAll types pool.queue -
        pool.config.globalQueue.toNat)
    exact ⟨hDrained.settings, hDrained.pending,
      (hBeats.lenAll_eq_or (Nat.lt_of_not_le hOver)
        hDrained).imp_left le_of_eq⟩

/-
  Whatever the pool went through: when `runReorg` returns,
  it is within its limits, or only has what the accounts are
  guaranteed.
-/
theorem reorg_limits
    {config : Config}
    {world world' : ResetWorld Tx}
    {now now' : Nat}
    {new pool mid pool' : Mempool Tx L N}
    {calls : List (Nat × PoolCall Tx)}
    {orders : RunOrders}
    {work : ReorgWork}
    (hNew : newTxPool types config world now = some new)
    (hRun : run types new calls = some pool)
    (hMid :
      beforeTruncation types world' now' orders pool work =
        some mid)
    (hSpam : SpamOrder types mid orders.spammers)
    (hBeats :
      HeartbeatOrder
        (truncatePending types mid orders.spammers)
        orders.heartbeats)
    (hReorg :
      runReorg types world' now' orders pool work =
        some pool') :
    (lenAll types pool'.pending ≤
          pool'.config.globalSlots.toNat ∨
        ∀ addr, pool'.locals.contains addr = false →
          lenAt types pool'.pending addr ≤
            pool'.config.accountSlots.toNat) ∧
      (lenAll types pool'.queue ≤
          pool'.config.globalQueue.toNat ∨
        ∀ addr, pool'.locals.contains addr = false →
          lenAt types pool'.queue addr = 0) := by
  have hStart :
      Accounted types
        (empty types config.sanitize : Mempool Tx L N) 0 :=
    accounted_empty config.sanitize
  have hAcc :=
    ((hStart.reset hNew).run hRun).beforeTruncation hMid
  rw [runReorg_eq, hMid, Option.map_some,
    Option.some.injEq] at hReorg
  rcases truncateQueue_limits
    (hAcc.truncatePending orders.spammers) hBeats now' with
    ⟨hSettings, hPending, hQueue⟩
  have hBefore :=
    truncatePending_settings types mid orders.spammers
  rw [← hReorg]
  simp only [hSettings.config, hSettings.locals, hPending]
  refine ⟨?_, hQueue⟩
  rw [hBefore.config, hBefore.locals]
  exact truncatePending_limits hSpam

/- The queues of two accounts are cut down to two. -/
theorem reorg_limits_sample :
    ∃ new pool pool' : Mempool SampleTx
        (PlainList SampleTx.view) PlainNoncer,
      newTxPool samplePoolTypes narrowConfig sampleWorld 0 =
        some new ∧
      run samplePoolTypes new gappedCalls = some pool ∧
      runReorg samplePoolTypes sampleWorld 3
          ⟨[], [], [], [1, 2]⟩ pool (.promote []) =
        some pool' ∧
      lenAll samplePoolTypes pool.queue = 4 ∧
      (lenAll samplePoolTypes pool'.queue ≤
          pool'.config.globalQueue.toNat ∨
        ∀ addr, pool'.locals.contains addr = false →
          lenAt samplePoolTypes pool'.queue addr = 0) := by
  rcases gappedCalls_run with
    ⟨new, pool, hNew, hRun, _, hLocals, hPending, hKeys,
      hOne, hTwo, hAll⟩
  have hNone : pool.pending = ∅ := by
    apply AList.ext
    have hLength := congrArg List.length hPending
    simpa [AList.keys, List.keys] using hLength
  have hTruncate :
      truncatePending samplePoolTypes pool [] = pool := by
    simp [truncatePending, equalize]
  have hSpam : SpamOrder samplePoolTypes pool [] := by
    refine ⟨List.nodup_nil, ?_, List.Pairwise.nil⟩
    intro addr
    simp [isSpammer, hNone, lenAt, Tally.part]
  have hBeats :=
    gapped_heartbeatOrder hLocals hKeys hOne hTwo
  rw [← hTruncate] at hBeats
  have hReorg := runReorg_eq samplePoolTypes sampleWorld 3
    ⟨[], [], [], [1, 2]⟩ pool (.promote [])
  refine ⟨new, pool, _, hNew, hRun, hReorg, hAll, ?_⟩
  exact (reorg_limits hNew hRun rfl hSpam hBeats hReorg).2

end Mempool

end Builder
