import StingFlashbots.Builder.Truncation

/-
  Cutting pending lists.

  Outside of promotions and resets, all that happens to the
  pending transactions of an account is a cut: one nonce is
  gone, with everything behind it, and the next nonce is
  lowered to it. Replacements leave the nonces, and whatever
  happens to a queue leaves everything.

  Key definitions include:
    * `Builder.Mempool.IsPending`
    * `Builder.Mempool.Still`
    * `Builder.Mempool.Cut`

  Main results:
    * `Builder.Mempool.Cut.removeTx`
    * `Builder.Mempool.Cut.addTxsLocked`
    * `Builder.Mempool.Cut.truncatePending`
    * `Builder.Mempool.Cut.truncateQueue`
-/

namespace Builder

namespace Mempool

open Sting

variable {Tx L N : Type}
variable {types : PoolTypes Tx L N}

------------------------------------------------------------
-- Pending Nonces
------------------------------------------------------------

variable (types) in
/- `Nonce` -/
def nonce
    (pool : Mempool Tx L N)
    (addr : Address) : UInt64 :=
  types.noncers.get pool.pendingNonces addr

variable (types) in
/- A list has a transaction with the nonce. -/
def HasNonce (list : L) (n : UInt64) : Prop :=
  ∃ tx ∈ listTxs types list, types.view.nonce tx = n

variable (types) in
/- The account has a pending transaction with the nonce. -/
def IsPending
    (map : ListMap L)
    (addr : Address)
    (n : UInt64) : Prop :=
  ∃ list, map.lookup addr = some list ∧ HasNonce types list n

variable (types) in
/- All pending lists are strict. -/
def AllStrict (map : ListMap L) : Prop :=
  ∀ addr list, map.lookup addr = some list →
    types.lists.strict list = true

theorem hasNonce_iff
    {list : L}
    {n : UInt64} :
    HasNonce types list n ↔
      (types.lists.get list n).isSome := by
  rw [Option.isSome_iff_exists]
  constructor
  · rintro ⟨tx, hTx, hNonce⟩
    exact ⟨tx, types.lists.get_eq_some.mpr ⟨hTx, hNonce⟩⟩
  · rintro ⟨tx, hGet⟩
    exact ⟨tx, types.lists.get_eq_some.mp hGet⟩

theorem isPending_iff
    {map : ListMap L}
    {addr : Address}
    {n : UInt64} :
    IsPending types map addr n ↔
      (itemAt types map addr n).isSome := by
  unfold IsPending itemAt
  cases map.lookup addr with
  | none => simp
  | some list => simp [hasNonce_iff]

theorem isPending_of_lookup
    {map : ListMap L}
    {addr : Address}
    {list : L}
    (hLookup : map.lookup addr = some list)
    {n : UInt64} :
    IsPending types map addr n ↔ HasNonce types list n := by
  simp [IsPending, hLookup]

theorem isPending_insert
    {map : ListMap L}
    {addr other : Address}
    {list : L}
    {n : UInt64} :
    IsPending types (map.insert addr list) other n ↔
      if other = addr then HasNonce types list n
      else IsPending types map other n := by
  split
  · next hSame =>
    rw [hSame]
    exact isPending_of_lookup (AList.lookup_insert _)
  · next hOther =>
    simp [IsPending, AList.lookup_insert_ne hOther]

/- A list without transactions may as well be deleted. -/
theorem isPending_dropEmpty
    {pool : Mempool Tx L N}
    {addr : Address}
    {list : L}
    (hLookup : pool.pending.lookup addr = some list)
    {other : Address}
    {n : UInt64} :
    IsPending types
        (dropEmptyPending types pool addr list).pending
        other n ↔
      IsPending types pool.pending other n := by
  unfold dropEmptyPending
  split
  · next hEmpty =>
    rw [types.lists.isEmpty_eq, List.isEmpty_iff] at hEmpty
    by_cases hSame : other = addr
    · rw [hSame, isPending_of_lookup hLookup]
      simp [IsPending, HasNonce, listTxs, hEmpty]
    · simp [IsPending, AList.lookup_erase_ne hSame]
  · rfl

theorem dropEmptyPending_frame
    (types : PoolTypes Tx L N)
    (pool : Mempool Tx L N)
    (addr : Address)
    (list : L) :
    (dropEmptyPending types pool addr list).pendingNonces =
        pool.pendingNonces ∧
      (dropEmptyPending types pool addr list).currentState =
        pool.currentState := by
  unfold dropEmptyPending
  split <;> exact ⟨rfl, rfl⟩

namespace AllStrict

variable {map : ListMap L}

theorem insert
    (hStrict : AllStrict types map)
    {addr : Address}
    {list : L}
    (hList : types.lists.strict list = true) :
    AllStrict types (map.insert addr list) := by
  intro other found hFound
  by_cases hSame : other = addr
  · rw [hSame, AList.lookup_insert] at hFound
    rw [← Option.some.inj hFound]
    exact hList
  · rw [AList.lookup_insert_ne hSame] at hFound
    exact hStrict other found hFound

theorem erase
    (hStrict : AllStrict types map)
    (addr : Address) :
    AllStrict types (map.erase addr) := by
  intro other found hFound
  by_cases hSame : other = addr
  · rw [hSame, AList.lookup_erase] at hFound
    cases hFound
  · rw [AList.lookup_erase_ne hSame] at hFound
    exact hStrict other found hFound

theorem dropEmptyPending
    {pool : Mempool Tx L N}
    (hStrict : AllStrict types pool.pending)
    (addr : Address)
    (list : L) :
    AllStrict types
      (Mempool.dropEmptyPending types pool addr
        list).pending := by
  unfold Mempool.dropEmptyPending
  split
  · exact hStrict.erase addr
  · exact hStrict

end AllStrict

------------------------------------------------------------
-- Cutting Pending Lists
------------------------------------------------------------

/- Nothing of what is pending has changed. -/
structure Still (pool pool' : Mempool Tx L N) : Prop where
  pending : pool'.pending = pool.pending
  nonces : pool'.pendingNonces = pool.pendingNonces
  state : pool'.currentState = pool.currentState

namespace Still

variable {pool pool' pool'' : Mempool Tx L N}

theorem refl : Still pool pool := ⟨rfl, rfl, rfl⟩

theorem trans
    (hLeft : Still pool pool')
    (hRight : Still pool' pool'') :
    Still pool pool'' :=
  ⟨hRight.pending.trans hLeft.pending,
    hRight.nonces.trans hLeft.nonces,
    hRight.state.trans hLeft.state⟩

theorem foldl
    {A : Type}
    {f : Mempool Tx L N → A → Mempool Tx L N}
    (hRound : ∀ pool a, Still pool (f pool a))
    (pool : Mempool Tx L N)
    (as : List A) :
    Still pool (as.foldl f pool) := by
  induction as generalizing pool with
  | nil => exact refl
  | cons a as ih => exact (hRound pool a).trans (ih _)

theorem enqueueTx
    (types : PoolTypes Tx L N)
    (now : Nat)
    (pool : Mempool Tx L N)
    (tx : Tx)
    (isLocal addAll : Bool) :
    Still pool
      (Mempool.enqueueTx types now pool tx isLocal
        addAll).2 := by
  unfold Mempool.enqueueTx
  simp only
  split <;> exact ⟨rfl, rfl, rfl⟩

theorem dropEmptyQueue
    (types : PoolTypes Tx L N)
    (pool : Mempool Tx L N)
    (addr : Address)
    (list : L) :
    Still pool
      (Mempool.dropEmptyQueue types pool addr list) := by
  unfold Mempool.dropEmptyQueue
  split <;> exact ⟨rfl, rfl, rfl⟩

theorem removeQueued
    (types : PoolTypes Tx L N)
    (pool : Mempool Tx L N)
    (addr : Address)
    (tx : Tx) :
    Still pool
      (Mempool.removeQueued types pool addr tx) := by
  unfold Mempool.removeQueued
  split
  · exact refl
  · next future _ =>
    have hSet :
        Still pool (pool.setQueue addr
          (types.lists.remove future tx).2) :=
      ⟨rfl, rfl, rfl⟩
    exact hSet.trans (dropEmptyQueue types _ addr _)

end Still

variable (types) in
/-
  The account has the same pending transactions and the same
  next nonce.
-/
structure SameAt
    (addr : Address)
    (pool pool' : Mempool Tx L N) : Prop where
  isPending :
    ∀ n, IsPending types pool'.pending addr n ↔
      IsPending types pool.pending addr n
  nonce : nonce types pool' addr = nonce types pool addr

variable (types) in
/-
  A pending nonce of the account and everything behind it is
  gone, and the next nonce is not above it.
-/
structure CutAt
    (addr : Address)
    (cut : UInt64)
    (pool pool' : Mempool Tx L N) : Prop where
  was : IsPending types pool.pending addr cut
  isPending :
    ∀ n, IsPending types pool'.pending addr n ↔
      IsPending types pool.pending addr n ∧ n < cut
  nonce :
    Mempool.nonce types pool' addr =
      if cut < Mempool.nonce types pool addr then cut
      else Mempool.nonce types pool addr

variable (types) in
/- Every account is the same or was cut. -/
structure Cut
    (fallback : N → StateView)
    (pool pool' : Mempool Tx L N) : Prop where
  strict : AllStrict types pool'.pending
  state : pool'.currentState = pool.currentState
  fallback :
    fallback pool'.pendingNonces = fallback pool.pendingNonces
  accounts :
    ∀ addr, SameAt types addr pool pool' ∨
      ∃ cut, CutAt types addr cut pool pool'

namespace Cut

variable {fallback : N → StateView}
variable {pool pool' pool'' : Mempool Tx L N}

theorem of_still
    (hStrict : AllStrict types pool.pending)
    (hStill : Still pool pool') :
    Cut types fallback pool pool' where
  strict := by
    rw [hStill.pending]
    exact hStrict
  state := hStill.state
  fallback := by rw [hStill.nonces]
  accounts := by
    intro addr
    refine .inl ⟨?_, ?_⟩
    · rw [hStill.pending]
      exact fun _ => Iff.rfl
    · simp only [nonce, hStill.nonces]

theorem refl
    (hStrict : AllStrict types pool.pending) :
    Cut types fallback pool pool :=
  .of_still hStrict .refl

theorem trans
    (hLeft : Cut types fallback pool pool')
    (hRight : Cut types fallback pool' pool'') :
    Cut types fallback pool pool'' where
  strict := hRight.strict
  state := hRight.state.trans hLeft.state
  fallback := hRight.fallback.trans hLeft.fallback
  accounts := by
    intro addr
    rcases hLeft.accounts addr with hSame | ⟨cut, hCut⟩
    · rcases hRight.accounts addr with
        hSame' | ⟨cut', hCut'⟩
      · refine .inl ⟨?_, hSame'.nonce.trans hSame.nonce⟩
        exact fun n => (hSame'.isPending n).trans
          (hSame.isPending n)
      · refine .inr ⟨cut', ?_, ?_, ?_⟩
        · exact (hSame.isPending cut').mp hCut'.was
        · intro n
          rw [hCut'.isPending, hSame.isPending]
        · rw [hCut'.nonce, hSame.nonce]
    · rcases hRight.accounts addr with
        hSame' | ⟨cut', hCut'⟩
      · refine .inr ⟨cut, hCut.was, ?_, ?_⟩
        · intro n
          rw [hSame'.isPending, hCut.isPending]
        · rw [hSame'.nonce, hCut.nonce]
      · -- the second cut is below the first one
        rcases (hCut.isPending cut').mp hCut'.was with
          ⟨hPending, hLt⟩
        refine .inr ⟨cut', hPending, ?_, ?_⟩
        · intro n
          rw [hCut'.isPending, hCut.isPending]
          grind
        · rw [hCut'.nonce, hCut.nonce]
          grind

/- What one round does, a loop does. -/
theorem foldl
    {A : Type}
    {f : Mempool Tx L N → A → Mempool Tx L N}
    (hRound :
      ∀ {pool a}, AllStrict types pool.pending →
        Cut types fallback pool (f pool a))
    (hStrict : AllStrict types pool.pending)
    (as : List A) :
    Cut types fallback pool (as.foldl f pool) := by
  induction as generalizing pool with
  | nil => exact .refl hStrict
  | cons a as ih =>
      have hFirst : Cut types fallback pool (f pool a) :=
        hRound hStrict
      exact hFirst.trans (ih hFirst.strict)

/- The list of one account was cut. -/
theorem of_list
    (hTypes : types.Ordered fallback)
    {addr : Address}
    {list : L}
    {cut : UInt64}
    (hLookup : pool.pending.lookup addr = some list)
    (hCut : HasNonce types list cut)
    (hStrict : AllStrict types pool'.pending)
    (hPending :
      ∀ other n, IsPending types pool'.pending other n ↔
        if other = addr then
          HasNonce types list n ∧ n < cut
        else
          IsPending types pool.pending other n)
    (hNonces :
      pool'.pendingNonces =
        types.noncers.setIfLower pool.pendingNonces addr cut)
    (hState : pool'.currentState = pool.currentState) :
    Cut types fallback pool pool' where
  strict := hStrict
  state := hState
  fallback := by
    rw [hNonces]
    exact hTypes.noncers.fallback_setIfLower
  accounts := by
    intro other
    have hNonce :
        nonce types pool' other =
          if other = addr ∧ cut < nonce types pool addr then
            cut
          else
            nonce types pool other := by
      unfold nonce
      rw [hNonces]
      exact hTypes.noncers.get_setIfLower
    by_cases hSame : other = addr
    · subst hSame
      refine .inr ⟨cut, ?_, ?_, ?_⟩
      · exact (isPending_of_lookup hLookup).mpr hCut
      · intro n
        rw [hPending, if_pos rfl, isPending_of_lookup hLookup]
      · simpa using hNonce
    · refine .inl ⟨?_, ?_⟩
      · intro n
        rw [hPending, if_neg hSame]
      · simpa [hSame] using hNonce

/- What is left of a strict list without one nonce. -/
theorem hasNonce_remove
    (hTypes : types.Ordered fallback)
    {list : L}
    {tx : Tx}
    (hStrict : types.lists.strict list = true)
    (hRemoved : (types.lists.remove list tx).1.1 = true)
    (n : UInt64) :
    HasNonce types (types.lists.remove list tx).2 n ↔
      HasNonce types list n ∧ n < types.view.nonce tx := by
  rcases types.lists.remove_found hRemoved with
    ⟨found, hFound, hSplit⟩
  have hNonce := (types.lists.get_eq_some.mp hFound).2
  constructor
  · rintro ⟨kept, hKept, rfl⟩
    refine ⟨⟨kept, ?_, rfl⟩,
      hTypes.lists.remove_kept hStrict hRemoved hKept⟩
    unfold listTxs
    rw [hSplit]
    exact Multiset.mem_cons_of_mem
      (Multiset.mem_add.mpr (.inr hKept))
  · rintro ⟨⟨kept, hKept, rfl⟩, hLt⟩
    unfold listTxs at hKept
    rw [hSplit, Multiset.mem_cons, Multiset.mem_add] at hKept
    rcases hKept with rfl | hInvalid | hKept
    · grind
    · have hAfter := hTypes.lists.remove_invalids hInvalid
      grind
    · exact ⟨kept, hKept, rfl⟩

/- A pending transaction is removed. -/
theorem removePending
    (hTypes : types.Ordered fallback)
    (hStrict : AllStrict types pool.pending)
    {addr : Address}
    {list : L}
    {tx : Tx}
    (hLookup : pool.pending.lookup addr = some list)
    (hRemoved : (types.lists.remove list tx).1.1 = true)
    (now : Nat) :
    Cut types fallback pool
      (Mempool.removePending types now pool addr tx
        (types.lists.remove list tx).2
        (types.lists.remove list tx).1.2) := by
  have hList := hStrict addr list hLookup
  have hCut : HasNonce types list (types.view.nonce tx) := by
    rcases types.lists.remove_found hRemoved with
      ⟨found, hFound, _⟩
    exact hasNonce_iff.mpr (by rw [hFound]; rfl)
  have hRequeue :
      ∀ (pool : Mempool Tx L N) (txs : List Tx),
        Still pool (txs.foldl (requeue types now) pool) :=
    Still.foldl (fun pool tx => .enqueueTx types now pool tx
      false false)
  unfold Mempool.removePending
  refine of_list hTypes hLookup hCut ?_ ?_ ?_ ?_
  · simp only [(hRequeue _ _).pending]
    refine AllStrict.dropEmptyPending ?_ addr _
    refine hStrict.insert ?_
    rw [types.lists.strict_remove]
    exact hList
  · intro other n
    simp only [(hRequeue _ _).pending]
    rw [isPending_dropEmpty (AList.lookup_insert _),
      setPending, isPending_insert,
      hasNonce_remove hTypes hList hRemoved]
  · simp only [(hRequeue _ _).nonces,
      (dropEmptyPending_frame types _ addr _).1]
    rfl
  · simp only [(hRequeue _ _).state,
      (dropEmptyPending_frame types _ addr _).2]
    rfl

/- `removeTx` cuts the pending list of the sender, or none. -/
theorem removeTx
    (hTypes : types.Ordered fallback)
    (hStrict : AllStrict types pool.pending)
    (now : Nat)
    (hash : Bytes) :
    Cut types fallback pool
      (Mempool.removeTx types now pool hash).2 := by
  unfold Mempool.removeTx
  cases pool.all.get hash with
  | none => exact .refl hStrict
  | some tx =>
      have hForget :
          Still pool
            { pool with
              all := pool.all.remove types.view hash } :=
        ⟨rfl, rfl, rfl⟩
      simp only
      cases hLookup :
          pool.pending.lookup (senderOf types tx) with
      | none =>
          exact .of_still hStrict
            (hForget.trans (.removeQueued types _ _ tx))
      | some list =>
          cases hRemoved :
              (types.lists.remove list tx).1.1 with
          | false =>
              simp only [hRemoved, Bool.false_eq_true,
                if_false]
              exact .of_still hStrict
                (hForget.trans (.removeQueued types _ _ tx))
          | true =>
              simp only [hRemoved, if_true]
              have hFirst : Cut types fallback pool _ :=
                .of_still hStrict hForget
              refine hFirst.trans (removePending hTypes
                hFirst.strict ?_ hRemoved now)
              exact hLookup

theorem removeTxs
    (hTypes : types.Ordered fallback)
    (hStrict : AllStrict types pool.pending)
    (now : Nat)
    (txs : List Tx) :
    Cut types fallback pool
      (Mempool.removeTxs types now pool txs) :=
  .foldl (fun hStrict => removeTx hTypes hStrict now _)
    hStrict txs

------------------------------------------------------------
-- Adding Transactions
------------------------------------------------------------

theorem dropTxs
    (hTypes : types.Ordered fallback)
    (hStrict : AllStrict types pool.pending)
    (now : Nat)
    (drop : List Tx) :
    Cut types fallback pool
      (Mempool.dropTxs types now pool drop) := by
  refine .foldl ?_ hStrict drop
  intro pool tx hStrict
  have hRemove := removeTx hTypes hStrict now
    (types.view.hash tx)
  exact hRemove.trans
    (.of_still hRemove.strict ⟨rfl, rfl, rfl⟩)

theorem makeRoom
    (hTypes : types.Ordered fallback)
    (hStrict : AllStrict types pool.pending)
    {priced : PricedAnswers Tx}
    {now : Nat}
    {tx : Tx}
    {isLocal : Bool}
    (hRoom :
      Mempool.makeRoom types priced now pool tx isLocal =
        .ok pool') :
    Cut types fallback pool pool' := by
  simp only [Mempool.makeRoom] at hRoom
  split at hRoom
  · cases hRoom
  split at hRoom
  · cases hRoom
  split at hRoom
  · cases hRoom
  split at hRoom
  · cases hRoom
  rw [← Except.ok.inj hRoom]
  exact dropTxs hTypes hStrict now priced.drop

/- A replaced transaction leaves its nonce to the new one. -/
theorem hasNonce_add
    {list : L}
    {tx : Tx}
    (hOverlaps : types.lists.overlaps list tx = true)
    (bump : UInt64)
    (n : UInt64) :
    HasNonce types (types.lists.add list tx bump).2 n ↔
      HasNonce types list n := by
  cases hInserted : (types.lists.add list tx bump).1.1 with
  | false => rw [types.lists.add_rejected hInserted]
  | true =>
      rw [types.lists.overlaps_eq] at hOverlaps
      rcases Option.isSome_iff_exists.mp hOverlaps with
        ⟨old, hOld⟩
      have hNonce := (types.lists.get_eq_some.mp hOld).2
      have hSplit : (types.lists.flatten
          (types.lists.add list tx bump).2 : Multiset Tx) +
            (types.lists.get list
              (types.view.nonce tx)).toList =
          tx ::ₘ types.lists.flatten list :=
        types.lists.add_inserted hInserted
      rw [hOld, Option.toList_some,
        Multiset.coe_singleton] at hSplit
      have hNonces := congrArg
        (Multiset.map types.view.nonce) hSplit
      rw [Multiset.map_add, Multiset.map_singleton,
        Multiset.map_cons, hNonce, add_comm,
        Multiset.singleton_add,
        Multiset.cons_inj_right] at hNonces
      have hMem := congrArg (n ∈ ·) hNonces
      simp only [Multiset.mem_map, eq_iff_iff] at hMem
      exact hMem

theorem replacePending
    (hStrict : AllStrict types pool.pending)
    {tx : Tx}
    {list : L}
    (hLookup :
      pool.pending.lookup (senderOf types tx) = some list)
    (hOverlaps : types.lists.overlaps list tx = true)
    (now : Nat)
    (isLocal : Bool) :
    Cut types fallback pool
      (Mempool.replacePending types now pool tx isLocal
        list).2 := by
  have hSame :
      ∀ other n,
        IsPending types
            (pool.pending.insert (senderOf types tx)
              (types.lists.add list tx
                pool.config.priceBump).2)
            other n ↔
          IsPending types pool.pending other n := by
    intro other n
    rw [isPending_insert]
    split
    · next hAddr =>
      rw [hAddr, hasNonce_add hOverlaps,
        isPending_of_lookup hLookup]
    · rfl
  have hList :
      AllStrict types
        (pool.pending.insert (senderOf types tx)
          (types.lists.add list tx
            pool.config.priceBump).2) := by
    refine hStrict.insert ?_
    rw [types.lists.strict_add]
    exact hStrict _ list hLookup
  unfold Mempool.replacePending
  simp only
  split
  · exact ⟨hList, rfl, rfl, fun addr =>
      .inl ⟨hSame addr, rfl⟩⟩
  · exact ⟨hList, rfl, rfl, fun addr =>
      .inl ⟨hSame addr, rfl⟩⟩

theorem addQueued
    (hStrict : AllStrict types pool.pending)
    (remotes : List Bytes)
    (now : Nat)
    (tx : Tx)
    (fromLocal isLocal : Bool) :
    Cut types fallback pool
      (Mempool.addQueued types remotes now pool tx fromLocal
        isLocal).2 := by
  have hStill :=
    Still.enqueueTx types now pool tx isLocal true
  unfold Mempool.addQueued
  rcases hResult :
    Mempool.enqueueTx types now pool tx isLocal true with
    ⟨result, pool'⟩
  rw [hResult] at hStill
  refine .of_still hStrict (hStill.trans ?_)
  cases result with
  | error err => exact .refl
  | ok replaced =>
      simp only
      split
      · exact ⟨rfl, rfl, rfl⟩
      · exact .refl

/- `add` cuts pending lists to make room, if at all. -/
theorem add
    (hTypes : types.Ordered fallback)
    (hStrict : AllStrict types pool.pending)
    (answers : AddAnswers Tx)
    (now : Nat)
    (tx : Tx)
    (fromLocal : Bool) :
    Cut types fallback pool
      (Mempool.add types answers now pool tx
        fromLocal).2 := by
  unfold Mempool.add
  split
  · exact .refl hStrict
  simp only
  split
  · exact .refl hStrict
  split
  · exact .refl hStrict
  next roomy hRoomy =>
  have hRoom : Cut types fallback pool roomy := by
    split at hRoomy
    · exact makeRoom hTypes hStrict hRoomy
    · rw [← Except.ok.inj hRoomy]
      exact .refl hStrict
  split
  · exact hRoom.trans (addQueued hRoom.strict _ now tx _ _)
  · next list hLookup =>
    split
    · next hOverlaps =>
      exact hRoom.trans (replacePending hRoom.strict hLookup
        hOverlaps now _)
    · exact hRoom.trans (addQueued hRoom.strict _ now tx _ _)

theorem addTxsLocked
    (hTypes : types.Ordered fallback)
    (hStrict : AllStrict types pool.pending)
    (answers : Nat → AddAnswers Tx)
    (now : Nat)
    (fromLocal : Bool)
    (i : Nat)
    (dirty : AccountSet)
    (txs : List Tx) :
    Cut types fallback pool
      (Mempool.addTxsLocked types answers now fromLocal i
        pool dirty txs).pool := by
  induction txs generalizing pool i dirty with
  | nil => exact .refl hStrict
  | cons tx txs ih =>
      have hFirst := add hTypes hStrict (answers i) now tx
        fromLocal
      exact hFirst.trans (ih hFirst.strict _ _)

------------------------------------------------------------
-- Truncating
------------------------------------------------------------

/- The last transaction of a list, if there is one. -/
theorem cap_last
    (hTypes : types.Ordered fallback)
    (list : L) :
    (types.lists.cap list (types.lists.len list - 1)).1 = [] ∧
        listTxs types list =
          listTxs types (types.lists.cap list
            (types.lists.len list - 1)).2 ∨
      ∃ tx,
        (types.lists.cap list
            (types.lists.len list - 1)).1 = [tx] ∧
        HasNonce types list (types.view.nonce tx) ∧
        ∀ n, HasNonce types
            (types.lists.cap list
              (types.lists.len list - 1)).2 n ↔
          HasNonce types list n ∧
            n < types.view.nonce tx := by
  have hSplit : listTxs types list =
      (types.lists.cap list (types.lists.len list - 1)).1 +
        listTxs types
          (types.lists.cap list
            (types.lists.len list - 1)).2 :=
    types.lists.cap_split
  have hCard : (types.lists.flatten list).length =
      (types.lists.cap list
          (types.lists.len list - 1)).1.length +
        (types.lists.flatten (types.lists.cap list
          (types.lists.len list - 1)).2).length := by
    simpa [listTxs] using congrArg Multiset.card hSplit
  have hLen : types.lists.len list =
      (types.lists.flatten list).length :=
    types.lists.len_eq
  have hKept : (types.lists.flatten
      (types.lists.cap list
        (types.lists.len list - 1)).2).length =
      min (types.lists.len list - 1)
        (types.lists.flatten list).length :=
    types.lists.cap_length
  cases hOut :
      (types.lists.cap list (types.lists.len list - 1)).1 with
  | nil =>
      left
      rw [hOut, Multiset.coe_nil, zero_add] at hSplit
      exact ⟨rfl, hSplit⟩
  | cons tx rest =>
      right
      rw [hOut, List.length_cons] at hCard
      have hRest : rest = [] := by
        apply List.eq_nil_of_length_eq_zero
        omega
      rw [hRest] at hOut ⊢
      rw [hOut, Multiset.coe_singleton,
        Multiset.singleton_add] at hSplit
      refine ⟨tx, rfl, ⟨tx, ?_, rfl⟩, ?_⟩
      · rw [hSplit]
        exact Multiset.mem_cons_self _ _
      · intro n
        constructor
        · rintro ⟨kept, hIn, rfl⟩
          refine ⟨⟨kept, ?_, rfl⟩,
            hTypes.lists.cap_kept hIn ?_⟩
          · rw [hSplit]
            exact Multiset.mem_cons_of_mem hIn
          · rw [hOut]
            exact List.mem_singleton_self tx
        · rintro ⟨⟨kept, hIn, rfl⟩, hLt⟩
          rw [hSplit, Multiset.mem_cons] at hIn
          rcases hIn with rfl | hIn
          · grind
          · exact ⟨kept, hIn, rfl⟩

theorem trim
    (hTypes : types.Ordered fallback)
    (hStrict : AllStrict types pool.pending)
    (addr : Address) :
    Cut types fallback pool
      (Mempool.trim types pool addr) := by
  cases hLookup : pool.pending.lookup addr with
  | none =>
      simp only [Mempool.trim, hLookup]
      exact .refl hStrict
  | some list =>
      have hKept :
          AllStrict types
            (pool.pending.insert addr
              (types.lists.cap list
                (types.lists.len list - 1)).2) := by
        refine hStrict.insert ?_
        rw [types.lists.strict_cap]
        exact hStrict addr list hLookup
      simp only [Mempool.trim, hLookup]
      rcases cap_last hTypes list with
        ⟨hNone, hSame⟩ | ⟨tx, hLast, hHas, hCut⟩
      · rw [hNone]
        refine ⟨hKept, rfl, rfl, fun other =>
          .inl ⟨?_, rfl⟩⟩
        intro n
        rw [List.foldl_nil, setPending, isPending_insert]
        split
        · next hAddr =>
          rw [hAddr, isPending_of_lookup hLookup]
          unfold HasNonce
          rw [hSame]
        · rfl
      · rw [hLast]
        refine of_list hTypes hLookup hHas hKept ?_ rfl rfl
        intro other n
        simp only [List.foldl_cons, List.foldl_nil,
          dropCapped, forget, setPending]
        rw [isPending_insert, hCut]

theorem trimRounds
    (hTypes : types.Ordered fallback)
    {acc : Mempool Tx L N × Nat}
    (hStrict : AllStrict types acc.1.pending)
    (limit bound : Nat)
    (offenders : List Address)
    (last : Address)
    (fuel : Nat) :
    Cut types fallback acc.1
      (Mempool.trimRounds types limit bound offenders last
        fuel acc).1 := by
  induction fuel generalizing acc with
  | zero => exact .refl hStrict
  | succ fuel ih =>
      unfold Mempool.trimRounds
      split
      · have hRound : Cut types fallback acc.1
            (offenders.foldl (Mempool.trim types) acc.1) :=
          .foldl (fun hStrict => trim hTypes hStrict _)
            hStrict offenders
        exact hRound.trans (@ih (_, acc.2 - offenders.length)
          hRound.strict)
      · exact .refl hStrict

theorem equalize
    (hTypes : types.Ordered fallback)
    {acc : Mempool Tx L N × Nat}
    (hStrict : AllStrict types acc.1.pending)
    (limit : Nat)
    (offenders spammers : List Address) :
    Cut types fallback acc.1
      (Mempool.equalize types limit offenders spammers
        acc).2.1 := by
  induction spammers generalizing offenders acc with
  | nil => exact .refl hStrict
  | cons offender spammers ih =>
      unfold Mempool.equalize
      split
      · simp only
        cases offenders.getLast? with
        | none => exact ih hStrict _
        | some last =>
            have hFirst := trimRounds hTypes hStrict limit
              (lenAt types acc.1.pending offender) offenders
              last acc.2
            exact hFirst.trans (ih hFirst.strict _)
      · exact .refl hStrict

theorem truncatePending
    (hTypes : types.Ordered fallback)
    (hStrict : AllStrict types pool.pending)
    (spammers : List Address) :
    Cut types fallback pool
      (Mempool.truncatePending types pool spammers) := by
  unfold Mempool.truncatePending
  simp only
  split
  · exact .refl hStrict
  · have hStart :
        AllStrict types
          (pool, lenAll types pool.pending).1.pending :=
      hStrict
    have hEqual := equalize hTypes hStart
      pool.config.globalSlots.toNat [] spammers
    split
    · exact hEqual
    · exact hEqual.trans
        (trimRounds hTypes hEqual.strict _ _ _ _ _)

theorem dropQueued
    (hTypes : types.Ordered fallback)
    (hStrict : AllStrict types pool.pending)
    (now : Nat)
    (addresses : List Address)
    (drop : Nat) :
    Cut types fallback pool
      (Mempool.dropQueued types now addresses drop pool) := by
  induction addresses generalizing pool drop with
  | nil =>
      unfold Mempool.dropQueued
      exact .refl hStrict
  | cons addr addresses ih =>
      cases drop with
      | zero =>
          unfold Mempool.dropQueued
          exact .refl hStrict
      | succ drop =>
          have hFirst :
              ∀ txs, Cut types fallback pool
                (Mempool.removeTxs types now pool txs) :=
            removeTxs hTypes hStrict now
          unfold Mempool.dropQueued
          split
          · exact ih hStrict _
          · simp only
            split
            · exact (hFirst _).trans
                (ih (hFirst _).strict _)
            · exact (hFirst _).trans
                (ih (hFirst _).strict _)

theorem truncateQueue
    (hTypes : types.Ordered fallback)
    (hStrict : AllStrict types pool.pending)
    (now : Nat)
    (addresses : List Address) :
    Cut types fallback pool
      (Mempool.truncateQueue types now pool addresses) := by
  unfold Mempool.truncateQueue
  simp only
  split
  · exact .refl hStrict
  · exact dropQueued hTypes hStrict now addresses _

theorem evict
    (hTypes : types.Ordered fallback)
    (hStrict : AllStrict types pool.pending)
    (now : Nat)
    (order : List Address) :
    Cut types fallback pool
      (Mempool.evict types now pool order) := by
  refine .foldl ?_ hStrict order
  intro pool addr hStrict
  split
  · exact .refl hStrict
  · split
    · exact removeTxs hTypes hStrict now _
    · exact .refl hStrict

theorem setGasPrice
    (hTypes : types.Ordered fallback)
    (hStrict : AllStrict types pool.pending)
    (now : Nat)
    (price : Int)
    (remotes : List Bytes) :
    Cut types fallback pool
      (Mempool.setGasPrice types now pool price
        remotes) := by
  have hRaised :
      Cut types fallback pool
        { pool with gasPrice := price } :=
    .of_still hStrict ⟨rfl, rfl, rfl⟩
  unfold Mempool.setGasPrice
  simp only
  split
  · exact hRaised.trans
      (removeTxs hTypes hRaised.strict now _)
  · exact hRaised

end Cut

end Mempool

end Builder
