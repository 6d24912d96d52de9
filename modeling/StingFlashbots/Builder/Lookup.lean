import Mathlib.Data.Finset.Lattice.Basic
import StingFlashbots.Base.Tally
import StingFlashbots.Builder.Reset
import StingFlashbots.Builder.TxPool

/-
  The sets of the pool.

  An account set has its addresses and, after it was asked
  for a list of them, that list. The lookup has every
  transaction of the pool under its hash, local ones and
  remote ones apart, and counts the slots they take.

  Key definitions include:
    * `Builder.AccountSet`
    * `Builder.TxView`
    * `Builder.Lookup`
    * `Builder.Lookup.Valid`

  Main results:
    * `Builder.Lookup.Valid.add`
    * `Builder.Lookup.Valid.remove`
    * `Builder.Lookup.Valid.remoteToLocals`
-/

namespace Builder

open Sting

------------------------------------------------------------
-- Sets of Accounts
------------------------------------------------------------

/-
  `accountSet`. The cached list, where there is one, has the
  accounts of the set.
-/
structure AccountSet where
  accounts : Finset Address
  cache : Option (List Address)
  mem_cache :
    ∀ {addrs}, cache = some addrs →
      ∀ addr, addr ∈ addrs ↔ addr ∈ accounts

namespace AccountSet

/- `newAccountSet` without addresses -/
def empty : AccountSet where
  accounts := ∅
  cache := none
  mem_cache := by simp

/- `contains` -/
def contains (as : AccountSet) (addr : Address) : Bool :=
  addr ∈ as.accounts

/- `add` -/
def add (as : AccountSet) (addr : Address) : AccountSet where
  accounts := insert addr as.accounts
  cache := none
  mem_cache := by simp

/- `newAccountSet` -/
def ofList (addrs : List Address) : AccountSet :=
  addrs.foldl AccountSet.add AccountSet.empty

/- `merge` -/
def merge (as other : AccountSet) : AccountSet where
  accounts := as.accounts ∪ other.accounts
  cache := none
  mem_cache := by simp

/- The orders in which a loop may go through the set. -/
def Order (as : AccountSet) : Type :=
  { addrs : List Address //
    ∀ addr, addr ∈ addrs ↔ addr ∈ as.accounts }

/- `flatten` -/
def flatten
    (as : AccountSet)
    (order : as.Order) : List Address × AccountSet :=
  match hCache : as.cache with
  | some addrs => (addrs, as)
  | none =>
      (order.1,
        { accounts := as.accounts
          cache := some order.1
          mem_cache := by
            intro addrs hSome
            rw [← Option.some.inj hSome]
            exact order.2 })

end AccountSet

------------------------------------------------------------
-- Transactions
------------------------------------------------------------

/- Why the pool turns a transaction away. -/
inductive PoolError where
| alreadyKnown
| invalidSender
| underpriced
| txPoolOverflow
| replaceUnderpriced
| gasLimit
| oversizedData
| futureReplacePending
| overdraft
| txTypeNotSupported
| maxInitCodeSizeExceeded
| negativeValue
| feeCapVeryHigh
| tipVeryHigh
| tipAboveFeeCap
| nonceTooLow
| insufficientFunds
| intrinsicGas
| gasUintOverflow
deriving DecidableEq

/-
  `types.Transaction`, as far as the pool reads it. The
  sender is what `types.Sender` recovers.
-/
structure TxView (Tx : Type) extends TxTypes Tx where
  sender : Tx → Option Address
  txType : Tx → UInt8
  nonce : Tx → UInt64
  size : Tx → UInt64
  recipient : Tx → Option Address
  dataLen : Tx → Nat
  value : Tx → Int
  gas : Tx → UInt64
  gasFeeCap : Tx → Int
  gasTipCap : Tx → Int
  cost : Tx → Int
  intrinsicGas : Tx → Bool → Bool → Except PoolError UInt64

variable {Tx : Type}

/- `containsTx` -/
def AccountSet.containsTx
    (view : TxView Tx)
    (as : AccountSet)
    (tx : Tx) : Bool :=
  match view.sender tx with
  | none => false
  | some addr => as.contains addr

/- `addTx` -/
def AccountSet.addTx
    (view : TxView Tx)
    (as : AccountSet)
    (tx : Tx) : AccountSet :=
  match view.sender tx with
  | none => as
  | some addr => as.add addr

/- `txSlotSize` -/
def txSlotSize : UInt64 := 32 * 1024

/- `numSlots` -/
def TxView.numSlots (view : TxView Tx) (tx : Tx) : Int :=
  ((view.size tx + txSlotSize - 1) / txSlotSize).toNat

------------------------------------------------------------
-- The Lookup
------------------------------------------------------------

/- Transactions by hash. -/
abbrev TxMap (Tx : Type) : Type :=
  AList (fun _ : Bytes => Tx)

/- `lookup` -/
structure Lookup (Tx : Type) where
  slots : Int
  locals : TxMap Tx
  remotes : TxMap Tx

namespace Lookup

variable (view : TxView Tx)

/- `newLookup` -/
def new : Lookup Tx := ⟨0, ∅, ∅⟩

/- `GetLocal` -/
def getLocal (t : Lookup Tx) (hash : Bytes) : Option Tx :=
  t.locals.lookup hash

/- `GetRemote` -/
def getRemote (t : Lookup Tx) (hash : Bytes) : Option Tx :=
  t.remotes.lookup hash

/- `Get` -/
def get (t : Lookup Tx) (hash : Bytes) : Option Tx :=
  match t.locals.lookup hash with
  | some tx => some tx
  | none => t.remotes.lookup hash

/- `Count` -/
def count (t : Lookup Tx) : Nat :=
  t.locals.entries.length + t.remotes.entries.length

/- `Add` -/
def add
    (t : Lookup Tx)
    (tx : Tx)
    (isLocal : Bool) : Lookup Tx :=
  if isLocal then
    { t with
      slots := t.slots + view.numSlots tx
      locals := t.locals.insert (view.hash tx) tx }
  else
    { t with
      slots := t.slots + view.numSlots tx
      remotes := t.remotes.insert (view.hash tx) tx }

/- `Remove` -/
def remove (t : Lookup Tx) (hash : Bytes) : Lookup Tx :=
  match t.get hash with
  | none => t
  | some tx =>
      { slots := t.slots - view.numSlots tx
        locals := t.locals.erase hash
        remotes := t.remotes.erase hash }

/- The body of the loop of `RemoteToLocals`. -/
def migrate
    (locals : AccountSet)
    (acc : Lookup Tx × Nat)
    (hash : Bytes) : Lookup Tx × Nat :=
  match acc.1.remotes.lookup hash with
  | none => acc
  | some tx =>
      if locals.containsTx view tx then
        ({ acc.1 with
            locals := acc.1.locals.insert hash tx
            remotes := acc.1.remotes.erase hash },
          acc.2 + 1)
      else
        acc

/- `RemoteToLocals`, in the order of the map -/
def remoteToLocals
    (t : Lookup Tx)
    (order : List Bytes)
    (locals : AccountSet) : Lookup Tx × Nat :=
  order.foldl (migrate view locals) (t, 0)

/- `RemotesBelowTip`, in the order of the map -/
def remotesBelowTip
    (t : Lookup Tx)
    (order : List Bytes)
    (threshold : Int) : List Tx :=
  (order.filterMap t.getRemote).filter
    (fun tx => view.gasTipCap tx < threshold)

------------------------------------------------------------
-- What the Lookup Has
------------------------------------------------------------

/- All its transactions. -/
def txs (t : Lookup Tx) : Multiset Tx :=
  Tally.total ({·}) t.locals + Tally.total ({·}) t.remotes

/-
  Every transaction stands under its hash and on one side
  only, and the slots are those of all transactions.
-/
structure Valid (t : Lookup Tx) : Prop where
  hash_locals :
    ∀ {hash tx}, t.locals.lookup hash = some tx →
      view.hash tx = hash
  hash_remotes :
    ∀ {hash tx}, t.remotes.lookup hash = some tx →
      view.hash tx = hash
  apart :
    ∀ {hash tx}, t.locals.lookup hash = some tx →
      t.remotes.lookup hash = none
  slots : t.slots = (t.txs.map view.numSlots).sum

theorem valid_new : (new : Lookup Tx).Valid view where
  hash_locals := by simp [new]
  hash_remotes := by simp [new]
  apart := by simp [new]
  slots := by simp [new, txs]

variable {view}

theorem mem_txs
    {t : Lookup Tx}
    {tx : Tx} :
    tx ∈ t.txs ↔
      (∃ hash, t.locals.lookup hash = some tx) ∨
        ∃ hash, t.remotes.lookup hash = some tx := by
  simp [txs, Tally.mem_total]

theorem get_eq_none
    {t : Lookup Tx}
    {hash : Bytes} :
    t.get hash = none ↔
      t.locals.lookup hash = none ∧
        t.remotes.lookup hash = none := by
  unfold get
  cases t.locals.lookup hash with
  | none => simp
  | some tx => simp

namespace Valid

variable {t : Lookup Tx}

/- A transaction is found exactly under its hash. -/
theorem get_eq_some
    (hValid : t.Valid view)
    {hash : Bytes}
    {tx : Tx} :
    t.get hash = some tx ↔
      tx ∈ t.txs ∧ view.hash tx = hash := by
  rw [mem_txs]
  unfold get
  cases hLocal : t.locals.lookup hash with
  | some found =>
      simp only [Option.some.injEq]
      constructor
      · rintro rfl
        exact ⟨.inl ⟨hash, hLocal⟩,
          hValid.hash_locals hLocal⟩
      · rintro ⟨⟨hash', hFound⟩ | ⟨hash', hFound⟩, rfl⟩
        · rw [hValid.hash_locals hFound, hFound] at hLocal
          exact (Option.some.inj hLocal).symm
        · have hNone := hValid.apart hLocal
          rw [hValid.hash_remotes hFound, hFound] at hNone
          cases hNone
  | none =>
      simp only
      constructor
      · intro hRemote
        exact ⟨.inr ⟨hash, hRemote⟩,
          hValid.hash_remotes hRemote⟩
      · rintro ⟨⟨hash', hFound⟩ | ⟨hash', hFound⟩, rfl⟩
        · rw [hValid.hash_locals hFound, hFound] at hLocal
          cases hLocal
        · rw [hValid.hash_remotes hFound]
          exact hFound

/- A new transaction is added on either side. -/
theorem txs_add
    (tx : Tx)
    (isLocal : Bool)
    (hNew : t.get (view.hash tx) = none) :
    (t.add view tx isLocal).txs = tx ::ₘ t.txs := by
  rw [get_eq_none] at hNew
  cases isLocal with
  | true =>
      simp [add, txs, Tally.total_insert,
        Tally.total_erase_of_none hNew.1]
  | false =>
      simp [add, txs, Tally.total_insert,
        Tally.total_erase_of_none hNew.2]

/- What stands in a map after an insertion. -/
private theorem lookup_insert_cases
    {m : TxMap Tx}
    {hash hash' : Bytes}
    {tx tx' : Tx}
    (hLookup :
      (m.insert hash tx).lookup hash' = some tx') :
    (hash' = hash ∧ tx' = tx) ∨
      (hash' ≠ hash ∧ m.lookup hash' = some tx') := by
  by_cases hSame : hash' = hash
  · rw [hSame, AList.lookup_insert] at hLookup
    exact .inl ⟨hSame, (Option.some.inj hLookup).symm⟩
  · rw [AList.lookup_insert_ne hSame] at hLookup
    exact .inr ⟨hSame, hLookup⟩

/- What stands in a map after an erasure. -/
private theorem lookup_erase_some
    {m : TxMap Tx}
    {hash hash' : Bytes}
    {tx : Tx}
    (hLookup : (m.erase hash).lookup hash' = some tx) :
    hash' ≠ hash ∧ m.lookup hash' = some tx := by
  by_cases hSame : hash' = hash
  · rw [hSame, AList.lookup_erase] at hLookup
    cases hLookup
  · rw [AList.lookup_erase_ne hSame] at hLookup
    exact ⟨hSame, hLookup⟩

theorem add
    (hValid : t.Valid view)
    (tx : Tx)
    (isLocal : Bool)
    (hNew : t.get (view.hash tx) = none) :
    (t.add view tx isLocal).Valid view := by
  have hTxs := txs_add tx isLocal hNew
  have hSlots :
      (t.add view tx isLocal).slots =
        t.slots + view.numSlots tx := by
    cases isLocal <;> rfl
  rw [get_eq_none] at hNew
  refine ⟨?_, ?_, ?_, ?_⟩
  · intro hash tx' hLookup
    cases isLocal with
    | false => exact hValid.hash_locals hLookup
    | true =>
        rcases lookup_insert_cases hLookup with
          ⟨rfl, rfl⟩ | ⟨_, hOld⟩
        · rfl
        · exact hValid.hash_locals hOld
  · intro hash tx' hLookup
    cases isLocal with
    | true => exact hValid.hash_remotes hLookup
    | false =>
        rcases lookup_insert_cases hLookup with
          ⟨rfl, rfl⟩ | ⟨_, hOld⟩
        · rfl
        · exact hValid.hash_remotes hOld
  · intro hash tx' hLookup
    cases isLocal with
    | true =>
        rcases lookup_insert_cases hLookup with
          ⟨rfl, rfl⟩ | ⟨_, hOld⟩
        · exact hNew.2
        · exact hValid.apart hOld
    | false =>
        have hNe : hash ≠ view.hash tx := by
          rintro rfl
          rw [show t.locals.lookup (view.hash tx) = some tx'
            from hLookup] at hNew
          cases hNew.1
        exact (AList.lookup_insert_ne hNe).trans
          (hValid.apart hLookup)
  · rw [hSlots, hTxs, Multiset.map_cons, Multiset.sum_cons,
      hValid.slots, add_comm]

/- A known transaction is taken out. -/
theorem txs_remove
    (hValid : t.Valid view)
    {hash : Bytes}
    {tx : Tx}
    (hGet : t.get hash = some tx) :
    t.txs = tx ::ₘ (t.remove view hash).txs := by
  simp only [remove, hGet, txs]
  unfold get at hGet
  cases hLocal : t.locals.lookup hash with
  | some found =>
      rw [hLocal] at hGet
      rw [Tally.total_of_lookup hLocal,
        Tally.total_erase_of_none (hValid.apart hLocal),
        Option.some.inj hGet, Multiset.singleton_add,
        Multiset.cons_add]
  | none =>
      rw [hLocal] at hGet
      rw [Tally.total_of_lookup hGet,
        Tally.total_erase_of_none hLocal,
        Multiset.singleton_add, Multiset.add_cons]

theorem remove
    (hValid : t.Valid view)
    (hash : Bytes) :
    (t.remove view hash).Valid view := by
  cases hGet : t.get hash with
  | none => simpa [Lookup.remove, hGet] using hValid
  | some tx =>
      have hTxs := txs_remove hValid hGet
      have hRemove :
          t.remove view hash =
            { slots := t.slots - view.numSlots tx
              locals := t.locals.erase hash
              remotes := t.remotes.erase hash } := by
        simp [Lookup.remove, hGet]
      refine ⟨?_, ?_, ?_, ?_⟩
      · intro hash' tx' hLookup
        rw [hRemove] at hLookup
        exact hValid.hash_locals (lookup_erase_some hLookup).2
      · intro hash' tx' hLookup
        rw [hRemove] at hLookup
        exact hValid.hash_remotes
          (lookup_erase_some hLookup).2
      · intro hash' tx' hLookup
        rw [hRemove] at hLookup ⊢
        rcases lookup_erase_some hLookup with ⟨hNe, hOld⟩
        exact (AList.lookup_erase_ne hNe).trans
          (hValid.apart hOld)
      · have hSlots := hValid.slots
        rw [hTxs, Multiset.map_cons,
          Multiset.sum_cons] at hSlots
        have hLess : (t.remove view hash).slots =
            t.slots - view.numSlots tx := by
          rw [hRemove]
        omega

/- What is not there is not there after a removal. -/
theorem get_remove_of_none
    {hash : Bytes}
    (hNone : t.get hash = none)
    (hash' : Bytes) :
    (t.remove view hash').get hash = none := by
  unfold Lookup.remove
  split
  · exact hNone
  · rw [get_eq_none] at hNone ⊢
    by_cases hSame : hash = hash'
    · rw [hSame]
      exact ⟨AList.lookup_erase _ _, AList.lookup_erase _ _⟩
    · exact ⟨(AList.lookup_erase_ne hSame).trans hNone.1,
        (AList.lookup_erase_ne hSame).trans hNone.2⟩

/- One round of `RemoteToLocals`. -/
theorem migrate
    {acc : Lookup Tx × Nat}
    (hValid : acc.1.Valid view)
    (locals : AccountSet)
    (hash : Bytes) :
    (Lookup.migrate view locals acc hash).1.Valid view ∧
      (Lookup.migrate view locals acc hash).1.txs =
        acc.1.txs := by
  unfold Lookup.migrate
  cases hLookup : acc.1.remotes.lookup hash with
  | none => exact ⟨hValid, rfl⟩
  | some tx =>
      simp only
      split
      · have hNone : acc.1.locals.lookup hash = none := by
          cases hLocal : acc.1.locals.lookup hash with
          | none => rfl
          | some tx =>
              rw [hValid.apart hLocal] at hLookup
              cases hLookup
        have hTxs :
            Lookup.txs
                ⟨acc.1.slots, acc.1.locals.insert hash tx,
                  acc.1.remotes.erase hash⟩ =
              acc.1.txs := by
          simp only [txs]
          rw [Tally.total_insert,
            Tally.total_erase_of_none hNone,
            Tally.total_of_lookup hLookup, add_assoc,
            add_left_comm]
        refine ⟨⟨?_, ?_, ?_, ?_⟩, hTxs⟩
        · intro hash' tx' hFound
          rcases lookup_insert_cases hFound with
            ⟨rfl, rfl⟩ | ⟨_, hOld⟩
          · exact hValid.hash_remotes hLookup
          · exact hValid.hash_locals hOld
        · intro hash' tx' hFound
          exact hValid.hash_remotes
            (lookup_erase_some hFound).2
        · intro hash' tx' hFound
          rcases lookup_insert_cases hFound with
            ⟨rfl, rfl⟩ | ⟨hNe, hOld⟩
          · exact AList.lookup_erase _ _
          · exact (AList.lookup_erase_ne hNe).trans
              (hValid.apart hOld)
        · exact hValid.slots.trans (by rw [← hTxs])
      · exact ⟨hValid, rfl⟩

/- The migration moves transactions and loses none. -/
theorem remoteToLocals
    (hValid : t.Valid view)
    (order : List Bytes)
    (locals : AccountSet) :
    (t.remoteToLocals view order locals).1.Valid view ∧
      (t.remoteToLocals view order locals).1.txs =
        t.txs := by
  have hLoop :
      ∀ acc : Lookup Tx × Nat, acc.1.Valid view →
        (order.foldl (Lookup.migrate view locals)
            acc).1.Valid view ∧
          (order.foldl (Lookup.migrate view locals)
            acc).1.txs = acc.1.txs := by
    induction order with
    | nil => exact fun acc hAcc => ⟨hAcc, rfl⟩
    | cons hash order ih =>
        intro acc hAcc
        have hOne := hAcc.migrate locals hash
        have hRest := ih _ hOne.1
        exact ⟨hRest.1, hRest.2.trans hOne.2⟩
  exact hLoop (t, 0) hValid

end Valid

end Lookup

end Builder
