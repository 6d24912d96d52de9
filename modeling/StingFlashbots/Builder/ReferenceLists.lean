import Mathlib.Data.List.Sort
import StingFlashbots.Builder.Mempool

/-
  Lists of transactions, written down plainly.

  A list is kept in the order of the nonces. All operations
  cut it in two, and everything the pool relies on follows
  from that.

  Key definitions include:
    * `Builder.PlainList`
    * `Builder.TxLists.plain`
    * `Builder.Noncers.plain`

  Main results:
    * `Builder.TxLists.plain_ordered`
    * `Builder.Noncers.plain_lawful`
-/

namespace Builder

variable {Tx : Type}

/- Transactions in the order of their nonces. -/
structure PlainList (view : TxView Tx) where
  strict : Bool
  txs : List Tx
  sorted :
    txs.Pairwise (fun a b => view.nonce a < view.nonce b)

namespace PlainList

variable {view : TxView Tx}

/- No nonce is used twice. -/
theorem nodup (l : PlainList view) :
    (l.txs.map view.nonce).Nodup := by
  refine List.pairwise_map.mpr (l.sorted.imp ?_)
  intro a b hLt
  exact UInt64.ne_of_lt hLt

/- Some of the transactions are left. -/
def keep
    (l : PlainList view)
    (txs : List Tx)
    (hSub : txs.Sublist l.txs) : PlainList view where
  strict := l.strict
  txs := txs
  sorted := l.sorted.sublist hSub

/- The transaction with a nonce. -/
def get (l : PlainList view) (nonce : UInt64) : Option Tx :=
  l.txs.find? (fun tx => view.nonce tx == nonce)

theorem get_eq_some
    {l : PlainList view}
    {nonce : UInt64}
    {tx : Tx} :
    l.get nonce = some tx ↔
      tx ∈ l.txs ∧ view.nonce tx = nonce := by
  constructor
  · intro hGet
    have hTest := List.find?_some hGet
    exact ⟨List.mem_of_find?_eq_some hGet, by simpa using hTest⟩
  · rintro ⟨hMem, rfl⟩
    cases hGet : l.get (view.nonce tx) with
    | none =>
        have hNone := List.find?_eq_none.mp hGet tx hMem
        simp at hNone
    | some found =>
        have hTest := List.find?_some hGet
        have hSame : view.nonce found = view.nonce tx := by
          simpa using hTest
        have hInj := List.inj_on_of_nodup_map l.nodup
        rw [hInj (List.mem_of_find?_eq_some hGet) hMem hSame]

/- A list is cut in two by a test. -/
def partition
    (l : PlainList view)
    (out : Tx → Bool) : List Tx × PlainList view :=
  (l.txs.filter out,
    l.keep (l.txs.filter (fun tx => !out tx))
      List.filter_sublist)

theorem partition_split
    (l : PlainList view)
    (out : Tx → Bool) :
    (l.txs : Multiset Tx) =
      (l.partition out).1 + (l.partition out).2.txs := by
  have hPerm := List.filter_append_perm out l.txs
  exact (Multiset.coe_eq_coe.mpr hPerm).symm

/- A list is cut in two at a place. -/
def cut
    (l : PlainList view)
    (n : Nat) : List Tx × PlainList view :=
  (l.txs.take n, l.keep (l.txs.drop n) (List.drop_sublist _ _))

theorem cut_split
    (l : PlainList view)
    (n : Nat) :
    (l.txs : Multiset Tx) =
      (l.cut n).1 + (l.cut n).2.txs := by
  simp [cut, keep]

/- `Cap` -/
def cap
    (l : PlainList view)
    (n : Nat) : List Tx × PlainList view :=
  (l.txs.drop n, l.keep (l.txs.take n) (List.take_sublist _ _))

theorem cap_split
    (l : PlainList view)
    (n : Nat) :
    (l.txs : Multiset Tx) =
      (l.cap n).1 + (l.cap n).2.txs := by
  rw [add_comm]
  simp [cap, keep]

/- Those behind the first of the removed ones. -/
def invalidated
    (l : PlainList view)
    (removed : List Tx) : List Tx × PlainList view :=
  if l.strict then
    l.partition (fun tx =>
      removed.any (fun old => view.nonce old < view.nonce tx))
  else
    ([], l)

theorem invalidated_split
    (l : PlainList view)
    (removed : List Tx) :
    (l.txs : Multiset Tx) =
      (l.invalidated removed).1 +
        (l.invalidated removed).2.txs := by
  unfold invalidated
  split
  · exact l.partition_split _
  · simp

/- `Forward` -/
def forward
    (l : PlainList view)
    (nonce : UInt64) : List Tx × PlainList view :=
  l.partition (fun tx => view.nonce tx < nonce)

/- `Filter` -/
def filter
    (l : PlainList view)
    (costLimit : Int)
    (gasLimit : UInt64) :
    (List Tx × List Tx) × PlainList view :=
  let removed := l.partition (fun tx =>
    costLimit < view.cost tx || gasLimit < view.gas tx)
  let invalids := removed.2.invalidated removed.1
  ((removed.1, invalids.1), invalids.2)

/- How many follow each other from the first on. -/
def runLength (view : TxView Tx) : List Tx → Nat
| [] => 0
| [_] => 1
| tx :: next :: txs =>
    if view.nonce next = view.nonce tx + 1 then
      runLength view (next :: txs) + 1
    else
      1

/- `Ready` -/
def ready
    (l : PlainList view)
    (start : UInt64) : List Tx × PlainList view :=
  match l.txs.head? with
  | none => l.cut 0
  | some tx =>
      if start < view.nonce tx then l.cut 0
      else l.cut (runLength view l.txs)

/- The new price is high enough over the old one. -/
def worth
    (view : TxView Tx)
    (old tx : Tx)
    (bump : UInt64) : Bool :=
  view.gasFeeCap old < view.gasFeeCap tx &&
    view.gasTipCap old < view.gasTipCap tx &&
    (100 + bump.toNat) * view.gasFeeCap old / 100 ≤
      view.gasFeeCap tx &&
    (100 + bump.toNat) * view.gasTipCap old / 100 ≤
      view.gasTipCap tx

/- A list stays in order. -/
theorem sorted_orderedInsert
    {txs : List Tx}
    (hSorted :
      txs.Pairwise (fun a b => view.nonce a < view.nonce b))
    {tx : Tx}
    (hFree :
      ∀ other ∈ txs, view.nonce other ≠ view.nonce tx) :
    (txs.orderedInsert
      (fun a b => view.nonce a ≤ view.nonce b)
      tx).Pairwise
        (fun a b => view.nonce a < view.nonce b) := by
  induction txs with
  | nil => exact List.pairwise_singleton _ tx
  | cons first txs ih =>
      rcases List.pairwise_cons.mp hSorted with
        ⟨hFirst, hRest⟩
      have hNe := hFree first List.mem_cons_self
      rw [List.orderedInsert_cons]
      split
      · next hLe =>
        refine List.pairwise_cons.mpr ⟨?_, hSorted⟩
        intro other hOther
        rcases List.mem_cons.mp hOther with rfl | hTail
        · grind
        · have := hFirst other hTail
          grind
      · next hNot =>
        refine List.pairwise_cons.mpr ⟨?_, ih hRest ?_⟩
        · intro other hOther
          rcases (List.mem_orderedInsert _).mp hOther with
            rfl | hTail
          · grind
          · exact hFirst other hTail
        · exact fun other hOther =>
            hFree other (List.mem_cons_of_mem _ hOther)

/- A transaction whose nonce is free, in its place. -/
def insertNew
    (l : PlainList view)
    (tx : Tx)
    (hFree : l.get (view.nonce tx) = none) :
    PlainList view where
  strict := l.strict
  txs := l.txs.orderedInsert
    (fun a b => view.nonce a ≤ view.nonce b) tx
  sorted := by
    refine sorted_orderedInsert l.sorted ?_
    intro other hOther hNonce
    rw [get_eq_some.mpr ⟨hOther, hNonce⟩] at hFree
    cases hFree

theorem insertNew_txs
    (l : PlainList view)
    (tx : Tx)
    (hFree : l.get (view.nonce tx) = none) :
    ((l.insertNew tx hFree).txs : Multiset Tx) =
      tx ::ₘ l.txs :=
  Multiset.coe_eq_coe.mpr (List.perm_orderedInsert _ tx l.txs)

/- Without the transaction with a nonce. -/
def without
    (l : PlainList view)
    (nonce : UInt64) : List Tx × PlainList view :=
  l.partition (fun tx => view.nonce tx == nonce)

/- `Remove` -/
def remove
    (l : PlainList view)
    (tx : Tx) : (Bool × List Tx) × PlainList view :=
  match l.get (view.nonce tx) with
  | none => ((false, []), l)
  | some _ =>
      let removed := l.without (view.nonce tx)
      let invalids := removed.2.invalidated removed.1
      ((true, invalids.1), invalids.2)

/- There is one transaction with a nonce. -/
theorem without_fst
    {l : PlainList view}
    {nonce : UInt64}
    {old : Tx}
    (hGet : l.get nonce = some old) :
    ((l.without nonce).1 : Multiset Tx) = {old} := by
  rcases get_eq_some.mp hGet with ⟨hMem, hNonce⟩
  have hNodup : (l.without nonce).1.Nodup :=
    (List.Nodup.of_map view.nonce l.nodup).filter _
  refine Multiset.coe_eq_coe.mpr ?_
  rw [List.perm_ext_iff_of_nodup hNodup
    (List.nodup_singleton old)]
  intro tx
  simp only [without, partition, List.mem_filter,
    beq_iff_eq, List.mem_singleton]
  constructor
  · rintro ⟨hTx, hSame⟩
    exact List.inj_on_of_nodup_map l.nodup hTx hMem
      (hSame.trans hNonce.symm)
  · rintro rfl
    exact ⟨hMem, hNonce⟩

theorem without_split
    {l : PlainList view}
    {nonce : UInt64}
    {old : Tx}
    (hGet : l.get nonce = some old) :
    (l.txs : Multiset Tx) =
      old ::ₘ (l.without nonce).2.txs := by
  rw [← Multiset.singleton_add, ← without_fst hGet]
  exact l.partition_split _

theorem without_get
    (l : PlainList view)
    (nonce : UInt64) :
    (l.without nonce).2.get nonce = none := by
  cases hGet : (l.without nonce).2.get nonce with
  | none => rfl
  | some tx =>
      rcases get_eq_some.mp hGet with ⟨hMem, hNonce⟩
      simp [without, partition, keep, hNonce] at hMem

/- `Add` -/
def add
    (l : PlainList view)
    (tx : Tx)
    (bump : UInt64) :
    (Bool × Option Tx) × PlainList view :=
  match hGet : l.get (view.nonce tx) with
  | none => ((true, none), l.insertNew tx hGet)
  | some old =>
      if worth view old tx bump then
        ((true, some old),
          (l.without (view.nonce tx)).2.insertNew tx
            (l.without_get _))
      else
        ((false, none), l)

theorem add_of_none
    {l : PlainList view}
    {tx : Tx}
    (hGet : l.get (view.nonce tx) = none)
    (bump : UInt64) :
    l.add tx bump = ((true, none), l.insertNew tx hGet) := by
  unfold add
  split
  · rfl
  · next old hOld =>
      rw [hGet] at hOld
      cases hOld

theorem add_of_some
    {l : PlainList view}
    {tx old : Tx}
    (hGet : l.get (view.nonce tx) = some old)
    (bump : UInt64) :
    l.add tx bump =
      if worth view old tx bump then
        ((true, some old),
          (l.without (view.nonce tx)).2.insertNew tx
            (l.without_get _))
      else
        ((false, none), l) := by
  unfold add
  split
  · next hNone =>
      rw [hGet] at hNone
      cases hNone
  · next found hFound =>
      rw [hGet] at hFound
      rw [Option.some.inj hFound]

------------------------------------------------------------
-- Laws of the Operations
------------------------------------------------------------

theorem add_new
    {l : PlainList view}
    {tx : Tx}
    {bump : UInt64}
    (hGet : l.get (view.nonce tx) = none) :
    (l.add tx bump).1.1 = true := by
  rw [add_of_none hGet]

/- What is replaced is what had the nonce. -/
theorem add_old
    {l : PlainList view}
    {tx : Tx}
    {bump : UInt64}
    (hInserted : (l.add tx bump).1.1 = true) :
    (l.add tx bump).1.2 = l.get (view.nonce tx) := by
  cases hGet : l.get (view.nonce tx) with
  | none => rw [add_of_none hGet]
  | some old =>
      rw [add_of_some hGet] at hInserted ⊢
      split at hInserted
      · next hWorth => rw [if_pos hWorth]
      · cases hInserted

theorem add_inserted
    {l : PlainList view}
    {tx : Tx}
    {bump : UInt64}
    (hInserted : (l.add tx bump).1.1 = true) :
    ((l.add tx bump).2.txs : Multiset Tx) +
        (l.get (view.nonce tx)).toList =
      tx ::ₘ l.txs := by
  cases hGet : l.get (view.nonce tx) with
  | none =>
      rw [add_of_none hGet]
      simp [l.insertNew_txs tx hGet]
  | some old =>
      rw [add_of_some hGet] at hInserted ⊢
      split at hInserted
      · next hWorth =>
          rw [if_pos hWorth, insertNew_txs,
            without_split hGet, Option.toList_some,
            Multiset.coe_singleton, Multiset.cons_add,
            add_comm, Multiset.singleton_add]
      · cases hInserted

theorem add_rejected
    {l : PlainList view}
    {tx : Tx}
    {bump : UInt64}
    (hRejected : (l.add tx bump).1.1 = false) :
    (l.add tx bump).2 = l := by
  cases hGet : l.get (view.nonce tx) with
  | none =>
      rw [add_of_none hGet] at hRejected
      cases hRejected
  | some old =>
      rw [add_of_some hGet] at hRejected ⊢
      split at hRejected
      · cases hRejected
      · next hWorth => rw [if_neg hWorth]

theorem strict_add
    {l : PlainList view}
    {tx : Tx}
    {bump : UInt64} :
    (l.add tx bump).2.strict = l.strict := by
  cases hGet : l.get (view.nonce tx) with
  | none =>
      rw [add_of_none hGet]
      rfl
  | some old =>
      rw [add_of_some hGet]
      split <;> rfl

/- A list that may have gaps gives up nothing more. -/
theorem invalidated_lax
    {l : PlainList view}
    (hLax : l.strict = false)
    (removed : List Tx) :
    l.invalidated removed = ([], l) := by
  unfold invalidated
  rw [if_neg (by simp [hLax])]

theorem strict_invalidated
    (l : PlainList view)
    (removed : List Tx) :
    (l.invalidated removed).2.strict = l.strict := by
  unfold invalidated
  split <;> rfl

theorem filter_split
    {l : PlainList view}
    {costLimit : Int}
    {gasLimit : UInt64} :
    (l.txs : Multiset Tx) =
      (l.filter costLimit gasLimit).1.1 +
          (l.filter costLimit gasLimit).1.2 +
        (l.filter costLimit gasLimit).2.txs := by
  have hFirst := l.partition_split (fun tx =>
    costLimit < view.cost tx || gasLimit < view.gas tx)
  rw [hFirst, invalidated_split, ← add_assoc]
  rfl

theorem filter_lax
    {l : PlainList view}
    {costLimit : Int}
    {gasLimit : UInt64}
    (hLax : l.strict = false) :
    (l.filter costLimit gasLimit).1.2 = [] := by
  simp only [filter]
  rw [invalidated_lax]
  exact hLax

theorem strict_filter
    {l : PlainList view}
    {costLimit : Int}
    {gasLimit : UInt64} :
    (l.filter costLimit gasLimit).2.strict = l.strict :=
  strict_invalidated _ _

theorem cap_length
    {l : PlainList view}
    {n : Nat} :
    (l.cap n).2.txs.length = min n l.txs.length := by
  simp [cap, keep]

theorem remove_of_none
    {l : PlainList view}
    {tx : Tx}
    (hGet : l.get (view.nonce tx) = none) :
    l.remove tx = ((false, []), l) := by
  unfold remove
  rw [hGet]

theorem remove_of_some
    {l : PlainList view}
    {tx old : Tx}
    (hGet : l.get (view.nonce tx) = some old) :
    l.remove tx =
      ((true,
          ((l.without (view.nonce tx)).2.invalidated
            (l.without (view.nonce tx)).1).1),
        ((l.without (view.nonce tx)).2.invalidated
          (l.without (view.nonce tx)).1).2) := by
  unfold remove
  rw [hGet]

theorem remove_found
    {l : PlainList view}
    {tx : Tx}
    (hFound : (l.remove tx).1.1 = true) :
    ∃ found, l.get (view.nonce tx) = some found ∧
      (l.txs : Multiset Tx) =
        found ::ₘ ((l.remove tx).1.2 +
          (l.remove tx).2.txs) := by
  cases hGet : l.get (view.nonce tx) with
  | none =>
      rw [remove_of_none hGet] at hFound
      cases hFound
  | some old =>
      refine ⟨old, rfl, ?_⟩
      rw [without_split hGet, remove_of_some hGet]
      exact congrArg (old ::ₘ ·) (invalidated_split _ _)

theorem remove_missing
    {l : PlainList view}
    {tx : Tx}
    (hMissing : (l.remove tx).1.1 = false) :
    l.get (view.nonce tx) = none ∧ (l.remove tx).2 = l := by
  cases hGet : l.get (view.nonce tx) with
  | none =>
      rw [remove_of_none hGet]
      exact ⟨rfl, rfl⟩
  | some old =>
      rw [remove_of_some hGet] at hMissing
      cases hMissing

theorem remove_lax
    {l : PlainList view}
    {tx : Tx}
    (hLax : l.strict = false) :
    (l.remove tx).1.2 = [] := by
  cases hGet : l.get (view.nonce tx) with
  | none => rw [remove_of_none hGet]
  | some old =>
      rw [remove_of_some hGet, invalidated_lax]
      exact hLax

theorem strict_remove
    {l : PlainList view}
    {tx : Tx} :
    (l.remove tx).2.strict = l.strict := by
  cases hGet : l.get (view.nonce tx) with
  | none => rw [remove_of_none hGet]
  | some old =>
      rw [remove_of_some hGet]
      exact strict_invalidated _ _

/- What is ready stands in front. -/
theorem ready_eq_cut
    (l : PlainList view)
    (start : UInt64) :
    ∃ n, l.ready start = l.cut n := by
  unfold ready
  split
  · exact ⟨0, rfl⟩
  · split
    · exact ⟨0, rfl⟩
    · exact ⟨_, rfl⟩

theorem ready_split
    {l : PlainList view}
    {start : UInt64} :
    (l.txs : Multiset Tx) =
      (l.ready start).1 + (l.ready start).2.txs := by
  rcases l.ready_eq_cut start with ⟨n, hCut⟩
  rw [hCut]
  exact l.cut_split n

theorem strict_ready
    {l : PlainList view}
    {start : UInt64} :
    (l.ready start).2.strict = l.strict := by
  rcases l.ready_eq_cut start with ⟨n, hCut⟩
  rw [hCut]
  rfl

end PlainList

/- The lists of the pool, written down plainly. -/
def TxLists.plain (view : TxView Tx) :
    TxLists Tx (PlainList view) view where
  newList strict := ⟨strict, [], List.Pairwise.nil⟩
  strict := PlainList.strict
  flatten := PlainList.txs
  get := PlainList.get
  overlaps l tx := (l.get (view.nonce tx)).isSome
  totalcost l := (l.txs.map view.cost).sum
  len l := l.txs.length
  isEmpty l := l.txs.isEmpty
  add := PlainList.add
  forward := PlainList.forward
  filter := PlainList.filter
  cap := PlainList.cap
  remove := PlainList.remove
  ready := PlainList.ready
  flatten_newList := rfl
  get_eq_some := PlainList.get_eq_some
  overlaps_eq := rfl
  len_eq := rfl
  isEmpty_eq := rfl
  add_new := PlainList.add_new
  add_old := PlainList.add_old
  add_inserted := PlainList.add_inserted
  add_rejected := PlainList.add_rejected
  forward_split := PlainList.partition_split _ _
  filter_split := PlainList.filter_split
  filter_lax := PlainList.filter_lax
  cap_split := PlainList.cap_split _ _
  cap_length := PlainList.cap_length
  remove_found := PlainList.remove_found
  remove_missing := PlainList.remove_missing
  remove_lax := PlainList.remove_lax
  ready_split := PlainList.ready_split
  strict_newList := rfl
  strict_add := PlainList.strict_add
  strict_forward := rfl
  strict_filter := PlainList.strict_filter
  strict_cap := rfl
  strict_remove := PlainList.strict_remove
  strict_ready := PlainList.strict_ready

------------------------------------------------------------
-- The Order of the Nonces
------------------------------------------------------------

namespace PlainList

variable {view : TxView Tx}

/- What is removed from a list is behind what is kept. -/
theorem lt_of_take_drop
    (l : PlainList view)
    (n : Nat)
    {tx out : Tx}
    (hTx : tx ∈ l.txs.take n)
    (hOut : out ∈ l.txs.drop n) :
    view.nonce tx < view.nonce out := by
  have hSorted := l.sorted
  rw [← List.take_append_drop n l.txs,
    List.pairwise_append] at hSorted
  exact hSorted.2.2 tx hTx out hOut

/- A strict list keeps what is before all removed ones. -/
theorem mem_invalidated
    {l : PlainList view}
    {removed : List Tx}
    {tx : Tx}
    (hTx : tx ∈ (l.invalidated removed).1) :
    ∃ out ∈ removed, view.nonce out < view.nonce tx := by
  unfold invalidated at hTx
  split at hTx
  · simpa [partition] using (List.mem_filter.mp hTx).2
  · cases hTx

theorem le_of_mem_kept
    {l : PlainList view}
    (hStrict : l.strict = true)
    {removed : List Tx}
    {tx out : Tx}
    (hTx : tx ∈ (l.invalidated removed).2.txs)
    (hOut : out ∈ removed) :
    view.nonce tx ≤ view.nonce out := by
  unfold invalidated at hTx
  rw [if_pos hStrict] at hTx
  have hNone := (List.mem_filter.mp hTx).2
  simp only [Bool.not_eq_true', List.any_eq_false,
    decide_eq_true_eq] at hNone
  exact UInt64.not_lt.mp (hNone out hOut)

/- Two transactions of a list with one nonce are the same. -/
theorem eq_of_nonce
    {l : PlainList view}
    {tx tx' : Tx}
    (hTx : tx ∈ l.txs)
    (hTx' : tx' ∈ l.txs)
    (hNonce : view.nonce tx = view.nonce tx') :
    tx = tx' :=
  List.inj_on_of_nodup_map l.nodup hTx hTx' hNonce

/- Those that pass a test are not among those that do not. -/
theorem nonce_ne_of_partition
    {l : PlainList view}
    {out : Tx → Bool}
    {tx tx' : Tx}
    (hTx : tx ∈ (l.partition out).2.txs)
    (hTx' : tx' ∈ (l.partition out).1) :
    view.nonce tx ≠ view.nonce tx' := by
  intro hNonce
  rcases List.mem_filter.mp hTx with ⟨hIn, hKept⟩
  rcases List.mem_filter.mp hTx' with ⟨hIn', hOut⟩
  rw [eq_of_nonce hIn hIn' hNonce, hOut] at hKept
  cases hKept

/- What is kept was there. -/
theorem mem_of_mem_kept
    {l : PlainList view}
    {removed : List Tx}
    {tx : Tx}
    (hTx : tx ∈ (l.invalidated removed).2.txs) :
    tx ∈ l.txs := by
  unfold invalidated at hTx
  split at hTx
  · exact List.mem_of_mem_filter hTx
  · exact hTx

/- The first ones of a list follow each other. -/
theorem isChain_runLength
    (txs : List Tx) :
    (txs.take (runLength view txs)).IsChain
      (fun a b => view.nonce b = view.nonce a + 1) := by
  fun_induction runLength view txs with
  | case1 => simp
  | case2 tx => simp
  | case3 tx next txs hNext ih =>
      rw [List.take_succ_cons]
      cases hRun : runLength view (next :: txs) with
      | zero => simp
      | succ n =>
          rw [hRun, List.take_succ_cons] at ih
          rw [List.take_succ_cons]
          exact List.isChain_cons_cons.mpr ⟨hNext, ih⟩
  | case4 tx next txs hNext => simp

theorem forward_out
    {l : PlainList view}
    {nonce : UInt64}
    {tx : Tx}
    (hTx : tx ∈ (l.forward nonce).1) :
    view.nonce tx < nonce := by
  simpa using (List.mem_filter.mp hTx).2

theorem forward_kept
    {l : PlainList view}
    {nonce : UInt64}
    {tx : Tx}
    (hTx : tx ∈ (l.forward nonce).2.txs) :
    nonce ≤ view.nonce tx := by
  have hKept := (List.mem_filter.mp hTx).2
  simp only [Bool.not_eq_true', decide_eq_false_iff_not]
    at hKept
  exact UInt64.not_lt.mp hKept

/-
  What a strict list still has after a cut is before all
  that was taken out.
-/
theorem lt_of_kept
    {l : PlainList view}
    (hStrict : l.strict = true)
    {test : Tx → Bool}
    {tx out : Tx}
    (hTx :
      tx ∈ ((l.partition test).2.invalidated
        (l.partition test).1).2.txs)
    (hOut : out ∈ (l.partition test).1) :
    view.nonce tx < view.nonce out := by
  have hKept : (l.partition test).2.strict = true := hStrict
  have hLe := le_of_mem_kept hKept hTx hOut
  have hNe := nonce_ne_of_partition (mem_of_mem_kept hTx) hOut
  grind

theorem filter_kept
    {l : PlainList view}
    {costLimit : Int}
    {gasLimit : UInt64}
    {tx out : Tx}
    (hStrict : l.strict = true)
    (hTx : tx ∈ (l.filter costLimit gasLimit).2.txs)
    (hOut : out ∈ (l.filter costLimit gasLimit).1.1) :
    view.nonce tx < view.nonce out :=
  lt_of_kept hStrict hTx hOut

theorem remove_kept
    {l : PlainList view}
    {tx other : Tx}
    (hStrict : l.strict = true)
    (hFound : (l.remove tx).1.1 = true)
    (hOther : other ∈ (l.remove tx).2.txs) :
    view.nonce other < view.nonce tx := by
  rcases remove_found hFound with ⟨old, hGet, _⟩
  rw [remove_of_some hGet] at hOther
  rcases get_eq_some.mp hGet with ⟨hMem, hNonce⟩
  have hOld : old ∈ (l.without (view.nonce tx)).1 :=
    List.mem_filter.mpr ⟨hMem, by simpa using hNonce⟩
  rw [← hNonce]
  exact lt_of_kept hStrict hOther hOld

theorem remove_invalids
    {l : PlainList view}
    {tx other : Tx}
    (hOther : other ∈ (l.remove tx).1.2) :
    view.nonce tx < view.nonce other := by
  cases hGet : l.get (view.nonce tx) with
  | none =>
      rw [remove_of_none hGet] at hOther
      cases hOther
  | some old =>
      rw [remove_of_some hGet] at hOther
      rcases mem_invalidated hOther with ⟨out, hOut, hLt⟩
      have hNonce : view.nonce out = view.nonce tx := by
        simpa using (List.mem_filter.mp hOut).2
      rwa [hNonce] at hLt

theorem ready_chain
    {l : PlainList view}
    {start : UInt64} :
    (l.ready start).1.IsChain
      (fun a b => view.nonce b = view.nonce a + 1) := by
  unfold ready
  split
  · simp [cut]
  · split
    · simp [cut]
    · exact isChain_runLength l.txs

theorem ready_head
    {l : PlainList view}
    {start : UInt64}
    {tx : Tx}
    (hHead : (l.ready start).1.head? = some tx) :
    view.nonce tx ≤ start := by
  unfold ready at hHead
  split at hHead
  · simp [cut] at hHead
  · next first hFirst =>
    split at hHead
    · simp [cut] at hHead
    · next hStart =>
      have hSame : tx = first := by
        rw [cut, List.head?_take, hFirst] at hHead
        split at hHead
        · cases hHead
        · exact (Option.some.inj hHead).symm
      rw [hSame]
      exact UInt64.not_lt.mp hStart

end PlainList

/- The plain lists keep their order. -/
theorem TxLists.plain_ordered (view : TxView Tx) :
    (TxLists.plain view).Ordered where
  flatten_sorted := PlainList.sorted _
  forward_out := PlainList.forward_out
  forward_kept := PlainList.forward_kept
  filter_kept := PlainList.filter_kept
  filter_invalids := PlainList.mem_invalidated
  cap_kept := PlainList.lt_of_take_drop _ _
  remove_kept := PlainList.remove_kept
  remove_invalids := PlainList.remove_invalids
  ready_chain := PlainList.ready_chain
  ready_head := PlainList.ready_head

------------------------------------------------------------
-- Nonces
------------------------------------------------------------

/- The nonces that were set, over those of the state. -/
structure PlainNoncer where
  fallback : StateView
  nonces : List (Sting.Address × UInt64)

namespace PlainNoncer

def get
    (noncer : PlainNoncer)
    (addr : Sting.Address) : UInt64 :=
  match noncer.nonces.find? (fun e => e.1 == addr) with
  | none => noncer.fallback.getNonce addr
  | some e => e.2

/- The newest entry comes first. -/
def set
    (noncer : PlainNoncer)
    (addr : Sting.Address)
    (nonce : UInt64) : PlainNoncer :=
  { noncer with nonces := (addr, nonce) :: noncer.nonces }

def setIfLower
    (noncer : PlainNoncer)
    (addr : Sting.Address)
    (nonce : UInt64) : PlainNoncer :=
  if noncer.get addr ≤ nonce then noncer
  else noncer.set addr nonce

end PlainNoncer

/- The nonces of the pool, written down plainly. -/
def Noncers.plain : Noncers PlainNoncer where
  newNoncer state := ⟨state, []⟩
  get := PlainNoncer.get
  set := PlainNoncer.set
  setIfLower := PlainNoncer.setIfLower
  setAll noncer all := { noncer with nonces := all }

namespace PlainNoncer

theorem get_set
    (noncer : PlainNoncer)
    (addr other : Sting.Address)
    (nonce : UInt64) :
    (noncer.set addr nonce).get other =
      if other = addr then nonce else noncer.get other := by
  by_cases hSame : other = addr
  · simp [get, set, hSame]
  · have hNe : ¬ addr = other := fun h => hSame h.symm
    simp [get, set, hSame, hNe]

theorem get_setIfLower
    (noncer : PlainNoncer)
    (addr other : Sting.Address)
    (nonce : UInt64) :
    (noncer.setIfLower addr nonce).get other =
      if other = addr ∧ nonce < noncer.get addr then nonce
      else noncer.get other := by
  unfold setIfLower
  split
  · next hLe =>
    rw [if_neg (fun hLower =>
      UInt64.not_lt.mpr hLe hLower.2)]
  · next hLt =>
    rw [get_set]
    simp [UInt64.not_le.mp hLt]

end PlainNoncer

/- The plain nonces are those that were set. -/
theorem Noncers.plain_lawful :
    Noncers.plain.Lawful PlainNoncer.fallback where
  get_newNoncer := rfl
  get_set := by
    intro noncer addr nonce other
    exact noncer.get_set addr other nonce
  get_setIfLower := by
    intro noncer addr nonce other
    exact noncer.get_setIfLower addr other nonce
  get_setAll := by
    intro noncer all addr nonce hNodup hMem
    simp only [Noncers.plain, PlainNoncer.get]
    cases hFind : all.find? (fun e => e.1 == addr) with
    | none =>
        have hNone := List.find?_eq_none.mp hFind _ hMem
        simp at hNone
    | some e =>
        have hTest := List.find?_some hFind
        have hKey : e.1 = addr := by simpa using hTest
        have hSame := List.inj_on_of_nodup_map hNodup
          (List.mem_of_find?_eq_some hFind) hMem hKey
        rw [hSame]
  get_setAll_other := by
    intro noncer all addr hAddr
    simp only [Noncers.plain, PlainNoncer.get]
    cases hFind : all.find? (fun e => e.1 == addr) with
    | none => rfl
    | some e =>
        have hTest := List.find?_some hFind
        have hKey : e.1 = addr := by simpa using hTest
        refine absurd ?_ hAddr
        rw [← hKey]
        exact List.mem_map_of_mem
          (List.mem_of_find?_eq_some hFind)
  fallback_newNoncer := rfl
  fallback_set := rfl
  fallback_setIfLower := by
    intro noncer addr nonce
    simp only [Noncers.plain, PlainNoncer.setIfLower]
    split <;> rfl
  fallback_setAll := rfl

------------------------------------------------------------
-- Sample Transactions
------------------------------------------------------------

/- A transfer, told by its sender, its nonce and its tip. -/
structure SampleTx where
  sender : Sting.Address
  nonce : UInt8
  tip : UInt8
deriving DecidableEq

/- A plain transfer of nothing. -/
def SampleTx.view : TxView SampleTx where
  hash tx := [tx.sender.toNat.toUInt8, tx.nonce, tx.tip]
  txDifference txs removed :=
    txs.filter (fun tx => removed.all (fun tx' =>
      decide ([tx'.sender.toNat.toUInt8, tx'.nonce,
          tx'.tip] ≠
        [tx.sender.toNat.toUInt8, tx.nonce, tx.tip])))
  mem_txDifference := by
    intro txs removed tx
    simp only [List.mem_filter, List.all_eq_true,
      decide_eq_true_eq]
  sender tx := some tx.sender
  txType _ := 0
  nonce tx := tx.nonce.toUInt64
  size _ := 110
  recipient _ := some 0
  dataLen _ := 0
  value _ := 0
  gas _ := 21000
  gasFeeCap tx := tx.tip.toNat
  gasTipCap tx := tx.tip.toNat
  cost tx := 21000 * tx.tip.toNat
  intrinsicGas _ _ _ := .ok 21000

/- The sample transactions in plain lists. -/
def samplePoolTypes :
    PoolTypes SampleTx (PlainList SampleTx.view)
      PlainNoncer where
  view := SampleTx.view
  lists := .plain SampleTx.view
  noncers := .plain
  maxInitCodeSize := 2 * 24576

/- Nonces of sample transactions are small. -/
theorem samplePoolTypes_ordered :
    samplePoolTypes.Ordered PlainNoncer.fallback where
  lists := TxLists.plain_ordered SampleTx.view
  noncers := Noncers.plain_lawful
  nonce_ne := by
    intro tx hLast
    have hNat := congrArg UInt64.toNat hLast
    have hSmall := tx.nonce.toNat_lt
    simp [samplePoolTypes, SampleTx.view, lastNonce] at hNat
    omega

end Builder
