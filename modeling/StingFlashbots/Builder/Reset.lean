import StingFlashbots.Base.Ancestry
import StingFlashbots.Encoding.BigEndian

/-
  What the pool takes back when the chain is reorganised.

  `reset` is told the old and the new head. Unless the new
  head is the child of the old one, it walks down from both
  until the two walks meet, and collects the transactions of
  the blocks it passes. Those of the old side that are not
  on the new side go back to the pool.

  The loops are bounded by the number of the block they
  start from. Blocks come out of the store under the number
  they are asked for by, so that no loop is cut short.

  Key definitions include:
    * `Builder.BlockChain`
    * `Builder.BlockChain.walk`
    * `Builder.BlockChain.reinject`

  Main results:
    * `Builder.reorgDepth_eq`
    * `Builder.BlockChain.walk_eq_ok`
    * `Builder.BlockChain.mem_reinject`
-/

namespace Builder

------------------------------------------------------------
-- Blocks
------------------------------------------------------------

/- `types.Header`, as far as the pool reads it. -/
structure Header where
  hash : Bytes
  parentHash : Bytes
  number : UInt64
  root : Bytes
  gasLimit : UInt64
deriving DecidableEq

/- `types.Block` -/
structure Block (Tx : Type) extends Header where
  transactions : List Tx
deriving DecidableEq

/-
  The interface `blockChain`. Blocks are stored under their
  hash and their number, a hash names one block, and a block
  stands one above its parent.
-/
structure BlockChain (Tx State : Type) where
  currentBlock : Header
  getBlock : Bytes → UInt64 → Option (Block Tx)
  stateAt : Bytes → Except String State
  getBlock_hash :
    ∀ {hash number b}, getBlock hash number = some b →
      b.hash = hash
  getBlock_number :
    ∀ {hash number b}, getBlock hash number = some b →
      b.number = number
  getBlock_unique :
    ∀ {hash number number' b b'},
      getBlock hash number = some b →
      getBlock hash number' = some b' → b = b'
  getBlock_parent :
    ∀ {hash number number' b p},
      getBlock hash number = some b →
      getBlock b.parentHash number' = some p →
      b.number.toNat = p.number.toNat + 1

/-
  The transactions of go-ethereum. `types.TxDifference`
  removes by hash.
-/
structure TxTypes (Tx : Type) where
  hash : Tx → Bytes
  txDifference : List Tx → List Tx → List Tx
  mem_txDifference :
    ∀ {txs removed : List Tx} {tx : Tx},
      tx ∈ txDifference txs removed ↔
        tx ∈ txs ∧ ∀ tx' ∈ removed, hash tx' ≠ hash tx

------------------------------------------------------------
-- The Depth of a Reorganisation
------------------------------------------------------------

/-
  `float64` of an integer: 53 significant bits, and the even
  one where two are equally near.
-/
def float64 (n : Nat) : Nat :=
  if n < 2 ^ 53 then n
  else
    let unit := 2 ^ (n.log2 - 52)
    let q := n / unit
    let r := n % unit
    if 2 * r < unit ∨ (2 * r = unit ∧ q % 2 = 0) then
      q * unit
    else
      (q + 1) * unit

/- The distance of two block numbers, in floating point. -/
def reorgDepth (oldNum newNum : UInt64) : Nat :=
  float64
    ((float64 oldNum.toNat : Int) -
      float64 newNum.toNat).natAbs

/- No rounding happens below `2 ^ 53`. -/
theorem reorgDepth_eq
    {oldNum newNum : UInt64}
    (hOld : oldNum.toNat < 2 ^ 53)
    (hNew : newNum.toNat < 2 ^ 53) :
    reorgDepth oldNum newNum =
      ((oldNum.toNat : Int) - newNum.toNat).natAbs := by
  have hDistance :
      ((oldNum.toNat : Int) - newNum.toNat).natAbs <
        2 ^ 53 := by
    omega
  unfold reorgDepth
  rw [float64, float64, float64, if_pos hOld, if_pos hNew,
    if_pos hDistance]

------------------------------------------------------------
-- The Walk
------------------------------------------------------------

/- Why `reset` returns before it touches the pool. -/
inductive Stop where
| panic
| missingOldHead
| unrootedOld
| unrootedNew
| outOfFuel
deriving DecidableEq

/- Both sides of a reorganisation. -/
structure Sides (Tx : Type) where
  discarded : List Tx
  included : List Tx

namespace BlockChain

variable {Tx State : Type}
variable (chain : BlockChain Tx State)

/- The block `GetBlock` gives for the parent of another. -/
def getParent (b : Block Tx) : Option (Block Tx) :=
  chain.getBlock b.parentHash (b.number - 1)

/-
  The first two loops, each on its own side: go down while
  the block is above the other side's.
-/
def lower
    (unrooted : Stop)
    (number : UInt64) :
    Nat → Block Tx → List Tx →
      Except Stop (Block Tx × List Tx)
| 0, _, _ => .error .outOfFuel
| fuel + 1, b, txs =>
    if number < b.number then
      match chain.getParent b with
      | none => .error unrooted
      | some p =>
          lower unrooted number fuel p
            (txs ++ b.transactions)
    else
      .ok (b, txs)

/- The third loop: go down on both sides. -/
def lowerBoth :
    Nat → Block Tx → Block Tx → Sides Tx →
      Except Stop (Sides Tx)
| 0, _, _, _ => .error .outOfFuel
| fuel + 1, rem, add, sides =>
    if rem.hash ≠ add.hash then
      match chain.getParent rem with
      | none => .error .unrootedOld
      | some rem' =>
          match chain.getParent add with
          | none => .error .unrootedNew
          | some add' =>
              lowerBoth fuel rem' add'
                { discarded :=
                    sides.discarded ++ rem.transactions
                  included :=
                    sides.included ++ add.transactions }
    else
      .ok sides

/- The three loops of `reset`. -/
def walk (rem add : Block Tx) : Except Stop (Sides Tx) := do
  let (rem, discarded) ←
    chain.lower .unrootedOld add.number
      (rem.number.toNat + 1) rem []
  let (add, included) ←
    chain.lower .unrootedNew rem.number
      (add.number.toNat + 1) add []
  chain.lowerBoth (rem.number.toNat + 1) rem add
    ⟨discarded, included⟩

variable (types : TxTypes Tx)

/-
  The first part of `reset`, up to the transactions it will
  reinject.
-/
def reinject
    (oldHead newHead : Option Header) :
    Except Stop (List Tx) :=
  match oldHead with
  | none => .ok []
  | some old =>
      match newHead with
      | none => .error .panic
      | some new =>
          if old.hash = new.parentHash then .ok []
          else if 64 < reorgDepth old.number new.number then
            .ok []
          else
            match chain.getBlock old.hash old.number with
            | none =>
                if old.number ≤ new.number then
                  .error .missingOldHead
                else
                  .ok []
            | some rem =>
                match chain.getBlock new.hash new.number with
                | none => .error .panic
                | some add => do
                    let sides ← chain.walk rem add
                    return types.txDifference
                      sides.discarded sides.included

------------------------------------------------------------
-- Chains of Blocks
------------------------------------------------------------

/- The store has the block. -/
def Stored (b : Block Tx) : Prop :=
  chain.getBlock b.hash b.number = some b

/- What comes out of the store is in it. -/
theorem stored_of_getBlock
    {chain : BlockChain Tx State}
    {hash : Bytes}
    {number : UInt64}
    {b : Block Tx}
    (hBlock : chain.getBlock hash number = some b) :
    chain.Stored b := by
  unfold Stored
  rw [chain.getBlock_hash hBlock,
    chain.getBlock_number hBlock]
  exact hBlock

/- Blocks over their parents. Block zero has none. -/
def descent : Descent (Block Tx) where
  parent b :=
    if b.number = 0 then none else chain.getParent b
  level b := b.number.toNat
  level_parent := by
    intro b p hParent
    by_cases hZero : b.number = 0
    · rw [if_pos hZero] at hParent
      cases hParent
    · rw [if_neg hZero] at hParent
      have hNumber := chain.getBlock_number hParent
      have hNe : b.number.toNat ≠ 0 := by
        intro hNat
        exact hZero (UInt64.toNat_inj.mp hNat)
      have hPos : 1 ≤ b.number :=
        UInt64.le_iff_toNat_le.mpr
          (Nat.one_le_iff_ne_zero.mpr hNe)
      rw [hNumber, UInt64.toNat_sub_of_le _ _ hPos]
      have hOne : (1 : UInt64).toNat = 1 := rfl
      omega

variable {chain : BlockChain Tx State}

theorem getParent_of_descent
    {b p : Block Tx}
    (hParent : chain.descent.parent b = some p) :
    chain.getParent b = some p := by
  by_cases hZero : b.number = 0
  · simp [descent, hZero] at hParent
  · simpa [descent, hZero] using hParent

/- The transactions of blocks, from the top down. -/
def txsOf (blocks : List (Block Tx)) : List Tx :=
  blocks.flatMap Block.transactions

/- One side alone goes down to the level of the other. -/
theorem lower_eq
    (unrooted : Stop)
    {number : UInt64}
    {b m : Block Tx}
    {upper : List (Block Tx)}
    (hPath : chain.descent.Path b upper m)
    (hLevel :
      m.number.toNat = min b.number.toNat number.toNat)
    {fuel : Nat}
    (hFuel : upper.length < fuel)
    (txs : List Tx) :
    chain.lower unrooted number fuel b txs =
      .ok (m, txs ++ txsOf upper) := by
  induction hPath generalizing fuel txs with
  | nil b =>
      cases fuel with
      | zero => simp at hFuel
      | succ fuel =>
          have hStop : ¬ number < b.number := by
            rw [UInt64.lt_iff_toNat_lt]
            omega
          simp [lower, hStop, txsOf]
  | @cons b p m upper hParent hPath ih =>
      cases fuel with
      | zero => simp at hFuel
      | succ fuel =>
          have hUp : b.number.toNat = p.number.toNat + 1 :=
            chain.descent.level_parent hParent
          have hDown :
              p.number.toNat =
                m.number.toNat + upper.length :=
            hPath.level_eq
          have hMore : number < b.number := by
            rw [UInt64.lt_iff_toNat_lt]
            omega
          simp only [List.length_cons] at hFuel
          rw [lower, if_pos hMore,
            getParent_of_descent hParent]
          simp only
          rw [ih (by omega) (by omega)]
          simp [txsOf]

/- Blocks of the store with one hash are one block. -/
theorem eq_of_hash
    {b c : Block Tx}
    (hStored : chain.Stored b)
    (hStored' : chain.Stored c)
    (hHash : b.hash = c.hash) :
    b = c := by
  unfold Stored at hStored hStored'
  rw [hHash] at hStored
  exact chain.getBlock_unique hStored hStored'

/- A path down from a block of the store stays in it. -/
theorem stored_of_path
    {b m : Block Tx}
    {upper : List (Block Tx)}
    (hPath : chain.descent.Path b upper m)
    (hStored : chain.Stored b) :
    chain.Stored m := by
  induction hPath with
  | nil b => exact hStored
  | cons hParent _ ih =>
      exact ih
        (stored_of_getBlock (getParent_of_descent hParent))

/- Both sides go down until they meet. -/
theorem lowerBoth_eq
    {rem add m : Block Tx}
    {upper upper' : List (Block Tx)}
    (hMeet : chain.descent.Meet rem upper add upper' m)
    (hRem : chain.Stored rem)
    (hAdd : chain.Stored add)
    {fuel : Nat}
    (hFuel : upper.length < fuel)
    (sides : Sides Tx) :
    chain.lowerBoth fuel rem add sides =
      .ok ⟨sides.discarded ++ txsOf upper,
        sides.included ++ txsOf upper'⟩ := by
  induction hMeet generalizing fuel sides with
  | here b =>
      cases fuel with
      | zero => simp at hFuel
      | succ fuel => simp [lowerBoth, txsOf]
  | @down rem add rem' add' m upper upper' hNe hParent
      hParent' hMeet ih =>
      cases fuel with
      | zero => simp at hFuel
      | succ fuel =>
          have hGet := getParent_of_descent hParent
          have hGet' := getParent_of_descent hParent'
          have hHash : rem.hash ≠ add.hash := by
            intro hHash
            exact hNe (eq_of_hash hRem hAdd hHash)
          simp only [List.length_cons] at hFuel
          rw [lowerBoth, if_pos hHash, hGet, hGet']
          simp only
          rw [ih (stored_of_getBlock hGet)
            (stored_of_getBlock hGet') (by omega)]
          simp [txsOf]

/-
  Two chains with a common block: the walk collects what the
  two have above the first block they share.
-/
theorem walk_eq_ok
    {rem add c : Block Tx}
    {oldChain newChain : List (Block Tx)}
    (hRem : chain.Stored rem)
    (hAdd : chain.Stored add)
    (hOld : chain.descent.Path rem oldChain c)
    (hNew : chain.descent.Path add newChain c) :
    ∃ upper upper' shared,
      oldChain = upper ++ shared ∧
      newChain = upper' ++ shared ∧
      chain.walk rem add =
        .ok ⟨txsOf upper, txsOf upper'⟩ := by
  have hLevelOld : rem.number.toNat =
      c.number.toNat + oldChain.length := hOld.level_eq
  have hLevelNew : add.number.toNat =
      c.number.toNat + newChain.length := hNew.level_eq
  have hBottom :
      chain.descent.level c ≤
        min rem.number.toNat add.number.toNat := by
    change c.number.toNat ≤ _
    omega
  rcases hOld.split_at hBottom (Nat.min_le_left _ _) with
    ⟨rem', above, below, hRem', rfl, hAbove, hBelow⟩
  rcases hNew.split_at hBottom (Nat.min_le_right _ _) with
    ⟨add', above', below', hAdd', rfl, hAbove', hBelow'⟩
  rcases hBelow.exists_meet hBelow' (hRem'.trans hAdd'.symm)
    with ⟨m, upper, upper', shared, rfl, rfl, hMeet, _⟩
  change rem'.number.toNat = _ at hRem'
  change add'.number.toNat = _ at hAdd'
  have hSplit : rem.number.toNat =
      rem'.number.toNat + above.length := hAbove.level_eq
  have hSplit' : add.number.toNat =
      add'.number.toNat + above'.length := hAbove'.level_eq
  have hFirst := lower_eq .unrootedOld hAbove hRem'
    (show above.length < rem.number.toNat + 1 by omega) []
  have hSecond := lower_eq .unrootedNew hAbove'
    (show _ = min add.number.toNat rem'.number.toNat by omega)
    (show above'.length < add.number.toNat + 1 by omega) []
  have hThird := lowerBoth_eq hMeet
    (stored_of_path hAbove hRem)
    (stored_of_path hAbove' hAdd)
    (show upper.length < rem'.number.toNat + 1 by
      have hEnd : rem'.number.toNat =
        m.number.toNat + upper.length := hMeet.left.level_eq
      omega)
    ⟨[] ++ txsOf above, [] ++ txsOf above'⟩
  refine ⟨above ++ upper, above' ++ upper', shared, ?_, ?_,
    ?_⟩
  · rw [List.append_assoc]
  · rw [List.append_assoc]
  · rw [walk, hFirst]
    simp only [bind, Except.bind]
    rw [hSecond]
    simp only
    rw [hThird]
    simp [txsOf]

------------------------------------------------------------
-- What Goes Back to the Pool
------------------------------------------------------------

variable {types : TxTypes Tx}

/-
  The part two chains share does not matter, as long as no
  transaction is on the old chain twice.
-/
theorem mem_difference_iff
    {upper upper' shared : List (Block Tx)}
    (hOnce :
      ((txsOf (upper ++ shared)).map types.hash).Nodup)
    (tx : Tx) :
    tx ∈ types.txDifference (txsOf upper) (txsOf upper') ↔
      tx ∈ txsOf (upper ++ shared) ∧
        ∀ tx' ∈ txsOf (upper' ++ shared),
          types.hash tx' ≠ types.hash tx := by
  unfold txsOf at hOnce ⊢
  rw [types.mem_txDifference]
  rw [List.flatMap_append, List.map_append,
    List.nodup_append] at hOnce
  simp only [List.flatMap_append, List.mem_append]
  constructor
  · rintro ⟨hUpper, hOff⟩
    refine ⟨.inl hUpper, ?_⟩
    rintro tx' (hUpper' | hShared) hHash
    · exact hOff tx' hUpper' hHash
    · exact hOnce.2.2 _ (List.mem_map_of_mem hUpper) _
        (List.mem_map_of_mem hShared) hHash.symm
  · rintro ⟨hUpper | hShared, hOff⟩
    · exact ⟨hUpper, fun tx' hUpper' =>
        hOff tx' (.inl hUpper')⟩
    · exact absurd rfl (hOff tx (.inr hShared))

/- A child of the old head has the old chain below it. -/
theorem newChain_of_child
    {old new c : Block Tx}
    {oldChain newChain : List (Block Tx)}
    (hOldStored : chain.Stored old)
    (hNewStored : chain.Stored new)
    (hChild : old.hash = new.parentHash)
    (hOld : chain.descent.Path old oldChain c)
    (hNew : chain.descent.Path new newChain c) :
    newChain = new :: oldChain := by
  unfold Stored at hOldStored
  rw [hChild] at hOldStored
  have hNumber :=
    chain.getBlock_parent hNewStored hOldStored
  have hNe : new.number ≠ 0 := by
    intro hZero
    rw [hZero] at hNumber
    simp at hNumber
  have hPos : 1 ≤ new.number := by
    rw [UInt64.le_iff_toNat_le, hNumber]
    exact Nat.succ_le_succ (Nat.zero_le _)
  have hBelow : new.number - 1 = old.number := by
    apply UInt64.toNat_inj.mp
    rw [UInt64.toNat_sub_of_le _ _ hPos, hNumber]
    rfl
  have hParent : chain.descent.parent new = some old := by
    simp only [descent, if_neg hNe, getParent, hBelow]
    exact hOldStored
  have hPath : chain.descent.Path new (new :: oldChain) c :=
    .cons hParent hOld
  rcases hNew.tail_eq hPath (Nat.le_refl _) with
    ⟨lower, rfl, hLower⟩
  have hLength := hLower.level_eq
  have hNil : lower = [] := by
    rw [← List.length_eq_zero_iff]
    omega
  simp [hNil]

/-
  From head to head, whatever the two chains look like: the
  transactions to reinject are those on the old chain and
  not on the new one.
-/
theorem mem_reinject
    (types : TxTypes Tx)
    {old new c : Block Tx}
    {oldChain newChain : List (Block Tx)}
    (hOldStored : chain.Stored old)
    (hNewStored : chain.Stored new)
    (hOld : chain.descent.Path old oldChain c)
    (hNew : chain.descent.Path new newChain c)
    (hOnce : ((txsOf oldChain).map types.hash).Nodup)
    (hDepth : reorgDepth old.number new.number ≤ 64) :
    ∃ txs,
      chain.reinject types (some old.toHeader)
          (some new.toHeader) =
        .ok txs ∧
      ∀ tx, tx ∈ txs ↔
        tx ∈ txsOf oldChain ∧
          ∀ tx' ∈ txsOf newChain,
            types.hash tx' ≠ types.hash tx := by
  by_cases hChild : old.hash = new.parentHash
  · refine ⟨[], by simp [reinject, hChild], ?_⟩
    intro tx
    have hChain := newChain_of_child hOldStored hNewStored
      hChild hOld hNew
    constructor
    · intro hNil
      cases hNil
    · rintro ⟨hTx, hOff⟩
      refine absurd rfl (hOff tx ?_)
      rw [hChain, txsOf, List.flatMap_cons]
      exact List.mem_append_right _ hTx
  · rcases walk_eq_ok hOldStored hNewStored hOld hNew with
      ⟨upper, upper', shared, rfl, rfl, hWalk⟩
    refine ⟨types.txDifference (txsOf upper) (txsOf upper'),
      ?_, mem_difference_iff hOnce⟩
    unfold Stored at hOldStored hNewStored
    simp [reinject, hChild, Nat.not_lt.mpr hDepth,
      hOldStored, hNewStored, hWalk]

end BlockChain

/- Numbers as transactions, each with its own hash. -/
def sampleTypes : TxTypes UInt8 where
  hash tx := [tx]
  txDifference txs removed :=
    txs.filter (fun tx => !removed.contains tx)
  mem_txDifference := by
    intro txs removed tx
    simp only [List.mem_filter, Bool.not_eq_true',
      List.contains_eq_mem, decide_eq_false_iff_not,
      ne_eq, List.cons.injEq, and_true]
    constructor
    · rintro ⟨hTx, hOff⟩
      refine ⟨hTx, ?_⟩
      rintro tx' hRemoved rfl
      exact hOff hRemoved
    · rintro ⟨hTx, hOff⟩
      exact ⟨hTx, fun hRemoved => hOff tx hRemoved rfl⟩

def sampleBlock
    (hash parentHash : UInt8)
    (number : UInt64)
    (transactions : List UInt8) : Block UInt8 :=
  { hash := [hash]
    parentHash := [parentHash]
    number := number
    root := []
    gasLimit := 30000000
    transactions := transactions }

/- Three blocks over the first, and two others. -/
def sampleBlocks : List (Block UInt8) :=
  [sampleBlock 1 0 0 [],
    sampleBlock 11 1 1 [101], sampleBlock 12 11 2 [102, 103],
    sampleBlock 13 12 3 [104],
    sampleBlock 22 11 2 [103, 105]]

/- The store that has these blocks. -/
def sampleChain : BlockChain UInt8 Unit where
  currentBlock := (sampleBlock 22 11 2 []).toHeader
  getBlock hash number :=
    sampleBlocks.find? (fun b =>
      b.hash = hash ∧ b.number = number)
  stateAt _ := .ok ()
  getBlock_hash := by
    intro hash number b hFound
    have hTest := List.find?_some hFound
    simp only [decide_eq_true_eq] at hTest
    exact hTest.1
  getBlock_number := by
    intro hash number b hFound
    have hTest := List.find?_some hFound
    simp only [decide_eq_true_eq] at hTest
    exact hTest.2
  getBlock_unique := by
    intro hash number number' b b' hFound hFound'
    have hTest := List.find?_some hFound
    have hTest' := List.find?_some hFound'
    simp only [decide_eq_true_eq] at hTest hTest'
    have hAll :
        ∀ b ∈ sampleBlocks, ∀ b' ∈ sampleBlocks,
          b.hash = b'.hash → b = b' := by
      decide
    exact hAll b (List.mem_of_find?_eq_some hFound) b'
      (List.mem_of_find?_eq_some hFound')
      (hTest.1.trans hTest'.1.symm)
  getBlock_parent := by
    intro hash number number' b p hFound hFound'
    have hTest' := List.find?_some hFound'
    simp only [decide_eq_true_eq] at hTest'
    have hAll :
        ∀ b ∈ sampleBlocks, ∀ p ∈ sampleBlocks,
          p.hash = b.parentHash →
            b.number.toNat = p.number.toNat + 1 := by
      decide
    exact hAll b (List.mem_of_find?_eq_some hFound) p
      (List.mem_of_find?_eq_some hFound') hTest'.1

/- The third block of one side gives way to the other. -/
theorem mem_reinject_sample :
    (∃ txs,
      sampleChain.reinject sampleTypes
          (some (sampleBlock 13 12 3 [104]).toHeader)
          (some (sampleBlock 22 11 2 [103, 105]).toHeader) =
        .ok txs ∧
      ∀ tx, tx ∈ txs ↔
        tx ∈ [104, 102, 103, 101] ∧
          ∀ tx' ∈ [103, 105, 101],
            sampleTypes.hash tx' ≠ sampleTypes.hash tx) ∧
      sampleChain.reinject sampleTypes
          (some (sampleBlock 13 12 3 [104]).toHeader)
          (some (sampleBlock 22 11 2 [103, 105]).toHeader) =
        .ok [104, 102] := by
  have hOld :
      sampleChain.descent.Path (sampleBlock 13 12 3 [104])
        [sampleBlock 13 12 3 [104],
          sampleBlock 12 11 2 [102, 103],
          sampleBlock 11 1 1 [101]]
        (sampleBlock 1 0 0 []) :=
    .cons rfl (.cons rfl (.cons rfl (.nil _)))
  have hNew :
      sampleChain.descent.Path (sampleBlock 22 11 2 [103, 105])
        [sampleBlock 22 11 2 [103, 105],
          sampleBlock 11 1 1 [101]]
        (sampleBlock 1 0 0 []) :=
    .cons rfl (.cons rfl (.nil _))
  have hOldStored :
      sampleChain.Stored (sampleBlock 13 12 3 [104]) := rfl
  have hNewStored :
      sampleChain.Stored (sampleBlock 22 11 2 [103, 105]) :=
    rfl
  exact ⟨BlockChain.mem_reinject sampleTypes hOldStored
    hNewStored hOld hNew (by decide) (by decide), by decide⟩

end Builder
