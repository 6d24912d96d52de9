import Mathlib.Data.List.GetD
import StingFlashbots.Contract.RLPReader

/-
  What the reader does to memory.

  Structs, arrays and copies are placed at the free pointer,
  one behind the other, and nothing below it changes. An
  array of structs holds addresses that lie behind it.

  Key definitions include:
    * `Sting.Grown`, `Sting.Takes`
    * `Sting.ItemsAt`
    * `Sting.Copied`

  Main results:
    * `Sting.newItem_eq_ok`
    * `Sting.newItems_eq_ok`
    * `Sting.ItemsAt.push`
    * `Sting.copy_eq_ok`
    * `Sting.newBytes_copy`
-/

namespace Sting

open EVM RLPReader

variable {m m' m'' m₀ : Memory}

------------------------------------------------------------
-- Words
------------------------------------------------------------

theorem mload_congr
    {q : Nat}
    (hSame : ∀ i < 32, m' (q + i) = m (q + i)) :
    mload m' q = mload m q := by
  unfold mload
  congr 1
  apply List.ext_getElem (by simp)
  intro i hi hi'
  have hLt : i < 32 := by simpa using hi
  rw [getElem_slice, getElem_slice, hSame i hLt]

/- A word apart from the one that is written. -/
theorem mload_mstore_of_disjoint
    (m : Memory)
    {p q : Nat}
    (hDisjoint : q + 32 ≤ p ∨ p + 32 ≤ q)
    (w : Nat) :
    mload (mstore m p w) q = mload m q := by
  rw [mload, slice_mstore_of_disjoint _ hDisjoint]
  rfl

theorem mload_lt
    (m : Memory)
    (p : Nat) :
    mload m p < modulus := by
  have hLt := BigEndian.decode_lt (slice m p 32)
  rw [length_slice] at hLt
  exact lt_of_lt_of_eq hLt (by norm_num [modulus])

theorem slice_zeroFill_of_disjoint
    (m : Memory)
    {p n q k : Nat}
    (hDisjoint : q + k ≤ p ∨ p + n ≤ q) :
    slice (zeroFill m p n) q k = slice m q k := by
  refine List.ext_getElem (by simp) fun i hi hi' => ?_
  have hLt : i < k := by simpa using hi
  rw [getElem_slice, getElem_slice, zeroFill,
    if_neg (by omega)]

------------------------------------------------------------
-- Memory That Grows
------------------------------------------------------------

/- Only memory above the free pointer was written. -/
structure Grown
    (m m' : Memory) : Prop where
  free_le : mload m 0x40 ≤ mload m' 0x40
  kept :
    ∀ a, 0x60 ≤ a → a < mload m 0x40 → m' a = m a

theorem Grown.refl
    (m : Memory) :
    Grown m m :=
  ⟨le_refl _, fun _ _ _ => rfl⟩

theorem Grown.trans
    (hFirst : Grown m m')
    (hSecond : Grown m' m'') :
    Grown m m'' := by
  have hFree := hFirst.free_le
  constructor
  · exact le_trans hFree hSecond.free_le
  · intro a hLow hHigh
    rw [hSecond.kept a hLow (by omega),
      hFirst.kept a hLow hHigh]

theorem Grown.slice_eq
    (hGrown : Grown m m')
    {q n : Nat}
    (hLow : 0x60 ≤ q)
    (hHigh : q + n ≤ mload m 0x40) :
    slice m' q n = slice m q n := by
  apply List.ext_getElem (by simp)
  intro i hi hi'
  have hLt : i < n := by simpa using hi
  rw [getElem_slice, getElem_slice,
    hGrown.kept _ (by omega) (by omega)]

theorem Grown.mload_eq
    (hGrown : Grown m m')
    {q : Nat}
    (hLow : 0x60 ≤ q)
    (hHigh : q + 32 ≤ mload m 0x40) :
    mload m' q = mload m q := by
  rw [mload, hGrown.slice_eq hLow hHigh]
  rfl

/- A struct below the free pointer keeps its fields. -/
theorem Grown.loadItem_eq
    (hGrown : Grown m m')
    {p : Nat}
    (hLow : 0x60 ≤ p)
    (hHigh : p + 0x40 ≤ mload m 0x40) :
    loadItem m' p = loadItem m p := by
  rw [loadItem, hGrown.mload_eq hLow (by omega),
    hGrown.mload_eq (by omega) (by omega)]
  rfl

theorem Grown.loadIterator_eq
    (hGrown : Grown m m')
    {p : Nat}
    (hLow : 0x60 ≤ p)
    (hHigh : p + 0x40 ≤ mload m 0x40) :
    loadIterator m' p = loadIterator m p := by
  rw [loadIterator, hGrown.mload_eq hLow (by omega),
    hGrown.mload_eq (by omega) (by omega)]
  rfl

/- So much memory was taken from the free pointer on. -/
structure Takes
    (size : Nat)
    (m m' : Memory) : Prop where
  free_eq : mload m' 0x40 = mload m 0x40 + size
  kept :
    ∀ a, 0x60 ≤ a → a < mload m 0x40 → m' a = m a

namespace Takes

variable {size more : Nat}

theorem grown
    (hTakes : Takes size m m') :
    Grown m m' where
  free_le := by
    rw [hTakes.free_eq]
    omega
  kept := hTakes.kept

theorem refl
    (m : Memory) :
    Takes 0 m m :=
  ⟨(Nat.add_zero _).symm, fun _ _ _ => rfl⟩

theorem trans
    (hFirst : Takes size m m')
    (hSecond : Takes more m' m'') :
    Takes (size + more) m m'' where
  free_eq := by
    rw [hSecond.free_eq, hFirst.free_eq, Nat.add_assoc]
  kept := (hFirst.grown.trans hSecond.grown).kept

/- Memory that was taken may be written again. -/
theorem mstore
    (hTakes : Takes size m m')
    {p : Nat}
    (hFree : 0x60 ≤ mload m 0x40)
    (hNew : mload m 0x40 ≤ p)
    (w : Nat) :
    Takes size m (mstore m' p w) where
  free_eq := by
    rw [mload_mstore_of_disjoint _ (by omega),
      hTakes.free_eq]
  kept := by
    intro a hLow hHigh
    rw [EVM.mstore, if_neg (by omega),
      hTakes.kept a hLow hHigh]

theorem zeroFill
    (hTakes : Takes size m m')
    {p : Nat}
    (hFree : 0x60 ≤ mload m 0x40)
    (hNew : mload m 0x40 ≤ p)
    (n : Nat) :
    Takes size m (zeroFill m' p n) where
  free_eq := by
    rw [mload, slice_zeroFill_of_disjoint _ (by omega)]
    exact hTakes.free_eq
  kept := by
    intro a hLow hHigh
    rw [RLPReader.zeroFill, if_neg (by omega),
      hTakes.kept a hLow hHigh]

end Takes

/- Memory is taken in whole words. -/
theorem allocate_eq_ok
    (m : Memory)
    {size words : Nat}
    (hWords : roundUp size = words)
    (hRoom : mload m 0x40 + words ≤ allocLimit) :
    ∃ m', allocate m size = .ok (mload m 0x40, m') ∧
      Takes words m m' := by
  have hModulus : modulus = 2 ^ 256 := rfl
  have hLimit : allocLimit = 0xffffffffffffffff := rfl
  refine ⟨mstore m 0x40 (mload m 0x40 + words), ?_, ?_, ?_⟩
  · simp only [allocate, hWords]
    rw [if_neg (by omega)]
  · exact mload_mstore _ 0x40 (by omega)
  · intro a hLow hHigh
    rw [mstore, if_neg (by omega)]

/- Memory is only taken where there is room for it. -/
theorem allocate_of_ok
    {size words p : Nat}
    (hWords : roundUp size = words)
    (hOk : allocate m size = .ok (p, m')) :
    mload m 0x40 + words ≤ allocLimit ∧
      p = mload m 0x40 ∧
      Takes words m m' := by
  have hRoom : mload m 0x40 + words ≤ allocLimit := by
    simp only [allocate, hWords] at hOk
    split_ifs at hOk with hFull
    omega
  rcases allocate_eq_ok m hWords hRoom with
    ⟨m₁, hSame, hTakes⟩
  rw [hSame] at hOk
  have hPair := Prod.mk.inj (Except.ok.inj hOk)
  refine ⟨hRoom, hPair.1.symm, ?_⟩
  rw [← hPair.2]
  exact hTakes

------------------------------------------------------------
-- Structs
------------------------------------------------------------

/- Two words in new memory. -/
private theorem words_eq
    (hFree : 0x60 ≤ mload m 0x40)
    (hTakes : Takes 0x40 m m')
    {a b : Nat}
    (ha : a < modulus)
    (hb : b < modulus) :
    Takes 0x40 m
        (mstore (mstore m' (mload m 0x40) a)
          (mload m 0x40 + 0x20) b) ∧
      mload
          (mstore (mstore m' (mload m 0x40) a)
            (mload m 0x40 + 0x20) b)
          (mload m 0x40) =
        a ∧
      mload
          (mstore (mstore m' (mload m 0x40) a)
            (mload m 0x40 + 0x20) b)
          (mload m 0x40 + 0x20) =
        b := by
  have hFirst := hTakes.mstore hFree (le_refl _) a
  refine ⟨hFirst.mstore hFree (by omega) b, ?_, ?_⟩
  · rw [mload_mstore_of_disjoint _ (by omega)]
    exact mload_mstore _ _ ha
  · exact mload_mstore _ _ hb

/- A struct is placed at the free pointer. -/
theorem newItem_eq_ok
    (m : Memory)
    (item : RLPItem)
    (hLen : item.len < modulus)
    (hPtr : item.memPtr < modulus)
    (hFree : 0x60 ≤ mload m 0x40)
    (hRoom : mload m 0x40 + 0x40 ≤ allocLimit) :
    ∃ m', newItem m item = .ok (mload m 0x40, m') ∧
      loadItem m' (mload m 0x40) = item ∧
      Takes 0x40 m m' := by
  rcases allocate_eq_ok m (by decide : roundUp 0x40 = 0x40)
      hRoom with
    ⟨m₁, hAlloc, hTakes⟩
  rcases words_eq hFree hTakes hLen hPtr with
    ⟨hBoth, hFirst, hSecond⟩
  refine ⟨_, ?_, ?_, hBoth⟩
  · rw [newItem, hAlloc]
    rfl
  · rw [loadItem, hFirst, hSecond]

theorem newItem_of_ok
    {item : RLPItem}
    {p : Nat}
    (hFree : 0x60 ≤ mload m 0x40)
    (hOk : newItem m item = .ok (p, m')) :
    mload m 0x40 + 0x40 ≤ allocLimit ∧ Takes 0x40 m m' := by
  rcases bind_eq_ok.mp hOk with ⟨⟨q, m₁⟩, hAlloc, hOk⟩
  rcases allocate_of_ok (by decide : roundUp 0x40 = 0x40)
      hAlloc with
    ⟨hRoom, hPointer, hTakes⟩
  have hPair := Prod.mk.inj (Except.ok.inj hOk)
  refine ⟨hRoom, ?_⟩
  rw [← hPair.2]
  exact (hTakes.mstore hFree hPointer.ge item.len).mstore
    hFree (by omega) item.memPtr

theorem newIterator_eq_ok
    (m : Memory)
    (it : Iterator)
    (hItem : it.item < modulus)
    (hPtr : it.nextPtr < modulus)
    (hFree : 0x60 ≤ mload m 0x40)
    (hRoom : mload m 0x40 + 0x40 ≤ allocLimit) :
    ∃ m', newIterator m it = .ok (mload m 0x40, m') ∧
      loadIterator m' (mload m 0x40) = it ∧
      Takes 0x40 m m' := by
  rcases allocate_eq_ok m (by decide : roundUp 0x40 = 0x40)
      hRoom with
    ⟨m₁, hAlloc, hTakes⟩
  rcases words_eq hFree hTakes hItem hPtr with
    ⟨hBoth, hFirst, hSecond⟩
  refine ⟨_, ?_, ?_, hBoth⟩
  · rw [newIterator, hAlloc]
    rfl
  · rw [loadIterator, hFirst, hSecond]

------------------------------------------------------------
-- Arrays
------------------------------------------------------------

/- The memory an array of empty structs takes. -/
def arraySize (n : Nat) : Nat :=
  0x20 + 0x60 * n

/- The elements are filled, and the length is kept. -/
theorem fillItems_eq_ok
    {size : Nat}
    (hTakes : Takes size m₀ m)
    (hFree : 0x60 ≤ mload m₀ 0x40)
    (hSize : 0x20 ≤ size)
    {n element : Nat}
    (hElement : mload m₀ 0x40 + 0x20 ≤ element)
    (hRoom :
      mload m₀ 0x40 + size + 0x40 * n ≤ allocLimit) :
    ∃ m', fillItems n m element = .ok m' ∧
      mload m' (mload m₀ 0x40) =
        mload m (mload m₀ 0x40) ∧
      Takes (size + 0x40 * n) m₀ m' := by
  induction n generalizing m size element with
  | zero => exact ⟨m, rfl, rfl, hTakes⟩
  | succ n ih =>
      have hPointer := hTakes.free_eq
      have hZero : (0 : Nat) < modulus := by decide
      rcases newItem_eq_ok m ⟨0, 0⟩ hZero hZero
          (by omega) (by omega) with
        ⟨m₁, hNew, _, hMore⟩
      have hBoth := (hTakes.trans hMore).mstore hFree
        (by omega : mload m₀ 0x40 ≤ element) (mload m 0x40)
      rcases ih hBoth (by omega)
          (by omega : mload m₀ 0x40 + 0x20 ≤
            element + 0x20)
          (by omega) with
        ⟨m', hFill, hLength, hAll⟩
      refine ⟨m', ?_, ?_, ?_⟩
      · rw [fillItems, hNew]
        exact hFill
      · rw [hLength, mload_mstore_of_disjoint _ (by omega)]
        exact hMore.grown.mload_eq hFree (by omega)
      · have hSum :
            size + 0x40 + 0x40 * n =
              size + 0x40 * (n + 1) := by omega
        rw [← hSum]
        exact hAll

/- An array is placed at the free pointer. -/
theorem newItems_eq_ok
    {n : Nat}
    (hFree : 0x60 ≤ mload m 0x40)
    (hRoom : mload m 0x40 + arraySize n ≤ allocLimit) :
    ∃ m', newItems m n = .ok (mload m 0x40, m') ∧
      mload m' (mload m 0x40) = n ∧
      Takes (arraySize n) m m' := by
  have hModulus : modulus = 2 ^ 256 := rfl
  have hLimit : allocLimit = 0xffffffffffffffff := rfl
  unfold arraySize at hRoom ⊢
  have hWords :
      roundUp (0x20 + 0x20 * n) = 0x20 + 0x20 * n := by
    unfold roundUp
    omega
  rcases allocate_eq_ok m hWords (by omega) with
    ⟨m₁, hAlloc, hTakes⟩
  have hStored := hTakes.mstore hFree (le_refl _) n
  have hTotal :
      mload m 0x40 + (0x20 + 0x20 * n) + 0x40 * n ≤
        allocLimit := by omega
  rcases fillItems_eq_ok hStored hFree (by omega)
      (le_refl _) hTotal with
    ⟨m', hFill, hLength, hAll⟩
  refine ⟨m', ?_, ?_, ?_⟩
  · rw [newItems, if_neg (by omega), hAlloc, ok_bind]
    simp only
    rw [hFill]
    rfl
  · rw [hLength]
    exact mload_mstore _ _ (by omega)
  · have hSum :
        0x20 + 0x20 * n + 0x40 * n = 0x20 + 0x60 * n := by
      omega
    rw [← hSum]
    exact hAll

theorem fillItems_room
    {size : Nat}
    (hTakes : Takes size m₀ m)
    (hFree : 0x60 ≤ mload m₀ 0x40)
    {n element : Nat}
    (hElement : mload m₀ 0x40 ≤ element)
    (hRoom : mload m₀ 0x40 + size ≤ allocLimit)
    (hOk : fillItems n m element = .ok m') :
    mload m₀ 0x40 + (size + 0x40 * n) ≤ allocLimit := by
  induction n generalizing m size element with
  | zero => exact hRoom
  | succ n ih =>
      have hPointer := hTakes.free_eq
      rcases bind_eq_ok.mp hOk with ⟨⟨p, m₁⟩, hNew, hFill⟩
      rcases newItem_of_ok (by omega) hNew with
        ⟨hOne, hMore⟩
      have hRest := ih
        ((hTakes.trans hMore).mstore hFree hElement p)
        (by omega : mload m₀ 0x40 ≤ element + 0x20)
        (by omega) hFill
      omega

/- An array is only made where there is room for it. -/
theorem newItems_room
    {n : Nat}
    {result : Nat × Memory}
    (hFree : 0x60 ≤ mload m 0x40)
    (hOk : newItems m n = .ok result) :
    mload m 0x40 + arraySize n ≤ allocLimit := by
  unfold newItems at hOk
  split_ifs at hOk
  have hWords :
      roundUp (0x20 + 0x20 * n) = 0x20 + 0x20 * n := by
    unfold roundUp
    omega
  rcases bind_eq_ok.mp hOk with ⟨⟨p, m₁⟩, hAlloc, hOk⟩
  rcases bind_eq_ok.mp hOk with ⟨_, hFill, _⟩
  rcases allocate_of_ok hWords hAlloc with
    ⟨hRoom, hPointer, hTakes⟩
  have hAll := fillItems_room
    (hTakes.mstore hFree hPointer.ge n) hFree
    (by omega : mload m 0x40 ≤ p + 0x20) hRoom hFill
  unfold arraySize
  omega

/-
  An array of so many elements, the first of which hold
  these items. The structs lie behind the array.
-/
structure ItemsAt
    (m : Memory)
    (result n : Nat)
    (items : List RLPItem) : Prop where
  reserved_le : 0x60 ≤ result
  length_eq : mload m result = n
  slots_le : result + 0x20 + 0x20 * n ≤ mload m 0x40
  element :
    ∀ i item, items[i]? = some item →
      ∃ p, mload m (result + 0x20 + 0x20 * i) = p ∧
        loadItem m p = item ∧
        result + 0x20 + 0x20 * n ≤ p ∧
        p + 0x40 ≤ mload m 0x40

namespace ItemsAt

variable {result n : Nat}
variable {items : List RLPItem}

/- Memory taken afterwards does not touch the array. -/
theorem grown
    (hItems : ItemsAt m result n items)
    (hLength : items.length ≤ n)
    (hGrown : Grown m m') :
    ItemsAt m' result n items where
  reserved_le := hItems.reserved_le
  length_eq := by
    have hLow := hItems.reserved_le
    have hHigh := hItems.slots_le
    rw [hGrown.mload_eq hLow (by omega), hItems.length_eq]
  slots_le := le_trans hItems.slots_le hGrown.free_le
  element := by
    intro i item hItem
    have hLow := hItems.reserved_le
    have hHigh := hItems.slots_le
    have hi := (List.getElem?_eq_some_iff.mp hItem).1
    rcases hItems.element i item hItem with
      ⟨p, hp, hLoad, hBehind, hBelow⟩
    refine ⟨p, ?_, ?_, hBehind,
      le_trans hBelow hGrown.free_le⟩
    · rw [hGrown.mload_eq (by omega) (by omega), hp]
    · rw [hGrown.loadItem_eq (by omega) hBelow, hLoad]

/- The next element is set. -/
theorem set
    (hItems : ItemsAt m result n items)
    (hLength : items.length < n)
    {p : Nat}
    (hBehind : result + 0x20 + 0x20 * n ≤ p)
    (hBelow : p + 0x40 ≤ mload m 0x40)
    (hFit : p < modulus) :
    ∃ m', setItem m result items.length p = .ok m' ∧
      m' = mstore m (result + 0x20 + 0x20 * items.length)
        p ∧
      ItemsAt m' result n (items ++ [loadItem m p]) := by
  have hLow := hItems.reserved_le
  have hHigh := hItems.slots_le
  have hLoad {q : Nat}
      (hq : result + 0x20 + 0x20 * n ≤ q) :
      loadItem
          (mstore m (result + 0x20 + 0x20 * items.length) p)
          q =
        loadItem m q := by
    rw [loadItem, mload_mstore_of_disjoint _ (by omega),
      mload_mstore_of_disjoint _ (by omega)]
    rfl
  have hPointer :
      mload
          (mstore m (result + 0x20 + 0x20 * items.length) p)
          0x40 =
        mload m 0x40 :=
    mload_mstore_of_disjoint _ (by omega) p
  refine ⟨_, ?_, rfl, hLow, ?_, ?_, ?_⟩
  · rw [setItem, hItems.length_eq, if_pos hLength]
  · rw [mload_mstore_of_disjoint _ (by omega),
      hItems.length_eq]
  · rw [hPointer]
    exact hHigh
  · intro i item hItem
    rw [hPointer]
    rw [List.getElem?_append] at hItem
    split_ifs at hItem with hOld
    · rcases hItems.element i item hItem with
        ⟨q, hq, hItemAt, hqBehind, hqBelow⟩
      refine ⟨q, ?_, ?_, hqBehind, hqBelow⟩
      · rw [mload_mstore_of_disjoint _ (by omega), hq]
      · rw [hLoad hqBehind, hItemAt]
    · rw [List.getElem?_singleton] at hItem
      split_ifs at hItem with hNew
      have hi : i = items.length := by omega
      refine ⟨p, ?_, ?_, hBehind, hBelow⟩
      · rw [hi]
        exact mload_mstore _ _ hFit
      · rw [hLoad hBehind]
        exact Option.some.inj hItem

/-
  A struct is made for the next element. Seen from before
  the array was made, only new memory has been written.
-/
theorem push
    {size : Nat}
    (hTakes : Takes size m₀ m)
    (hFree : 0x60 ≤ mload m₀ 0x40)
    (hNew : mload m₀ 0x40 ≤ result)
    (hItems : ItemsAt m result n items)
    (hLength : items.length < n)
    {item : RLPItem}
    (hLen : item.len < modulus)
    (hPtr : item.memPtr < modulus)
    (hRoom : mload m 0x40 + 0x40 ≤ allocLimit) :
    ∃ p m₁ m₂, newItem m item = .ok (p, m₁) ∧
      setItem m₁ result items.length p = .ok m₂ ∧
      ItemsAt m₂ result n (items ++ [item]) ∧
      Takes (size + 0x40) m₀ m₂ := by
  have hModulus : modulus = 2 ^ 256 := rfl
  have hLimit : allocLimit = 0xffffffffffffffff := rfl
  have hLow := hItems.reserved_le
  have hHigh := hItems.slots_le
  rcases newItem_eq_ok m item hLen hPtr (by omega) hRoom with
    ⟨m₁, hOk, hLoad, hMore⟩
  have hPointer := hMore.free_eq
  rcases (hItems.grown hLength.le hMore.grown).set hLength
      hHigh (by omega) (by omega) with
    ⟨m₂, hSet, hStore, hPushed⟩
  rw [hLoad] at hPushed
  refine ⟨_, m₁, m₂, hOk, hSet, hPushed, ?_⟩
  rw [hStore]
  exact (hTakes.trans hMore).mstore hFree (by omega) _

/- Reading an element of the array. -/
theorem itemAt_eq
    (hItems : ItemsAt m result n items)
    (hLength : items.length ≤ n)
    {i : Nat}
    {item : RLPItem}
    (hItem : items[i]? = some item) :
    ∃ p, itemAt m result i = .ok p ∧
      loadItem m p = item ∧
      0x60 ≤ p ∧ p + 0x40 ≤ mload m 0x40 := by
  have hLow := hItems.reserved_le
  have hi := (List.getElem?_eq_some_iff.mp hItem).1
  rcases hItems.element i item hItem with
    ⟨p, hp, hLoad, hBehind, hBelow⟩
  refine ⟨p, ?_, hLoad, by omega, hBelow⟩
  rw [itemAt, hItems.length_eq, if_pos (by omega), hp]

end ItemsAt

------------------------------------------------------------
-- Copying
------------------------------------------------------------

/- Clearing the low bits of a number. -/
theorem and_high_eq
    {x n k : Nat}
    (hx : x < 2 ^ n)
    (hk : k ≤ n) :
    x &&& (2 ^ n - 1 - (2 ^ k - 1)) = x / 2 ^ k * 2 ^ k := by
  have hMask : 2 ^ n - 1 - (2 ^ k - 1) =
      (2 ^ (n - k) - 1) <<< k := by
    rw [Nat.shiftLeft_eq, Nat.sub_mul, ← pow_add,
      Nat.sub_add_cancel hk]
    have hPos := Nat.two_pow_pos k
    omega
  rw [hMask, ← Nat.shiftRight_eq_div_pow,
    ← Nat.shiftLeft_eq]
  apply Nat.eq_of_testBit_eq
  intro i
  rw [Nat.testBit_and, Nat.testBit_shiftLeft,
    Nat.testBit_shiftLeft, Nat.testBit_shiftRight,
    Nat.testBit_two_pow_sub_one]
  by_cases hLow : k ≤ i
  · by_cases hHigh : i < n
    · simp [hLow, (by omega : i - k < n - k),
        (by omega : k + (i - k) = i)]
    · have hZero : x.testBit i = false :=
        Nat.testBit_lt_two_pow
          (lt_of_lt_of_le hx
            (Nat.pow_le_pow_right (by omega) (by omega)))
      simp [hLow, hZero, (by omega : k + (i - k) = i)]
  · simp [hLow]

/- A word made of the start of one and the end of another. -/
theorem masked_word_eq
    (m : Memory)
    {src dest len : Nat}
    (hLen : len ≤ 32) :
    (mload m dest &&& (256 ^ (32 - len) - 1)) |||
        (mload m src &&&
          (modulus - 1 - (256 ^ (32 - len) - 1))) =
      BigEndian.decode
        (slice m src len ++
          slice m (dest + len) (32 - len)) := by
  have hPow :
      (256 : Nat) ^ (32 - len) = 2 ^ (8 * (32 - len)) := by
    rw [pow_mul]
    norm_num
  have hWord : mload m src < 2 ^ 256 := by
    have hLt := BigEndian.decode_lt (slice m src 32)
    rw [length_slice] at hLt
    exact lt_of_lt_of_eq hLt (by norm_num)
  have hHigh := mload_div m src hLen
  have hLow :
      mload m dest % 256 ^ (32 - len) =
        BigEndian.decode
          (slice m (dest + len) (32 - len)) := by
    have hSplit : (32 : Nat) = len + (32 - len) := by omega
    have hLt := BigEndian.decode_lt
      (slice m (dest + len) (32 - len))
    rw [length_slice] at hLt
    unfold mload
    conv_lhs =>
      rw [hSplit, slice_append, BigEndian.decode_append,
        length_slice]
    rw [← hSplit, Nat.mul_add_mod_self_right,
      Nat.mod_eq_of_lt hLt]
  rw [BigEndian.decode_append, length_slice, ← hHigh, ← hLow,
    hPow, Nat.and_two_pow_sub_one_eq_mod,
    show modulus = 2 ^ 256 from rfl,
    and_high_eq hWord (by omega), Nat.or_comm, Nat.mul_comm,
    ← Nat.two_pow_add_eq_or_of_lt
      (Nat.mod_lt _ (Nat.two_pow_pos _))]

/- A word is written byte by byte. -/
theorem mstore_decode
    (m : Memory)
    (dest : Nat)
    {b : Bytes}
    (hLength : b.length = 32)
    (a : Nat) :
    mstore m dest (BigEndian.decode b) a =
      if dest ≤ a ∧ a < dest + 32 then
        b.getD (a - dest) 0
      else
        m a := by
  have hFixed := BigEndian.encodeFixed_decode b
  rw [hLength] at hFixed
  rw [mstore, hFixed]

theorem getD_slice
    (m : Memory)
    (p : Nat)
    {n i : Nat}
    (hi : i < n) :
    (slice m p n).getD i 0 = m (p + i) := by
  rw [List.getD_eq_getElem _ _ (by simpa using hi),
    getElem_slice]

/- The bytes are in place, and no other byte has changed. -/
structure Copied
    (m m' : Memory)
    (src dest len : Nat) : Prop where
  inside : ∀ i < len, m' (dest + i) = m (src + i)
  outside :
    ∀ a, a < dest ∨ dest + len ≤ a → m' a = m a

/- Copying a word. -/
theorem copied_word
    (m : Memory)
    (src dest : Nat) :
    Copied m (mstore m dest (mload m src)) src dest 32 := by
  constructor
  · intro i hi
    rw [mload, mstore_decode m dest (length_slice m src 32),
      if_pos (by omega), Nat.add_sub_cancel_left,
      getD_slice m src hi]
  · intro a ha
    rw [mload, mstore_decode m dest (length_slice m src 32),
      if_neg (by omega)]

/- Copying less than a word. -/
theorem copied_rest
    (m : Memory)
    {src dest len : Nat}
    (hLen : len < 32) :
    Copied m
      (mstore m dest
        ((mload m dest &&& (256 ^ (32 - len) - 1)) |||
          (mload m src &&&
            (modulus - 1 - (256 ^ (32 - len) - 1)))))
      src dest len := by
  rw [masked_word_eq m hLen.le]
  have hLength :
      (slice m src len ++
        slice m (dest + len) (32 - len)).length = 32 := by
    simp only [List.length_append, length_slice]
    omega
  constructor
  · intro i hi
    rw [mstore_decode m dest hLength, if_pos (by omega),
      Nat.add_sub_cancel_left,
      List.getD_append _ _ _ _ (by simpa using hi),
      getD_slice m src hi]
  · intro a ha
    rw [mstore_decode m dest hLength]
    split_ifs with hWord
    · -- the bytes of the word behind the copied ones
      rw [List.getD_append_right _ _ _ _
          (by simp only [length_slice]; omega),
        length_slice, getD_slice m _ (by omega)]
      congr 1
      omega
    · rfl

/- Copying a word and then what follows. -/
theorem Copied.trans
    {m m' m'' : Memory}
    {src dest len : Nat}
    (hApart : src + (32 + len) ≤ dest)
    (hFirst : Copied m m' src dest 32)
    (hRest : Copied m' m'' (src + 32) (dest + 32) len) :
    Copied m m'' src dest (32 + len) := by
  constructor
  · intro i hi
    by_cases hWord : i < 32
    · rw [hRest.outside _ (by omega), hFirst.inside i hWord]
    · have hInside := hRest.inside (i - 32) (by omega)
      rw [hFirst.outside _ (by omega)] at hInside
      rw [(by omega : dest + i = dest + 32 + (i - 32)),
        hInside, (by omega : src + 32 + (i - 32) = src + i)]
  · intro a ha
    rw [hRest.outside a (by omega),
      hFirst.outside a (by omega)]

/-
  What a copy does: it puts the bytes in place and touches no
  other byte, also where the last word reaches beyond them.
-/
theorem copy_eq_ok
    (len : Nat)
    {src dest : Nat}
    (hApart : src + len ≤ dest)
    (hFit : dest + len < modulus) :
    ∃ m', copy m src dest len = .ok m' ∧
      Copied m m' src dest len := by
  induction len using Nat.strongRecOn
    generalizing m src dest with
  | ind len ih =>
      rw [copy]
      by_cases hWord : 32 ≤ len
      · rw [dif_pos hWord, checkedAdd_of_lt (by omega),
          ok_bind, checkedAdd_of_lt (by omega), ok_bind]
        rcases ih (len - 32) (by omega)
            (by omega : src + 32 + (len - 32) ≤ dest + 32)
            (by omega) with
          ⟨m', hCopy, hRest⟩
        refine ⟨m', hCopy, ?_⟩
        have hBoth := Copied.trans (by omega)
          (copied_word m src dest) hRest
        rwa [Nat.add_sub_cancel' hWord] at hBoth
      · rw [dif_neg hWord]
        by_cases hPos : 0 < len
        · rw [if_pos hPos]
          exact ⟨_, rfl, copied_rest m (by omega)⟩
        · rw [if_neg hPos]
          exact ⟨m, rfl, fun i hi => by omega,
            fun a _ => rfl⟩

------------------------------------------------------------
-- New Byte Strings
------------------------------------------------------------

/- The memory a byte string takes. -/
def bytesSize (len : Nat) : Nat :=
  0x20 + roundUp len

theorem roundUp_bounds
    (len : Nat) :
    len ≤ roundUp len ∧
      roundUp (0x20 + roundUp len) = bytesSize len := by
  unfold bytesSize roundUp
  omega

/- Room for a byte string is taken at the free pointer. -/
theorem newBytes_eq_ok
    (m : Memory)
    {len : Nat}
    (hFree : 0x60 ≤ mload m 0x40)
    (hRoom : mload m 0x40 + bytesSize len ≤ allocLimit) :
    ∃ m', newBytes m len = .ok (mload m 0x40, m') ∧
      mload m' (mload m 0x40) = len ∧
      Takes (bytesSize len) m m' := by
  rcases roundUp_bounds len with ⟨hLe, hSize⟩
  have hModulus : modulus = 2 ^ 256 := rfl
  have hLimit : allocLimit = 0xffffffffffffffff := rfl
  have hBytesSize : bytesSize len = 0x20 + roundUp len := rfl
  rcases allocate_eq_ok m hSize hRoom with
    ⟨m₁, hAlloc, hTakes⟩
  have hStored := hTakes.mstore hFree (le_refl _) len
  refine ⟨_, ?_, ?_, hStored.zeroFill hFree
    (by omega : mload m 0x40 ≤ mload m 0x40 + 0x20) len⟩
  · rw [newBytes, if_neg (by omega), hAlloc, ok_bind]
    rfl
  · rw [mload, slice_zeroFill_of_disjoint _ (by omega)]
    exact mload_mstore m₁ _ (by omega)

theorem newBytes_room
    {len : Nat}
    {result : Nat × Memory}
    (hOk : newBytes m len = .ok result) :
    mload m 0x40 + bytesSize len ≤ allocLimit := by
  rcases roundUp_bounds len with ⟨_, hSize⟩
  unfold newBytes at hOk
  split_ifs at hOk
  rcases bind_eq_ok.mp hOk with ⟨_, hAlloc, _⟩
  exact (allocate_of_ok hSize hAlloc).1

/-
  Bytes below the free pointer are copied to a byte string of
  their own.
-/
theorem newBytes_copy
    (m : Memory)
    {src len : Nat}
    (hLow : 0x60 ≤ src)
    (hBelow : src + len ≤ mload m 0x40)
    (hRoom : mload m 0x40 + bytesSize len ≤ allocLimit) :
    ∃ m₁ m₂,
      newBytes m len = .ok (mload m 0x40, m₁) ∧
      mload m₁ (mload m 0x40) = len ∧
      Grown m m₁ ∧
      copy m₁ src (wrapAdd 0x20 (mload m 0x40)) len =
        .ok m₂ ∧
      BytesAt m₂ (mload m 0x40) (slice m src len) ∧
      Takes (bytesSize len) m m₂ := by
  rcases roundUp_bounds len with ⟨hLe, _⟩
  have hModulus : modulus = 2 ^ 256 := rfl
  have hLimit : allocLimit = 0xffffffffffffffff := rfl
  have hBytesSize : bytesSize len = 0x20 + roundUp len := rfl
  rcases newBytes_eq_ok m (by omega) hRoom with
    ⟨m₁, hNew, hLength, hTakes⟩
  have hDest : wrapAdd 0x20 (mload m 0x40) =
      mload m 0x40 + 0x20 := by
    rw [wrapAdd, Nat.mod_eq_of_lt (by omega), Nat.add_comm]
  rcases copy_eq_ok len
      (by omega : src + len ≤ mload m 0x40 + 0x20)
      (by omega) with
    ⟨m₂, hCopy, hCopied⟩
  have hBoth : Takes (bytesSize len) m m₂ := by
    constructor
    · rw [← hTakes.free_eq]
      apply mload_congr
      intro i hi
      exact hCopied.outside _ (by omega)
    · intro a hFrom hTo
      rw [hCopied.outside a (by omega),
        hTakes.kept a hFrom hTo]
  have hPointer := hBoth.free_eq
  refine ⟨m₁, m₂, hNew, hLength, hTakes.grown, ?_, ?_, hBoth⟩
  · rw [hDest]
    exact hCopy
  · refine ⟨by omega, ?_, ?_, ?_⟩
    · rw [length_slice, ← hLength]
      apply mload_congr
      intro i hi
      exact hCopied.outside _ (by omega)
    · rw [length_slice]
      apply List.ext_getElem (by simp)
      intro i hi hi'
      have hLt : i < len := by simpa using hi
      rw [getElem_slice, getElem_slice,
        hCopied.inside i hLt,
        hTakes.kept _ (by omega) (by omega)]
    · rw [length_slice]
      omega

end Sting
