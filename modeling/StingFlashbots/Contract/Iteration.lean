import StingFlashbots.Contract.Allocation

/-
  Going through the items of a list.

  `toList` counts the items, makes an array and goes through
  them once more; an iterator goes through them once and
  makes a struct for each. Both take memory while they read.
  What they read lies below the free pointer, so that both
  find what a scan finds that takes no memory.

  Key definitions include:
    * `itemsFrom`, `scan`
    * `Below`, `listSize`
    * `loadItems`
    * `drain`, `iterate`

  Main results:
    * `toListFrom_step`, `toList_eq_ok`
    * `toList_eq_iterate`
-/

namespace Sting

open EVM RLPReader

variable {m m' m₀ : Memory}

------------------------------------------------------------
-- Arithmetic
------------------------------------------------------------

theorem byte0_eq
    (m : Memory)
    (q : Nat) :
    byte0 m q = (m q).toNat :=
  byteAt_zero_mload m q

theorem wrapExp_256_of_lt
    {k : Nat}
    (hk : k < 32) :
    wrapExp 256 k = 256 ^ k := by
  rw [wrapExp]
  refine Nat.mod_eq_of_lt ?_
  calc 256 ^ k
      < 256 ^ 32 := Nat.pow_lt_pow_right (by omega) hk
    _ = modulus := by norm_num [modulus]

theorem wrapSub_of_le
    {a b : Nat}
    (hLe : b ≤ a)
    (ha : a < modulus) :
    wrapSub a b = a - b := by
  have hb : b < modulus := by omega
  have hEq : a + (modulus - b) = a - b + modulus := by omega
  rw [wrapSub, Nat.mod_eq_of_lt hb, hEq, Nat.add_mod_right,
    Nat.mod_eq_of_lt (by omega)]

theorem checkedAdd_cases
    (a b : Nat) :
    (a + b < modulus ∧ checkedAdd a b = .ok (a + b)) ∨
      checkedAdd a b = .error (.panic 0x11) := by
  unfold checkedAdd
  split_ifs with hLt
  · exact Or.inl ⟨hLt, rfl⟩
  · exact Or.inr rfl

theorem checkedAdd_eq_ok
    {a b c : Nat}
    (hOk : checkedAdd a b = .ok c) :
    a + b < modulus ∧ c = a + b := by
  rcases checkedAdd_cases a b with ⟨hLt, hEq⟩ | hEq
  · rw [hEq] at hOk
    exact ⟨hLt, (Except.ok.inj hOk).symm⟩
  · rw [hEq] at hOk
    cases hOk

------------------------------------------------------------
-- Bytes That Are Read
------------------------------------------------------------

theorem slice_congr
    {q n : Nat}
    (hSame : ∀ i < n, m' (q + i) = m (q + i)) :
    slice m' q n = slice m q n := by
  apply List.ext_getElem (by simp)
  intro i hi hi'
  have hLt : i < n := by simpa using hi
  rw [getElem_slice, getElem_slice, hSame i hLt]

theorem byte0_congr
    {q : Nat}
    (hSame : m' q = m q) :
    byte0 m' q = byte0 m q := by
  rw [byte0_eq, byte0_eq, hSame]

theorem isList_congr
    {item : RLPItem}
    (hSame : m' item.memPtr = m item.memPtr) :
    isList m' item = isList m item := by
  rw [isList, isList, byte0_congr hSame]

theorem payloadOffset_congr
    {q : Nat}
    (hSame : m' q = m q) :
    payloadOffset m' q = payloadOffset m q := by
  unfold payloadOffset
  rw [byte0_congr hSame]

/- The length in front of an item takes a few bytes. -/
theorem longItemLength_decode
    {q base : Nat}
    (hEnd : q + 1 < modulus)
    (hBase : base < byte0 m q)
    (hShort : byte0 m q ≤ base + 8) :
    longItemLength m q base =
      wrapAdd
        (BigEndian.decode
          (slice m (q + 1) (byte0 m q - base)))
        (wrapAdd (byte0 m q - base) 1) := by
  have hByte := (m q).toNat_lt
  rw [← byte0_eq] at hByte
  have hModulus : modulus = 2 ^ 256 := rfl
  have hNext : wrapAdd q 1 = q + 1 :=
    Nat.mod_eq_of_lt hEnd
  have hLen : wrapSub (byte0 m q) base = byte0 m q - base :=
    wrapSub_of_le hBase.le (by omega)
  unfold longItemLength
  simp only [hLen, hNext]
  rw [wrapSub_of_le (by omega) (by omega),
    wrapExp_256_of_lt (by omega), mload_div m _ (by omega)]

/- Eight bytes behind the first one decide the length. -/
theorem itemLength_congr
    {q : Nat}
    (hEnd : q + 1 < modulus)
    (hSame : ∀ i ≤ 8, m' (q + i) = m (q + i)) :
    itemLength m' q = itemLength m q := by
  have hByte : byte0 m' q = byte0 m q :=
    byte0_congr (hSame 0 (by omega))
  have hLt := (m q).toNat_lt
  rw [← byte0_eq] at hLt
  have hLong
      {base : Nat}
      (hBase : base < byte0 m q)
      (hShort : byte0 m q ≤ base + 8) :
      longItemLength m' q base =
        longItemLength m q base := by
    have hSlice :
        slice m' (q + 1) (byte0 m q - base) =
          slice m (q + 1) (byte0 m q - base) := by
      apply slice_congr
      intro i hi
      rw [Nat.add_assoc]
      exact hSame (1 + i) (by omega)
    rw [longItemLength_decode hEnd (by omega) (by omega),
      longItemLength_decode hEnd hBase hShort, hByte, hSlice]
  unfold itemLength
  rw [hByte]
  split_ifs
  · rfl
  · rfl
  · rw [hLong (by omega) (by omega)]
  · rfl
  · rw [hLong (by omega) (by omega)]

------------------------------------------------------------
-- Scanning
------------------------------------------------------------

/- The items from a pointer to the end, with nothing written. -/
def itemsFrom
    (m : Memory)
    (endPtr : Nat) :
    Nat → Nat → Sol (List RLPItem)
| 0, _ => .error .outOfGas
| fuel + 1, ptr =>
    if ptr < endPtr then do
      let dataLen ← itemLength m ptr
      let nextPtr ← checkedAdd ptr dataLen
      let rest ← itemsFrom m endPtr fuel nextPtr
      return ⟨dataLen, ptr⟩ :: rest
    else
      .ok []

/- The items of a list, with nothing written. -/
def scan
    (m : Memory)
    (item : RLPItem) : Sol (List RLPItem) := do
  require (isList m item = true) ""
  let offset ← payloadOffset m item.memPtr
  let ptr ← checkedAdd item.memPtr offset
  let endPtr := item.memPtr + item.len
  itemsFrom m endPtr (endPtr - ptr + 1) ptr

/- The first item and the rest. -/
theorem itemsFrom_eq_cons
    {endPtr fuel ptr : Nat}
    {item : RLPItem}
    {rest : List RLPItem}
    (hFind :
      itemsFrom m endPtr fuel ptr = .ok (item :: rest)) :
    ∃ fuel', fuel = fuel' + 1 ∧
      item.memPtr = ptr ∧
      itemLength m ptr = .ok item.len ∧
      ptr + item.len < modulus ∧
      itemsFrom m endPtr fuel' (ptr + item.len) =
        .ok rest := by
  cases fuel with
  | zero => cases hFind
  | succ fuel =>
      rw [itemsFrom] at hFind
      split_ifs at hFind with hMore
      · rcases bind_eq_ok.mp hFind with
          ⟨dataLen, hLength, hFind⟩
        rcases bind_eq_ok.mp hFind with
          ⟨nextPtr, hNext, hFind⟩
        rcases bind_eq_ok.mp hFind with
          ⟨found, hRest, hFind⟩
        cases hFind
        rcases checkedAdd_eq_ok hNext with ⟨hLt, rfl⟩
        exact ⟨fuel, rfl, rfl, hLength, hLt, hRest⟩
      · cases hFind

theorem length_itemsFrom_lt
    {endPtr fuel ptr : Nat}
    {items : List RLPItem}
    (hFind : itemsFrom m endPtr fuel ptr = .ok items) :
    items.length < fuel := by
  induction items generalizing fuel ptr with
  | nil =>
      cases fuel with
      | zero => cases hFind
      | succ fuel => exact Nat.succ_pos fuel
  | cons item rest ih =>
      rcases itemsFrom_eq_cons hFind with
        ⟨fuel', rfl, _, _, _, hRest⟩
      exact Nat.succ_lt_succ (ih hRest)

/- Counting the items is scanning and counting. -/
theorem numItemsFrom_eq
    (m : Memory)
    (endPtr : Nat)
    {fuel count : Nat}
    (hCount : count + fuel < modulus)
    (ptr : Nat) :
    numItemsFrom m endPtr fuel ptr count =
      (do
        let items ← itemsFrom m endPtr fuel ptr
        return count + items.length) := by
  induction fuel generalizing count ptr with
  | zero => rfl
  | succ fuel ih =>
      rw [itemsFrom, numItemsFrom]
      by_cases hMore : ptr < endPtr
      · rw [if_pos hMore, if_pos hMore]
        simp only [bind_assoc, pure_bind]
        congr 1
        funext dataLen
        congr 1
        funext nextPtr
        rw [checkedAdd_of_lt (by omega), ok_bind,
          ih (by omega)]
        simp [Nat.add_comm, Nat.add_left_comm]
      · rw [if_neg hMore, if_neg hMore]
        rfl

/- The payload of a list starts behind its prefix. -/
theorem payloadOffset_of_isList
    {item : RLPItem}
    (hList : isList m item = true) :
    item.len ≠ 0 ∧
      ∃ offset, 1 ≤ offset ∧ offset ≤ 9 ∧
        payloadOffset m item.memPtr = .ok offset := by
  unfold isList at hList
  split_ifs at hList with hLen
  simp only [Bool.not_eq_true', decide_eq_false_iff_not,
    not_lt] at hList
  refine ⟨hLen, ?_⟩
  have hByte := (m item.memPtr).toNat_lt
  rw [← byte0_eq] at hByte
  by_cases hShort : byte0 m item.memPtr < 0xf8
  · exact ⟨1, le_refl 1, by omega, by
      rw [payloadOffset, if_neg (by omega),
        if_pos (by omega)]⟩
  · refine ⟨byte0 m item.memPtr - 0xf7 + 1, by omega,
      by omega, ?_⟩
    rw [payloadOffset, if_neg (by omega), if_neg (by omega),
      if_neg (by omega), checkedSub_of_le (by omega), ok_bind,
      checkedAdd_of_lt (by unfold modulus; omega)]

theorem scan_eq_ok
    {item : RLPItem}
    {items : List RLPItem}
    (hScan : scan m item = .ok items) :
    isList m item = true ∧
      ∃ offset,
        payloadOffset m item.memPtr = .ok offset ∧
        item.memPtr + offset < modulus ∧
        itemsFrom m (item.memPtr + item.len)
            (item.memPtr + item.len -
              (item.memPtr + offset) + 1)
            (item.memPtr + offset) =
          .ok items := by
  rcases bind_eq_ok.mp hScan with ⟨_, hList, hScan⟩
  rcases bind_eq_ok.mp hScan with ⟨offset, hOffset, hScan⟩
  rcases bind_eq_ok.mp hScan with ⟨ptr, hPtr, hFind⟩
  rw [require_eq_ok] at hList
  rcases checkedAdd_eq_ok hPtr with ⟨hLt, rfl⟩
  exact ⟨hList, offset, hOffset, hLt, hFind⟩

/- There are fewer items than bytes. -/
theorem length_scan_lt
    {item : RLPItem}
    {items : List RLPItem}
    (hScan : scan m item = .ok items) :
    items.length < item.len := by
  rcases scan_eq_ok hScan with
    ⟨hList, offset, hOffset, _, hFind⟩
  rcases payloadOffset_of_isList hList with
    ⟨hLen, start, hPos, _, hStart⟩
  have hSame := Except.ok.inj (hOffset.symm.trans hStart)
  have hCount := length_itemsFrom_lt hFind
  omega

theorem numItems_eq
    {item : RLPItem}
    (hList : isList m item = true)
    (hEnd : item.memPtr + item.len < modulus) :
    numItems m item = (do
      let items ← scan m item
      return items.length) := by
  rcases payloadOffset_of_isList hList with
    ⟨hLen, offset, hPos, _, hOffset⟩
  simp only [numItems, if_neg hLen, scan, require_pos hList,
    hOffset, ok_bind]
  rcases checkedAdd_cases item.memPtr offset with
    ⟨_, hStart⟩ | hStart
  · rw [hStart, ok_bind, ok_bind, checkedAdd_of_lt hEnd,
      ok_bind, numItemsFrom_eq _ _ (by omega)]
    simp only [Nat.zero_add]
  · rw [hStart]
    rfl

------------------------------------------------------------
-- The Array of a List
------------------------------------------------------------

/-
  A struct and the bytes it points to are in memory that was
  taken before.
-/
structure Below
    (m : Memory)
    (p : Nat) : Prop where
  reserved_le : 0x60 ≤ p
  le_free : p + 0x40 ≤ mload m 0x40
  reserved_le_bytes : 0x60 ≤ (loadItem m p).memPtr
  bytes_le_free :
    (loadItem m p).memPtr + (loadItem m p).len ≤
      mload m 0x40

/- What is found in every memory is an item and a rest. -/
theorem found_cons
    {endPtr fuel ptr : Nat}
    {item : RLPItem}
    {rest : List RLPItem}
    (hFind :
      ∀ m, Grown m₀ m →
        itemsFrom m endPtr fuel ptr = .ok (item :: rest)) :
    item.memPtr = ptr ∧
      ptr + item.len < modulus ∧
      ∃ fuel', ∀ m, Grown m₀ m →
        itemLength m ptr = .ok item.len ∧
        itemsFrom m endPtr fuel' (ptr + item.len) =
          .ok rest := by
  rcases itemsFrom_eq_cons (hFind m₀ (.refl m₀)) with
    ⟨fuel', rfl, hPtr, _, hFit, _⟩
  refine ⟨hPtr, hFit, fuel', ?_⟩
  intro m hGrown
  rcases itemsFrom_eq_cons (hFind m hGrown) with
    ⟨_, hFuel, _, hItem, _, hRest⟩
  cases hFuel
  exact ⟨hItem, hRest⟩

/- A round puts the next item into the array and moves on. -/
theorem toListFrom_step
    {endPtr fuel ptr result size n : Nat}
    {found rest : List RLPItem}
    {item : RLPItem}
    (hFind :
      ∀ m, Grown m₀ m →
        itemsFrom m endPtr fuel ptr = .ok (item :: rest))
    (hTakes : Takes size m₀ m)
    (hFree : 0x60 ≤ mload m₀ 0x40)
    (hNew : mload m₀ 0x40 ≤ result)
    (hItems : ItemsAt m result n found)
    (hLength : found.length < n)
    (hRoom : mload m₀ 0x40 + (size + 0x40) ≤ allocLimit) :
    ∃ m' fuel' ptr',
      toListFrom result (rest.length + 1) found.length m ptr =
        toListFrom result rest.length (found ++ [item]).length
          m' ptr' ∧
      ItemsAt m' result n (found ++ [item]) ∧
      Takes (size + 0x40) m₀ m' ∧
      ∀ m, Grown m₀ m →
        itemsFrom m endPtr fuel' ptr' = .ok rest := by
  have hPointer := hTakes.free_eq
  rcases found_cons hFind with ⟨hPtr, hFit, fuel', hEach⟩
  rcases hItems.push hTakes hFree hNew hLength
      (by omega : item.len < modulus)
      (by omega : item.memPtr < modulus) (by omega) with
    ⟨p, m₁, m₂, hOk, hSet, hPushed, hMore⟩
  refine ⟨m₂, fuel', ptr + item.len, ?_, hPushed, hMore,
    fun m hGrown => (hEach m hGrown).2⟩
  rw [toListFrom, (hEach m hTakes.grown).1, ok_bind, ← hPtr,
    hOk, ok_bind]
  simp only
  rw [hSet, ok_bind, checkedAdd_of_lt (by omega), ok_bind,
    List.length_append, List.length_singleton]

/- Going through the items once more finds the same ones. -/
theorem toListFrom_eq_ok
    {endPtr fuel ptr result size n : Nat}
    {found items : List RLPItem}
    (hFind :
      ∀ m, Grown m₀ m →
        itemsFrom m endPtr fuel ptr = .ok items)
    (hTakes : Takes size m₀ m)
    (hFree : 0x60 ≤ mload m₀ 0x40)
    (hNew : mload m₀ 0x40 ≤ result)
    (hItems : ItemsAt m result n found)
    (hLength : found.length + items.length = n)
    (hRoom :
      mload m₀ 0x40 + size + 0x40 * items.length ≤
        allocLimit) :
    ∃ m',
      toListFrom result items.length found.length m ptr =
        .ok m' ∧
      ItemsAt m' result n (found ++ items) ∧
      Takes (size + 0x40 * items.length) m₀ m' := by
  induction items generalizing m fuel ptr size found with
  | nil =>
      refine ⟨m, rfl, ?_, hTakes⟩
      rw [List.append_nil]
      exact hItems
  | cons item rest ih =>
      rw [List.length_cons] at hLength hRoom ⊢
      rcases toListFrom_step hFind hTakes hFree hNew hItems
          (by omega) (by omega) with
        ⟨m₁, fuel', ptr', hStep, hPushed, hMore, hRest⟩
      rcases ih hRest hMore hPushed (by simp; omega)
          (by omega) with
        ⟨m', hLoop, hAll, hTotal⟩
      have hSum :
          size + 0x40 + 0x40 * rest.length =
            size + 0x40 * (rest.length + 1) := by
        omega
      rw [List.append_assoc, List.singleton_append] at hAll
      rw [hSum] at hTotal
      exact ⟨m', hStep.trans hLoop, hAll, hTotal⟩

/- The loop only ends where there is room for the structs. -/
theorem toListFrom_room
    {endPtr fuel ptr result size n : Nat}
    {found items : List RLPItem}
    (hFind :
      ∀ m, Grown m₀ m →
        itemsFrom m endPtr fuel ptr = .ok items)
    (hTakes : Takes size m₀ m)
    (hFree : 0x60 ≤ mload m₀ 0x40)
    (hNew : mload m₀ 0x40 ≤ result)
    (hItems : ItemsAt m result n found)
    (hLength : found.length + items.length = n)
    (hRoom : mload m₀ 0x40 + size ≤ allocLimit)
    (hOk :
      toListFrom result items.length found.length m ptr =
        .ok m') :
    mload m₀ 0x40 + (size + 0x40 * items.length) ≤
      allocLimit := by
  induction items generalizing m fuel ptr size found with
  | nil => exact hRoom
  | cons item rest ih =>
      rw [List.length_cons] at hLength hOk ⊢
      have hPointer := hTakes.free_eq
      have hOne :
          mload m₀ 0x40 + (size + 0x40) ≤ allocLimit := by
        have hLoop := hOk
        rw [toListFrom] at hLoop
        rcases bind_eq_ok.mp hLoop with ⟨_, _, hLoop⟩
        rcases bind_eq_ok.mp hLoop with ⟨_, hStruct, _⟩
        have hStructRoom :=
          (newItem_of_ok (by omega) hStruct).1
        omega
      rcases toListFrom_step hFind hTakes hFree hNew hItems
          (by omega) hOne with
        ⟨m₁, fuel', ptr', hStep, hPushed, hMore, hRest⟩
      have hAll := ih hRest hMore hPushed (by simp; omega)
        hOne (hStep.symm.trans hOk)
      omega

/- The memory that the array of a list takes. -/
def listSize (n : Nat) : Nat :=
  0x20 + 0xa0 * n

/- The items start at the same place in every memory. -/
theorem scan_start
    {p : Nat}
    {items : List RLPItem}
    (hBelow : Below m p)
    (hScan :
      ∀ m', Grown m m' →
        scan m' (loadItem m p) = .ok items) :
    isList m (loadItem m p) = true ∧
      numItems m (loadItem m p) = .ok items.length ∧
      ∃ offset,
        (loadItem m p).memPtr + offset < modulus ∧
        ∀ m', Grown m m' →
          payloadOffset m' (loadItem m p).memPtr =
            .ok offset ∧
          itemsFrom m'
              ((loadItem m p).memPtr + (loadItem m p).len)
              ((loadItem m p).memPtr + (loadItem m p).len -
                ((loadItem m p).memPtr + offset) + 1)
              ((loadItem m p).memPtr + offset) =
            .ok items := by
  have hLow := hBelow.reserved_le_bytes
  have hHigh := hBelow.bytes_le_free
  have hWord := mload_lt m 0x40
  rcases scan_eq_ok (hScan m (.refl m)) with
    ⟨hList, offset, hOffset, hStart, _⟩
  rcases payloadOffset_of_isList hList with ⟨hLen, _⟩
  refine ⟨hList, ?_, offset, hStart, ?_⟩
  · rw [numItems_eq hList (by omega), hScan m (.refl m)]
    rfl
  · intro m' hGrown
    have hSame :
        payloadOffset m' (loadItem m p).memPtr =
          .ok offset := by
      rw [payloadOffset_congr
        (hGrown.kept _ hLow (by omega)), hOffset]
    refine ⟨hSame, ?_⟩
    rcases scan_eq_ok (hScan m' hGrown) with
      ⟨_, other, hOther, _, hFound⟩
    rw [Except.ok.inj (hSame.symm.trans hOther)]
    exact hFound

/- A new array holds no items yet. -/
theorem ItemsAt.nil
    {n result : Nat}
    (hFree : 0x60 ≤ result)
    (hLength : mload m result = n)
    (hSlots : result + 0x20 + 0x20 * n ≤ mload m 0x40) :
    ItemsAt m result n [] where
  reserved_le := hFree
  length_eq := hLength
  slots_le := hSlots
  element := by
    intro i item hItem
    cases hItem

/- `toList` makes an array and then goes into its loop. -/
theorem toList_eq_loop
    {p : Nat}
    {items : List RLPItem}
    (hBelow : Below m p)
    (hScan :
      ∀ m', Grown m m' →
        scan m' (loadItem m p) = .ok items)
    (hRoom :
      mload m 0x40 + arraySize items.length ≤ allocLimit) :
    ∃ m₁ endPtr fuel ptr,
      toList m p = (do
        let m' ←
          toListFrom (mload m 0x40) items.length 0 m₁ ptr
        return (mload m 0x40, m')) ∧
      ItemsAt m₁ (mload m 0x40) items.length [] ∧
      Takes (arraySize items.length) m m₁ ∧
      ∀ m', Grown m m' →
        itemsFrom m' endPtr fuel ptr = .ok items := by
  have hLow := hBelow.reserved_le
  have hHigh := hBelow.le_free
  have hFree : 0x60 ≤ mload m 0x40 := by omega
  have hArray :
      arraySize items.length = 0x20 + 0x60 * items.length :=
    rfl
  rcases scan_start hBelow hScan with
    ⟨hList, hNum, offset, hStart, hEach⟩
  rcases newItems_eq_ok hFree hRoom with
    ⟨m₁, hNew, hLength, hTakes⟩
  have hPointer := hTakes.free_eq
  have hLoad : loadItem m₁ p = loadItem m p :=
    hTakes.grown.loadItem_eq hLow hHigh
  refine ⟨m₁, _, _, _, ?_, .nil hFree hLength (by omega),
    hTakes, fun m' hGrown => (hEach m' hGrown).2⟩
  rw [toList, require_pos hList, ok_bind, hNum, ok_bind,
    hNew, ok_bind]
  simp only
  rw [hLoad, (hEach m₁ hTakes.grown).1, ok_bind,
    checkedAdd_of_lt hStart, ok_bind]

/- `toList` makes an array of the items that a scan finds. -/
theorem toList_eq_ok
    {p : Nat}
    {items : List RLPItem}
    (hBelow : Below m p)
    (hScan :
      ∀ m', Grown m m' →
        scan m' (loadItem m p) = .ok items)
    (hRoom :
      mload m 0x40 + listSize items.length ≤ allocLimit) :
    ∃ m', toList m p = .ok (mload m 0x40, m') ∧
      ItemsAt m' (mload m 0x40) items.length items ∧
      Takes (listSize items.length) m m' := by
  have hLow := hBelow.reserved_le
  have hHigh := hBelow.le_free
  have hFree : 0x60 ≤ mload m 0x40 := by omega
  have hSum :
      arraySize items.length + 0x40 * items.length =
        listSize items.length := by
    unfold arraySize listSize
    omega
  rw [← hSum] at hRoom ⊢
  rcases toList_eq_loop hBelow hScan (by omega) with
    ⟨m₁, endPtr, fuel, ptr, hEq, hItems, hTakes, hFind⟩
  rcases toListFrom_eq_ok hFind hTakes hFree (le_refl _)
      hItems (by simp) (by omega) with
    ⟨m', hLoop, hAll, hTotal⟩
  rw [List.length_nil] at hLoop
  refine ⟨m', ?_, hAll, hTotal⟩
  rw [hEq, hLoop]
  rfl

/- `toList` only succeeds where there is room for its array. -/
theorem toList_room
    {p : Nat}
    {items : List RLPItem}
    (hBelow : Below m p)
    (hScan :
      ∀ m', Grown m m' →
        scan m' (loadItem m p) = .ok items)
    {result : Nat × Memory}
    (hOk : toList m p = .ok result) :
    mload m 0x40 + listSize items.length ≤ allocLimit := by
  have hLow := hBelow.reserved_le
  have hHigh := hBelow.le_free
  have hFree : 0x60 ≤ mload m 0x40 := by omega
  have hSum :
      arraySize items.length + 0x40 * items.length =
        listSize items.length := by
    unfold arraySize listSize
    omega
  have hArray :
      mload m 0x40 + arraySize items.length ≤
        allocLimit := by
    rcases scan_start hBelow hScan with ⟨hList, hNum, _⟩
    have hMade := hOk
    rw [toList, require_pos hList, ok_bind, hNum, ok_bind]
      at hMade
    rcases bind_eq_ok.mp hMade with ⟨_, hNew, _⟩
    exact newItems_room hFree hNew
  rcases toList_eq_loop hBelow hScan hArray with
    ⟨m₁, endPtr, fuel, ptr, hEq, hItems, hTakes, hFind⟩
  rw [hEq] at hOk
  rcases bind_eq_ok.mp hOk with ⟨m', hLoop, _⟩
  rw [← hSum]
  exact toListFrom_room hFind hTakes hFree (le_refl _)
    hItems (by simp) hArray hLoop

/- `toList` fails where a scan fails. -/
theorem toList_eq_error
    {p : Nat}
    {e : Revert}
    (hEnd :
      (loadItem m p).memPtr + (loadItem m p).len < modulus)
    (hScan : scan m (loadItem m p) = .error e) :
    toList m p = .error e := by
  by_cases hList : isList m (loadItem m p) = true
  · rw [toList, require_pos hList, ok_bind,
      numItems_eq hList hEnd, hScan]
    rfl
  · rw [scan, require, if_neg hList, error_bind] at hScan
    rw [toList, require, if_neg hList, error_bind]
    exact congrArg _ (Except.error.inj hScan)

------------------------------------------------------------
-- Iterators
------------------------------------------------------------

/-
  Take structs from an iterator as long as there are any.
  Like `numItems`, the loop runs out of gas when it does not
  get on.
-/
def drainFrom :
    Nat → Memory → Nat → Sol (List Nat × Memory)
| 0, _, _ => .error .outOfGas
| fuel + 1, m, self => do
    let more ← hasNext m self
    if more = true then
      let (p, m) ← next m self
      let (found, m) ← drainFrom fuel m self
      return (p :: found, m)
    else
      return ([], m)

def drain
    (m : Memory)
    (self : Nat) : Sol (List Nat × Memory) :=
  let it := loadIterator m self
  let item := loadItem m it.item
  let endPtr := item.memPtr + item.len
  drainFrom (endPtr - it.nextPtr + 1) m self

/- Make an iterator and take everything from it. -/
def iterate
    (m : Memory)
    (item : Nat) : Sol (List RLPItem × Memory) := do
  let (self, m) ← iterator m item
  let (found, m) ← drain m self
  return (found.map (loadItem m), m)

/- An iterator in new memory. -/
structure IteratorAt
    (m₀ m : Memory)
    (size iter : Nat)
    (it : Iterator) : Prop where
  takes : Takes size m₀ m
  free_le : mload m₀ 0x40 ≤ iter
  le_free : iter + 0x40 ≤ mload m 0x40
  load_eq : loadIterator m iter = it

/- Only the iterator and new memory were written. -/
structure Advanced
    (iter : Nat)
    (m m' : Memory) : Prop where
  free_le : mload m 0x40 ≤ mload m' 0x40
  kept :
    ∀ a, 0x60 ≤ a → a < mload m 0x40 →
      a < iter + 0x20 ∨ iter + 0x40 ≤ a → m' a = m a

section

variable {iter size item ptr : Nat}

theorem Advanced.trans
    {m'' : Memory}
    (hFirst : Advanced iter m m')
    (hSecond : Advanced iter m' m'') :
    Advanced iter m m'' := by
  have hFree := hFirst.free_le
  constructor
  · exact le_trans hFree hSecond.free_le
  · intro a hLow hHigh hApart
    rw [hSecond.kept a hLow (by omega) hApart,
      hFirst.kept a hLow hHigh hApart]

/- A struct behind the iterator keeps its fields. -/
theorem Advanced.loadItem_eq
    (hAdvanced : Advanced iter m m')
    {p : Nat}
    (hLow : 0x60 ≤ p)
    (hBehind : iter + 0x40 ≤ p)
    (hHigh : p + 0x40 ≤ mload m 0x40) :
    loadItem m' p = loadItem m p := by
  have hWord
      {q : Nat}
      (hFrom : p ≤ q)
      (hTo : q + 32 ≤ p + 0x40) :
      mload m' q = mload m q := by
    apply mload_congr
    intro i hi
    exact hAdvanced.kept _ (by omega) (by omega) (by omega)
  rw [loadItem, hWord (le_refl p) (by omega),
    hWord (by omega) (by omega)]
  rfl

/- The iterator has more items. -/
theorem IteratorAt.hasNext_eq
    (hIterator : IteratorAt m₀ m size iter ⟨item, ptr⟩)
    (hBelow : Below m₀ item)
    (hEnd :
      (loadItem m₀ item).memPtr + (loadItem m₀ item).len <
        modulus) :
    hasNext m iter =
      .ok (decide
        (ptr <
          (loadItem m₀ item).memPtr +
            (loadItem m₀ item).len)) := by
  have hLoad :=
    hIterator.takes.grown.loadItem_eq hBelow.reserved_le
      hBelow.le_free
  rw [hasNext, hIterator.load_eq]
  simp only [hLoad]
  rw [checkedAdd_of_lt hEnd]
  rfl

/- Memory taken afterwards does not touch the iterator. -/
theorem IteratorAt.takes_more
    {it : Iterator}
    {more : Nat}
    (hIterator : IteratorAt m₀ m size iter it)
    (hFree : 0x60 ≤ mload m₀ 0x40)
    (hTakes : Takes more m m') :
    IteratorAt m₀ m' (size + more) iter it where
  takes := hIterator.takes.trans hTakes
  free_le := hIterator.free_le
  le_free :=
    le_trans hIterator.le_free hTakes.grown.free_le
  load_eq := by
    rw [hTakes.grown.loadIterator_eq
      (le_trans hFree hIterator.free_le) hIterator.le_free]
    exact hIterator.load_eq

/- The iterator is moved. -/
theorem IteratorAt.move
    (hIterator : IteratorAt m₀ m size iter ⟨item, ptr⟩)
    (hFree : 0x60 ≤ mload m₀ 0x40)
    {nextPtr : Nat}
    (hNext : nextPtr < modulus) :
    IteratorAt m₀ (mstore m (iter + 0x20) nextPtr) size iter
      ⟨item, nextPtr⟩ := by
  have hLow := hIterator.free_le
  have hHigh := hIterator.le_free
  have hItem : (loadIterator m iter).item = item := by
    rw [hIterator.load_eq]
  have hNew : mload m₀ 0x40 ≤ iter + 0x20 := by omega
  refine ⟨hIterator.takes.mstore hFree hNew nextPtr, hLow,
    ?_, ?_⟩
  · rw [mload_mstore_of_disjoint m (by omega) nextPtr]
    exact hHigh
  · rw [loadIterator,
      mload_mstore_of_disjoint m (Or.inl (le_refl _)) nextPtr,
      mload_mstore m _ hNext, ← hItem]
    rfl

/-
  What `next` does, with the length read from the memory
  there was before.
-/
theorem next_eq
    (hIterator : IteratorAt m₀ m size iter ⟨item, ptr⟩)
    (hBelow : Below m₀ item)
    (hMore :
      ptr <
        (loadItem m₀ item).memPtr + (loadItem m₀ item).len)
    (hSame :
      ∀ m', Grown m₀ m' →
        itemLength m' ptr = itemLength m₀ ptr)
    (hRoom : mload m₀ 0x40 + size + 0x40 ≤ allocLimit) :
    ∃ m₁, Takes 0x40 m m₁ ∧
      next m iter = (do
        let dataLen ← itemLength m₀ ptr
        let nextPtr ← checkedAdd ptr dataLen
        newItem (mstore m₁ (iter + 0x20) nextPtr)
          ⟨dataLen, ptr⟩) := by
  have hModulus : modulus = 2 ^ 256 := rfl
  have hLimit : allocLimit = 0xffffffffffffffff := rfl
  have hZero : (0 : Nat) < modulus := by omega
  have hLow := hBelow.reserved_le
  have hHigh := hBelow.le_free
  have hBytes := hBelow.bytes_le_free
  have hPointer := hIterator.takes.free_eq
  have hFree : 0x60 ≤ mload m₀ 0x40 := by omega
  rcases newItem_eq_ok m ⟨0, 0⟩ hZero hZero (by omega)
      (by omega) with
    ⟨m₁, hNew, _, hTakes⟩
  have hLater := hIterator.takes_more hFree hTakes
  have hHas := hLater.hasNext_eq hBelow (by omega)
  rw [decide_eq_true hMore] at hHas
  refine ⟨m₁, hTakes, ?_⟩
  rw [next, hNew, ok_bind]
  simp only
  rw [hHas, ok_bind, require_pos rfl, ok_bind,
    hLater.load_eq, hSame m₁ hLater.takes.grown]

/- A struct is made and the iterator is moved. -/
theorem next_eq_ok
    (hIterator : IteratorAt m₀ m size iter ⟨item, ptr⟩)
    (hBelow : Below m₀ item)
    (hMore :
      ptr <
        (loadItem m₀ item).memPtr + (loadItem m₀ item).len)
    (hSame :
      ∀ m', Grown m₀ m' →
        itemLength m' ptr = itemLength m₀ ptr)
    {dataLen : Nat}
    (hLength : itemLength m₀ ptr = .ok dataLen)
    (hNext : ptr + dataLen < modulus)
    (hRoom : mload m₀ 0x40 + size + 0x80 ≤ allocLimit) :
    ∃ p m', next m iter = .ok (p, m') ∧
      loadItem m' p = ⟨dataLen, ptr⟩ ∧
      iter + 0x40 ≤ p ∧
      p + 0x40 ≤ mload m' 0x40 ∧
      Advanced iter m m' ∧
      IteratorAt m₀ m' (size + 0x80) iter
        ⟨item, ptr + dataLen⟩ := by
  have hLow := hBelow.reserved_le
  have hHigh := hBelow.le_free
  have hFree : 0x60 ≤ mload m₀ 0x40 := by omega
  have hNew := hIterator.free_le
  have hUnder := hIterator.le_free
  rcases next_eq hIterator hBelow hMore hSame (by omega) with
    ⟨m₁, hTakes, hEq⟩
  have hMoved := (hIterator.takes_more hFree hTakes).move
    hFree hNext
  have hPointer := hMoved.takes.free_eq
  have hPointer₀ := hIterator.takes.free_eq
  rcases newItem_eq_ok
      (mstore m₁ (iter + 0x20) (ptr + dataLen))
      ⟨dataLen, ptr⟩ (by simp only; omega)
      (by simp only; omega) (by omega) (by omega) with
    ⟨m', hOk, hLoad, hMore'⟩
  have hPointer' := hMore'.free_eq
  refine ⟨_, m', ?_, hLoad, by omega, by omega, ?_, ?_⟩
  · rw [hEq, hLength, ok_bind, checkedAdd_of_lt hNext,
      ok_bind, hOk]
  · constructor
    · omega
    · intro a hFrom hTo hApart
      rw [hMore'.kept a hFrom (by omega), mstore,
        if_neg (by omega), hTakes.kept a hFrom hTo]
  · exact hMoved.takes_more hFree hMore'

/-
  Draining an iterator finds what a scan finds and fails as a
  scan does. The induction is on the fuel both have.
-/
theorem drainFrom_eq
    {endPtr : Nat}
    (hBelow : Below m₀ item)
    (hEnd :
      endPtr =
        (loadItem m₀ item).memPtr + (loadItem m₀ item).len)
    (hSame :
      ∀ q, (loadItem m₀ item).memPtr ≤ q → q < endPtr →
        ∀ m', Grown m₀ m' →
          itemLength m' q = itemLength m₀ q)
    (fuel : Nat)
    (hStart : (loadItem m₀ item).memPtr ≤ ptr)
    (hIterator : IteratorAt m₀ m size iter ⟨item, ptr⟩)
    (hRoom :
      mload m₀ 0x40 + size + 0x80 * fuel ≤ allocLimit) :
    (∃ e,
      itemsFrom m₀ endPtr fuel ptr = .error e ∧
      drainFrom fuel m iter = .error e) ∨
    ∃ items found m',
      itemsFrom m₀ endPtr fuel ptr = .ok items ∧
      drainFrom fuel m iter = .ok (found, m') ∧
      found.map (loadItem m') = items ∧
      Grown m₀ m' ∧
      Advanced iter m m' := by
  have hLimit : allocLimit = 0xffffffffffffffff := rfl
  have hModulus : modulus = 2 ^ 256 := rfl
  have hBytes := hBelow.bytes_le_free
  have hLow := hBelow.reserved_le
  have hHigh := hBelow.le_free
  induction fuel generalizing m ptr size with
  | zero => exact Or.inl ⟨_, rfl, rfl⟩
  | succ fuel ih =>
      have hNew := hIterator.free_le
      have hHas := hIterator.hasNext_eq hBelow (by omega)
      rw [← hEnd] at hHas
      rw [itemsFrom, drainFrom, hHas, ok_bind]
      by_cases hMore : ptr < endPtr
      · rw [if_pos hMore, decide_eq_true hMore, if_pos rfl]
        have hHere := hSame ptr hStart hMore
        cases hLength : itemLength m₀ ptr with
        | error e =>
            rcases next_eq hIterator hBelow (by omega) hHere
                (by omega) with
              ⟨m₁, _, hEq⟩
            refine Or.inl ⟨e, rfl, ?_⟩
            rw [hEq, hLength]
            rfl
        | ok dataLen =>
            rw [ok_bind]
            rcases checkedAdd_cases ptr dataLen with
              ⟨hNext, hSum⟩ | hSum
            · rcases next_eq_ok hIterator hBelow (by omega)
                  hHere hLength hNext (by omega) with
                ⟨p, m₁, hOk, hLoad, hBehind, hUnder,
                  hAdvanced, hMoved⟩
              rw [hSum, hOk, ok_bind, ok_bind]
              simp only
              rcases ih (by omega) hMoved (by omega) with
                ⟨e, hFind, hDrain⟩ |
                ⟨items, found, m', hFind, hDrain, hFound,
                  hGrown, hRest⟩
              · rw [hFind, hDrain]
                exact Or.inl ⟨e, rfl, rfl⟩
              · rw [hFind, hDrain]
                refine Or.inr ⟨_, _, m', rfl, rfl, ?_,
                  hGrown, hAdvanced.trans hRest⟩
                -- the struct is not written again
                rw [List.map_cons,
                  hRest.loadItem_eq (by omega) hBehind
                    hUnder,
                  hLoad, hFound]
            · rcases next_eq hIterator hBelow (by omega)
                  hHere (by omega) with
                ⟨m₁, _, hEq⟩
              refine Or.inl ⟨_, by rw [hSum]; rfl, ?_⟩
              rw [hEq, hLength, ok_bind, hSum]
              rfl
      · rw [if_neg hMore, decide_eq_false hMore,
          if_neg Bool.false_ne_true]
        exact Or.inr ⟨[], [], m, rfl, rfl, rfl,
          hIterator.takes.grown,
          ⟨le_refl _, fun _ _ _ _ => rfl⟩⟩

end

------------------------------------------------------------
-- The Same Items Twice
------------------------------------------------------------

theorem itemsFrom_congr
    {endPtr ptr : Nat}
    (hSame :
      ∀ q, ptr ≤ q → q < endPtr →
        itemLength m' q = itemLength m q)
    (fuel : Nat) :
    itemsFrom m' endPtr fuel ptr =
      itemsFrom m endPtr fuel ptr := by
  induction fuel generalizing ptr with
  | zero => rfl
  | succ fuel ih =>
      rw [itemsFrom, itemsFrom]
      by_cases hMore : ptr < endPtr
      · rw [if_pos hMore, if_pos hMore,
          hSame ptr (le_refl ptr) hMore]
        cases itemLength m ptr with
        | error e => rw [error_bind, error_bind]
        | ok dataLen =>
            rw [ok_bind, ok_bind]
            rcases checkedAdd_cases ptr dataLen with
              ⟨_, hSum⟩ | hSum
            · rw [hSum, ok_bind, ok_bind,
                ih fun q hLow hHigh =>
                  hSame q (by omega) hHigh]
            · rw [hSum, error_bind, error_bind]
      · rw [if_neg hMore, if_neg hMore]

theorem scan_congr
    {item : RLPItem}
    (hByte : m' item.memPtr = m item.memPtr)
    (hSame :
      ∀ q, item.memPtr ≤ q → q < item.memPtr + item.len →
        itemLength m' q = itemLength m q) :
    scan m' item = scan m item := by
  unfold scan
  rw [isList_congr hByte, payloadOffset_congr hByte]
  by_cases hList : isList m item = true
  · rcases payloadOffset_of_isList hList with
      ⟨_, offset, _, _, hOffset⟩
    rw [require_pos hList, ok_bind, ok_bind, hOffset,
      ok_bind, ok_bind]
    rcases checkedAdd_cases item.memPtr offset with
      ⟨_, hSum⟩ | hSum
    · rw [hSum, ok_bind, ok_bind]
      exact itemsFrom_congr
        (fun q hFrom hTo => hSame q (by omega) hTo) _
    · rw [hSum, error_bind, error_bind]
  · rw [require, if_neg hList, error_bind, error_bind]

/- What `iterator` reads and where it puts the iterator. -/
theorem iterator_eq
    {p : Nat}
    (hBelow : Below m p)
    (hFirst : (loadItem m p).memPtr < mload m 0x40)
    (hRoom : mload m 0x40 + 0x80 ≤ allocLimit) :
    ∃ m₁, Takes (0x40 + 0x40) m m₁ ∧
      iterator m p = (do
        require (isList m (loadItem m p) = true) ""
        let offset ← payloadOffset m (loadItem m p).memPtr
        let ptr ← checkedAdd (loadItem m p).memPtr offset
        newIterator m₁ ⟨p, ptr⟩) := by
  have hModulus : modulus = 2 ^ 256 := rfl
  have hLimit : allocLimit = 0xffffffffffffffff := rfl
  have hZero : (0 : Nat) < modulus := by omega
  have hLow := hBelow.reserved_le
  have hHigh := hBelow.le_free
  have hFree : 0x60 ≤ mload m 0x40 := by omega
  rcases newIterator_eq_ok m ⟨0, 0⟩ hZero hZero hFree
      (by omega) with
    ⟨m₁, hIterator, _, hTakes⟩
  have hPointer := hTakes.free_eq
  rcases newItem_eq_ok m₁ ⟨0, 0⟩ hZero hZero (by omega)
      (by omega) with
    ⟨m₂, hItem, _, hMore⟩
  have hBoth := (hTakes.trans hMore).mstore hFree
    (le_refl (mload m 0x40)) (mload m₁ 0x40)
  refine ⟨_, hBoth, ?_⟩
  have hByte := hBoth.kept _ hBelow.reserved_le_bytes hFirst
  rw [iterator, hIterator, ok_bind]
  simp only
  rw [hItem, ok_bind]
  simp only
  rw [hBoth.grown.loadItem_eq hLow hHigh,
    isList_congr hByte, payloadOffset_congr hByte]

/-
  Iterating finds what a scan finds, where the lengths are
  read from memory that was taken before.
-/
theorem iterate_eq_scan
    {p : Nat}
    (hBelow : Below m p)
    (hFirst : (loadItem m p).memPtr < mload m 0x40)
    (hSame :
      ∀ q, (loadItem m p).memPtr ≤ q →
        q < (loadItem m p).memPtr + (loadItem m p).len →
        ∀ m', Grown m m' →
          itemLength m' q = itemLength m q)
    (hRoom :
      mload m 0x40 + 0xc0 + 0xa0 * (loadItem m p).len ≤
        allocLimit) :
    (∃ e,
      scan m (loadItem m p) = .error e ∧
      iterate m p = .error e) ∨
    ∃ items m',
      scan m (loadItem m p) = .ok items ∧
      iterate m p = .ok (items, m') ∧
      Grown m m' := by
  have hModulus : modulus = 2 ^ 256 := rfl
  have hLimit : allocLimit = 0xffffffffffffffff := rfl
  have hLow := hBelow.reserved_le
  have hHigh := hBelow.le_free
  have hFree : 0x60 ≤ mload m 0x40 := by omega
  rcases iterator_eq hBelow hFirst (by omega) with
    ⟨m₁, hTakes, hEq⟩
  by_cases hList : isList m (loadItem m p) = true
  · rcases payloadOffset_of_isList hList with
      ⟨hLen, offset, hPos, hNine, hOffset⟩
    have hFit :
        (loadItem m p).memPtr + offset < modulus := by omega
    have hPointer := hTakes.free_eq
    rcases newIterator_eq_ok m₁
        ⟨p, (loadItem m p).memPtr + offset⟩
        (by simp only; omega) hFit (by omega) (by omega) with
      ⟨m₂, hNew, hLoad, hMore⟩
    have hIterator :
        IteratorAt m m₂ (0x40 + 0x40 + 0x40) (mload m₁ 0x40)
          ⟨p, (loadItem m p).memPtr + offset⟩ :=
      { takes := hTakes.trans hMore
        free_le := hTakes.grown.free_le
        le_free := hMore.free_eq.ge
        load_eq := hLoad }
    have hItem :=
      hIterator.takes.grown.loadItem_eq hLow hHigh
    rw [require_pos hList, ok_bind, hOffset, ok_bind,
      checkedAdd_of_lt hFit, ok_bind, hNew] at hEq
    rw [scan, require_pos hList, ok_bind, hOffset, ok_bind,
      checkedAdd_of_lt hFit, ok_bind, iterate, hEq, ok_bind]
    simp only [drain, hLoad, hItem]
    rcases drainFrom_eq hBelow rfl hSame
        ((loadItem m p).memPtr + (loadItem m p).len -
          ((loadItem m p).memPtr + offset) + 1)
        (by omega) hIterator (by omega) with
      ⟨e, hFind, hDrain⟩ |
      ⟨items, found, m', hFind, hDrain, hFound, hGrown, _⟩
    · rw [hFind, hDrain]
      exact Or.inl ⟨e, rfl, rfl⟩
    · rw [hFind, hDrain]
      refine Or.inr ⟨items, m', rfl, ?_, hGrown⟩
      rw [ok_bind]
      simp only [hFound]
      rfl
  · rw [require, if_neg hList, error_bind] at hEq
    rw [scan, require, if_neg hList, iterate, hEq]
    exact Or.inl ⟨_, rfl, rfl⟩

/- The structs an array points to. -/
def loadItems
    (m : Memory)
    (items : Nat) : List RLPItem :=
  (List.range (mload m items)).map fun i =>
    loadItem m (mload m (items + 0x20 + 0x20 * i))

theorem ItemsAt.loadItems_eq
    {result : Nat}
    {items : List RLPItem}
    (hItems : ItemsAt m result items.length items) :
    loadItems m result = items := by
  rw [loadItems, hItems.length_eq]
  apply List.ext_getElem (by simp)
  intro i hi hi'
  rcases hItems.element i _ (List.getElem?_eq_getElem hi')
    with ⟨p, hp, hLoad, _⟩
  simp only [List.getElem_map, List.getElem_range]
  rw [hp, hLoad]

/-
  On every item below the free pointer, well formed or not,
  `toList` and the iterator find the same items or fail in
  the same way. Memory that was taken before stays as it is.
  A length in front of the last item may take eight bytes
  beyond the end of the list.
-/
theorem toList_eq_iterate
    (m : Memory)
    (item : Nat)
    (hBelow : Below m item)
    (hLengths :
      (loadItem m item).memPtr + (loadItem m item).len + 8 ≤
        mload m 0x40)
    (hRoom :
      mload m 0x40 + 0xc0 + 0xa0 * (loadItem m item).len ≤
        allocLimit) :
    (∃ e,
      toList m item = .error e ∧
      iterate m item = .error e) ∨
    ∃ items result m₁ m₂,
      toList m item = .ok (result, m₁) ∧
      loadItems m₁ result = items ∧
      iterate m item = .ok (items, m₂) ∧
      Grown m m₁ ∧
      Grown m m₂ := by
  have hModulus : modulus = 2 ^ 256 := rfl
  have hLimit : allocLimit = 0xffffffffffffffff := rfl
  have hLow := hBelow.reserved_le_bytes
  have hFirst :
      (loadItem m item).memPtr < mload m 0x40 := by omega
  have hSame
      (q : Nat)
      (hFrom : (loadItem m item).memPtr ≤ q)
      (hTo :
        q < (loadItem m item).memPtr +
          (loadItem m item).len)
      (m' : Memory)
      (hGrown : Grown m m') :
      itemLength m' q = itemLength m q := by
    apply itemLength_congr (by omega)
    intro i hi
    exact hGrown.kept _ (by omega) (by omega)
  rcases iterate_eq_scan hBelow hFirst hSame hRoom with
    ⟨e, hScan, hIterate⟩ | ⟨items, m₂, hScan, hIterate, hGrown₂⟩
  · exact Or.inl
      ⟨e, toList_eq_error (by omega) hScan, hIterate⟩
  · have hEvery (m' : Memory) (hGrown : Grown m m') :
        scan m' (loadItem m item) = .ok items := by
      rw [← hScan]
      exact scan_congr (hGrown.kept _ hLow hFirst)
        fun q hFrom hTo => hSame q hFrom hTo m' hGrown
    have hCount := length_scan_lt hScan
    have hSize : listSize items.length =
        0x20 + 0xa0 * items.length := rfl
    rcases toList_eq_ok hBelow hEvery (by omega) with
      ⟨m₁, hList, hItems, hTakes⟩
    exact Or.inr ⟨items, _, m₁, m₂, hList,
      hItems.loadItems_eq, hIterate, hTakes.grown, hGrown₂⟩

/- A struct at `0x80` for the bytes of a list at `0xc0`. -/
def sampleStruct : Memory :=
  mstore
    (mstore
      (mstore
        (fun a => [0xc2, 0x01, 0x02].getD (a - 0xc0) 0x00)
        0x80 3)
      0xa0 0xc0)
    0x40 0x100

theorem toList_eq_iterate_sample :
    (∃ e,
      toList sampleStruct 0x80 = .error e ∧
      iterate sampleStruct 0x80 = .error e) ∨
    ∃ items result m₁ m₂,
      toList sampleStruct 0x80 = .ok (result, m₁) ∧
      loadItems m₁ result = items ∧
      iterate sampleStruct 0x80 = .ok (items, m₂) ∧
      Grown sampleStruct m₁ ∧
      Grown sampleStruct m₂ :=
  toList_eq_iterate sampleStruct 0x80
    { reserved_le := by decide
      le_free := by decide +kernel
      reserved_le_bytes := by decide +kernel
      bytes_le_free := by decide +kernel }
    (by decide +kernel)
    (by decide +kernel)

end Sting
