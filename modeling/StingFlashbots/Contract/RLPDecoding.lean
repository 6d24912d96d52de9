import StingFlashbots.Contract.Iteration
import StingFlashbots.Encoding.RLP

/-
  The reader decodes every encoding.

  An item that lies in memory, however deep its lists and
  however long its strings, is found by the reader piece by
  piece: `toList` gives the positions of the elements of a
  list, `toBytes` a copy of a string.

  Key definitions include:
    * `HoldsAt`
    * `readTree`
    * `allocated`

  Main results:
    * `toList_holdsAt`
    * `toUint_holdsAt`
    * `toBytes_holdsAt`
    * `readTree_encode`
-/

namespace Sting

open EVM RLPReader

variable {m m' : Memory}

------------------------------------------------------------
-- Bytes
------------------------------------------------------------

/- The first byte of what lies at a pointer. -/
theorem head_of_slice
    {q : Nat}
    {x : UInt8}
    {rest : Bytes}
    (hSlice : slice m q (x :: rest).length = x :: rest) :
    m q = x ∧ slice m (q + 1) rest.length = rest := by
  rw [List.length_cons, slice_succ] at hSlice
  exact List.cons.inj hSlice

theorem toNat_ofNat_of_lt_256
    {k : Nat}
    (hk : k < 256) :
    (UInt8.ofNat k).toNat = k := by
  simpa using hk

------------------------------------------------------------
-- Prefixes
------------------------------------------------------------

/- The reader understands a prefix of either kind. -/
structure ReadsPrefix
    (m : Memory)
    (q offset length : Nat) : Prop where
  itemLength_eq :
    itemLength m q =
      .ok ((RLP.lengthPrefix offset length).length + length)
  payloadOffset_eq :
    payloadOffset m q =
      .ok (RLP.lengthPrefix offset length).length
  le_byte0 : offset ≤ byte0 m q
  byte0_lt : byte0 m q < offset + 0x40

theorem longItemLength_eq
    {q base length : Nat}
    (hLong : 56 ≤ length)
    (hFit : length < 256 ^ 8)
    (hByte :
      byte0 m q = base + (BigEndian.encode length).length)
    (hSlice :
      slice m (q + 1) (BigEndian.encode length).length =
        BigEndian.encode length)
    (hEnd : q + 1 < modulus) :
    longItemLength m q base =
      (BigEndian.encode length).length + 1 + length := by
  rcases RLP.lengthOfLength_bounds hLong hFit with
    ⟨hPos, hLe⟩
  have hModulus : modulus = 2 ^ 256 := rfl
  have hPow : (256 : Nat) ^ 8 < 2 ^ 256 := by norm_num
  have hLen :
      byte0 m q - base = (BigEndian.encode length).length := by
    omega
  rw [longItemLength_decode hEnd (by omega) (by omega), hLen,
    hSlice, BigEndian.decode_encode]
  unfold wrapAdd
  rw [Nat.mod_eq_of_lt (by omega : _ + 1 < modulus),
    Nat.mod_eq_of_lt (by omega)]
  omega

theorem readsPrefix_short
    {q offset length : Nat}
    (hKind : offset = 0x80 ∨ offset = 0xc0)
    (hShort : length < 56)
    (hByte : byte0 m q = offset + length) :
    ReadsPrefix m q offset length := by
  have hOne := RLP.length_lengthPrefix_of_lt hShort offset
  have hAdd : checkedAdd length 1 = .ok (1 + length) := by
    rw [checkedAdd_of_lt (by unfold modulus; omega),
      Nat.add_comm]
  have hSub :
      checkedSub (offset + length) offset = .ok length := by
    rw [checkedSub_of_le (by omega), Nat.add_sub_cancel_left]
  rcases hKind with rfl | rfl
  · refine ⟨?_, ?_, by omega, by omega⟩
    · rw [itemLength, hByte, if_neg (by omega),
        if_pos (by omega), hSub, ok_bind, hAdd, hOne]
    · rw [payloadOffset, hByte, if_neg (by omega),
        if_pos (by omega), hOne]
  · refine ⟨?_, ?_, by omega, by omega⟩
    · rw [itemLength, hByte, if_neg (by omega),
        if_neg (by omega), if_neg (by omega),
        if_pos (by omega), hSub, ok_bind, hAdd, hOne]
    · rw [payloadOffset, hByte, if_neg (by omega),
        if_pos (by omega), hOne]

theorem readsPrefix_long
    {q offset length : Nat}
    (hKind : offset = 0x80 ∨ offset = 0xc0)
    (hLong : 56 ≤ length)
    (hFit : length < 256 ^ 8)
    (hByte :
      byte0 m q =
        offset + 55 + (BigEndian.encode length).length)
    (hSlice :
      slice m (q + 1) (BigEndian.encode length).length =
        BigEndian.encode length)
    (hEnd : q + 1 < modulus) :
    ReadsPrefix m q offset length := by
  rcases RLP.lengthOfLength_bounds hLong hFit with
    ⟨hPos, hLe⟩
  have hPrefix :
      (RLP.lengthPrefix offset length).length =
        (BigEndian.encode length).length + 1 := by
    rw [RLP.lengthPrefix, if_neg (by omega)]
    rfl
  have hLength :=
    longItemLength_eq hLong hFit hByte hSlice hEnd
  have hSub :
      checkedSub
          (offset + 55 + (BigEndian.encode length).length)
          (offset + 55) =
        .ok (BigEndian.encode length).length := by
    rw [checkedSub_of_le (by omega), Nat.add_sub_cancel_left]
  have hAdd :
      checkedAdd (BigEndian.encode length).length 1 =
        .ok ((BigEndian.encode length).length + 1) :=
    checkedAdd_of_lt (by unfold modulus; omega)
  rcases hKind with rfl | rfl
  · refine ⟨?_, ?_, by omega, by omega⟩
    · rw [itemLength, if_neg (by omega), if_neg (by omega),
        if_pos (by omega), hPrefix]
      exact congrArg _ hLength
    · rw [payloadOffset, hByte, if_neg (by omega),
        if_neg (by omega), if_pos (by omega), hPrefix]
      exact bind_eq_ok.mpr ⟨_, hSub, hAdd⟩
  · refine ⟨?_, ?_, by omega, by omega⟩
    · rw [itemLength, if_neg (by omega), if_neg (by omega),
        if_neg (by omega), if_neg (by omega), hPrefix]
      exact congrArg _ hLength
    · rw [payloadOffset, hByte, if_neg (by omega),
        if_neg (by omega), if_neg (by omega), hPrefix]
      exact bind_eq_ok.mpr ⟨_, hSub, hAdd⟩

/- A prefix in memory is understood. -/
theorem readsPrefix_of_slice
    {q offset length : Nat}
    (hKind : offset = 0x80 ∨ offset = 0xc0)
    (hFit : length < 256 ^ 8)
    (hSlice :
      slice m q (RLP.lengthPrefix offset length).length =
        RLP.lengthPrefix offset length)
    (hEnd : q + 1 < modulus) :
    ReadsPrefix m q offset length := by
  by_cases hShort : length < 56
  · apply readsPrefix_short hKind hShort
    rw [RLP.lengthPrefix, if_pos hShort] at hSlice
    rw [byte0_eq, (head_of_slice hSlice).1,
      toNat_ofNat_of_lt_256 (by omega)]
  · rcases RLP.lengthOfLength_bounds (by omega) hFit with
      ⟨hPos, hLe⟩
    rw [RLP.lengthPrefix, if_neg hShort] at hSlice
    rcases head_of_slice hSlice with ⟨hHead, hRest⟩
    apply readsPrefix_long hKind (by omega) hFit _ hRest hEnd
    rw [byte0_eq, hHead, toNat_ofNat_of_lt_256 (by omega)]

------------------------------------------------------------
-- Items
------------------------------------------------------------

/- The item lies in memory. -/
structure HoldsAt
    (m : Memory)
    (item : RLPItem)
    (x : RLP.Item) : Prop where
  len_eq : item.len = (RLP.encode x).length
  slice_eq :
    slice m item.memPtr (RLP.encode x).length = RLP.encode x

/- What is encoded behind the prefix. -/
def payload : RLP.Item → Bytes
| .str b => b
| .list xs => RLP.encodeList xs

/- The item is a list. -/
def isListItem : RLP.Item → Bool
| .str _ => false
| .list _ => true

/- How the reader sees an item. -/
structure ReadsItem
    (m : Memory)
    (q : Nat)
    (x : RLP.Item) : Prop where
  itemLength_eq : itemLength m q = .ok (RLP.encode x).length
  payload_eq :
    ∃ offset, payloadOffset m q = .ok offset ∧
      offset + (payload x).length = (RLP.encode x).length ∧
      slice m (q + offset) (payload x).length = payload x
  le_byte0_iff : 0xc0 ≤ byte0 m q ↔ isListItem x = true

/- A prefix and a payload behind it. -/
theorem readsItem_of_prefix
    {q offset : Nat}
    {x : RLP.Item}
    (hKind :
      offset = if isListItem x then 0xc0 else 0x80)
    (hFit : (payload x).length < 256 ^ 8)
    (hEncode :
      RLP.encode x =
        RLP.lengthPrefix offset (payload x).length ++
          payload x)
    (hSlice :
      slice m q (RLP.encode x).length = RLP.encode x)
    (hEnd : q + 1 < modulus) :
    ReadsItem m q x := by
  rw [hEncode, List.length_append, slice_append] at hSlice
  rcases List.append_inj hSlice (by simp) with
    ⟨hPrefix, hPayload⟩
  have hOffset : offset = 0x80 ∨ offset = 0xc0 := by
    rw [hKind]
    cases isListItem x with
    | false => exact Or.inl rfl
    | true => exact Or.inr rfl
  have hReads :=
    readsPrefix_of_slice hOffset hFit hPrefix hEnd
  have hLow := hReads.le_byte0
  have hHigh := hReads.byte0_lt
  refine ⟨?_, ?_, ?_⟩
  · rw [hReads.itemLength_eq, hEncode, List.length_append]
  · refine ⟨_, hReads.payloadOffset_eq, ?_, hPayload⟩
    rw [hEncode, List.length_append]
  · cases hList : isListItem x with
    | false =>
        rw [hList] at hKind
        simp only [Bool.false_eq_true, if_false] at hKind
        simp only [Bool.false_eq_true, iff_false, not_le]
        omega
    | true =>
        rw [hList] at hKind
        simp only [if_true] at hKind
        simp only [iff_true]
        omega

/- Every item in memory is seen as it is. -/
theorem readsItem_of_slice
    {q : Nat}
    {x : RLP.Item}
    (hFit : x.Encodable)
    (hSlice :
      slice m q (RLP.encode x).length = RLP.encode x)
    (hEnd : q + 1 < modulus) :
    ReadsItem m q x := by
  cases x with
  | list xs =>
      exact readsItem_of_prefix rfl hFit.1 rfl hSlice hEnd
  | str b =>
      rcases RLP.encodeStr_eq b with
        ⟨x, rfl, hx, hEncode⟩ | ⟨_, hEncode⟩
      · -- a small byte stands for itself
        have hOne : RLP.encode (.str [x]) = [x] := hEncode
        rw [hOne] at hSlice
        have hLow : byte0 m q < 0x80 := by
          rw [byte0_eq, (head_of_slice hSlice).1]
          simpa using UInt8.lt_iff_toNat_lt.mp hx
        refine ⟨?_, ⟨0, ?_, ?_, hSlice⟩, ?_⟩
        · simp [itemLength, hLow, hOne]
        · simp [payloadOffset, hLow]
        · rw [hOne, Nat.zero_add]
          rfl
        · simp only [isListItem, Bool.false_eq_true,
            iff_false, not_le]
          omega
      · exact readsItem_of_prefix rfl hFit hEncode hSlice hEnd

/- The reader tells lists from strings. -/
theorem isList_holdsAt
    {item : RLPItem}
    {x : RLP.Item}
    (hFit : x.Encodable)
    (hHolds : HoldsAt m item x)
    (hEnd : item.memPtr + item.len < modulus) :
    isList m item = isListItem x := by
  have hLen := hHolds.len_eq
  have hPos := RLP.encode_length_pos x
  have hReads := readsItem_of_slice hFit hHolds.slice_eq
    (by omega)
  rw [isList, if_neg (by omega), Bool.eq_iff_iff,
    Bool.not_eq_true', decide_eq_false_iff_not, not_lt]
  exact hReads.le_byte0_iff

------------------------------------------------------------
-- The Elements of a List
------------------------------------------------------------

/- Where encodings lie that follow each other. -/
def itemsAt : Nat → List RLP.Item → List RLPItem
| _, [] => []
| q, x :: xs =>
    ⟨(RLP.encode x).length, q⟩ ::
      itemsAt (q + (RLP.encode x).length) xs

theorem holdsAt_itemsAt
    {q : Nat}
    {xs : List RLP.Item}
    (hSlice :
      slice m q (RLP.encodeList xs).length =
        RLP.encodeList xs) :
    List.Forall₂ (HoldsAt m) (itemsAt q xs) xs := by
  induction xs generalizing q with
  | nil => exact .nil
  | cons x xs ih =>
      rw [RLP.encodeList, List.length_append,
        slice_append] at hSlice
      rcases List.append_inj hSlice (by simp) with
        ⟨hHead, hTail⟩
      exact .cons ⟨rfl, hHead⟩ (ih hTail)

theorem mem_itemsAt
    {q : Nat}
    {xs : List RLP.Item}
    {element : RLPItem}
    (hMem : element ∈ itemsAt q xs) :
    q ≤ element.memPtr ∧
      element.memPtr + element.len ≤
        q + (RLP.encodeList xs).length := by
  induction xs generalizing q with
  | nil => cases hMem
  | cons x xs ih =>
      rw [RLP.encodeList, List.length_append]
      rcases List.mem_cons.mp hMem with rfl | hTail
      · simp only
        omega
      · have hBounds := ih hTail
        omega

/- A scan finds the elements one after the other. -/
theorem itemsFrom_itemsAt
    {endPtr : Nat}
    (hEnd : endPtr < modulus)
    {xs : List RLP.Item}
    (hFit : ∀ x ∈ xs, x.Encodable)
    {fuel q : Nat}
    (hFuel : (RLP.encodeList xs).length < fuel)
    (hStop : q + (RLP.encodeList xs).length = endPtr)
    (hSlice :
      slice m q (RLP.encodeList xs).length =
        RLP.encodeList xs) :
    itemsFrom m endPtr fuel q = .ok (itemsAt q xs) := by
  induction xs generalizing fuel q with
  | nil =>
      rcases Nat.exists_eq_add_of_lt hFuel with ⟨k, rfl⟩
      simp only [RLP.encodeList, List.length_nil] at hStop
      rw [itemsFrom, if_neg (by omega)]
      rfl
  | cons x xs ih =>
      have hPos := RLP.encode_length_pos x
      rw [RLP.encodeList, List.length_append] at hFuel hStop
      rw [RLP.encodeList, List.length_append,
        slice_append] at hSlice
      rcases List.append_inj hSlice (by simp) with
        ⟨hHead, hTail⟩
      rcases Nat.exists_eq_add_of_lt hFuel with ⟨k, rfl⟩
      have hReads := readsItem_of_slice (hFit x (by simp))
        hHead (by omega)
      rw [itemsFrom, if_pos (by omega),
        hReads.itemLength_eq, ok_bind,
        checkedAdd_of_lt (by omega), ok_bind,
        ih (fun y hy => hFit y (by simp [hy])) (by omega)
          (by omega) hTail]
      rfl

/- The elements of an encoded list are scanned. -/
theorem scan_holdsAt
    {item : RLPItem}
    {xs : List RLP.Item}
    (hFit : (RLP.Item.list xs).Encodable)
    (hHolds : HoldsAt m item (.list xs))
    (hEnd : item.memPtr + item.len < modulus) :
    ∃ q, item.memPtr ≤ q ∧
      q + (RLP.encodeList xs).length =
        item.memPtr + item.len ∧
      slice m q (RLP.encodeList xs).length =
        RLP.encodeList xs ∧
      scan m item = .ok (itemsAt q xs) := by
  have hLen := hHolds.len_eq
  have hPos := RLP.encode_length_pos (.list xs)
  have hReads := readsItem_of_slice hFit hHolds.slice_eq
    (by omega)
  rcases hReads.payload_eq with
    ⟨offset, hOffset, hLength, hSlice⟩
  simp only [payload] at hLength hSlice
  have hList : isList m item = true :=
    isList_holdsAt hFit hHolds hEnd
  refine ⟨item.memPtr + offset, by omega, by omega, hSlice,
    ?_⟩
  rw [scan, require_pos hList, ok_bind, hOffset, ok_bind,
    checkedAdd_of_lt (by omega), ok_bind]
  exact itemsFrom_itemsAt hEnd (fun x hx => hFit.of_mem hx)
    (by omega) (by omega) hSlice

/- An item below the free pointer stays where it is. -/
theorem HoldsAt.grown
    {item : RLPItem}
    {x : RLP.Item}
    (hHolds : HoldsAt m item x)
    (hGrown : Grown m m')
    (hLow : 0x60 ≤ item.memPtr)
    (hHigh : item.memPtr + item.len ≤ mload m 0x40) :
    HoldsAt m' item x := by
  refine ⟨hHolds.len_eq, ?_⟩
  rw [hGrown.slice_eq hLow
    (by rw [← hHolds.len_eq]; exact hHigh)]
  exact hHolds.slice_eq

/- The same elements are scanned when memory has grown. -/
theorem scan_holdsAt_grown
    {p : Nat}
    {xs : List RLP.Item}
    (hFit : (RLP.Item.list xs).Encodable)
    (hBelow : Below m p)
    (hHolds : HoldsAt m (loadItem m p) (.list xs)) :
    ∃ q, (loadItem m p).memPtr ≤ q ∧
      q + (RLP.encodeList xs).length =
        (loadItem m p).memPtr + (loadItem m p).len ∧
      slice m q (RLP.encodeList xs).length =
        RLP.encodeList xs ∧
      ∀ m', Grown m m' →
        scan m' (loadItem m p) = .ok (itemsAt q xs) := by
  have hWord := mload_lt m 0x40
  have hHigh := hBelow.bytes_le_free
  have hEnd :
      (loadItem m p).memPtr + (loadItem m p).len < modulus :=
    by omega
  rcases scan_holdsAt hFit hHolds hEnd with
    ⟨q, hStart, hStop, hSlice, _⟩
  refine ⟨q, hStart, hStop, hSlice, ?_⟩
  intro m' hGrown
  rcases scan_holdsAt hFit
      (hHolds.grown hGrown hBelow.reserved_le_bytes hHigh)
      hEnd with
    ⟨q', _, hStop', _, hScan⟩
  rw [hScan, (by omega : q' = q)]

/- The reader finds the elements of every encoded list. -/
theorem toList_holdsAt
    {p : Nat}
    {xs : List RLP.Item}
    (hFit : (RLP.Item.list xs).Encodable)
    (hBelow : Below m p)
    (hHolds : HoldsAt m (loadItem m p) (.list xs))
    (hRoom : mload m 0x40 + listSize xs.length ≤ allocLimit) :
    ∃ items m', toList m p = .ok (mload m 0x40, m') ∧
      ItemsAt m' (mload m 0x40) xs.length items ∧
      List.Forall₂ (HoldsAt m') items xs ∧
      (∀ element ∈ items,
        0x60 ≤ element.memPtr ∧
          element.memPtr + element.len ≤ mload m 0x40) ∧
      Takes (listSize xs.length) m m' := by
  have hLow := hBelow.reserved_le_bytes
  have hHigh := hBelow.bytes_le_free
  rcases scan_holdsAt_grown hFit hBelow hHolds with
    ⟨q, hStart, hStop, hSlice, hScan⟩
  have hLength :
      (itemsAt q xs).length = xs.length :=
    (holdsAt_itemsAt hSlice).length_eq
  rcases toList_eq_ok hBelow hScan
      (by rw [hLength]; exact hRoom) with
    ⟨m', hList, hItems, hTakes⟩
  rw [hLength] at hItems hTakes
  refine ⟨_, m', hList, hItems, ?_, ?_, hTakes⟩
  · apply holdsAt_itemsAt
    rw [hTakes.grown.slice_eq (by omega) (by omega)]
    exact hSlice
  · intro element hElement
    have hBounds := mem_itemsAt hElement
    omega

theorem toList_holdsAt_room
    {p : Nat}
    {xs : List RLP.Item}
    (hFit : (RLP.Item.list xs).Encodable)
    (hBelow : Below m p)
    (hHolds : HoldsAt m (loadItem m p) (.list xs))
    {result : Nat × Memory}
    (hOk : toList m p = .ok result) :
    mload m 0x40 + listSize xs.length ≤ allocLimit := by
  rcases scan_holdsAt_grown hFit hBelow hHolds with
    ⟨q, _, _, hSlice, hScan⟩
  rw [← (holdsAt_itemsAt hSlice).length_eq]
  exact toList_room hBelow hScan hOk

------------------------------------------------------------
-- Strings
------------------------------------------------------------

/- Where the payload of a string lies. -/
theorem payloadLocation_holdsAt
    {item : RLPItem}
    {b : Bytes}
    (hFit : (RLP.Item.str b).Encodable)
    (hHolds : HoldsAt m item (.str b))
    (hEnd : item.memPtr + item.len < modulus) :
    ∃ ptr, item.memPtr ≤ ptr ∧
      ptr + b.length = item.memPtr + item.len ∧
      slice m ptr b.length = b ∧
      payloadLocation m item = .ok (ptr, b.length) := by
  have hLen := hHolds.len_eq
  have hPos := RLP.encode_length_pos (.str b)
  have hReads := readsItem_of_slice hFit hHolds.slice_eq
    (by omega)
  rcases hReads.payload_eq with
    ⟨offset, hOffset, hLength, hSlice⟩
  simp only [payload] at hLength hSlice
  refine ⟨item.memPtr + offset, by omega, by omega, hSlice,
    ?_⟩
  rw [payloadLocation, hOffset, ok_bind,
    checkedAdd_of_lt (by omega), ok_bind,
    checkedSub_of_le (by omega), ok_bind]
  have hRest : item.len - offset = b.length := by omega
  rw [hRest]
  rfl

theorem length_encode_str_le
    {b : Bytes}
    (hShort : b.length < 56) :
    (RLP.encode (.str b)).length ≤ b.length + 1 := by
  rcases RLP.encodeStr_eq b with ⟨x, rfl, _, hEncode⟩ |
    ⟨_, hEncode⟩
  · have hOne : RLP.encode (.str [x]) = [x] := hEncode
    rw [hOne]
    exact Nat.le_add_right _ _
  · rw [RLP.encode, hEncode, List.length_append,
      RLP.length_lengthPrefix_of_lt hShort]
    omega

/-
  A string of at most 32 bytes reads as its number. For the
  empty string the divisor wraps around to zero, and the
  quotient is zero as well.
-/
theorem toUint_holdsAt
    {item : RLPItem}
    {b : Bytes}
    (hShort : b.length ≤ 32)
    (hHolds : HoldsAt m item (.str b))
    (hEnd : item.memPtr + item.len < modulus) :
    toUint m item = .ok (BigEndian.decode b) := by
  have hLen := hHolds.len_eq
  have hPos := RLP.encode_length_pos (.str b)
  have hModulus : modulus = 2 ^ 256 := rfl
  have hOne := length_encode_str_le
    (by omega : b.length < 56)
  have hFit : (RLP.Item.str b).Encodable :=
    lt_of_le_of_lt hShort (by norm_num)
  rcases payloadLocation_holdsAt hFit hHolds hEnd with
    ⟨ptr, _, _, hSlice, hLocation⟩
  rw [toUint, require_pos (by omega), ok_bind, hLocation,
    ok_bind]
  simp only
  by_cases hWord : b.length < 32
  · rw [if_pos hWord, wrapSub_of_le (by omega) (by omega)]
    by_cases hEmpty : b.length = 0
    · have hb := List.length_eq_zero_iff.mp hEmpty
      subst hb
      have hZero : wrapExp 256 32 = 0 := by
        norm_num [wrapExp, modulus]
      simp only [List.length_nil, Nat.sub_zero, hZero,
        Nat.div_zero, BigEndian.decode_nil]
      rfl
    · rw [wrapExp_256_of_lt (by omega),
        mload_div m ptr hWord.le, hSlice]
      rfl
  · have hFull : b.length = 32 := by omega
    rw [if_neg hWord, mload, ← hFull, hSlice]
    rfl

/- A number is only read where it fits a word. -/
theorem length_le_of_toUint
    {item : RLPItem}
    {b : Bytes}
    (hHolds : HoldsAt m item (.str b))
    {result : Nat}
    (hOk : toUint m item = .ok result) :
    b.length ≤ 32 := by
  rcases bind_eq_ok.mp hOk with ⟨_, hLength, _⟩
  rw [require_eq_ok, hHolds.len_eq] at hLength
  by_contra hLong
  have hEncode := RLP.encode_str_eq_of_two_le
    (by omega : 2 ≤ b.length)
  have hPos := List.length_pos_of_ne_nil
    (RLP.lengthPrefix_ne_nil 0x80 b.length)
  rw [hEncode, List.length_append] at hLength
  omega

/- `toBytes` copies a string of any length. -/
theorem toBytes_holdsAt
    {item : RLPItem}
    {b : Bytes}
    (hFit : (RLP.Item.str b).Encodable)
    (hHolds : HoldsAt m item (.str b))
    (hLow : 0x60 ≤ item.memPtr)
    (hHigh : item.memPtr + item.len ≤ mload m 0x40)
    (hRoom : mload m 0x40 + bytesSize b.length ≤ allocLimit) :
    ∃ p m', toBytes m item = .ok (p, m') ∧
      BytesAt m' p b ∧
      Takes (bytesSize b.length) m m' := by
  have hLen := hHolds.len_eq
  have hPos := RLP.encode_length_pos (.str b)
  have hModulus : modulus = 2 ^ 256 := rfl
  have hLimit : allocLimit = 0xffffffffffffffff := rfl
  rcases payloadLocation_holdsAt hFit hHolds (by omega) with
    ⟨ptr, hStart, hStop, hSlice, hLocation⟩
  rcases newBytes_copy m (by omega : 0x60 ≤ ptr) (by omega)
      hRoom with
    ⟨m₁, m₂, hNew, _, _, hCopy, hAt, hTakes⟩
  rw [hSlice] at hAt
  refine ⟨_, m₂, ?_, hAt, hTakes⟩
  rw [toBytes, require_pos (by omega), ok_bind, hLocation,
    ok_bind]
  simp only
  rw [hNew, ok_bind]
  simp only
  rw [hCopy]
  rfl

/- `toRlpBytes` copies what is encoded. -/
theorem toRlpBytes_holdsAt
    {p : Nat}
    {x : RLP.Item}
    (hBelow : Below m p)
    (hHolds : HoldsAt m (loadItem m p) x)
    (hRoom :
      mload m 0x40 + bytesSize (loadItem m p).len ≤
        allocLimit) :
    ∃ q m', toRlpBytes m p = .ok (q, m') ∧
      BytesAt m' q (RLP.encode x) ∧
      Grown m m' := by
  have hLen := hHolds.len_eq
  have hPos := RLP.encode_length_pos x
  rcases newBytes_copy m hBelow.reserved_le_bytes
      hBelow.bytes_le_free hRoom with
    ⟨m₁, m₂, hNew, hLength, hGrown, hCopy, hAt, hTakes⟩
  rw [hLen, hHolds.slice_eq] at hAt
  have hLoad := hGrown.loadItem_eq hBelow.reserved_le
    hBelow.le_free
  refine ⟨_, m₂, ?_, hAt, hTakes.grown⟩
  rw [toRlpBytes, hNew, ok_bind]
  simp only
  rw [if_neg (by omega), hLoad, hCopy]
  rfl

------------------------------------------------------------
-- Whole Trees
------------------------------------------------------------

/- The struct for a byte string lies below the new memory. -/
theorem toRlpItem_eq_ok
    {p : Nat}
    {b : Bytes}
    (hAt : BytesAt m p b)
    (hRoom : mload m 0x40 + 0x80 ≤ allocLimit) :
    ∃ root m', toRlpItem m p = .ok (root, m') ∧
      loadItem m' root = ⟨b.length, p + 0x20⟩ ∧
      Below m' root ∧
      slice m' (p + 0x20) b.length = b ∧
      Takes (0x40 + 0x40) m m' := by
  have hModulus : modulus = 2 ^ 256 := rfl
  have hLimit : allocLimit = 0xffffffffffffffff := rfl
  have hZero : (0 : Nat) < modulus := by omega
  have hLow := hAt.reserved_le
  have hHigh := hAt.le_free
  rcases newItem_eq_ok m ⟨0, 0⟩ hZero hZero (by omega)
      (by omega) with
    ⟨m₁, hEmpty, _, hFirst⟩
  have hPointer₁ := hFirst.free_eq
  have hLength : mload m₁ p = b.length := by
    rw [hFirst.grown.mload_eq hLow (by omega), hAt.length_eq]
  have hPtr : wrapAdd p 0x20 = p + 0x20 :=
    Nat.mod_eq_of_lt (by omega)
  rcases newItem_eq_ok m₁ ⟨b.length, p + 0x20⟩
      (by simp only; omega) (by simp only; omega) (by omega) (by omega) with
    ⟨m₂, hNew, hLoad, hSecond⟩
  have hPointer₂ := hSecond.free_eq
  have hBoth := hFirst.trans hSecond
  refine ⟨_, m₂, ?_, hLoad, ?_, ?_, hBoth⟩
  · rw [toRlpItem, hEmpty, ok_bind]
    simp only
    rw [hLength, hPtr, hNew]
  · constructor
    · omega
    · omega
    · rw [hLoad]
      exact le_trans hLow (Nat.le_add_right _ _)
    · rw [hLoad]
      simp only
      omega
  · rw [hBoth.grown.slice_eq (by omega) hHigh]
    exact hAt.slice_eq

/- Read the elements of an array from an index on. -/
def readFrom
    (read : Memory → Nat → Sol (RLP.Item × Memory))
    (items : Nat) :
    Nat → Nat → Memory → Sol (List RLP.Item × Memory)
| 0, _, m => .ok ([], m)
| rounds + 1, i, m => do
    let p ← itemAt m items i
    let (x, m) ← read m p
    let (xs, m) ← readFrom read items rounds (i + 1) m
    return (x :: xs, m)

/-
  Decode an item with the library alone: lists with `toList`,
  strings with `toBytes`.
-/
def readTree :
    Nat → Memory → Nat → Sol (RLP.Item × Memory)
| 0, _, _ => .error .outOfGas
| depth + 1, m, p =>
    if isList m (loadItem m p) = true then do
      let (items, m) ← toList m p
      let (xs, m) ←
        readFrom (readTree depth) items (mload m items) 0 m
      return (.list xs, m)
    else do
      let (b, m) ← toBytes m (loadItem m p)
      return (.str (slice m (b + 0x20) (mload m b)), m)

mutual

/- The memory that decoding an item takes. -/
def allocated : RLP.Item → Nat
| .str b => bytesSize b.length
| .list xs => listSize xs.length + allocatedAll xs

def allocatedAll : List RLP.Item → Nat
| [] => 0
| x :: xs => allocated x + allocatedAll xs

end

/- What decoding an item comes to. -/
def Decodes
    (read : Memory → Nat → Sol (RLP.Item × Memory))
    (x : RLP.Item) : Prop :=
  ∀ m p, HoldsAt m (loadItem m p) x → Below m p →
    mload m 0x40 + allocated x ≤ allocLimit →
      ∃ m', read m p = .ok (x, m') ∧
        Takes (allocated x) m m'

/- The elements of an array, read one after the other. -/
theorem readFrom_holdsAt
    {read : Memory → Nat → Sol (RLP.Item × Memory)}
    {result n : Nat}
    {before items : List RLPItem}
    {xs : List RLP.Item}
    (hRead : ∀ x ∈ xs, Decodes read x)
    (hItems : ItemsAt m result n (before ++ items))
    (hLength : (before ++ items).length ≤ n)
    (hHolds : List.Forall₂ (HoldsAt m) items xs)
    (hBounds :
      ∀ element ∈ items,
        0x60 ≤ element.memPtr ∧
          element.memPtr + element.len ≤ mload m 0x40)
    (hRoom :
      mload m 0x40 + allocatedAll xs ≤ allocLimit) :
    ∃ m',
      readFrom read result xs.length before.length m =
        .ok (xs, m') ∧
      Takes (allocatedAll xs) m m' := by
  induction xs generalizing m before items with
  | nil =>
      exact ⟨m, rfl, .refl m⟩
  | cons x xs ih =>
      cases hHolds with
      | @cons item _ items _ hFirst hRest =>
          simp only [allocatedAll] at hRoom ⊢
          rcases hItems.itemAt_eq hLength
              (by simp : (before ++ item :: items)[
                before.length]? = some item) with
            ⟨p, hItem, hLoad, hLow, hHigh⟩
          have hBound := hBounds item (by simp)
          rcases hRead x (by simp) m p
              (by rw [hLoad]; exact hFirst)
              ⟨hLow, hHigh, by rw [hLoad]; exact hBound.1,
                by rw [hLoad]; exact hBound.2⟩
              (by omega) with
            ⟨m₁, hOk, hTakes⟩
          have hFree := hTakes.free_eq
          -- the other items have not moved
          have hRest₁ :
              List.Forall₂ (HoldsAt m₁) items xs := by
            have hBoth :=
              (List.forall₂_and_left items xs).mpr
                ⟨fun other hOther =>
                  hBounds other (by simp [hOther]), hRest⟩
            exact hBoth.imp fun other y hOther =>
              hOther.2.grown hTakes.grown hOther.1.1
                hOther.1.2
          have hSplit :
              before ++ item :: items =
                (before ++ [item]) ++ items := by simp
          rw [hSplit] at hItems hLength
          rcases ih (fun y hy => hRead y (by simp [hy]))
              (hItems.grown hLength hTakes.grown) hLength
              hRest₁
              (fun other hOther => by
                have hOld := hBounds other (by simp [hOther])
                exact ⟨hOld.1, by omega⟩)
              (by omega) with
            ⟨m₂, hAll, hMore⟩
          refine ⟨m₂, ?_, hTakes.trans hMore⟩
          rw [List.length_append, List.length_singleton]
            at hAll
          rw [List.length_cons, readFrom, hItem, ok_bind,
            hOk, ok_bind]
          simp only
          rw [hAll]
          rfl

theorem length_encode_le_of_mem
    {x : RLP.Item}
    {xs : List RLP.Item}
    (hx : x ∈ xs) :
    (RLP.encode x).length ≤ (RLP.encodeList xs).length := by
  induction xs with
  | nil => cases hx
  | cons y xs ih =>
      rw [RLP.encodeList, List.length_append]
      rcases List.mem_cons.mp hx with rfl | hx
      · omega
      · have hRest := ih hx
        omega

/- Enough fuel for the depth of an item. -/
theorem readTree_decodes
    {x : RLP.Item}
    (hFit : x.Encodable)
    {fuel : Nat}
    (hFuel : (RLP.encode x).length ≤ fuel) :
    Decodes (readTree fuel) x := by
  have hEnd {m : Memory} {a b : Nat}
      (hHigh : a ≤ mload m 0x40)
      (hRoom : mload m 0x40 + b ≤ allocLimit) :
      a < modulus := by
    have hModulus : modulus = 2 ^ 256 := rfl
    have hLimit : allocLimit = 0xffffffffffffffff := rfl
    omega
  induction x generalizing fuel with
  | str b =>
      intro m p hHolds hBelow hRoom
      simp only [allocated] at hRoom ⊢
      have hPos := RLP.encode_length_pos (.str b)
      have hHigh := hBelow.bytes_le_free
      have hList := isList_holdsAt hFit hHolds
        (hEnd hHigh hRoom)
      rcases toBytes_holdsAt hFit hHolds
          hBelow.reserved_le_bytes hHigh hRoom with
        ⟨q, m', hBytes, hAt, hTakes⟩
      refine ⟨m', ?_, hTakes⟩
      rcases Nat.exists_eq_add_of_le' (le_trans hPos hFuel)
        with ⟨depth, rfl⟩
      rw [readTree, hList, isListItem,
        if_neg Bool.false_ne_true, hBytes, ok_bind]
      simp only
      rw [hAt.length_eq, hAt.slice_eq]
      rfl
  | list xs ih =>
      intro m p hHolds hBelow hRoom
      simp only [allocated] at hRoom ⊢
      have hPos := RLP.encode_length_pos (.list xs)
      have hInside := RLP.length_encodeList_lt xs
      have hList := isList_holdsAt hFit hHolds
        (hEnd hBelow.bytes_le_free hRoom)
      rcases toList_holdsAt hFit hBelow hHolds
          (by omega) with
        ⟨items, m₁, hItems, hArray, hEach, hBounds, hTakes⟩
      have hFree := hTakes.free_eq
      rcases Nat.exists_eq_add_of_le' (le_trans hPos hFuel)
        with ⟨depth, rfl⟩
      have hRead : ∀ x ∈ xs, Decodes (readTree depth) x := by
        intro x hx
        have hShort := length_encode_le_of_mem hx
        exact ih x hx (hFit.of_mem hx) (by omega)
      have hCount := hEach.length_eq
      rw [← List.nil_append items] at hArray
      rcases readFrom_holdsAt hRead hArray
          (by rw [List.nil_append]; exact hCount.le) hEach
          (fun element hElement => by
            have hBound := hBounds element hElement
            exact ⟨hBound.1, by omega⟩)
          (by omega) with
        ⟨m', hAll, hMore⟩
      refine ⟨m', ?_, hTakes.trans hMore⟩
      rw [List.length_nil] at hAll
      rw [readTree, hList, isListItem, if_pos rfl, hItems,
        ok_bind]
      simp only
      rw [hArray.length_eq, hAll]
      rfl

/-
  The library decodes every encoding in memory, of any depth
  and with strings of any length. Nothing below the free
  pointer changes.
-/
theorem readTree_encode
    (x : RLP.Item)
    (hFit : x.Encodable)
    {m : Memory}
    {p : Nat}
    (hAt : BytesAt m p (RLP.encode x))
    (hRoom :
      mload m 0x40 + (0x80 + allocated x) ≤ allocLimit) :
    ∃ m',
      (do
        let (root, m) ← toRlpItem m p
        readTree (RLP.encode x).length m root) =
        .ok (x, m') ∧
      Grown m m' := by
  rcases toRlpItem_eq_ok hAt (by omega) with
    ⟨root, m₁, hRoot, hLoad, hBelow, hSlice, hTakes⟩
  have hFree := hTakes.free_eq
  rcases readTree_decodes hFit (le_refl _) m₁ root
      (by rw [hLoad]; exact ⟨rfl, hSlice⟩) hBelow
      (by omega) with
    ⟨m₂, hOk, hMore⟩
  refine ⟨m₂, ?_, hTakes.grown.trans hMore.grown⟩
  rw [hRoot, ok_bind]
  exact hOk

/- A blob at `0x80`, followed by bytes of something else. -/
def sampleMemory (blob : Bytes) : Memory :=
  mstore
    (mstore (fun a => blob.getD (a - 0xa0) 0xff) 0x80
      blob.length)
    0x40 (0xa0 + blob.length)

/- A nested list with a string longer than one word. -/
def sampleTree : RLP.Item :=
  .list [.str [], .list [.str [7], .list []],
    .str (List.replicate 60 0xab)]

theorem readTree_encode_sample :
    ∃ m',
      (do
        let (root, m) ←
          toRlpItem (sampleMemory (RLP.encode sampleTree))
            0x80
        readTree (RLP.encode sampleTree).length m root) =
        .ok (sampleTree, m') := by
  have hAt :
      BytesAt (sampleMemory (RLP.encode sampleTree)) 0x80
        (RLP.encode sampleTree) :=
    { reserved_le := by decide
      length_eq := by decide +kernel
      slice_eq := by decide +kernel
      le_free := by decide +kernel }
  rcases readTree_encode sampleTree (by decide +kernel) hAt
      (by decide +kernel) with
    ⟨m', hOk, _⟩
  exact ⟨m', hOk⟩

end Sting
