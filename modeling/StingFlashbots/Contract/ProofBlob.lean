import StingFlashbots.Contract.RLPDecoding

/-
  The contract reads the proof blob the enclave writes.

  The blob is the encoding of a block number and a block
  hash. Wherever it lies in memory, the reader finds two
  items in it, the first one reads as the number and the
  second one as the hash.

  Key definitions include:
    * `toBytes32`
    * `readProof`

  Main results:
    * `toBytes32_eq`
    * `readProof_encode`
    * `readProof_of_encoding`
-/

namespace Sting

open EVM RLPReader

------------------------------------------------------------
-- Reading Thirty-Two Bytes
------------------------------------------------------------

/- Indexing `bytes` in memory. -/
def bytesIndex
    (m : Memory)
    (b i : Nat) : Sol UInt8 :=
  if i < mload m b then
    .ok (m (b + 0x20 + i))
  else
    .error (.panic 0x32)

/- The loop of `toBytes32` from index `i` on. -/
def toBytes32From
    (m : Memory)
    (b : Nat) :
    Nat → Nat → Nat → Sol Nat
| 0, _, out => .ok out
| rounds + 1, i, out => do
    let x ← bytesIndex m b i
    let word := x.toNat * 256 ^ 31
    toBytes32From m b rounds (i + 1) (out ||| word >>> (i * 8))

/- `toBytes32`, whose result is kept as a number. -/
def toBytes32
    (m : Memory)
    (b : Nat) : Sol Nat :=
  toBytes32From m b 32 0 0

/- One round puts the next byte behind those collected. -/
private theorem or_byte_eq
    (m : Memory)
    (p : Nat)
    {i : Nat}
    (hi : i < 32) :
    (BigEndian.decode (slice m p i) * 256 ^ (32 - i)) |||
        ((m (p + i)).toNat * 256 ^ 31) >>> (i * 8) =
      BigEndian.decode (slice m p (i + 1)) *
        256 ^ (32 - (i + 1)) := by
  have hLt := (m (p + i)).toNat_lt
  have hPow :
      ∀ k : Nat, (256 : Nat) ^ k = 2 ^ (8 * k) := by
    intro k
    rw [Nat.pow_mul]
  have hShift :
      ((m (p + i)).toNat * 256 ^ 31) >>> (i * 8) =
        (m (p + i)).toNat * 256 ^ (31 - i) := by
    have hSplit : 31 = (31 - i) + i := by omega
    rw [Nat.shiftRight_eq_div_pow, Nat.mul_comm i 8, ← hPow]
    conv_lhs => rw [hSplit, Nat.pow_add, ← Nat.mul_assoc]
    exact Nat.mul_div_cancel _ (by positivity)
  have hSmall :
      (m (p + i)).toNat * 256 ^ (31 - i) <
        2 ^ (8 * (32 - i)) := by
    rw [← hPow]
    have hSucc : 32 - i = (31 - i) + 1 := by omega
    rw [hSucc, Nat.pow_succ, Nat.mul_comm]
    exact Nat.mul_lt_mul_of_pos_left hLt (by positivity)
  have hSplit :
      slice m p (i + 1) = slice m p i ++ [m (p + i)] := by
    rw [slice_append]
    rfl
  have hExp : 32 - (i + 1) = 31 - i := by omega
  have hSucc : 256 ^ (32 - i) = 256 * 256 ^ (31 - i) := by
    rw [← Nat.pow_succ']
    congr 1
    omega
  rw [hShift, Nat.mul_comm, hPow,
    ← Nat.two_pow_add_eq_or_of_lt hSmall, ← hPow, hSplit,
    BigEndian.decode_append, hExp,
    BigEndian.decode_singleton, hSucc, List.length_singleton]
  ring

private theorem toBytes32From_eq
    (m : Memory)
    (b : Nat)
    (hLength : mload m b = 32)
    (rounds i : Nat)
    (hRounds : i + rounds = 32) :
    toBytes32From m b rounds i
        (BigEndian.decode (slice m (b + 0x20) i) *
          256 ^ (32 - i)) =
      .ok (BigEndian.decode (slice m (b + 0x20) 32)) := by
  induction rounds generalizing i with
  | zero =>
      have hi : i = 32 := by omega
      subst hi
      simp [toBytes32From]
  | succ rounds ih =>
      have hi : i < 32 := by omega
      rw [toBytes32From, bytesIndex, if_pos (by omega),
        ok_bind]
      simp only
      rw [or_byte_eq m (b + 0x20) hi]
      exact ih (i + 1) (by omega)

/- Thirty-two bytes are read as one word. -/
theorem toBytes32_eq
    {m : Memory}
    {p : Nat}
    {b : Bytes}
    (hLength : b.length = 32)
    (hAt : BytesAt m p b) :
    toBytes32 m p = .ok (BigEndian.decode b) := by
  have hWord : mload m p = 32 := by
    rw [hAt.length_eq, hLength]
  have hSlice := hAt.slice_eq
  rw [hLength] at hSlice
  have hEq := toBytes32From_eq m p hWord 32 0 rfl
  rw [hSlice] at hEq
  simpa [toBytes32] using hEq

------------------------------------------------------------
-- The Proof Blob
------------------------------------------------------------

/- How `collectBounty` reads the proof blob. -/
def readProof
    (m : Memory)
    (proofBlob : Nat) : Sol (Nat × Nat) := do
  let (root, m) ← toRlpItem m proofBlob
  let (items, m) ← toList m root
  let blockNum ←
    toUint m (loadItem m (← itemAt m items 0))
  let (b, m) ← toBytes m (loadItem m (← itemAt m items 1))
  let blockHash ← toBytes32 m b
  return (blockNum, blockHash)

/- A string among the items of a blob. -/
structure StringAt
    (m : Memory)
    (items i p : Nat)
    (b : Bytes) : Prop where
  itemAt_eq : itemAt m items i = .ok p
  holds : HoldsAt m (loadItem m p) (.str b)
  reserved_le : 0x60 ≤ (loadItem m p).memPtr
  le_free :
    (loadItem m p).memPtr + (loadItem m p).len ≤
      mload m 0x40

/- A list of two strings is made into an array of two. -/
theorem toList_pair
    {m : Memory}
    {root : Nat}
    {a b : Bytes}
    (hFit : (RLP.Item.list [.str a, .str b]).Encodable)
    (hBelow : Below m root)
    (hHolds :
      HoldsAt m (loadItem m root) (.list [.str a, .str b]))
    (hRoom : mload m 0x40 + listSize 2 ≤ allocLimit) :
    ∃ items m' first second,
      toList m root = .ok (items, m') ∧
      mload m' items = 2 ∧
      StringAt m' items 0 first a ∧
      StringAt m' items 1 second b ∧
      Takes (listSize 2) m m' := by
  rcases toList_holdsAt hFit hBelow hHolds hRoom with
    ⟨found, m', hList, hItems, hEach, hBounds, hTakes⟩
  have hCount := hEach.length_eq
  have hFree := hTakes.grown.free_le
  cases hEach with
  | @cons one _ rest _ hOne hRest =>
      cases hRest with
      | @cons two _ rest _ hTwo hNil =>
          cases hNil
          rcases hItems.itemAt_eq hCount.le
              (rfl : [one, two][0]? = some one) with
            ⟨first, hFirst, hLoadOne, _⟩
          rcases hItems.itemAt_eq hCount.le
              (rfl : [one, two][1]? = some two) with
            ⟨second, hSecond, hLoadTwo, _⟩
          have hBoundOne := hBounds one (by simp)
          have hBoundTwo := hBounds two (by simp)
          rw [← hLoadOne] at hOne hBoundOne
          rw [← hLoadTwo] at hTwo hBoundTwo
          exact ⟨_, m', first, second, hList,
            hItems.length_eq,
            ⟨hFirst, hOne, hBoundOne.1,
              le_trans hBoundOne.2 hFree⟩,
            ⟨hSecond, hTwo, hBoundTwo.1,
              le_trans hBoundTwo.2 hFree⟩,
            hTakes⟩

/- The memory that reading a proof blob takes. -/
def proofSize : Nat :=
  0x80 + listSize 2 + bytesSize 32

/- A number of one word and a hash can be encoded. -/
theorem pair_encodable
    {a b : Bytes}
    (ha : a.length ≤ 32)
    (hb : b.length ≤ 32) :
    (RLP.Item.list [.str a, .str b]).Encodable := by
  have hOne := length_encode_str_le
    (by omega : a.length < 56)
  have hTwo := length_encode_str_le
    (by omega : b.length < 56)
  have hList : RLP.encodeList [.str a, .str b] =
      RLP.encode (.str a) ++ RLP.encode (.str b) := by
    simp [RLP.encodeList]
  refine ⟨?_, lt_of_le_of_lt ha (by norm_num),
    lt_of_le_of_lt hb (by norm_num), trivial⟩
  rw [hList, List.length_append]
  omega

/- The steps of reading a blob, one after the other. -/
theorem readProof_steps
    {n : Nat}
    (hn : n < 2 ^ 256)
    {h : Bytes}
    (hh : h.length = 32)
    {m : Memory}
    {p : Nat}
    (hAt :
      BytesAt m p
        (RLP.encode (.list [RLP.int n, .str h])))
    (hRoom : mload m 0x40 + proofSize ≤ allocLimit) :
    ∃ root m₁ items m₂ first second b m₃,
      toRlpItem m p = .ok (root, m₁) ∧
      toList m₁ root = .ok (items, m₂) ∧
      mload m₂ items = 2 ∧
      itemAt m₂ items 0 = .ok first ∧
      toUint m₂ (loadItem m₂ first) = .ok n ∧
      itemAt m₂ items 1 = .ok second ∧
      toBytes m₂ (loadItem m₂ second) = .ok (b, m₃) ∧
      toBytes32 m₃ b = .ok (BigEndian.decode h) := by
  have hList : listSize 2 = 0x160 := rfl
  have hBytes : bytesSize 32 = 0x40 := rfl
  unfold proofSize at hRoom
  have hNumber : (BigEndian.encode n).length ≤ 32 :=
    (BigEndian.length_encode_le_iff n 32).mpr
      (lt_of_lt_of_eq hn (by norm_num))
  have hFit := pair_encodable hNumber hh.le
  rcases toRlpItem_eq_ok hAt (by omega) with
    ⟨root, m₁, hRoot, hLoad, hBelow, hSlice, hFirst⟩
  have hFree₁ := hFirst.free_eq
  have hHolds :
      HoldsAt m₁ (loadItem m₁ root)
        (.list [RLP.int n, .str h]) := by
    rw [hLoad]
    exact ⟨rfl, hSlice⟩
  rcases toList_pair hFit hBelow hHolds (by omega) with
    ⟨items, m₂, first, second, hItems, hCount, hOne, hTwo,
      hSecond⟩
  have hFree₂ := hSecond.free_eq
  have hWord := mload_lt m₂ 0x40
  have hUint := toUint_holdsAt hNumber hOne.holds
    (lt_of_le_of_lt hOne.le_free hWord)
  rw [BigEndian.decode_encode] at hUint
  rcases toBytes_holdsAt (lt_of_eq_of_lt hh (by norm_num))
      hTwo.holds hTwo.reserved_le hTwo.le_free
      (by rw [hh]; omega) with
    ⟨b, m₃, hCopy, hAtCopy, _⟩
  exact ⟨root, m₁, items, m₂, first, second, b, m₃, hRoot,
    hItems, hCount, hOne.itemAt_eq, hUint, hTwo.itemAt_eq,
    hCopy, toBytes32_eq hh hAtCopy⟩

/- With room for its structs, the blob is read. -/
theorem readProof_of_room
    {n : Nat}
    (hn : n < 2 ^ 256)
    {h : Bytes}
    (hh : h.length = 32)
    {m : Memory}
    {p : Nat}
    (hAt :
      BytesAt m p
        (RLP.encode (.list [RLP.int n, .str h])))
    (hRoom : mload m 0x40 + proofSize ≤ allocLimit) :
    readProof m p = .ok (n, BigEndian.decode h) := by
  rcases readProof_steps hn hh hAt hRoom with
    ⟨root, m₁, items, m₂, first, second, b, m₃, hRoot,
      hItems, _, hFirst, hUint, hSecond, hBytes, hWord⟩
  simp only [readProof, hRoot, hItems, hFirst, hUint,
    hSecond, hBytes, hWord, ok_bind]
  rfl

/-
  Wherever the blob lies in memory and whatever surrounds
  it, the contract reads back the number and the hash.
-/
theorem readProof_encode
    {n : Nat}
    (hn : n < 2 ^ 256)
    {h : Bytes}
    (hh : h.length = 32)
    {m : Memory}
    {p : Nat}
    (hAt :
      BytesAt m p
        (RLP.encode (.list [RLP.int n, .str h])))
    (hRoom : mload m 0x40 + proofSize ≤ allocLimit) :
    ∃ root m₁ items m₂ first second b m₃,
      toRlpItem m p = .ok (root, m₁) ∧
      toList m₁ root = .ok (items, m₂) ∧
      mload m₂ items = 2 ∧
      itemAt m₂ items 0 = .ok first ∧
      toUint m₂ (loadItem m₂ first) = .ok n ∧
      itemAt m₂ items 1 = .ok second ∧
      toBytes m₂ (loadItem m₂ second) = .ok (b, m₃) ∧
      toBytes32 m₃ b = .ok (BigEndian.decode h) ∧
      readProof m p = .ok (n, BigEndian.decode h) := by
  rcases readProof_steps hn hh hAt hRoom with
    ⟨root, m₁, items, m₂, first, second, b, m₃, hRoot,
      hItems, hCount, hFirst, hUint, hSecond, hBytes, hWord⟩
  exact ⟨root, m₁, items, m₂, first, second, b, m₃, hRoot,
    hItems, hCount, hFirst, hUint, hSecond, hBytes, hWord,
    readProof_of_room hn hh hAt hRoom⟩

def sampleHash : Bytes :=
  List.replicate 32 0xab

/- Block 300 with a hash of equal bytes. -/
theorem readProof_encode_sample :
    readProof
        (sampleMemory (RLP.encode
          (.list [RLP.int 300, .str sampleHash])))
        0x80 =
      .ok (300, BigEndian.decode sampleHash) := by
  have hAt :
      BytesAt
        (sampleMemory (RLP.encode
          (.list [RLP.int 300, .str sampleHash])))
        0x80
        (RLP.encode
          (.list [RLP.int 300, .str sampleHash])) :=
    { reserved_le := by decide
      length_eq := by decide +kernel
      slice_eq := by decide +kernel
      le_free := by decide +kernel }
  rcases readProof_encode (by norm_num)
      (by decide) hAt (by decide +kernel) with
    ⟨_, _, _, _, _, _, _, _, _, _, _, _, _, _, _, _, hRead⟩
  exact hRead

------------------------------------------------------------
-- Reading Nothing Else
------------------------------------------------------------

theorem toBytes_room
    {m : Memory}
    {item : RLPItem}
    {result : Nat × Memory}
    (hOk : toBytes m item = .ok result) :
    ∃ location,
      payloadLocation m item = .ok location ∧
      mload m 0x40 + bytesSize location.2 ≤ allocLimit := by
  rcases bind_eq_ok.mp hOk with ⟨_, _, hOk⟩
  rcases bind_eq_ok.mp hOk with ⟨location, hLocation, hOk⟩
  rcases bind_eq_ok.mp hOk with ⟨_, hNew, _⟩
  exact ⟨location, hLocation, newBytes_room hNew⟩

theorem toRlpItem_room
    {m : Memory}
    {p : Nat}
    {result : Nat × Memory}
    (hFree : 0x60 ≤ mload m 0x40)
    (hOk : toRlpItem m p = .ok result) :
    mload m 0x40 + 0x80 ≤ allocLimit := by
  rcases bind_eq_ok.mp hOk with ⟨⟨q, m₁⟩, hEmpty, hNew⟩
  have hTakes := (newItem_of_ok hFree hEmpty).2
  have hPointer := hTakes.free_eq
  rcases result with ⟨r, m₂⟩
  have hRoom := (newItem_of_ok (by omega) hNew).1
  omega

/-
  There is no way to read anything but its number and its
  hash from a blob that the enclave wrote.
-/
theorem readProof_of_encoding
    {n : Nat}
    {h : Bytes}
    (hh : h.length = 32)
    (hFit :
      (RLP.Item.list [RLP.int n, .str h]).Encodable)
    {m : Memory}
    {p : Nat}
    (hAt :
      BytesAt m p
        (RLP.encode (.list [RLP.int n, .str h])))
    {result : Nat × Nat}
    (hOk : readProof m p = .ok result) :
    result = (n, BigEndian.decode h) := by
  have hLow := hAt.reserved_le
  have hHigh := hAt.le_free
  have hFree : 0x60 ≤ mload m 0x40 := by omega
  rcases bind_eq_ok.mp hOk with ⟨⟨root, m₁⟩, hRoot, hRead⟩
  rcases bind_eq_ok.mp hRead with
    ⟨⟨items, m₂⟩, hItems, hRead⟩
  rcases bind_eq_ok.mp hRead with ⟨first, hFirst, hRead⟩
  rcases bind_eq_ok.mp hRead with ⟨_, hUint, hRead⟩
  rcases bind_eq_ok.mp hRead with ⟨second, hSecond, hRead⟩
  rcases bind_eq_ok.mp hRead with ⟨_, hBytes, _⟩
  -- each step had room for what it took
  have hRootRoom := toRlpItem_room hFree hRoot
  rcases toRlpItem_eq_ok hAt hRootRoom with
    ⟨root', m₁', hRoot', hLoad, hBelow, hSlice, hTakes⟩
  have hPair := Prod.mk.inj
    (Except.ok.inj (hRoot.symm.trans hRoot'))
  rw [← hPair.1, ← hPair.2] at hLoad hBelow
  rw [← hPair.2] at hSlice hTakes
  have hFree₁ := hTakes.free_eq
  have hHolds :
      HoldsAt m₁ (loadItem m₁ root)
        (.list [RLP.int n, .str h]) := by
    rw [hLoad]
    exact ⟨rfl, hSlice⟩
  have hListRoom :=
    toList_holdsAt_room hFit hBelow hHolds hItems
  rcases toList_pair hFit hBelow hHolds hListRoom with
    ⟨items', m₂', first', second', hItems', _, hOne, hTwo,
      hMore⟩
  have hPair₂ := Prod.mk.inj
    (Except.ok.inj (hItems.symm.trans hItems'))
  rw [← hPair₂.1, ← hPair₂.2] at hOne hTwo
  rw [← hPair₂.2] at hMore
  have hFree₂ := hMore.free_eq
  rw [← Except.ok.inj (hFirst.symm.trans hOne.itemAt_eq)]
    at hOne
  rw [← Except.ok.inj (hSecond.symm.trans hTwo.itemAt_eq)]
    at hTwo
  have hNumber := length_le_of_toUint hOne.holds hUint
  rw [BigEndian.length_encode_le_iff] at hNumber
  rcases toBytes_room hBytes with
    ⟨location, hLocation, hBytesRoom⟩
  rcases payloadLocation_holdsAt
      (lt_of_eq_of_lt hh (by norm_num)) hTwo.holds
      (lt_of_le_of_lt hTwo.le_free (mload_lt m₂ 0x40)) with
    ⟨ptr, _, _, _, hSame⟩
  rw [Except.ok.inj (hLocation.symm.trans hSame), hh]
    at hBytesRoom
  simp only at hBytesRoom
  have hSize : [RLP.int n, RLP.Item.str h].length = 2 := rfl
  rw [hSize] at hListRoom
  have hRoom : mload m 0x40 + proofSize ≤ allocLimit := by
    unfold proofSize
    omega
  rw [readProof_of_room
    (lt_of_lt_of_eq hNumber (by norm_num)) hh hAt hRoom]
    at hOk
  exact (Except.ok.inj hOk).symm

end Sting
