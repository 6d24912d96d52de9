import StingFlashbots.EVM.Memory

/-
  The `RLPReader` library of the contract.

  Items are structs in memory, made of a length and a
  pointer to the bytes. Functions that only read get the two
  fields. Functions that make structs or arrays take memory
  for them at the free pointer and return addresses: what
  they read afterwards is the memory they have written to.
  A function that returns a struct takes memory for an empty
  one as soon as it is called.

  Key definitions include:
    * `RLPReader.RLPItem`, `RLPReader.loadItem`
    * `RLPReader.itemLength`, `RLPReader.payloadOffset`
    * `RLPReader.newItem`, `RLPReader.newItems`
    * `RLPReader.toRlpItem`, `RLPReader.toList`
    * `RLPReader.iterator`, `RLPReader.next`
    * `RLPReader.toUint`, `RLPReader.toBytes`
    * `RLPReader.toRlpBytes`
-/

namespace RLPReader

open EVM

/- The fields of an `RLPItem` struct. -/
structure RLPItem where
  len : Nat
  memPtr : Nat
deriving DecidableEq, Repr

section

variable (m : Memory)

/- The fields of the struct at an address. -/
def loadItem (p : Nat) : RLPItem :=
  { len := mload m p
    memPtr := mload m (p + 0x20) }

------------------------------------------------------------
-- Reading
------------------------------------------------------------

/- The first byte an item starts with. -/
def byte0 (memPtr : Nat) : Nat :=
  byteAt 0 (mload m memPtr)

/- `isList` -/
def isList (item : RLPItem) : Bool :=
  if item.len = 0 then
    false
  else
    ! decide (byte0 m item.memPtr < 0xc0)

/- The length of an item whose length takes bytes itself. -/
def longItemLength
    (memPtr : Nat)
    (base : Nat) : Nat :=
  let byteLen := wrapSub (byte0 m memPtr) base
  let dataLen :=
    mload m (wrapAdd memPtr 1) /
      wrapExp 256 (wrapSub 32 byteLen)
  wrapAdd dataLen (wrapAdd byteLen 1)

/- `_itemLength` -/
def itemLength (memPtr : Nat) : Sol Nat :=
  if byte0 m memPtr < 0x80 then
    .ok 1
  else if byte0 m memPtr < 0xb8 then do
    checkedAdd (← checkedSub (byte0 m memPtr) 0x80) 1
  else if byte0 m memPtr < 0xc0 then
    .ok (longItemLength m memPtr 0xb7)
  else if byte0 m memPtr < 0xf8 then do
    checkedAdd (← checkedSub (byte0 m memPtr) 0xc0) 1
  else
    .ok (longItemLength m memPtr 0xf7)

/- `_payloadOffset` -/
def payloadOffset (memPtr : Nat) : Sol Nat :=
  if byte0 m memPtr < 0x80 then
    .ok 0
  else if byte0 m memPtr < 0xb8 ∨
      (0xc0 ≤ byte0 m memPtr ∧ byte0 m memPtr < 0xf8) then
    .ok 1
  else if byte0 m memPtr < 0xc0 then do
    checkedAdd
      (← checkedSub (byte0 m memPtr) (0xb8 - 1)) 1
  else do
    checkedAdd
      (← checkedSub (byte0 m memPtr) (0xf8 - 1)) 1

/- `payloadLocation` -/
def payloadLocation
    (item : RLPItem) : Sol (Nat × Nat) := do
  let offset ← payloadOffset m item.memPtr
  let memPtr ← checkedAdd item.memPtr offset
  let len ← checkedSub item.len offset
  return (memPtr, len)

/-
  The loop of `numItems`. Every round that moves the pointer
  shortens the distance to the end, and a loop that does not
  move it uses up all gas.
-/
def numItemsFrom
    (endPtr : Nat) :
    Nat → Nat → Nat → Sol Nat
| 0, _, _ => .error .outOfGas
| fuel + 1, currPtr, count =>
    if currPtr < endPtr then do
      let next ← checkedAdd currPtr (← itemLength m currPtr)
      let count ← checkedAdd count 1
      numItemsFrom endPtr fuel next count
    else
      .ok count

/- `numItems` -/
def numItems (item : RLPItem) : Sol Nat :=
  if item.len = 0 then
    .ok 0
  else do
    let currPtr ←
      checkedAdd item.memPtr (← payloadOffset m item.memPtr)
    let endPtr ← checkedAdd item.memPtr item.len
    numItemsFrom m endPtr (endPtr - currPtr + 1) currPtr 0

/- `toUint` -/
def toUint (item : RLPItem) : Sol Nat := do
  require (item.len > 0 ∧ item.len ≤ 33) ""
  let (memPtr, len) ← payloadLocation m item
  let result := mload m memPtr
  return (
    if len < 32 then
      result / wrapExp 256 (wrapSub 32 len)
    else
      result)

end

------------------------------------------------------------
-- Structs and Arrays in Memory
------------------------------------------------------------

/- A struct in new memory. -/
def newItem
    (m : Memory)
    (item : RLPItem) : Sol (Nat × Memory) := do
  let (p, m) ← allocate m 0x40
  return (p,
    mstore (mstore m p item.len) (p + 0x20) item.memPtr)

/- Empty structs for the elements of an array. -/
def fillItems :
    Nat → Memory → Nat → Sol Memory
| 0, m, _ => .ok m
| n + 1, m, element => do
    let (p, m) ← newItem m ⟨0, 0⟩
    fillItems n (mstore m element p) (element + 0x20)

/- `new RLPItem[](n)` -/
def newItems
    (m : Memory)
    (n : Nat) : Sol (Nat × Memory) :=
  if n > allocLimit then
    .error (.panic 0x41)
  else do
    let (items, m) ← allocate m (0x20 + 0x20 * n)
    let m ← fillItems n (mstore m items n) (items + 0x20)
    return (items, m)

/- Read an element of an array of structs. -/
def itemAt
    (m : Memory)
    (items i : Nat) : Sol Nat :=
  if i < mload m items then
    .ok (mload m (items + 0x20 + 0x20 * i))
  else
    .error (.panic 0x32)

/- Assign to an element of an array of structs. -/
def setItem
    (m : Memory)
    (items i p : Nat) : Sol Memory :=
  if i < mload m items then
    .ok (mstore m (items + 0x20 + 0x20 * i) p)
  else
    .error (.panic 0x32)

------------------------------------------------------------
-- Items and Lists
------------------------------------------------------------

/- `toRlpItem` -/
def toRlpItem
    (m : Memory)
    (item : Nat) : Sol (Nat × Memory) := do
  let (_, m) ← newItem m ⟨0, 0⟩
  let memPtr := wrapAdd item 0x20
  newItem m ⟨mload m item, memPtr⟩

/- The loop of `toList`, for the items from `i` on. -/
def toListFrom
    (result : Nat) :
    Nat → Nat → Memory → Nat → Sol Memory
| 0, _, m, _ => .ok m
| items + 1, i, m, memPtr => do
    let dataLen ← itemLength m memPtr
    let (p, m) ← newItem m ⟨dataLen, memPtr⟩
    let m ← setItem m result i p
    let memPtr ← checkedAdd memPtr dataLen
    toListFrom result items (i + 1) m memPtr

/- `toList` -/
def toList
    (m : Memory)
    (item : Nat) : Sol (Nat × Memory) := do
  require (isList m (loadItem m item) = true) ""
  let items ← numItems m (loadItem m item)
  let (result, m) ← newItems m items
  let start := (loadItem m item).memPtr
  let memPtr ← checkedAdd start (← payloadOffset m start)
  let m ← toListFrom result items 0 m memPtr
  return (result, m)

/- The fields of an `Iterator` struct. -/
structure Iterator where
  item : Nat
  nextPtr : Nat
deriving DecidableEq, Repr

/- The fields of the struct at an address. -/
def loadIterator
    (m : Memory)
    (p : Nat) : Iterator :=
  { item := mload m p
    nextPtr := mload m (p + 0x20) }

/- A struct in new memory. -/
def newIterator
    (m : Memory)
    (it : Iterator) : Sol (Nat × Memory) := do
  let (p, m) ← allocate m 0x40
  return (p,
    mstore (mstore m p it.item) (p + 0x20) it.nextPtr)

/- `iterator` -/
def iterator
    (m : Memory)
    (self : Nat) : Sol (Nat × Memory) := do
  let (empty, m) ← newIterator m ⟨0, 0⟩
  let (p, m) ← newItem m ⟨0, 0⟩
  let m := mstore m empty p
  require (isList m (loadItem m self) = true) ""
  let start := (loadItem m self).memPtr
  let ptr ← checkedAdd start (← payloadOffset m start)
  newIterator m ⟨self, ptr⟩

/- `hasNext` -/
def hasNext
    (m : Memory)
    (self : Nat) : Sol Bool := do
  let item := loadItem m (loadIterator m self).item
  let endPtr ← checkedAdd item.memPtr item.len
  return decide ((loadIterator m self).nextPtr < endPtr)

/- `next` -/
def next
    (m : Memory)
    (self : Nat) : Sol (Nat × Memory) := do
  let (_, m) ← newItem m ⟨0, 0⟩
  let more ← hasNext m self
  require (more = true) ""
  let ptr := (loadIterator m self).nextPtr
  let itemLength ← itemLength m ptr
  let nextPtr ← checkedAdd ptr itemLength
  let m := mstore m (self + 0x20) nextPtr
  newItem m ⟨itemLength, ptr⟩

------------------------------------------------------------
-- Copies
------------------------------------------------------------

/- Copy the words that fit, then the bytes left over. -/
def copy
    (m : Memory)
    (src dest len : Nat) : Sol Memory :=
  if hWord : 32 ≤ len then do
    let src' ← checkedAdd src 32
    let dest' ← checkedAdd dest 32
    copy (mstore m dest (mload m src)) src' dest' (len - 32)
  else if 0 < len then
    let mask := 256 ^ (32 - len) - 1
    let srcpart := mload m src &&& (modulus - 1 - mask)
    let destpart := mload m dest &&& mask
    .ok (mstore m dest (destpart ||| srcpart))
  else
    .ok m
termination_by len

/- Zero a range of memory. -/
def zeroFill
    (m : Memory)
    (p n : Nat) : Memory :=
  fun a => if p ≤ a ∧ a < p + n then 0 else m a

/- `new bytes(len)` -/
def newBytes
    (m : Memory)
    (len : Nat) : Sol (Nat × Memory) :=
  if len > allocLimit then
    .error (.panic 0x41)
  else do
    let (p, m) ← allocate m (0x20 + roundUp len)
    return (p, zeroFill (mstore m p len) (p + 0x20) len)

/- `toBytes` -/
def toBytes
    (m : Memory)
    (item : RLPItem) : Sol (Nat × Memory) := do
  require (item.len > 0) ""
  let (memPtr, len) ← payloadLocation m item
  let (result, m) ← newBytes m len
  let m ← copy m memPtr (wrapAdd 0x20 result) len
  return (result, m)

/- `toRlpBytes` -/
def toRlpBytes
    (m : Memory)
    (item : Nat) : Sol (Nat × Memory) := do
  let (result, m) ← newBytes m (loadItem m item).len
  if mload m result = 0 then
    return (result, m)
  else
    let item := loadItem m item
    let m ← copy m item.memPtr (wrapAdd 0x20 result) item.len
    return (result, m)

end RLPReader
