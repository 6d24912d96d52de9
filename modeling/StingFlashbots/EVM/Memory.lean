import StingFlashbots.Base.Except
import StingFlashbots.Encoding.BigEndian

/-
  The memory of the virtual machine and the arithmetic of
  compiled contracts.

  Memory maps addresses to bytes; a word is a number below
  `2 ^ 256` stored in 32 bytes, most significant first.
  Assembly arithmetic wraps around, division by zero gives
  zero, and high-level arithmetic panics on overflow.

  Key definitions include:
    * `EVM.Memory`, `EVM.slice`
    * `EVM.mload`, `EVM.mstore`
    * `EVM.Sol`
    * `EVM.checkedAdd`, `EVM.checkedSub`
    * `EVM.BytesAt`

  Key results include:
    * `EVM.mload_div`
    * `EVM.byteAt_zero_mload`
    * `EVM.slice_mstore_of_disjoint`
-/

namespace EVM

------------------------------------------------------------
-- Memory
------------------------------------------------------------

/- The number of words. -/
def modulus : Nat :=
  2 ^ 256

/- The bytes at all addresses. -/
abbrev Memory :=
  Nat → UInt8

/- The `n` bytes from an address on. -/
def slice
    (m : Memory)
    (p n : Nat) : Bytes :=
  (List.range n).map fun i => m (p + i)

/- Read a word. -/
def mload
    (m : Memory)
    (p : Nat) : Nat :=
  BigEndian.decode (slice m p 32)

/- Write a word. -/
def mstore
    (m : Memory)
    (p w : Nat) : Memory :=
  fun a =>
    if p ≤ a ∧ a < p + 32 then
      (BigEndian.encodeFixed 32 w).getD (a - p) 0
    else
      m a

@[simp] theorem length_slice
    (m : Memory)
    (p n : Nat) :
    (slice m p n).length = n := by
  simp [slice]

@[simp] theorem slice_zero
    (m : Memory)
    (p : Nat) :
    slice m p 0 = [] := rfl

theorem getElem_slice
    (m : Memory)
    (p n : Nat)
    {i : Nat}
    (hi : i < (slice m p n).length) :
    (slice m p n)[i] = m (p + i) := by
  simp [slice]

/- A slice is made of the slices of its parts. -/
theorem slice_append
    (m : Memory)
    (p a b : Nat) :
    slice m p (a + b) =
      slice m p a ++ slice m (p + a) b := by
  simp only [slice, List.range_add, List.map_append,
    List.map_map]
  congr 1
  refine List.map_congr_left fun i _ => ?_
  simp [Nat.add_assoc]

theorem slice_succ
    (m : Memory)
    (p n : Nat) :
    slice m p (n + 1) = m p :: slice m (p + 1) n := by
  rw [Nat.add_comm, slice_append]
  rfl

/- Dividing a word by a power of 256 keeps its first bytes. -/
theorem mload_div
    (m : Memory)
    (p : Nat)
    {k : Nat}
    (hk : k ≤ 32) :
    mload m p / 256 ^ (32 - k) =
      BigEndian.decode (slice m p k) := by
  have hSplit : (32 : Nat) = k + (32 - k) := by omega
  have hLt :=
    BigEndian.decode_lt (slice m (p + k) (32 - k))
  rw [length_slice] at hLt
  unfold mload
  conv_lhs =>
    rw [hSplit, slice_append, BigEndian.decode_append,
      length_slice]
  rw [← hSplit, Nat.add_comm,
    Nat.add_mul_div_right _ _ (by positivity),
    Nat.div_eq_of_lt hLt, Nat.zero_add]

------------------------------------------------------------
-- Instructions
------------------------------------------------------------

/- The byte of a word at an index from the left. -/
def byteAt
    (i w : Nat) : Nat :=
  w / 256 ^ (31 - i) % 256

/- Addition of the assembly. -/
def wrapAdd
    (a b : Nat) : Nat :=
  (a + b) % modulus

/- Subtraction of the assembly. -/
def wrapSub
    (a b : Nat) : Nat :=
  (a + (modulus - b % modulus)) % modulus

/- Exponentiation of the assembly. -/
def wrapExp
    (a b : Nat) : Nat :=
  a ^ b % modulus

/- The first byte of a word in memory. -/
theorem byteAt_zero_mload
    (m : Memory)
    (p : Nat) :
    byteAt 0 (mload m p) = (m p).toNat := by
  have hDiv := mload_div m p (k := 1) (by omega)
  have hLt := (m p).toNat_lt
  unfold byteAt
  rw [hDiv, slice_succ, slice_zero, BigEndian.decode_singleton]
  omega

/- A write leaves other bytes alone. -/
theorem slice_mstore_of_disjoint
    (m : Memory)
    {dest q n : Nat}
    (hDisjoint : q + n ≤ dest ∨ dest + 32 ≤ q)
    (w : Nat) :
    slice (mstore m dest w) q n = slice m q n := by
  refine List.ext_getElem (by simp) fun i hi hi' => ?_
  have hLt : i < n := by simpa using hi
  rw [getElem_slice, getElem_slice, mstore,
    if_neg (by omega)]

/- A word that was written is read back. -/
theorem mload_mstore
    (m : Memory)
    (p : Nat)
    {w : Nat}
    (hw : w < modulus) :
    mload (mstore m p w) p = w := by
  have hFit : w < 256 ^ 32 :=
    lt_of_lt_of_eq hw (by norm_num [modulus])
  have hSlice :
      slice (mstore m p w) p 32 =
        BigEndian.encodeFixed 32 w := by
    have hLength := BigEndian.length_encodeFixed hFit
    refine List.ext_getElem (by simp [hLength])
      fun i hi hi' => ?_
    have hLt : i < 32 := by simpa using hi
    rw [getElem_slice, mstore, if_pos (by omega),
      Nat.add_sub_cancel_left,
      List.getD_eq_getElem?_getD,
    List.getElem?_eq_getElem hi', Option.getD_some]
  rw [mload, hSlice, BigEndian.decode_encodeFixed]

------------------------------------------------------------
-- High-Level Arithmetic
------------------------------------------------------------

/- How a call fails. -/
inductive Revert where
| reason (text : String)
| panic (code : Nat)
| outOfGas
deriving DecidableEq, Repr

/- A computation of a contract. -/
abbrev Sol :=
  Except Revert

/- The `require` statement. -/
def require
    (p : Prop)
    [Decidable p]
    (text : String) : Sol Unit :=
  if p then .ok () else .error (.reason text)

@[simp] theorem require_eq_ok
    {p : Prop}
    [Decidable p]
    {text : String}
    {u : Unit} :
    require p text = .ok u ↔ p := by
  unfold require
  split <;> simp_all

theorem require_pos
    {p : Prop}
    [Decidable p]
    (hp : p)
    (text : String) :
    require p text = .ok () :=
  if_pos hp

/- Addition that panics on overflow. -/
def checkedAdd
    (a b : Nat) : Sol Nat :=
  if a + b < modulus then
    .ok (a + b)
  else
    .error (.panic 0x11)

/- Subtraction that panics below zero. -/
def checkedSub
    (a b : Nat) : Sol Nat :=
  if b ≤ a then
    .ok (a - b)
  else
    .error (.panic 0x11)

theorem checkedAdd_of_lt
    {a b : Nat}
    (hLt : a + b < modulus) :
    checkedAdd a b = .ok (a + b) :=
  if_pos hLt

theorem checkedSub_of_le
    {a b : Nat}
    (hLe : b ≤ a) :
    checkedSub a b = .ok (a - b) :=
  if_pos hLe

/- The largest length and pointer the allocator accepts. -/
def allocLimit : Nat :=
  0xffffffffffffffff

/- A size rounded up to whole words. -/
def roundUp (n : Nat) : Nat :=
  (n + 31) / 32 * 32

/-
  Take memory from the free pointer, which is kept at
  address `0x40`.
-/
def allocate
    (m : Memory)
    (size : Nat) : Sol (Nat × Memory) :=
  let p := mload m 0x40
  let newFree := p + roundUp size
  if newFree > allocLimit then
    .error (.panic 0x41)
  else
    .ok (p, mstore m 0x40 newFree)

/-
  A `bytes` value in memory: its length, then its bytes, all
  of it below the free pointer and above the reserved words.
-/
structure BytesAt
    (m : Memory)
    (p : Nat)
    (b : Bytes) : Prop where
  reserved_le : 0x60 ≤ p
  length_eq : mload m p = b.length
  slice_eq : slice m (p + 0x20) b.length = b
  le_free : p + 0x20 + b.length ≤ mload m 0x40

end EVM
