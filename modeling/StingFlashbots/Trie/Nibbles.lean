import StingFlashbots.Encoding.BigEndian

/-
  Nibble sequences and their hex-prefix encoding.

  Key definitions include:
    * `Nibble`
    * `Nibble.ofBytes`
    * `Nibble.pack`
    * `Nibble.hexPrefix`

  Key results include:
    * `Nibble.prefix_of_ofBytes_prefix`
    * `Nibble.length_hexPrefix`
    * `Nibble.ofBytes_hexPrefix`
-/

/- Half a byte. -/
abbrev Nibble :=
  Fin 16

namespace Nibble

instance : NeZero 16 := ⟨by decide⟩

------------------------------------------------------------
-- Bytes and Nibbles
------------------------------------------------------------

/- The upper half of a byte. -/
def high (x : UInt8) : Nibble :=
  ⟨x.toNat / 16, by have := x.toNat_lt; omega⟩

/- The lower half of a byte. -/
def low (x : UInt8) : Nibble :=
  ⟨x.toNat % 16, by omega⟩

/- The byte with the given halves. -/
def byteOf (a b : Nibble) : UInt8 :=
  UInt8.ofNat (16 * a.val + b.val)

/- Every byte in order, the upper half first. -/
def ofBytes : Bytes → List Nibble
| [] => []
| x :: b => high x :: low x :: ofBytes b

@[simp] theorem toNat_byteOf
    (a b : Nibble) :
    (byteOf a b).toNat = 16 * a.val + b.val := by
  have ha := a.isLt
  have hb := b.isLt
  have hLt : 16 * a.val + b.val < 256 := by omega
  simpa [byteOf] using hLt

@[simp] theorem high_byteOf
    (a b : Nibble) :
    high (byteOf a b) = a := by
  have hb := b.isLt
  apply Fin.ext
  simp only [high, toNat_byteOf]
  omega

@[simp] theorem low_byteOf
    (a b : Nibble) :
    low (byteOf a b) = b := by
  have hb := b.isLt
  apply Fin.ext
  simp only [low, toNat_byteOf]
  omega

@[simp] theorem byteOf_high_low
    (x : UInt8) :
    byteOf (high x) (low x) = x := by
  apply UInt8.toNat_inj.mp
  rw [toNat_byteOf]
  simp only [high, low]
  omega

@[simp] theorem length_ofBytes
    (b : Bytes) :
    (ofBytes b).length = 2 * b.length := by
  induction b with
  | nil => rfl
  | cons x b ih =>
      simp only [ofBytes, List.length_cons, ih]
      omega

/- Nibble prefixes of nibble strings are byte prefixes. -/
theorem prefix_of_ofBytes_prefix
    {b c : Bytes}
    (hPrefix : ofBytes b <+: ofBytes c) :
    b <+: c := by
  induction b generalizing c with
  | nil => exact List.nil_prefix
  | cons x b ih =>
      cases c with
      | nil => simp [ofBytes] at hPrefix
      | cons y c =>
          simp only [ofBytes, List.cons_prefix_cons]
            at hPrefix
          rcases hPrefix with ⟨hHigh, hLow, hRest⟩
          have hByte : x = y := by
            rw [← byteOf_high_low x, hHigh, hLow,
              byteOf_high_low]
          rw [hByte, List.cons_prefix_cons]
          exact ⟨rfl, ih hRest⟩

------------------------------------------------------------
-- Hex-Prefix Encoding
------------------------------------------------------------

/- Join nibbles pairwise into bytes. -/
def pack : List Nibble → Bytes
| a :: b :: rest => byteOf a b :: pack rest
| _ => []

/-
  The compact form of a path. The first nibble carries the
  leaf flag and the parity; a path of even length is padded
  with a zero nibble.
-/
def hexPrefix
    (path : List Nibble)
    (isLeaf : Bool) : Bytes :=
  let flag : Nibble := if isLeaf then 2 else 0
  if path.length % 2 = 0 then
    pack (flag :: 0 :: path)
  else
    pack ((flag + 1) :: path)

theorem length_pack :
    ∀ path : List Nibble,
      (pack path).length = path.length / 2
| [] => rfl
| [_] => by simp [pack]
| a :: b :: rest => by
    simp only [pack, List.length_cons, length_pack rest]
    omega

theorem length_hexPrefix
    (path : List Nibble)
    (isLeaf : Bool) :
    (hexPrefix path isLeaf).length =
      path.length / 2 + 1 := by
  unfold hexPrefix
  simp only
  split
  · simp only [length_pack, List.length_cons]
    omega
  · simp only [length_pack, List.length_cons]
    omega

/- Splitting undoes joining for an even number of nibbles. -/
theorem ofBytes_pack :
    ∀ path : List Nibble, path.length % 2 = 0 →
      ofBytes (pack path) = path
| [], _ => rfl
| [_], hEven => by simp at hEven
| a :: b :: rest, hEven => by
    have hRest : rest.length % 2 = 0 := by
      simp only [List.length_cons] at hEven
      omega
    simp only [pack, ofBytes, high_byteOf, low_byteOf,
      ofBytes_pack rest hRest]

theorem pack_ofBytes
    (b : Bytes) :
    pack (ofBytes b) = b := by
  induction b with
  | nil => rfl
  | cons x b ih =>
      rw [ofBytes, pack, byteOf_high_low, ih]

/- The nibbles of a compact path end with the path. -/
theorem ofBytes_hexPrefix
    (path : List Nibble)
    (isLeaf : Bool) :
    ofBytes (hexPrefix path isLeaf) =
      if path.length % 2 = 0 then
        (if isLeaf then 2 else 0) :: 0 :: path
      else
        ((if isLeaf then 2 else 0) + 1) :: path := by
  unfold hexPrefix
  simp only
  split
  · rw [ofBytes_pack]
    simp only [List.length_cons]
    omega
  · rw [ofBytes_pack]
    simp only [List.length_cons]
    omega

end Nibble
