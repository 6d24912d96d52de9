import StingFlashbots.Encoding.BigEndian

/-
  Little-endian numerals, in bytes and in words.

  Key definitions include:
    * `LittleEndian.decode`, `LittleEndian.encode`
    * `LittleEndian.ofWords`, `LittleEndian.toWords`

  Main results:
    * `LittleEndian.ofWords_eq`
    * `LittleEndian.toWords_eq`
-/

namespace LittleEndian

------------------------------------------------------------
-- Bytes
------------------------------------------------------------

/- The number a byte string denotes, lowest byte first. -/
def decode (b : Bytes) : Nat :=
  BigEndian.decode b.reverse

/- The numeral of a number in a fixed width. -/
def encode (width n : Nat) : Bytes :=
  (BigEndian.encodeFixed width n).reverse

@[simp] theorem decode_encode
    (width n : Nat) :
    decode (encode width n) = n := by
  rw [decode, encode, List.reverse_reverse,
    BigEndian.decode_encodeFixed]

theorem length_encode
    {width n : Nat}
    (hFit : n < 256 ^ width) :
    (encode width n).length = width := by
  rw [encode, List.length_reverse,
    BigEndian.length_encodeFixed hFit]

theorem decode_append
    (a b : Bytes) :
    decode (a ++ b) =
      decode a + 256 ^ a.length * decode b := by
  rw [decode, List.reverse_append, BigEndian.decode_append,
    List.length_reverse, Nat.add_comm, Nat.mul_comm]
  rfl

theorem decode_lt
    (b : Bytes) :
    decode b < 256 ^ b.length := by
  rw [decode, ← List.length_reverse]
  exact BigEndian.decode_lt _

theorem decode_inj
    {b c : Bytes}
    (hLength : b.length = c.length)
    (hEq : decode b = decode c) :
    b = c := by
  apply List.reverse_injective
  apply BigEndian.decode_inj
  · rw [List.length_reverse, List.length_reverse, hLength]
  · exact hEq

theorem encode_decode
    (b : Bytes) :
    encode b.length (decode b) = b := by
  apply decode_inj
  · exact length_encode (decode_lt b)
  · exact decode_encode _ _

------------------------------------------------------------
-- Words
------------------------------------------------------------

/- The word of four bytes at a position. -/
def word
    (b : Bytes)
    (i : Nat) : Nat :=
  decode ((b.drop (4 * i)).take 4)

/- Put so many words together, the lowest one first. -/
def ofWords
    (count : Nat)
    (b : Bytes) : Nat :=
  (List.range count).foldl
    (fun r i => r + word b i <<< (i * 32)) 0

/- Take a number apart into so many words. -/
def toWords (count n : Nat) : Bytes :=
  (List.range count).flatMap fun i =>
    encode 4 (n >>> (i * 32) &&& 0xffffffff)

private theorem pow_word
    (k : Nat) :
    (256 : Nat) ^ (4 * k) = 2 ^ (k * 32) := by
  rw [Nat.pow_mul, Nat.mul_comm k, Nat.pow_mul]

/- The words of a string give its number. -/
theorem ofWords_eq
    {count : Nat}
    {b : Bytes}
    (hLength : 4 * count ≤ b.length) :
    ofWords count b = decode (b.take (4 * count)) := by
  induction count with
  | zero => rfl
  | succ count ih =>
      have hTake :
          b.take (4 * (count + 1)) =
            b.take (4 * count) ++
              (b.drop (4 * count)).take 4 := by
        rw [Nat.mul_succ, List.take_add]
      have hFront : (b.take (4 * count)).length = 4 * count :=
        List.length_take_of_le (by omega)
      have hPrevious := ih (by omega)
      unfold ofWords at hPrevious ⊢
      rw [List.range_succ, List.foldl_append, hPrevious, hTake,
        decode_append, hFront, pow_word,
        Nat.mul_comm (2 ^ _), ← Nat.shiftLeft_eq]
      rfl

private theorem mask_lt
    (n i : Nat) :
    n >>> (i * 32) &&& 0xffffffff < 256 ^ 4 :=
  lt_of_le_of_lt Nat.and_le_right (by norm_num)

theorem length_toWords
    (count n : Nat) :
    (toWords count n).length = 4 * count := by
  induction count with
  | zero => rfl
  | succ count ih =>
      unfold toWords at ih ⊢
      rw [List.range_succ, List.flatMap_append,
        List.length_append, ih, List.flatMap_singleton,
        length_encode (mask_lt n count)]
      omega

private theorem decode_toWords
    (count n : Nat) :
    decode (toWords count n) = n % 2 ^ (count * 32) := by
  induction count with
  | zero =>
      rw [Nat.zero_mul, Nat.pow_zero, Nat.mod_one]
      rfl
  | succ count ih =>
      have hLength := length_toWords count n
      have hMask : (0xffffffff : Nat) = 2 ^ 32 - 1 := by
        norm_num
      unfold toWords at ih hLength ⊢
      rw [List.range_succ, List.flatMap_append, decode_append,
        hLength, ih, List.flatMap_singleton, decode_encode,
        pow_word, hMask, Nat.and_two_pow_sub_one_eq_mod,
        Nat.shiftRight_eq_div_pow, Nat.succ_mul, Nat.pow_add,
        Nat.mod_mul]

/- The words of a number are its numeral. -/
theorem toWords_eq
    {count n : Nat}
    (hFit : n < 256 ^ (4 * count)) :
    toWords count n = encode (4 * count) n := by
  apply decode_inj
  · rw [length_toWords, length_encode hFit]
  · rw [pow_word] at hFit
    rw [decode_toWords, decode_encode, Nat.mod_eq_of_lt hFit]

end LittleEndian
