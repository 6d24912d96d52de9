import Mathlib.Data.Nat.Digits.Lemmas

/-
  Byte strings and big-endian integers.

  A byte string is read as a base-256 numeral whose first
  byte is the most significant one. `BigEndian.encode` is
  the minimal numeral (zero is the empty string), and
  `BigEndian.encodeFixed` pads it on the left.

  Key definitions include:
    * `Bytes`
    * `BigEndian.decode`
    * `BigEndian.encode`
    * `BigEndian.encodeFixed`

  Key results include:
    * `BigEndian.decode_encode`
    * `BigEndian.encode_decode`
    * `BigEndian.decode_append`
    * `BigEndian.length_encode_le_iff`
    * `BigEndian.encodeFixed_decode`
-/

/- A byte string. -/
abbrev Bytes :=
  List UInt8

namespace BigEndian

------------------------------------------------------------
-- Numerals
------------------------------------------------------------

/- The number a byte string denotes. -/
def decode (b : Bytes) : Nat :=
  Nat.ofDigits 256 (b.reverse.map UInt8.toNat)

/- The minimal byte string denoting a number. -/
def encode (n : Nat) : Bytes :=
  ((Nat.digits 256 n).map UInt8.ofNat).reverse

/- The numeral of a number, padded with zeros on the left. -/
def encodeFixed
    (width n : Nat) : Bytes :=
  List.replicate (width - (encode n).length) 0 ++ encode n

@[simp] theorem decode_nil : decode [] = 0 := rfl

@[simp] theorem encode_zero : encode 0 = [] := by
  simp [encode]

/- Concatenation shifts the left part up. -/
theorem decode_append
    (a b : Bytes) :
    decode (a ++ b) =
      decode a * 256 ^ b.length + decode b := by
  simp only [decode, List.reverse_append, List.map_append,
    Nat.ofDigits_append, List.length_map,
    List.length_reverse]
  ring

theorem decode_cons
    (x : UInt8)
    (b : Bytes) :
    decode (x :: b) =
      x.toNat * 256 ^ b.length + decode b := by
  have hSplit := decode_append [x] b
  simpa [decode] using hSplit

@[simp] theorem decode_singleton
    (x : UInt8) :
    decode [x] = x.toNat := by
  simp [decode]

private theorem digits_lt
    (b : Bytes) :
    ∀ d ∈ b.reverse.map UInt8.toNat, d < 256 := by
  intro d hd
  rcases List.mem_map.mp hd with ⟨x, _, rfl⟩
  exact x.toNat_lt

/- A numeral is below the power its length allows. -/
theorem decode_lt
    (b : Bytes) :
    decode b < 256 ^ b.length := by
  have hLt :=
    Nat.ofDigits_lt_base_pow_length
      (b := 256) (by norm_num) (digits_lt b)
  simpa [decode] using hLt

private theorem map_toNat_ofNat
    (ds : List Nat)
    (hDigits : ∀ d ∈ ds, d < 256) :
    (ds.map UInt8.ofNat).map UInt8.toNat = ds := by
  rw [List.map_map]
  conv_rhs => rw [← List.map_id ds]
  apply List.map_congr_left
  intro d hd
  simpa using hDigits d hd

/- Decoding undoes encoding. -/
@[simp] theorem decode_encode
    (n : Nat) :
    decode (encode n) = n := by
  unfold decode encode
  rw [List.reverse_reverse, map_toNat_ofNat]
  · exact Nat.ofDigits_digits 256 n
  · intro d hd
    exact Nat.digits_lt_base (by norm_num) hd

theorem encode_injective : Function.Injective encode := by
  intro m n hEq
  have hDecode := congrArg decode hEq
  simpa using hDecode

/- A minimal numeral does not start with a zero byte. -/
theorem head?_encode
    (n : Nat) :
    (encode n).head? ≠ some 0 := by
  intro hHead
  have hn : n ≠ 0 := by
    rintro rfl
    simp at hHead
  have hNil : Nat.digits 256 n ≠ [] :=
    Nat.digits_ne_nil_iff_ne_zero.mpr hn
  unfold encode at hHead
  rw [List.head?_reverse, List.getLast?_map,
    List.getLast?_eq_some_getLast hNil] at hHead
  have hLast := Nat.getLast_digit_ne_zero 256 hn
  have hLt :
      (Nat.digits 256 n).getLast hNil < 2 ^ 8 :=
    Nat.digits_lt_base (by norm_num)
      (List.getLast_mem hNil)
  simp only [Option.map_some, Option.some.injEq] at hHead
  have hZero := congrArg UInt8.toNat hHead
  rw [UInt8.toNat_ofNat', Nat.mod_eq_of_lt hLt] at hZero
  exact hLast hZero

/- Encoding undoes decoding of minimal numerals. -/
theorem encode_decode
    {b : Bytes}
    (hHead : b.head? ≠ some 0) :
    encode (decode b) = b := by
  have hDigits := digits_lt b
  have hLast :
      ∀ hNil : b.reverse.map UInt8.toNat ≠ [],
        (b.reverse.map UInt8.toNat).getLast hNil ≠ 0 := by
    intro hNil hZero
    apply hHead
    cases b with
    | nil => simp at hNil
    | cons x b =>
        simp only [List.reverse_cons, List.map_append,
          List.map_cons, List.map_nil,
          List.getLast_append_of_ne_nil _
            (List.cons_ne_nil _ _),
          List.getLast_singleton] at hZero
        have hx : x = 0 := UInt8.toNat_inj.mp hZero
        simp [hx]
  unfold encode decode
  rw [Nat.digits_ofDigits 256 (by norm_num) _ hDigits hLast,
    List.map_map]
  have hId :
      (b.reverse.map (UInt8.ofNat ∘ UInt8.toNat)) =
        b.reverse := by
    conv_rhs => rw [← List.map_id b.reverse]
    apply List.map_congr_left
    intro x _
    simp
  rw [hId, List.reverse_reverse]

/- The length of a minimal numeral. -/
theorem length_encode_le_iff
    (n k : Nat) :
    (encode n).length ≤ k ↔ n < 256 ^ k := by
  simpa [encode] using
    Nat.digits_length_le_iff (b := 256) (by norm_num) n

------------------------------------------------------------
-- Fixed Width
------------------------------------------------------------

/- Leading zeros do not count. -/
theorem decode_replicate_zero_append
    (k : Nat)
    (b : Bytes) :
    decode (List.replicate k 0 ++ b) = decode b := by
  induction k with
  | zero => rfl
  | succ k ih =>
      rw [List.replicate_succ, List.cons_append, decode_cons,
        ih]
      simp

@[simp] theorem decode_encodeFixed
    (width n : Nat) :
    decode (encodeFixed width n) = n := by
  rw [encodeFixed, decode_replicate_zero_append,
    decode_encode]

theorem length_encodeFixed
    {width n : Nat}
    (hFit : n < 256 ^ width) :
    (encodeFixed width n).length = width := by
  have hLe := (length_encode_le_iff n width).mpr hFit
  rw [encodeFixed, List.length_append, List.length_replicate]
  omega

/- Strings of one length are determined by their numbers. -/
theorem decode_inj
    {b c : Bytes}
    (hLength : b.length = c.length)
    (hEq : decode b = decode c) :
    b = c := by
  induction b generalizing c with
  | nil =>
      rw [List.length_nil] at hLength
      exact (List.length_eq_zero_iff.mp hLength.symm).symm
  | cons x b ih =>
      cases c with
      | nil => simp at hLength
      | cons y c =>
          simp only [List.length_cons,
            Nat.add_right_cancel_iff] at hLength
          rw [decode_cons, decode_cons, hLength] at hEq
          have hb := decode_lt b
          have hc := decode_lt c
          rw [hLength] at hb
          have hPos : 0 < 256 ^ c.length := by positivity
          have hMod := congrArg (· % 256 ^ c.length) hEq
          simp only [Nat.mul_comm _ (256 ^ c.length),
            Nat.mul_add_mod, Nat.mod_eq_of_lt hb,
            Nat.mod_eq_of_lt hc] at hMod
          have hHead : x.toNat = y.toNat := by
            rw [hMod] at hEq
            exact Nat.eq_of_mul_eq_mul_right hPos
              (Nat.add_right_cancel hEq)
          rw [UInt8.toNat_inj.mp hHead, ih hLength hMod]

/- Writing a string's number in its own width gives it back. -/
theorem encodeFixed_decode
    (b : Bytes) :
    encodeFixed b.length (decode b) = b := by
  apply decode_inj
  · exact length_encodeFixed (decode_lt b)
  · exact decode_encodeFixed _ _

end BigEndian
