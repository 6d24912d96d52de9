import StingFlashbots.Encoding.Hex
import StingFlashbots.Searcher.Value

/-
  Conversions of `utils.py`.

  The commitment is made to the bytes of a signature: the
  bytes of `v`, followed by the texts of `r` and `s` in
  hexadecimal. No digit is an `x`, so the texts can be found
  from the right and the bytes determine the signature.

  Key definitions include:
    * `intToBytes`, `bytesToInt`
    * `hex`, `intBase16`
    * `strToBytes`, `hexToBytes`
    * `signatureMessage`

  Main results:
    * `intBase16_hex`
    * `signatureMessage_eq_iff`
-/

namespace Sting

------------------------------------------------------------
-- Integers and Bytes
------------------------------------------------------------

/- `bit_length` -/
def bitLength (n : Nat) : Nat :=
  if n = 0 then 0 else n.log2 + 1

/- `int_to_bytes` -/
def intToBytes (n : Nat) : Bytes :=
  BigEndian.encodeFixed ((bitLength n + 7) / 8) n

/- `bytes_to_int` -/
def bytesToInt (b : Bytes) : Nat :=
  BigEndian.decode b

theorem bitLength_le_iff
    (n k : Nat) :
    bitLength n ≤ k ↔ n < 2 ^ k := by
  unfold bitLength
  split_ifs with hn
  · rw [hn]
    simp
  · exact Nat.log2_lt hn

theorem intToBytes_eq
    (n : Nat) :
    intToBytes n = BigEndian.encode n := by
  have hLe : ∀ k,
      (BigEndian.encode n).length ≤ k ↔
        (bitLength n + 7) / 8 ≤ k := by
    intro k
    have hPow : (256 : Nat) ^ k = 2 ^ (8 * k) := by
      rw [Nat.pow_mul]
    rw [BigEndian.length_encode_le_iff, hPow,
      ← bitLength_le_iff]
    omega
  have hWidth :
      (bitLength n + 7) / 8 ≤ (BigEndian.encode n).length :=
    (hLe _).mp (le_refl _)
  rw [intToBytes, BigEndian.encodeFixed,
    Nat.sub_eq_zero_of_le hWidth]
  rfl

------------------------------------------------------------
-- Texts
------------------------------------------------------------

/- `hex` of a number. -/
def hex (n : Nat) : List Char :=
  '0' :: 'x' :: Nat.toDigits 16 n

/- The value of digits behind those already read. -/
def readDigits : Nat → List Char → Option Nat
| value, [] => some value
| value, c :: text => do
    let digit ← Hex.value c
    readDigits (value * 16 + digit) text

/-
  `int(text, 16)`, for text without sign, white space and
  underscores.
-/
def intBase16 (text : List Char) : Py Nat :=
  let digits :=
    match text with
    | '0' :: 'x' :: rest => rest
    | '0' :: 'X' :: rest => rest
    | _ => text
  match digits, readDigits 0 digits with
  | _ :: _, some n => .ok n
  | _, _ => .error (.valueError
      "invalid literal for int() with base 16")

/- `str_to_bytes` -/
def strToBytes (text : List Char) : Bytes :=
  text.flatMap String.utf8EncodeChar

/- `hex_to_bytes` -/
def hexToBytes (text : List Char) : Py Bytes :=
  match Hex.decode text with
  | some b => .ok b
  | none => .error (.valueError
      "non-hexadecimal number found in fromhex() arg")

theorem hexToBytes_encode
    (b : Bytes) :
    hexToBytes (Hex.encode b) = .ok b := by
  rw [hexToBytes, Hex.decode_encode]

theorem toDigits_eq
    (n : Nat) :
    Nat.toDigits 16 n =
      (if n / 16 = 0 then [] else Nat.toDigits 16 (n / 16)) ++
        [Hex.digit n] := by
  rw [Nat.toDigits_eq_if (by omega), Hex.digit]
  by_cases hLess : n < 16
  · rw [if_pos hLess, if_pos (by omega),
      Nat.mod_eq_of_lt hLess]
    rfl
  · rw [if_neg hLess, if_neg (by omega)]

theorem readDigits_append
    (value : Nat)
    (left right : List Char) :
    readDigits value (left ++ right) =
      (readDigits value left).bind fun mid =>
        readDigits mid right := by
  induction left generalizing value with
  | nil => rfl
  | cons c left ih =>
      rw [List.cons_append, readDigits, readDigits]
      cases Hex.value c with
      | none => rfl
      | some digit => exact ih _

/- The digits of a number read as the number. -/
theorem readDigits_toDigits
    (n : Nat) :
    readDigits 0 (Nat.toDigits 16 n) = some n := by
  induction n using Nat.strongRecOn with
  | ind n ih =>
      have hSplit : n / 16 * 16 + n % 16 = n := by omega
      rw [toDigits_eq, readDigits_append]
      split_ifs with hZero
      · simp only [readDigits, Option.bind_some,
          Hex.value_digit]
        rw [hZero] at hSplit
        exact congrArg some hSplit
      · rw [ih (n / 16) (by omega)]
        simp only [readDigits, Option.bind_some,
          Hex.value_digit]
        exact congrArg some hSplit

theorem toDigits_ne_nil
    (n : Nat) :
    Nat.toDigits 16 n ≠ [] := by
  rw [toDigits_eq]
  simp

/- Reading undoes writing. -/
theorem intBase16_hex
    (n : Nat) :
    intBase16 (hex n) = .ok n := by
  have hRead := readDigits_toDigits n
  rcases hDigits : Nat.toDigits 16 n with _ | ⟨c, text⟩
  · exact absurd hDigits (toDigits_ne_nil n)
  · rw [hDigits] at hRead
    simp only [intBase16, hex, hDigits, hRead]

------------------------------------------------------------
-- The Message Committed To
------------------------------------------------------------

/- The bytes of a signature that are hashed. -/
def signatureMessage (v r s : Nat) : Bytes :=
  intToBytes v ++ strToBytes (hex r) ++ strToBytes (hex s)

/- The digits of a number as bytes. -/
def digitBytes (n : Nat) : Bytes :=
  strToBytes (Nat.toDigits 16 n)

private theorem utf8EncodeChar_digit
    (n : Nat) :
    String.utf8EncodeChar (Hex.digit n) =
      [UInt8.ofNat (Hex.digit n).toNat] := by
  have hAll : ∀ d < 16,
      String.utf8EncodeChar (Nat.digitChar d) =
        [UInt8.ofNat (Nat.digitChar d).toNat] := by
    decide
  exact hAll (n % 16) (Nat.mod_lt n (by omega))

private theorem digitBytes_eq
    (n : Nat) :
    digitBytes n =
      (if n / 16 = 0 then [] else digitBytes (n / 16)) ++
        [UInt8.ofNat (Hex.digit n).toNat] := by
  rw [digitBytes, toDigits_eq]
  unfold strToBytes
  rw [List.flatMap_append, List.flatMap_singleton,
    utf8EncodeChar_digit]
  split_ifs with hZero
  · rfl
  · rfl

/- A digit is not the letter `x`, and tells its value. -/
private theorem digit_byte :
    ∀ d < 16,
      UInt8.ofNat (Nat.digitChar d).toNat ≠ 0x78 ∧
      ∀ e < 16,
        UInt8.ofNat (Nat.digitChar d).toNat =
            UInt8.ofNat (Nat.digitChar e).toNat →
          d = e := by
  decide

private theorem x_not_mem_digitBytes
    (n : Nat) :
    (0x78 : UInt8) ∉ digitBytes n := by
  induction n using Nat.strongRecOn with
  | ind n ih =>
      have hDigit :=
        (digit_byte (n % 16) (Nat.mod_lt n (by omega))).1
      rw [digitBytes_eq, List.mem_append, not_or,
        List.mem_singleton]
      refine ⟨?_, hDigit.symm⟩
      split_ifs with hZero
      · exact List.not_mem_nil
      · exact ih (n / 16) (by omega)

private theorem digitBytes_ne_nil
    (n : Nat) :
    digitBytes n ≠ [] := by
  rw [digitBytes_eq]
  simp

private theorem digitBytes_injective :
    Function.Injective digitBytes := by
  intro m n hEq
  induction m using Nat.strongRecOn generalizing n with
  | ind m ih =>
      rw [digitBytes_eq m, digitBytes_eq n] at hEq
      rcases List.append_inj' hEq rfl with ⟨hRest, hLast⟩
      have hDigit : m % 16 = n % 16 :=
        (digit_byte (m % 16) (Nat.mod_lt m (by omega))).2
          (n % 16) (Nat.mod_lt n (by omega))
          (List.singleton_inj.mp hLast)
      split_ifs at hRest with hm hn hn
      · omega
      · exact absurd hRest.symm (digitBytes_ne_nil _)
      · exact absurd hRest (digitBytes_ne_nil _)
      · have hHigh := ih (m / 16) (by omega) hRest
        omega

/- The last occurrence of an element splits a list. -/
private theorem append_cons_inj_right
    {α : Type}
    {a : α}
    {xs ys us vs : List α}
    (hys : a ∉ ys)
    (hvs : a ∉ vs)
    (hEq : xs ++ a :: ys = us ++ a :: vs) :
    xs = us ∧ ys = vs := by
  rcases List.append_eq_append_iff.mp hEq with
    ⟨mid, rfl, hMid⟩ | ⟨mid, rfl, hMid⟩
  · cases mid with
    | nil => simpa using hMid
    | cons b mid =>
        rw [List.cons_append, List.cons.injEq] at hMid
        rw [hMid.2] at hys
        simp at hys
  · cases mid with
    | nil => simpa [eq_comm] using hMid
    | cons b mid =>
        rw [List.cons_append, List.cons.injEq] at hMid
        rw [hMid.2] at hvs
        simp at hvs

private theorem strToBytes_hex
    (n : Nat) :
    strToBytes (hex n) = [0x30] ++ 0x78 :: digitBytes n := by
  rfl

/- A number can be taken off the end. -/
private theorem append_hex_inj
    {xs ys : Bytes}
    {m n : Nat}
    (hEq :
      xs ++ strToBytes (hex m) = ys ++ strToBytes (hex n)) :
    xs = ys ∧ m = n := by
  rw [strToBytes_hex, strToBytes_hex, ← List.append_assoc,
    ← List.append_assoc] at hEq
  rcases append_cons_inj_right (x_not_mem_digitBytes m)
      (x_not_mem_digitBytes n) hEq with ⟨hLeft, hDigits⟩
  exact ⟨List.append_cancel_right hLeft,
    digitBytes_injective hDigits⟩

/- The bytes determine the signature. -/
theorem signatureMessage_eq_iff
    (v r s v' r' s' : Nat) :
    signatureMessage v r s = signatureMessage v' r' s' ↔
      v = v' ∧ r = r' ∧ s = s' := by
  constructor
  · intro hEq
    rcases append_hex_inj hEq with ⟨hLeft, hs⟩
    rcases append_hex_inj hLeft with ⟨hBytes, hr⟩
    rw [intToBytes_eq, intToBytes_eq] at hBytes
    exact ⟨BigEndian.encode_injective hBytes, hr, hs⟩
  · rintro ⟨rfl, rfl, rfl⟩
    rfl

end Sting
