import StingFlashbots.Encoding.BigEndian

/-
  Hexadecimal texts of byte strings.

  Encoding writes two lower-case digits a byte. Decoding
  reads digits of either case and skips white space between
  bytes.

  Key definitions include:
    * `Hex.encode`
    * `Hex.decode`

  Main results:
    * `Hex.decode_encode`
    * `Hex.encode_injective`
-/

namespace Hex

/- A lower-case digit. -/
def digit (n : Nat) : Char :=
  Nat.digitChar (n % 16)

/- The value of a digit. -/
def value (c : Char) : Option Nat :=
  if '0' ≤ c ∧ c ≤ '9' then
    some (c.toNat - 48)
  else if 'a' ≤ c ∧ c ≤ 'f' then
    some (c.toNat - 87)
  else if 'A' ≤ c ∧ c ≤ 'F' then
    some (c.toNat - 55)
  else
    none

/- White space between bytes. -/
def isSpace (c : Char) : Bool :=
  c.toNat = 32 ∨ 9 ≤ c.toNat ∧ c.toNat ≤ 13

def encode (b : Bytes) : List Char :=
  b.flatMap fun x => [digit (x.toNat / 16), digit x.toNat]

def decode : List Char → Option Bytes
| [] => some []
| [c] => if isSpace c then some [] else none
| c :: d :: text =>
    if isSpace c then
      decode (d :: text)
    else do
      let high ← value c
      let low ← value d
      let rest ← decode text
      return UInt8.ofNat (high * 16 + low) :: rest

@[simp] theorem encode_nil : encode [] = [] := rfl

@[simp] theorem encode_cons
    (x : UInt8)
    (b : Bytes) :
    encode (x :: b) =
      digit (x.toNat / 16) :: digit x.toNat :: encode b :=
  rfl

theorem length_encode
    (b : Bytes) :
    (encode b).length = 2 * b.length := by
  induction b with
  | nil => rfl
  | cons x b ih =>
      simp only [encode_cons, List.length_cons, ih]
      omega

private theorem digit_spec :
    ∀ n < 16,
      value (digit n) = some n ∧
      isSpace (digit n) = false ∧
      digit n ≠ '/' := by
  decide

private theorem digit_mod
    (n : Nat) :
    digit (n % 16) = digit n := by
  simp [digit]

@[simp] theorem value_digit
    (n : Nat) :
    value (digit n) = some (n % 16) := by
  rw [← digit_mod]
  exact (digit_spec _ (Nat.mod_lt _ (by omega))).1

@[simp] theorem isSpace_digit
    (n : Nat) :
    isSpace (digit n) = false := by
  rw [← digit_mod]
  exact (digit_spec _ (Nat.mod_lt _ (by omega))).2.1

theorem digit_ne_slash
    (n : Nat) :
    digit n ≠ '/' := by
  rw [← digit_mod]
  exact (digit_spec _ (Nat.mod_lt _ (by omega))).2.2

@[simp] theorem decode_encode
    (b : Bytes) :
    decode (encode b) = some b := by
  induction b with
  | nil => rfl
  | cons x b ih =>
      have hLt := x.toNat_lt
      have hByte :
          x.toNat / 16 % 16 * 16 + x.toNat % 16 =
            x.toNat := by
        omega
      rw [encode_cons, decode, isSpace_digit, value_digit,
        value_digit, ih]
      simp only [Bool.false_eq_true, if_false,
        Option.bind_eq_bind, Option.bind_some, hByte,
        UInt8.ofNat_toNat]
      rfl

theorem encode_injective : Function.Injective encode := by
  intro a b hEq
  have hSome : some a = some b := by
    rw [← decode_encode a, ← decode_encode b, hEq]
  exact Option.some.inj hSome

theorem slash_not_mem_encode
    (b : Bytes) :
    '/' ∉ encode b := by
  induction b with
  | nil => simp
  | cons x b ih =>
      simp [ih, (digit_ne_slash _).symm]

end Hex
