import StingFlashbots.EVM.Memory
import StingFlashbots.Trie.Merkle

/-
  The signature check of the contract.

  The contract hashes the signed data behind a prefix that
  names its length in decimal, splits the 65 bytes of the
  signature and lets the precompile recover the signer.
  Byte strings are kept as values here.

  Key definitions include:
    * `Precompiles`
    * `uint2str`
    * `hashData`
    * `recover`

  Main results:
    * `uint2str_eq`
-/

namespace Sting

open EVM

/- An account. -/
abbrev Address :=
  BitVec 160

/- The hash function and the recovery precompile. -/
structure Precompiles where
  keccak : Digest
  ecrecover : Bytes → Nat → Nat → Nat → Address

------------------------------------------------------------
-- Decimal Numerals
------------------------------------------------------------

/- The first loop of `uint2str`: count the digits. -/
def countDigits (j : Nat) : Nat :=
  if hj : j = 0 then 0 else countDigits (j / 10) + 1
termination_by j
decreasing_by omega

/- Assign to an element of a byte array. -/
def setByte
    (b : Bytes)
    (k : Nat)
    (x : UInt8) : Sol Bytes :=
  if k < b.length then
    .ok (b.set k x)
  else
    .error (.panic 0x32)

/- The second loop of `uint2str`: fill in from the right. -/
def fillDigits
    (j k : Nat)
    (bstr : Bytes) : Sol Bytes :=
  if hj : j = 0 then
    .ok bstr
  else do
    let k ← checkedSub k 1
    let bstr ← setByte bstr k (UInt8.ofNat (48 + j % 10))
    fillDigits (j / 10) k bstr
termination_by j
decreasing_by omega

/- `uint2str` -/
def uint2str (i : Nat) : Sol Bytes :=
  if i = 0 then
    .ok [48]
  else
    let length := countDigits i
    fillDigits i length (List.replicate length 0)

------------------------------------------------------------
-- What the Loops Compute
------------------------------------------------------------

/- The decimal numeral of a number. -/
def decimal (n : Nat) : Bytes :=
  (Nat.toDigits 10 n).map fun c => UInt8.ofNat c.toNat

/- The digits the loops see: zero has none. -/
private def digitsOf (n : Nat) : Bytes :=
  if n = 0 then [] else decimal n

private theorem ofNat_digitChar :
    ∀ d < 10,
      UInt8.ofNat (Nat.digitChar d).toNat =
        UInt8.ofNat (48 + d) := by
  decide

private theorem digitsOf_eq
    {n : Nat}
    (hn : n ≠ 0) :
    digitsOf n =
      digitsOf (n / 10) ++ [UInt8.ofNat (48 + n % 10)] := by
  have hDigit := ofNat_digitChar (n % 10)
    (Nat.mod_lt n (by omega))
  unfold digitsOf decimal
  rw [if_neg hn, Nat.toDigits_eq_if (by omega)]
  by_cases hLess : n < 10
  · have hZero : n / 10 = 0 := by omega
    rw [Nat.mod_eq_of_lt hLess] at hDigit ⊢
    rw [if_pos hLess, if_pos hZero]
    simp [hDigit]
  · have hMore : n / 10 ≠ 0 := by omega
    rw [if_neg hLess, if_neg hMore]
    simp [hDigit]

private theorem countDigits_eq
    (n : Nat) :
    countDigits n = (digitsOf n).length := by
  induction n using Nat.strongRecOn with
  | ind n ih =>
      rw [countDigits]
      split_ifs with hn
      · rw [hn]
        rfl
      · rw [digitsOf_eq hn, ih (n / 10) (by omega)]
        simp

/- The loop writes the digits over the room it is given. -/
private theorem fillDigits_eq
    (n : Nat)
    (room rest : Bytes)
    (hRoom : room.length = (digitsOf n).length) :
    fillDigits n (digitsOf n).length (room ++ rest) =
      .ok (digitsOf n ++ rest) := by
  induction n using Nat.strongRecOn generalizing room rest with
  | ind n ih =>
      rw [fillDigits]
      split_ifs with hn
      · rw [hn] at hRoom ⊢
        rw [List.length_eq_zero_iff.mp hRoom]
        rfl
      · rw [digitsOf_eq hn, List.length_append,
          List.length_singleton] at hRoom ⊢
        rcases List.eq_nil_or_concat room with
          hNil | ⟨front, last, hConcat⟩
        · rw [hNil] at hRoom
          cases hRoom
        · have hFront :
              front.length = (digitsOf (n / 10)).length := by
            rw [hConcat] at hRoom
            simpa using hRoom
          have hIndex :
              front.length < (room ++ rest).length := by
            rw [hConcat]
            simp
          have hSet :
              (room ++ rest).set front.length
                  (UInt8.ofNat (48 + n % 10)) =
                front ++ UInt8.ofNat (48 + n % 10) :: rest := by
            rw [hConcat]
            simp
          rw [checkedSub_of_le (by omega), ok_bind,
            Nat.add_sub_cancel, ← hFront, setByte,
            if_pos hIndex, ok_bind, hSet, hFront,
            ih (n / 10) (by omega) _ _ hFront]
          simp

theorem uint2str_eq
    (n : Nat) :
    uint2str n = .ok (decimal n) := by
  unfold uint2str
  split_ifs with hn
  · rw [hn]
    rfl
  · have hFill := fillDigits_eq n
      (List.replicate (digitsOf n).length 0) []
      (List.length_replicate ..)
    rw [List.append_nil, List.append_nil] at hFill
    rw [countDigits_eq, hFill, digitsOf, if_neg hn]

------------------------------------------------------------
-- Hashing and Recovering
------------------------------------------------------------

/- The literal `'\x19Ethereum Signed Message:\n'`. -/
def ethPrefix : Bytes :=
  0x19 ::
    ("Ethereum Signed Message:\n".toList.map fun c =>
      UInt8.ofNat c.toNat)

/- `hash_data` -/
def hashData
    (pre : Precompiles)
    (data : Bytes) : Sol Bytes := do
  let length ← uint2str data.length
  return pre.keccak (ethPrefix ++ length ++ data)

/- The bound on the second half of a signature. -/
def maxS : Nat :=
  0x7FFFFFFFFFFFFFFFFFFFFFFFFFFFFFFF5D576E7357A4501DDFE92F46681B20A0

/- `recover` -/
def recover
    (pre : Precompiles)
    (hash : Bytes)
    (signature : Bytes) : Sol Address :=
  if signature.length = 65 then
    let r := BigEndian.decode (signature.take 32)
    let s := BigEndian.decode ((signature.drop 32).take 32)
    let v := (signature.getD 64 0).toNat
    if s > maxS then
      .error (.reason "ECDSA: invalid signature 's' value")
    else
      let signer := pre.ecrecover hash v r s
      if signer = 0 then
        .error (.reason "ECDSA: invalid signature")
      else
        .ok signer
  else
    .error (.reason "ECDSA: invalid signature length")

/- The signature over the data recovers to the address. -/
def RecoversTo
    (pre : Precompiles)
    (data sig : Bytes)
    (addr : Address) : Prop :=
  ∃ hash, hashData pre data = .ok hash ∧
    recover pre hash sig = .ok addr

end Sting
