import StingFlashbots.Searcher.Value
import Mathlib.Algebra.Field.ZMod
import Mathlib.Data.Nat.Bitwise
import Mathlib.Tactic.LinearCombination

/-
  The finite field of the commitment library.

  `IntegersModP(p)` keeps the residue of an integer. Division
  goes through the extended Euclidean algorithm, on integers,
  and raises when it finds a common divisor.

  Key definitions include:
    * `Commitment.IntegerModP`
    * `Commitment.extendedEuclideanAlgorithm`
    * `Commitment.IntegerModP.inverse`
    * `Commitment.IntegerModP.pow`

  Main results:
    * `Commitment.bezout_extendedEuclideanAlgorithm`
    * `Commitment.IntegerModP.inverse_eq`
    * `Commitment.IntegerModP.toZMod_pow`
-/

namespace Commitment

open Sting

------------------------------------------------------------
-- The Euclidean Algorithm
------------------------------------------------------------

/-
  The loop of the extended algorithm. The remainder falls in
  every round, so as many rounds as its value are enough.
-/
def euclidLoop :
    (fuel a b : Nat) → (x₂ x₁ y₂ y₁ : Int) →
      Int × Int × Nat
| 0, a, _, x₂, _, y₂, _ => (x₂, y₂, a)
| fuel + 1, a, b, x₂, x₁, y₂, y₁ =>
    if b > 0 then
      let q := a / b
      let r := a % b
      let x := x₂ - q * x₁
      let y := y₂ - q * y₁
      euclidLoop fuel b r x₁ x y₁ y
    else
      (x₂, y₂, a)

/- The algorithm on numbers in descending order. -/
def euclidOrdered (a b : Nat) : Int × Int × Nat :=
  if b = 0 then (1, 0, a) else euclidLoop b a b 1 0 0 1

/- `extendedEuclideanAlgorithm`, on natural numbers. -/
def extendedEuclideanAlgorithm
    (a b : Nat) : Int × Int × Nat :=
  if b > a then
    let (x, y, d) := euclidOrdered b a
    (y, x, d)
  else
    euclidOrdered a b

/- The greatest common divisor with its coefficients. -/
structure Bezout
    (a b : Nat)
    (result : Int × Int × Nat) : Prop where
  sum : a * result.1 + b * result.2.1 = result.2.2
  gcd : result.2.2 = Nat.gcd a b

/-
  The loop keeps both remainders combinations of the two
  numbers it started from.
-/
private theorem bezout_euclidLoop
    {m n fuel a b : Nat}
    {x₂ x₁ y₂ y₁ : Int}
    (hFuel : b ≤ fuel)
    (hGcd : Nat.gcd a b = Nat.gcd m n)
    (ha : m * x₂ + n * y₂ = a)
    (hb : m * x₁ + n * y₁ = b) :
    Bezout m n (euclidLoop fuel a b x₂ x₁ y₂ y₁) := by
  induction fuel generalizing a b x₂ x₁ y₂ y₁ with
  | zero =>
      have hZero : b = 0 := by omega
      rw [hZero, Nat.gcd_zero_right] at hGcd
      exact ⟨ha, hGcd⟩
  | succ fuel ih =>
      rw [euclidLoop]
      split_ifs with hPos
      · have hMod : a % b < b := Nat.mod_lt a hPos
        have hDiv :
            (a : Int) = b * (a / b : Nat) + (a % b : Nat) := by
          exact_mod_cast (Nat.div_add_mod a b).symm
        apply ih (by omega) _ hb
        · linear_combination ha - (a / b : Nat) * hb + hDiv
        · rw [Nat.gcd_comm b, ← Nat.gcd_rec,
            Nat.gcd_comm b, hGcd]
      · have hZero : b = 0 := by omega
        rw [hZero, Nat.gcd_zero_right] at hGcd
        exact ⟨ha, hGcd⟩

private theorem bezout_euclidOrdered
    (a b : Nat) :
    Bezout a b (euclidOrdered a b) := by
  unfold euclidOrdered
  split_ifs with hZero
  · rw [hZero]
    exact ⟨by simp, by simp⟩
  · apply bezout_euclidLoop (le_refl b) rfl
    · ring
    · ring

theorem bezout_extendedEuclideanAlgorithm
    (a b : Nat) :
    Bezout a b (extendedEuclideanAlgorithm a b) := by
  unfold extendedEuclideanAlgorithm
  split_ifs with hLess
  · rcases bezout_euclidOrdered b a with ⟨hSum, hGcd⟩
    constructor
    · rw [← hSum]
      ring
    · rw [hGcd, Nat.gcd_comm]
  · exact bezout_euclidOrdered a b

------------------------------------------------------------
-- The Field
------------------------------------------------------------

/- `IntegerModP`, a residue. -/
structure IntegerModP (p : Nat) where
  n : Nat
  isLt : n < p
deriving DecidableEq

namespace IntegerModP

variable {p : Nat} [NeZero p]

/- The constructor takes the residue of an integer. -/
def ofInt
    (p : Nat)
    [NeZero p]
    (n : Int) : IntegerModP p :=
  { n := (n % p).toNat
    isLt := by
      have hPos : (0 : Int) < p :=
        Int.natCast_pos.mpr (NeZero.pos p)
      have hLt := Int.emod_lt_of_pos n hPos
      have hNonneg := Int.emod_nonneg n hPos.ne'
      omega }

/- `__repr__` -/
def repr (a : IntegerModP p) : String :=
  toString a.n ++ " (mod " ++ toString p ++ ")"

instance : Add (IntegerModP p) where
  add a b := ofInt p (a.n + b.n)

instance : Sub (IntegerModP p) where
  sub a b := ofInt p (a.n - b.n)

instance : Mul (IntegerModP p) where
  mul a b := ofInt p (a.n * b.n)

instance : Neg (IntegerModP p) where
  neg a := ofInt p (-a.n)

/-
  The loop of `__pow__`. The bit doubles in every round, so
  `n` rounds are enough.
-/
def powLoop
    (n : Nat) :
    (fuel i : Nat) → (Q R : IntegerModP p) → IntegerModP p
| 0, _, _, R => R
| fuel + 1, i, Q, R =>
    if i ≤ n then
      let Q := Q * Q
      let R := if n &&& i = i then Q * R else R
      powLoop n fuel (i <<< 1) Q R
    else
      R

/- `__pow__` -/
def pow
    (a : IntegerModP p)
    (n : Nat) : IntegerModP p :=
  let R := if n &&& 1 = 1 then a else ofInt p 1
  powLoop n n 2 a R

/-
  `inverse`. The message of its exception names an attribute
  the instance does not have.
-/
def inverse (a : IntegerModP p) : Py (IntegerModP p) :=
  let (x, _, d) := extendedEuclideanAlgorithm a.n p
  if d ≠ 1 then
    .error .attributeError
  else
    .ok (ofInt p x)

/- `__truediv__` -/
def truediv
    (a b : IntegerModP p) : Py (IntegerModP p) := do
  let i ← b.inverse
  return a * i

------------------------------------------------------------
-- Residues
------------------------------------------------------------

/- The residue in the ring of residues. -/
def toZMod (a : IntegerModP p) : ZMod p :=
  (a.n : ZMod p)

omit [NeZero p] in
theorem toZMod_injective :
    Function.Injective (toZMod (p := p)) := by
  intro a b hEq
  have hMod := (ZMod.natCast_eq_natCast_iff' _ _ _).mp hEq
  rw [Nat.mod_eq_of_lt a.isLt,
    Nat.mod_eq_of_lt b.isLt] at hMod
  cases a
  cases b
  cases hMod
  rfl

omit [NeZero p] in
theorem val_toZMod
    (a : IntegerModP p) :
    a.toZMod.val = a.n :=
  ZMod.val_cast_of_lt a.isLt

@[simp] theorem toZMod_ofInt
    (n : Int) :
    (ofInt p n).toZMod = (n : ZMod p) := by
  have hNonneg : 0 ≤ n % (p : Int) :=
    Int.emod_nonneg n (Int.natCast_ne_zero.mpr (NeZero.ne p))
  have hCast : ((n % (p : Int)).toNat : Int) = n % p :=
    Int.toNat_of_nonneg hNonneg
  unfold toZMod ofInt
  rw [← Int.cast_natCast, hCast, ZMod.intCast_mod]

@[simp] theorem toZMod_add
    (a b : IntegerModP p) :
    (a + b).toZMod = a.toZMod + b.toZMod := by
  change (ofInt p (a.n + b.n)).toZMod = _
  rw [toZMod_ofInt]
  push_cast
  rfl

@[simp] theorem toZMod_sub
    (a b : IntegerModP p) :
    (a - b).toZMod = a.toZMod - b.toZMod := by
  change (ofInt p (a.n - b.n)).toZMod = _
  rw [toZMod_ofInt]
  push_cast
  rfl

@[simp] theorem toZMod_mul
    (a b : IntegerModP p) :
    (a * b).toZMod = a.toZMod * b.toZMod := by
  change (ofInt p (a.n * b.n)).toZMod = _
  rw [toZMod_ofInt]
  push_cast
  rfl

@[simp] theorem toZMod_neg
    (a : IntegerModP p) :
    (-a).toZMod = -a.toZMod := by
  change (ofInt p (-a.n)).toZMod = _
  rw [toZMod_ofInt]
  push_cast
  rfl

------------------------------------------------------------
-- Powers
------------------------------------------------------------

/- The bit test of the loops. -/
theorem and_two_pow_eq_iff
    (n j : Nat) :
    n &&& 2 ^ j = 2 ^ j ↔ n / 2 ^ j % 2 = 1 := by
  have hPos : 0 < 2 ^ j := Nat.two_pow_pos j
  rw [Nat.and_two_pow, Nat.testBit_eq_decide_div_mod_eq]
  rcases Nat.mod_two_eq_zero_or_one (n / 2 ^ j) with hBit | hBit
  · rw [hBit]
    simpa using hPos.ne
  · rw [hBit]
    simp

/-
  The loop multiplies in the bits from `2 ^ (j + 1)` on, with
  `Q` the number squared `j` times.
-/
private theorem powLoop_eq
    {x : ZMod p}
    {n fuel j : Nat}
    {Q R : IntegerModP p}
    (hFuel : n < 2 ^ (j + 1 + fuel))
    (hQ : Q.toZMod = x ^ 2 ^ j)
    (hR : R.toZMod = x ^ (n % 2 ^ (j + 1))) :
    (powLoop n fuel (2 ^ (j + 1)) Q R).toZMod = x ^ n := by
  induction fuel generalizing j Q R with
  | zero =>
      rw [Nat.add_zero] at hFuel
      rw [Nat.mod_eq_of_lt hFuel] at hR
      exact hR
  | succ fuel ih =>
      rw [powLoop]
      by_cases hMore : 2 ^ (j + 1) ≤ n
      · have hShift : 2 ^ (j + 1) <<< 1 = 2 ^ (j + 1 + 1) := by
          rw [Nat.shiftLeft_eq, pow_succ 2 (j + 1), pow_one]
        have hNext : (Q * Q).toZMod = x ^ 2 ^ (j + 1) := by
          rw [toZMod_mul, hQ, ← pow_add, ← two_mul, pow_succ']
        rw [if_pos hMore, hShift]
        apply ih _ hNext
        · rw [Nat.mod_pow_succ]
          split_ifs with hBit
          · rw [(and_two_pow_eq_iff n (j + 1)).mp hBit,
              mul_one, toZMod_mul, hNext, hR, ← pow_add,
              add_comm]
          · have hZero : n / 2 ^ (j + 1) % 2 = 0 := by
              rw [and_two_pow_eq_iff] at hBit
              omega
            rw [hZero, mul_zero, add_zero, hR]
        · rw [show j + 1 + 1 + fuel = j + 1 + (fuel + 1) by
            omega]
          exact hFuel
      · rw [if_neg hMore]
        rw [Nat.mod_eq_of_lt (not_le.mp hMore)] at hR
        exact hR

@[simp] theorem toZMod_pow
    (a : IntegerModP p)
    (n : Nat) :
    (a.pow n).toZMod = a.toZMod ^ n := by
  unfold pow
  apply powLoop_eq (j := 0)
  · have hLt : n < 2 ^ n := Nat.lt_two_pow_self
    rw [zero_add, pow_add]
    omega
  · rw [pow_zero, pow_one]
  · rw [zero_add, pow_one, Nat.and_one_is_mod]
    rcases Nat.mod_two_eq_zero_or_one n with hBit | hBit
    · rw [hBit]
      simp
    · rw [hBit]
      simp

end IntegerModP

section

variable {p : Nat} [Fact p.Prime]

open IntegerModP

/- Only zero has no inverse. -/
theorem IntegerModP.inverse_eq
    (a : IntegerModP p)
    (ha : a.toZMod ≠ 0) :
    ∃ i, a.inverse = .ok i ∧ i.toZMod = a.toZMod⁻¹ := by
  rcases bezout_extendedEuclideanAlgorithm a.n p with
    ⟨hSum, hGcd⟩
  have hCoprime : Nat.gcd a.n p = 1 := by
    rw [Nat.gcd_comm]
    apply (Fact.out : p.Prime).coprime_iff_not_dvd.mpr
    intro hDvd
    exact ha ((ZMod.natCast_eq_zero_iff _ _).mpr hDvd)
  rw [hCoprime] at hGcd
  unfold inverse
  rcases hEq : extendedEuclideanAlgorithm a.n p with
    ⟨x, y, d⟩
  rw [hEq] at hSum hGcd
  simp only at hSum hGcd
  refine ⟨ofInt p x, if_neg (not_not.mpr hGcd), ?_⟩
  rw [toZMod_ofInt]
  apply eq_inv_of_mul_eq_one_right
  have hCast := congrArg (Int.cast (R := ZMod p)) hSum
  rw [hGcd] at hCast
  push_cast at hCast
  rw [ZMod.natCast_self, zero_mul, add_zero] at hCast
  exact hCast

theorem IntegerModP.truediv_eq
    (a b : IntegerModP p)
    (hb : b.toZMod ≠ 0) :
    ∃ c, a.truediv b = .ok c ∧
      c.toZMod = a.toZMod / b.toZMod := by
  rcases b.inverse_eq hb with ⟨i, hInverse, hi⟩
  refine ⟨a * i, ?_, ?_⟩
  · rw [truediv, hInverse]
    rfl
  · rw [toZMod_mul, hi, div_eq_mul_inv]

end

end Commitment
