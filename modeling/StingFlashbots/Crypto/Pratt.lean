import Mathlib.Data.List.Prime
import Mathlib.NumberTheory.LucasPrimality

/-
  Primality of large numbers by certificate.

  A certificate is a list of steps. Each step names a
  number, a base and the prime factors of its predecessor,
  which earlier steps have shown to be prime, and the Lucas
  test decides it. The powers are computed by squaring.

  Key definitions include:
    * `Pratt.powMod`
    * `Pratt.Step`
    * `Pratt.check`

  Main results:
    * `Pratt.powMod_eq`
    * `Pratt.prime_of_check`
-/

namespace Pratt

/- Powers modulo `p`, for exponents of so many bits. -/
def powMod
    (p : Nat) :
    (bits base exponent : Nat) → Nat
| 0, _, _ => 1 % p
| bits + 1, base, exponent =>
    let rest := powMod p bits (base * base % p) (exponent / 2)
    if exponent % 2 = 1 then base * rest % p else rest

theorem powMod_eq
    (p : Nat)
    {bits base exponent : Nat}
    (hBits : exponent < 2 ^ bits) :
    powMod p bits base exponent = base ^ exponent % p := by
  induction bits generalizing base exponent with
  | zero =>
      have hZero : exponent = 0 := by omega
      simp [powMod, hZero]
  | succ bits ih =>
      have hHalf : exponent / 2 < 2 ^ bits := by
        rw [pow_succ] at hBits
        omega
      have hRest :
          powMod p bits (base * base % p) (exponent / 2) =
            base ^ (2 * (exponent / 2)) % p := by
        rw [ih hHalf, ← Nat.pow_mod, ← pow_two, ← pow_mul]
      rw [powMod, hRest]
      split_ifs with hOdd
      · have hSplit : exponent = 2 * (exponent / 2) + 1 := by
          omega
        conv_rhs => rw [hSplit, pow_succ', Nat.mul_mod]
        conv_lhs => rw [Nat.mul_mod, Nat.mod_mod]
      · have hSplit : exponent = 2 * (exponent / 2) := by
          omega
        rw [← hSplit]

/- Whether a power is one, in the ring of residues. -/
theorem pow_eq_one_iff
    {p bits base n : Nat}
    (hp : 2 ≤ p)
    (hBits : n < 2 ^ bits) :
    (base : ZMod p) ^ n = 1 ↔ powMod p bits base n = 1 := by
  rw [powMod_eq _ hBits, ← Nat.cast_pow, ← Nat.cast_one,
    ZMod.natCast_eq_natCast_iff',
    Nat.one_mod_eq_one.mpr (by omega)]

/- One number, with what the Lucas test needs. -/
structure Step where
  number : Nat
  base : Nat
  factors : List Nat

/- The Lucas test, given the primes known before. -/
def Step.check
    (bits : Nat)
    (known : List Nat)
    (step : Step) : Bool :=
  let pred := step.number - 1
  2 ≤ step.number ∧
  step.number ≤ 2 ^ bits ∧
  (∀ f ∈ step.factors, f ∈ known) ∧
  pred ∣ step.factors.prod ^ 8 ∧
  powMod step.number bits step.base pred = 1 ∧
  ∀ f ∈ step.factors,
    powMod step.number bits step.base (pred / f) ≠ 1

/- Every step passes with the primes before it. -/
def check
    (bits : Nat) :
    List Nat → List Step → Bool
| _, [] => true
| known, step :: steps =>
    step.check bits known &&
      check bits (step.number :: known) steps

theorem Step.prime_of_check
    {bits : Nat}
    {known : List Nat}
    {step : Step}
    (hKnown : ∀ q ∈ known, q.Prime)
    (hCheck : step.check bits known = true) :
    step.number.Prime := by
  simp only [Step.check, decide_eq_true_eq] at hCheck
  rcases hCheck with
    ⟨hTwo, hBits, hFactors, hDvd, hOne, hParts⟩
  have hPower
      (n : Nat)
      (hn : n ≤ step.number - 1) :
      (step.base : ZMod step.number) ^ n = 1 ↔
        powMod step.number bits step.base n = 1 :=
    pow_eq_one_iff hTwo (by omega)
  apply lucas_primality step.number step.base
  · exact (hPower _ (le_refl _)).mpr hOne
  · intro q hq hqDvd hPow
    have hProd :=
      hq.dvd_of_dvd_pow (hqDvd.trans hDvd)
    rcases (Prime.dvd_prod_iff hq.prime).mp hProd with
      ⟨f, hf, hqf⟩
    have hPrime := hKnown f (hFactors f hf)
    have hEq : q = f :=
      (Nat.prime_dvd_prime_iff_eq hq hPrime).mp hqf
    rw [hEq] at hPow
    exact hParts f hf
      ((hPower _ (Nat.div_le_self _ _)).mp hPow)

/- The numbers of a checked certificate are prime. -/
theorem prime_of_check
    {bits : Nat}
    {known : List Nat}
    {steps : List Step}
    (hKnown : ∀ q ∈ known, q.Prime)
    (hCheck : check bits known steps = true)
    {step : Step}
    (hStep : step ∈ steps) :
    step.number.Prime := by
  induction steps generalizing known with
  | nil => cases hStep
  | cons first steps ih =>
      rw [check, Bool.and_eq_true] at hCheck
      rcases hCheck with ⟨hFirst, hRest⟩
      have hPrime := Step.prime_of_check hKnown hFirst
      rcases List.mem_cons.mp hStep with rfl | hStep
      · exact hPrime
      · apply ih _ hRest hStep
        intro q hq
        rcases List.mem_cons.mp hq with rfl | hq
        · exact hPrime
        · exact hKnown q hq

end Pratt
