import StingFlashbots.Commitment.Compression

/-
  A second multiplication of points.

  `mult` halves the number and keeps a table of doublings of
  the point. It returns from inside of its loop, so that the
  number zero, for which the loop is never entered, has no
  result: the function returns `None`.

  Key definitions include:
    * `Commitment.Doublings`
    * `Commitment.multRound`, `Commitment.multLoop`
    * `Commitment.mult`
    * `Commitment.MultInvariant`

  Main results:
    * `Commitment.multRound_eq`
    * `Commitment.multLoop_eq`
    * `Commitment.mult_eq_mul_iff`
-/

namespace Commitment

open Sting

------------------------------------------------------------
-- The Table of Doublings
------------------------------------------------------------

section

variable {p : Nat} [NeZero p]
variable {E : EllipticCurve p}

/- The dictionary `X`. -/
abbrev Doublings (E : EllipticCurve p) :=
  Nat → Option (Point E)

/- `X[i]` -/
def Doublings.get
    (X : Doublings E)
    (i : Nat) : Py (Point E) :=
  match X i with
  | some Q => .ok Q
  | none => .error .keyError

/- `X[i] = Q` -/
def Doublings.set
    (X : Doublings E)
    (i : Nat)
    (Q : Point E) : Doublings E :=
  Function.update X i (some Q)

theorem Doublings.get_eq_ok
    {X : Doublings E}
    {i : Nat}
    {Q : Point E}
    (hEntry : X i = some Q) :
    X.get i = .ok Q := by
  rw [Doublings.get, hEntry]

theorem Doublings.set_self
    (X : Doublings E)
    (i : Nat)
    (Q : Point E) :
    X.set i Q i = some Q := by
  rw [Doublings.set, Function.update_self]

theorem Doublings.set_of_ne
    (X : Doublings E)
    {i j : Nat}
    (hNe : j ≠ i)
    (Q : Point E) :
    X.set i Q j = X j := by
  rw [Doublings.set, Function.update_of_ne hNe]

------------------------------------------------------------
-- The Loop
------------------------------------------------------------

/- Add the doubling of the round if the number is odd. -/
def addDoubling
    (m i : Nat)
    (X : Doublings E)
    (y : Point E) : Py (Point E) :=
  if m % 2 = 1 then do
    let Q ← X.get i
    y.add Q
  else
    .ok y

/- One round, before the number is halved. -/
def multRound
    (m i : Nat)
    (X : Doublings E)
    (y : Point E) : Py (Doublings E × Point E) := do
  let y ← addDoubling m i X y
  let Q ← X.get i
  let D ← Q.add Q
  return (X.set (i + 1) D, y)

/-
  The loop of `mult`. The number is halved in every round,
  so as many rounds as its value are enough. Where the loop
  ends by its condition nothing is returned.
-/
def multLoop :
    (fuel m i : Nat) → (X : Doublings E) → (y : Point E) →
      Py (Option (Point E))
| 0, _, _, _, _ => .ok none
| fuel + 1, m, i, X, y =>
    if m > 0 then do
      let (X, y) ← multRound m i X y
      if m / 2 = 0 then
        return some y
      multLoop fuel (m / 2) (i + 1) X y
    else
      return none

end

/- `mult`. The identity is of the class `Ideal`. -/
def mult
    (m : Int)
    (A : Point curve) : Py (Option (Point curve)) := do
  pyAssert (A ≠ .ideal)
  let X : Doublings curve := fun _ => none
  multLoop m.toNat m.toNat 0 (X.set 0 A) .ideal

------------------------------------------------------------
-- What the Loop Keeps
------------------------------------------------------------

section

variable {p : Nat} [Fact p.Prime]
variable {E : EllipticCurve p}
variable {P : E.toCurve.Point}
variable {n m i : Nat}
variable {X : Doublings E}
variable {y : Point E}

/-
  After `i` rounds for the number `n` the table has the first
  doublings of the point, the sum has the bits below `2 ^ i`
  and the others are still to come.
-/
structure MultInvariant
    (P : E.toCurve.Point)
    (n m i : Nat)
    (X : Doublings E)
    (y : Point E) : Prop where
  table :
    ∀ j ≤ i, ∃ Q, X j = some Q ∧ Q.toGroup = 2 ^ j • P
  sum : y.toGroup = (n % 2 ^ i) • P
  rest : m = n / 2 ^ i

theorem multInvariant_init
    (A : Point E)
    (n : Nat)
    (X : Doublings E) :
    MultInvariant A.toGroup n n 0 (X.set 0 A) .ideal where
  table := by
    intro j hj
    rw [Nat.le_zero.mp hj]
    refine ⟨A, X.set_self 0 A, ?_⟩
    rw [pow_zero, one_nsmul]
  sum := by
    rw [pow_zero, Nat.mod_one, zero_nsmul]
    rfl
  rest := by
    rw [pow_zero, Nat.div_one]

/- The sum gets the next bit of the number. -/
private theorem addDoubling_eq
    (hInv : MultInvariant P n m i X y) :
    ∃ S, addDoubling m i X y = .ok S ∧
      S.toGroup = (n % 2 ^ (i + 1)) • P := by
  rw [addDoubling, Nat.mod_pow_succ, ← hInv.rest]
  split_ifs with hOdd
  · rcases hInv.table i le_rfl with ⟨Q, hEntry, hQ⟩
    rcases Point.add_eq y Q with ⟨S, hAdd, hS⟩
    refine ⟨S, ?_, ?_⟩
    · rw [Doublings.get_eq_ok hEntry, ok_bind, hAdd]
    · rw [hS, hInv.sum, hQ, hOdd, mul_one, add_nsmul]
  · have hEven : m % 2 = 0 := by omega
    refine ⟨y, rfl, ?_⟩
    rw [hEven, mul_zero, add_zero, hInv.sum]

/- The table gets the next doubling. -/
private theorem table_set
    (hInv : MultInvariant P n m i X y)
    {D : Point E}
    (hD : D.toGroup = 2 ^ (i + 1) • P) :
    ∀ j ≤ i + 1,
      ∃ Q, X.set (i + 1) D j = some Q ∧
        Q.toGroup = 2 ^ j • P := by
  intro j hj
  by_cases hLast : j = i + 1
  · rw [hLast]
    exact ⟨D, X.set_self (i + 1) D, hD⟩
  · rw [X.set_of_ne hLast D]
    exact hInv.table j (by omega)

/- No round raises, and each keeps the invariant. -/
theorem multRound_eq
    (hInv : MultInvariant P n m i X y) :
    ∃ X' y', multRound m i X y = .ok (X', y') ∧
      MultInvariant P n (m / 2) (i + 1) X' y' := by
  rcases addDoubling_eq hInv with ⟨S, hSum, hS⟩
  rcases hInv.table i le_rfl with ⟨Q, hEntry, hQ⟩
  rcases Point.add_eq Q Q with ⟨D, hDouble, hD⟩
  have hNext : D.toGroup = 2 ^ (i + 1) • P := by
    rw [hD, hQ, ← add_nsmul, ← two_mul, pow_succ']
  refine ⟨X.set (i + 1) D, S, ?_, ?_⟩
  · rw [multRound, hSum, ok_bind,
      Doublings.get_eq_ok hEntry, ok_bind, hDouble]
    rfl
  · refine ⟨table_set hInv hNext, hS, ?_⟩
    rw [hInv.rest, Nat.div_div_eq_div_mul, pow_succ]

/- The loop returns the multiple of the point. -/
theorem multLoop_eq
    {fuel : Nat}
    (hInv : MultInvariant P n m i X y)
    (hPos : 0 < m)
    (hFuel : m ≤ fuel) :
    ∃ S, multLoop fuel m i X y = .ok (some S) ∧
      S.toGroup = n • P := by
  induction fuel generalizing m i X y with
  | zero => omega
  | succ fuel ih =>
      rcases multRound_eq hInv with ⟨X', y', hRound, hNext⟩
      rw [multLoop, if_pos hPos, hRound, ok_bind]
      by_cases hLast : m / 2 = 0
      · -- no bits are left, so the sum has all of them
        have hLt : n < 2 ^ (i + 1) := by
          apply Nat.lt_of_div_eq_zero (by positivity)
          rw [← hNext.rest, hLast]
        refine ⟨y', ?_, ?_⟩
        · simp only [hLast, if_true]
          rfl
        · rw [hNext.sum, Nat.mod_eq_of_lt hLt]
      · simp only [hLast, if_false]
        apply ih hNext
        · omega
        · omega

end

------------------------------------------------------------
-- The Two Multiplications
------------------------------------------------------------

/- A positive multiple is the one of the group. -/
theorem mult_eq_of_pos
    {m : Int}
    (hm : 0 < m)
    {A : Point curve}
    (hA : A ≠ .ideal) :
    ∃ S, mult m A = .ok (some S) ∧
      S.toGroup = m • A.toGroup := by
  have hInv := multInvariant_init A m.toNat fun _ => none
  rcases multLoop_eq hInv (by omega) le_rfl with
    ⟨S, hLoop, hS⟩
  refine ⟨S, ?_, ?_⟩
  · rw [mult, pyAssert_pos hA, ok_bind]
    exact hLoop
  · rw [hS, ← natCast_zsmul, Int.toNat_of_nonneg hm.le]

/- Without a round nothing is returned. -/
theorem mult_eq_of_nonpos
    {m : Int}
    (hm : m ≤ 0)
    {A : Point curve}
    (hA : A ≠ .ideal) :
    mult m A = .ok none := by
  rw [mult, pyAssert_pos hA, ok_bind, Int.toNat_of_nonpos hm]
  rfl

/-
  `mult` returns the point that `*` returns, for every
  positive number and for no other one.
-/
theorem mult_eq_mul_iff
    (m : Int)
    (A : Point curve)
    (hA : A ≠ .ideal) :
    (∃ S, mult m A = .ok (some S) ∧ A.mul m = .ok S ∧
      S.toGroup = m • A.toGroup) ↔
      0 < m := by
  constructor
  · rintro ⟨S, hMult, _⟩
    by_contra hNonpos
    rw [mult_eq_of_nonpos (not_lt.mp hNonpos) hA] at hMult
    cases hMult
  · intro hm
    rcases mult_eq_of_pos hm hA with ⟨S, hMult, hS⟩
    rcases Point.mul_eq A m with ⟨T, hMul, hT⟩
    have hEq : T = S := by
      apply Point.toGroup_injective
      rw [hT, hS]
    rw [hEq] at hMul
    exact ⟨S, hMult, hMul, hS⟩

theorem basePoint_ne_ideal : basePoint ≠ .ideal := by
  intro hEq
  cases hEq

/- The check `5 * G == mult(5, G)`. -/
theorem mult_eq_mul_iff_five :
    ∃ S, mult 5 basePoint = .ok (some S) ∧
      basePoint.mul 5 = .ok S := by
  rcases (mult_eq_mul_iff 5 basePoint
      basePoint_ne_ideal).mpr (by decide) with
    ⟨S, hMult, hMul, _⟩
  exact ⟨S, hMult, hMul⟩

/- Zero times the base point is the identity, for `*` only. -/
theorem mult_eq_mul_zero :
    mult 0 basePoint = .ok none ∧
    basePoint.mul 0 = .ok .ideal ∧
    ¬ ∃ S, mult 0 basePoint = .ok (some S) ∧
      basePoint.mul 0 = .ok S ∧
      S.toGroup = (0 : Int) • basePoint.toGroup := by
  have hNone : mult 0 basePoint = .ok none :=
    mult_eq_of_nonpos le_rfl basePoint_ne_ideal
  refine ⟨hNone, rfl, ?_⟩
  rintro ⟨S, hMult, _⟩
  rw [hNone] at hMult
  cases hMult

end Commitment
