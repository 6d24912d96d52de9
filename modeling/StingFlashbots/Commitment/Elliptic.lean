import StingFlashbots.Commitment.FiniteField
import StingFlashbots.Curve.ShortWeierstrass

/-
  The elliptic curve of the commitment library.

  Points are added with the chord and tangent formulas, and
  every point made on the way is tested to be on the curve.
  The code never fails and computes in the group of the
  curve.

  Key definitions include:
    * `Commitment.EllipticCurve`
    * `Commitment.Point`
    * `Commitment.Point.add`, `Commitment.Point.mul`
    * `Commitment.Point.toGroup`

  Main results:
    * `Commitment.Point.add_eq`
    * `Commitment.Point.mul_eq`
    * `Commitment.Point.arithmetic_eq_group`
-/

namespace Commitment

open Sting IntegerModP

variable {p : Nat}

------------------------------------------------------------
-- Curves and Points
------------------------------------------------------------

section

variable [NeZero p]

/- The discriminant, as the constructor computes it. -/
def discriminant (a b : IntegerModP p) : IntegerModP p :=
  ofInt p (-16) *
    (ofInt p 4 * a * a * a + ofInt p 27 * b * b)

/- `EllipticCurve`. The constructor refuses other curves. -/
structure EllipticCurve
    (p : Nat)
    [NeZero p] where
  a : IntegerModP p
  b : IntegerModP p
  isSmooth : discriminant a b ≠ ofInt p 0

namespace EllipticCurve

/- `testPoint` -/
def testPoint
    (E : EllipticCurve p)
    (x y : IntegerModP p) : Prop :=
  y * y = x * x * x + E.a * x + E.b

instance
    (E : EllipticCurve p)
    (x y : IntegerModP p) :
    Decidable (E.testPoint x y) :=
  inferInstanceAs (Decidable (_ = _))

end EllipticCurve

/- `Point` and `Ideal` -/
inductive Point (E : EllipticCurve p) where
| ideal : Point E
| point
    (x y : IntegerModP p)
    (onCurve : E.testPoint x y) :
    Point E
deriving DecidableEq

namespace Point

variable {E : EllipticCurve p}

/- What the constructor of `Point` says of other points. -/
def notOnCurve
    (E : EllipticCurve p)
    (x y : IntegerModP p) : String :=
  "The point (" ++ x.repr ++ ", " ++ y.repr ++
    ") is not on the given curve y^2 = x^3 + " ++
    toString E.a.n ++ "x + " ++ toString E.b.n ++ "!"

/- The constructor of `Point`. -/
def new
    (E : EllipticCurve p)
    (x y : IntegerModP p) : Py (Point E) :=
  if onCurve : E.testPoint x y then
    .ok (.point x y onCurve)
  else
    .error (.exception (notOnCurve E x y))

------------------------------------------------------------
-- Operations
------------------------------------------------------------

/- `__neg__` -/
def neg : Point E → Py (Point E)
| .ideal => .ok .ideal
| .point x y _ => new E x (-y)

/- The point a line of slope `m` leads to. -/
def along
    (E : EllipticCurve p)
    (m x₁ y₁ x₂ : IntegerModP p) : Py (Point E) :=
  let x₃ := m * m - x₂ - x₁
  let y₃ := m * (x₃ - x₁) + y₁
  new E x₃ (-y₃)

/- `__add__` -/
def add : Point E → Point E → Py (Point E)
| .ideal, Q => .ok Q
| .point x y onCurve, .ideal => .ok (.point x y onCurve)
| .point x₁ y₁ _, .point x₂ y₂ _ =>
    if (x₁, y₁) = (x₂, y₂) then
      if y₁ = ofInt p 0 then
        .ok .ideal
      else do
        -- slope of the tangent line
        let m ← (ofInt p 3 * x₁ * x₁ + E.a).truediv
          (ofInt p 2 * y₁)
        along E m x₁ y₁ x₂
    else if x₁ = x₂ then
      .ok .ideal
    else do
      -- slope of the secant line
      let m ← (y₂ - y₁).truediv (x₂ - x₁)
      along E m x₁ y₁ x₂

/- Add a power of two of the point if `n` has its bit. -/
def addBit
    (n i : Nat)
    (Q R : Point E) : Py (Point E) :=
  if n &&& i = i then Q.add R else .ok R

/-
  The loop of `__mul__`. The bit doubles in every round, so
  `n` rounds are enough.
-/
def mulLoop
    (n : Nat) :
    (fuel i : Nat) → (Q R : Point E) → Py (Point E)
| 0, _, _, R => .ok R
| fuel + 1, i, Q, R =>
    if i ≤ n then do
      let Q ← Q.add Q
      let R ← addBit n i Q R
      mulLoop n fuel (i <<< 1) Q R
    else
      .ok R

/- `__mul__` by a number that is not negative. -/
def mulNat
    (P : Point E)
    (n : Nat) : Py (Point E) :=
  match P with
  | .ideal => .ok .ideal
  | .point x y onCurve =>
      if n = 0 then
        .ok .ideal
      else
        let Q : Point E := .point x y onCurve
        let R := if n &&& 1 = 1 then Q else .ideal
        mulLoop n n 2 Q R

/- `__mul__` and `__rmul__` -/
def mul
    (P : Point E)
    (n : Int) : Py (Point E) :=
  match P with
  | .ideal => .ok .ideal
  | .point x y onCurve =>
      if n < 0 then do
        let Q ← neg (.point x y onCurve)
        Q.mulNat (-n).toNat
      else
        mulNat (.point x y onCurve) n.toNat

------------------------------------------------------------
-- Repeated Addition
------------------------------------------------------------

/- Add a point so many times to the identity. -/
def addTimes
    (A : Point E) :
    Nat → Py (Point E)
| 0 => .ok .ideal
| n + 1 => do
    let S ← addTimes A n
    S.add A

/- Repeated addition, of the opposite for a negative number. -/
def repeatedly
    (A : Point E)
    (n : Int) : Py (Point E) := do
  if n < 0 then
    (← A.neg).addTimes n.natAbs
  else
    A.addTimes n.natAbs

end Point

end

------------------------------------------------------------
-- The Group of the Curve
------------------------------------------------------------

section

variable [Fact p.Prime]
variable {E : EllipticCurve p}

/- The curve in the sense of algebraic geometry. -/
abbrev EllipticCurve.toCurve
    (E : EllipticCurve p) :
    WeierstrassCurve.Affine (ZMod p) :=
  ShortWeierstrass.curve E.a.toZMod E.b.toZMod

theorem EllipticCurve.smooth
    (E : EllipticCurve p) :
    ShortWeierstrass.Smooth E.a.toZMod E.b.toZMod := by
  intro hZero
  apply E.isSmooth
  apply toZMod_injective
  simp only [discriminant, toZMod_mul, toZMod_add,
    toZMod_ofInt]
  push_cast
  exact hZero

theorem EllipticCurve.testPoint_iff
    {x y : IntegerModP p} :
    E.testPoint x y ↔
      y.toZMod * y.toZMod =
        x.toZMod * x.toZMod * x.toZMod +
          E.a.toZMod * x.toZMod + E.b.toZMod := by
  rw [testPoint, ← toZMod_injective.eq_iff]
  simp

namespace Point

/- The element of the group a point stands for. -/
def toGroup : Point E → E.toCurve.Point
| .ideal => 0
| .point x y onCurve =>
    .some x.toZMod y.toZMod
      ((ShortWeierstrass.nonsingular_iff E.smooth).mpr
        (E.testPoint_iff.mp onCurve))

/- The coordinates of a point of the library. -/
def residues : Point E → Option (ZMod p × ZMod p)
| .ideal => none
| .point x y _ => some (x.toZMod, y.toZMod)

theorem coords_toGroup
    (P : Point E) :
    ShortWeierstrass.coords P.toGroup = P.residues := by
  cases P with
  | ideal => rfl
  | point x y onCurve => rfl

theorem toGroup_injective :
    Function.Injective (toGroup (E := E)) := by
  intro P Q hEq
  have hResidues : P.residues = Q.residues := by
    rw [← coords_toGroup, ← coords_toGroup, hEq]
  cases P with
  | ideal =>
      cases Q with
      | ideal => rfl
      | point x y hQ => cases hResidues
  | point x y hP =>
      cases Q with
      | ideal => cases hResidues
      | point x' y' hQ =>
          simp only [residues, Option.some.injEq,
            Prod.mk.injEq, toZMod_injective.eq_iff]
            at hResidues
          rcases hResidues with ⟨rfl, rfl⟩
          rfl

/- The constructor accepts the coordinates of a point. -/
theorem new_eq
    {x y : IntegerModP p}
    {G : E.toCurve.Point}
    (hCoords :
      ShortWeierstrass.coords G =
        some (x.toZMod, y.toZMod)) :
    ∃ P, new E x y = .ok P ∧ P.toGroup = G := by
  have onCurve : E.testPoint x y :=
    E.testPoint_iff.mpr
      ((ShortWeierstrass.exists_coords_iff E.smooth).mp
        ⟨G, hCoords⟩)
  refine ⟨.point x y onCurve, dif_pos onCurve, ?_⟩
  apply ShortWeierstrass.coords_injective
  rw [hCoords]
  rfl

/- Negation is the negation of the group. -/
theorem neg_eq
    (P : Point E) :
    ∃ Q, P.neg = .ok Q ∧ Q.toGroup = -P.toGroup := by
  cases P with
  | ideal => exact ⟨.ideal, rfl, neg_zero.symm⟩
  | point x y onCurve =>
      apply new_eq
      rw [ShortWeierstrass.coords_neg, coords_toGroup,
        toZMod_neg]
      rfl

private theorem along_eq
    {m x₁ y₁ x₂ : IntegerModP p}
    {G : E.toCurve.Point}
    (hCoords :
      ShortWeierstrass.coords G =
        some (ShortWeierstrass.chord m.toZMod x₁.toZMod
          y₁.toZMod x₂.toZMod)) :
    ∃ P, along E m x₁ y₁ x₂ = .ok P ∧ P.toGroup = G := by
  apply new_eq
  rw [hCoords]
  simp [ShortWeierstrass.chord]

/- Addition is the addition of the group. -/
theorem add_eq
    (P Q : Point E) :
    ∃ R, P.add Q = .ok R ∧
      R.toGroup = P.toGroup + Q.toGroup := by
  cases P with
  | ideal => exact ⟨Q, rfl, (zero_add _).symm⟩
  | point x₁ y₁ hP =>
      cases Q with
      | ideal => exact ⟨_, rfl, (add_zero _).symm⟩
      | point x₂ y₂ hQ =>
          have hTwo := E.smooth.two_ne_zero
          have hCoords :=
            ShortWeierstrass.coords_add hTwo
              (toGroup (.point x₁ y₁ hP))
              (toGroup (.point x₂ y₂ hQ))
          simp only [coords_toGroup, residues,
            ShortWeierstrass.addCoords,
            toZMod_injective.eq_iff] at hCoords
          by_cases hx : x₁ = x₂
          · rw [if_pos hx] at hCoords
            by_cases hy : y₁ = y₂ ∧ y₁.toZMod ≠ 0
            · -- the tangent
              rw [if_pos hy] at hCoords
              have hDouble :
                  (ofInt p 2 * y₁).toZMod ≠ 0 := by
                simpa [hTwo] using hy.2
              rcases truediv_eq
                  (ofInt p 3 * x₁ * x₁ + E.a) _ hDouble with
                ⟨m, hDiv, hm⟩
              have hSlope :
                  m.toZMod =
                    (3 * x₁.toZMod * x₁.toZMod +
                      E.a.toZMod) / (2 * y₁.toZMod) := by
                simpa using hm
              rw [← hSlope] at hCoords
              rcases along_eq hCoords with ⟨R, hR, hSum⟩
              have hZero : y₁ ≠ ofInt p 0 := by
                intro hEq
                apply hy.2
                rw [hEq]
                simp
              refine ⟨R, ?_, hSum⟩
              rw [add, if_pos (by rw [hx, hy.1]),
                if_neg hZero, hDiv]
              exact hR
            · -- a point and its opposite
              rw [if_neg hy,
                ShortWeierstrass.coords_eq_none_iff] at hCoords
              refine ⟨.ideal, ?_, hCoords.symm⟩
              by_cases hSame : y₁ = y₂
              · have hZero : y₁ = ofInt p 0 := by
                  apply toZMod_injective
                  rw [toZMod_ofInt, Int.cast_zero]
                  by_contra hNe
                  exact hy ⟨hSame, hNe⟩
                rw [add, if_pos (by rw [hx, hSame]),
                  if_pos hZero]
              · have hPair : (x₁, y₁) ≠ (x₂, y₂) :=
                  fun hEq => hSame (Prod.mk.inj hEq).2
                rw [add, if_neg hPair, if_pos hx]
          · -- the secant
            rw [if_neg hx] at hCoords
            have hSub : (x₂ - x₁).toZMod ≠ 0 := by
              rw [toZMod_sub]
              intro hZero
              apply hx
              apply toZMod_injective
              exact (sub_eq_zero.mp hZero).symm
            rcases truediv_eq (y₂ - y₁) _ hSub with
              ⟨m, hDiv, hm⟩
            rw [toZMod_sub, toZMod_sub] at hm
            rw [← hm] at hCoords
            rcases along_eq hCoords with ⟨R, hR, hSum⟩
            have hPair : (x₁, y₁) ≠ (x₂, y₂) :=
              fun hEq => hx (Prod.mk.inj hEq).1
            refine ⟨R, ?_, hSum⟩
            rw [add, if_neg hPair, if_neg hx, hDiv]
            exact hR

/- A round of the loop adds one bit. -/
private theorem addBit_eq
    {G : E.toCurve.Point}
    {n j : Nat}
    {Q R : Point E}
    (hQ : Q.toGroup = 2 ^ j • G)
    (hR : R.toGroup = (n % 2 ^ j) • G) :
    ∃ S, addBit n (2 ^ j) Q R = .ok S ∧
      S.toGroup = (n % 2 ^ (j + 1)) • G := by
  rw [addBit, Nat.mod_pow_succ]
  split_ifs with hBit
  · rw [(and_two_pow_eq_iff n j).mp hBit, mul_one]
    rcases add_eq Q R with ⟨S, hAdd, hS⟩
    refine ⟨S, hAdd, ?_⟩
    rw [hS, hQ, hR, ← add_nsmul, add_comm]
  · have hZero : n / 2 ^ j % 2 = 0 := by
      rw [and_two_pow_eq_iff] at hBit
      omega
    rw [hZero, mul_zero, add_zero]
    exact ⟨R, rfl, hR⟩

/-
  The loop adds the bits from `2 ^ (j + 1)` on to the ones
  below, with `Q` the point doubled `j` times.
-/
private theorem mulLoop_eq
    {G : E.toCurve.Point}
    {n fuel j : Nat}
    {Q R : Point E}
    (hFuel : n < 2 ^ (j + 1 + fuel))
    (hQ : Q.toGroup = 2 ^ j • G)
    (hR : R.toGroup = (n % 2 ^ (j + 1)) • G) :
    ∃ S, mulLoop n fuel (2 ^ (j + 1)) Q R = .ok S ∧
      S.toGroup = n • G := by
  induction fuel generalizing j Q R with
  | zero =>
      rw [add_zero] at hFuel
      rw [Nat.mod_eq_of_lt hFuel] at hR
      exact ⟨R, rfl, hR⟩
  | succ fuel ih =>
      rw [mulLoop]
      by_cases hMore : 2 ^ (j + 1) ≤ n
      · rcases add_eq Q Q with ⟨Q', hDouble, hQ'⟩
        have hNext : Q'.toGroup = 2 ^ (j + 1) • G := by
          rw [hQ', hQ, ← add_nsmul, ← two_mul, pow_succ']
        rcases addBit_eq hNext hR with ⟨R', hBit, hR'⟩
        rw [if_pos hMore, hDouble, ok_bind, hBit, ok_bind]
        have hShift : 2 ^ (j + 1) <<< 1 = 2 ^ (j + 1 + 1) := by
          rw [Nat.shiftLeft_eq, pow_succ 2 (j + 1), pow_one]
        rw [hShift]
        apply ih _ hNext hR'
        rw [show j + 1 + 1 + fuel = j + 1 + (fuel + 1) by
          omega]
        exact hFuel
      · rw [if_neg hMore]
        rw [Nat.mod_eq_of_lt (not_le.mp hMore)] at hR
        exact ⟨R, rfl, hR⟩

theorem mulNat_eq
    (P : Point E)
    (n : Nat) :
    ∃ Q, P.mulNat n = .ok Q ∧
      Q.toGroup = n • P.toGroup := by
  cases P with
  | ideal => exact ⟨.ideal, rfl, (nsmul_zero n).symm⟩
  | point x y onCurve =>
      by_cases hZero : n = 0
      · refine ⟨.ideal, if_pos hZero, ?_⟩
        rw [hZero, zero_nsmul]
        rfl
      · rw [mulNat, if_neg hZero]
        apply mulLoop_eq (j := 0)
        · have hLt : n < 2 ^ n := Nat.lt_two_pow_self
          rw [zero_add, pow_add]
          omega
        · rw [pow_zero, one_nsmul]
        · rw [zero_add, pow_one, Nat.and_one_is_mod]
          rcases Nat.mod_two_eq_zero_or_one n with hBit | hBit
          · rw [hBit, zero_nsmul]
            rfl
          · rw [hBit, one_nsmul]
            rfl

/- Multiples are the multiples of the group. -/
theorem mul_eq
    (P : Point E)
    (n : Int) :
    ∃ Q, P.mul n = .ok Q ∧
      Q.toGroup = n • P.toGroup := by
  cases P with
  | ideal => exact ⟨.ideal, rfl, (zsmul_zero n).symm⟩
  | point x y onCurve =>
      rw [mul]
      by_cases hNeg : n < 0
      · rcases neg_eq (.point x y onCurve) with
          ⟨Q, hQ, hNegQ⟩
        rcases mulNat_eq Q (-n).toNat with ⟨R, hR, hMul⟩
        rw [if_pos hNeg, hQ, ok_bind]
        refine ⟨R, hR, ?_⟩
        rw [hMul, hNegQ, ← natCast_zsmul,
          Int.toNat_of_nonneg (by omega), neg_zsmul,
          zsmul_neg, neg_neg]
      · rcases mulNat_eq (.point x y onCurve) n.toNat with
          ⟨R, hR, hMul⟩
        rw [if_neg hNeg]
        refine ⟨R, hR, ?_⟩
        rw [hMul, ← natCast_zsmul,
          Int.toNat_of_nonneg (by omega)]

------------------------------------------------------------
-- The Group Law
------------------------------------------------------------

theorem addTimes_eq
    (A : Point E)
    (n : Nat) :
    ∃ S, A.addTimes n = .ok S ∧
      S.toGroup = n • A.toGroup := by
  induction n with
  | zero => exact ⟨.ideal, rfl, (zero_nsmul _).symm⟩
  | succ n ih =>
      rcases ih with ⟨S, hS, hGroup⟩
      rcases add_eq S A with ⟨T, hT, hSum⟩
      refine ⟨T, ?_, ?_⟩
      · rw [addTimes, hS]
        exact hT
      · rw [hSum, hGroup, succ_nsmul]

theorem repeatedly_eq
    (A : Point E)
    (n : Int) :
    ∃ S, A.repeatedly n = .ok S ∧
      S.toGroup = n • A.toGroup := by
  unfold repeatedly
  split_ifs with hNeg
  · rcases neg_eq A with ⟨M, hM, hOpposite⟩
    rcases addTimes_eq M n.natAbs with ⟨S, hS, hGroup⟩
    refine ⟨S, ?_, ?_⟩
    · rw [hM]
      exact hS
    · rw [hGroup, hOpposite, ← natCast_zsmul,
        Int.ofNat_natAbs_of_nonpos hNeg.le, zsmul_neg,
        neg_zsmul, neg_neg]
  · rcases addTimes_eq A n.natAbs with ⟨S, hS, hGroup⟩
    refine ⟨S, hS, ?_⟩
    rw [hGroup, ← natCast_zsmul,
      Int.natAbs_of_nonneg (not_lt.mp hNeg)]

/- Every element of the group is a point of the library. -/
theorem toGroup_surjective :
    Function.Surjective (toGroup (E := E)) := by
  intro P
  cases hCoords : ShortWeierstrass.coords P with
  | none =>
      refine ⟨.ideal, ?_⟩
      exact (ShortWeierstrass.coords_eq_none_iff.mp
        hCoords).symm
  | some c =>
      have hCast (x : ZMod p) :
          (ofInt p x.val).toZMod = x := by
        rw [toZMod_ofInt, Int.cast_natCast,
          ZMod.natCast_zmod_val]
      rcases new_eq (x := ofInt p c.1.val)
          (y := ofInt p c.2.val)
          (by rw [hCast, hCast]; exact hCoords) with
        ⟨Q, _, hQ⟩
      exact ⟨Q, hQ⟩

/- Results with equal group elements are equal. -/
private theorem ok_eq_of_toGroup
    {x y : Py (Point E)}
    {P Q : Point E}
    (hx : x = .ok P)
    (hy : y = .ok Q)
    (hEq : P.toGroup = Q.toGroup) :
    x = y := by
  rw [hx, hy, toGroup_injective hEq]

theorem add_assoc_eq
    (A B C : Point E) :
    (do (← A.add B).add C) = (do A.add (← B.add C)) := by
  rcases add_eq A B with ⟨S, hS, hSum⟩
  rcases add_eq S C with ⟨L, hL, hLeft⟩
  rcases add_eq B C with ⟨T, hT, hTail⟩
  rcases add_eq A T with ⟨R, hR, hRight⟩
  apply ok_eq_of_toGroup (P := L) (Q := R)
  · rw [hS]
    exact hL
  · rw [hT]
    exact hR
  · rw [hLeft, hSum, hRight, hTail, add_assoc]

theorem add_comm_eq
    (A B : Point E) :
    A.add B = B.add A := by
  rcases add_eq A B with ⟨S, hS, hSum⟩
  rcases add_eq B A with ⟨T, hT, hSum'⟩
  apply ok_eq_of_toGroup hS hT
  rw [hSum, hSum', add_comm]

theorem mul_eq_repeatedly
    (A : Point E)
    (n : Int) :
    A.mul n = A.repeatedly n := by
  rcases mul_eq A n with ⟨S, hS, hMul⟩
  rcases repeatedly_eq A n with ⟨T, hT, hRepeat⟩
  apply ok_eq_of_toGroup hS hT
  rw [hMul, hRepeat]

/-
  The coded arithmetic is that of the group of the curve: it
  never raises, and sums, opposites and multiples are those
  of the group, with `Ideal` as its zero.
-/
theorem arithmetic_eq_group
    (p : Nat)
    [Fact p.Prime]
    (E : EllipticCurve p) :
    Function.Bijective (toGroup (E := E)) ∧
    toGroup (E := E) .ideal = 0 ∧
    (∀ A B : Point E, ∃ S, A.add B = .ok S ∧
      S.toGroup = A.toGroup + B.toGroup) ∧
    (∀ A : Point E, ∃ S, A.neg = .ok S ∧
      S.toGroup = -A.toGroup) ∧
    (∀ (A : Point E) (n : Int), ∃ S, A.mul n = .ok S ∧
      S.toGroup = n • A.toGroup) ∧
    (∀ A B C : Point E,
      (do (← A.add B).add C) = (do A.add (← B.add C))) ∧
    (∀ A B : Point E, A.add B = B.add A) ∧
    ∀ (A : Point E) (n : Int), A.mul n = A.repeatedly n :=
  ⟨⟨toGroup_injective, toGroup_surjective⟩, rfl, add_eq,
    neg_eq, mul_eq, add_assoc_eq, add_comm_eq,
    mul_eq_repeatedly⟩

/- The curve `y * y = x * x * x + 7` modulo 11. -/
def smallCurve : EllipticCurve 11 where
  a := ofInt 11 0
  b := ofInt 11 7
  isSmooth := by decide

/- A multiple on a small curve. -/
theorem arithmetic_eq_group_small :
    (point (E := smallCurve) (ofInt 11 2) (ofInt 11 2)
        (by decide)).mul (-3) =
      (point (ofInt 11 2) (ofInt 11 2)
        (by decide)).repeatedly (-3) := by
  have hPrime : Fact (Nat.Prime 11) := ⟨by decide⟩
  exact (arithmetic_eq_group 11 smallCurve).2.2.2.2.2.2.2
    _ _

end Point

end

end Commitment
