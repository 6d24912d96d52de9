import Mathlib.AlgebraicGeometry.EllipticCurve.Affine.Point
import Mathlib.Tactic.FieldSimp
import Mathlib.Tactic.LinearCombination

/-
  Elliptic curves in short Weierstrass form.

  The curve `y * y = x * x * x + a * x + b` as a group, with
  the group law read off the coordinates of its points: the
  point at infinity has none.

  Key definitions include:
    * `ShortWeierstrass.curve`
    * `ShortWeierstrass.coords`
    * `ShortWeierstrass.addCoords`

  Main results:
    * `ShortWeierstrass.coords_injective`
    * `ShortWeierstrass.exists_coords_iff`
    * `ShortWeierstrass.coords_add`
    * `ShortWeierstrass.coords_neg`
-/

namespace ShortWeierstrass

open WeierstrassCurve

variable {F : Type} [Field F]

/- The curve `y * y = x * x * x + a * x + b`. -/
def curve (a b : F) : Affine F :=
  { a₁ := 0
    a₂ := 0
    a₃ := 0
    a₄ := a
    a₆ := b }

/- The curve has no singular point. -/
def Smooth (a b : F) : Prop :=
  -16 * (4 * a * a * a + 27 * b * b) ≠ 0

variable {a b : F}

theorem equation_iff
    {x y : F} :
    (curve a b).Equation x y ↔
      y * y = x * x * x + a * x + b := by
  rw [Affine.equation_iff]
  simp only [curve, zero_mul, add_zero]
  ring_nf

theorem nonsingular_iff
    (hSmooth : Smooth a b)
    {x y : F} :
    (curve a b).Nonsingular x y ↔
      y * y = x * x * x + a * x + b := by
  have hDelta : (curve a b).Δ ≠ 0 := by
    have hEq :
        (curve a b).Δ =
          -16 * (4 * a * a * a + 27 * b * b) := by
      simp only [WeierstrassCurve.Δ, WeierstrassCurve.b₂,
        WeierstrassCurve.b₄, WeierstrassCurve.b₆,
        WeierstrassCurve.b₈, curve]
      ring
    rw [hEq]
    exact hSmooth
  rw [← Affine.equation_iff_nonsingular_of_Δ_ne_zero hDelta,
    equation_iff]

theorem Smooth.two_ne_zero
    (hSmooth : Smooth a b) :
    (2 : F) ≠ 0 := by
  intro hTwo
  apply hSmooth
  have hSixteen : (16 : F) = 2 * 8 := by norm_num
  rw [hSixteen, hTwo]
  ring

------------------------------------------------------------
-- Coordinates
------------------------------------------------------------

/- The coordinates of a point, none at infinity. -/
def coords : (curve a b).Point → Option (F × F)
| .zero => none
| .some x y _ => some (x, y)

@[simp] theorem coords_zero :
    coords (0 : (curve a b).Point) = none := rfl

@[simp] theorem coords_some
    {x y : F}
    (hPoint : (curve a b).Nonsingular x y) :
    coords (.some x y hPoint) = some (x, y) := rfl

theorem coords_injective :
    Function.Injective (coords (a := a) (b := b)) := by
  intro P Q hEq
  cases P with
  | zero =>
      cases Q with
      | zero => rfl
      | some x y hQ => cases hEq
  | some x y hP =>
      cases Q with
      | zero => cases hEq
      | some x' y' hQ =>
          cases hEq
          rfl

theorem coords_eq_none_iff
    {P : (curve a b).Point} :
    coords P = none ↔ P = 0 :=
  coords_injective.eq_iff' rfl

/- The points are the solutions of the equation. -/
theorem exists_coords_iff
    (hSmooth : Smooth a b)
    {x y : F} :
    (∃ P : (curve a b).Point, coords P = some (x, y)) ↔
      y * y = x * x * x + a * x + b := by
  constructor
  · rintro ⟨P, hP⟩
    cases P with
    | zero => cases hP
    | some x' y' hPoint =>
        cases hP
        exact (nonsingular_iff hSmooth).mp hPoint
  · intro hEq
    exact ⟨.some x y ((nonsingular_iff hSmooth).mpr hEq),
      rfl⟩

------------------------------------------------------------
-- The Group Law
------------------------------------------------------------

/- The third point of a line of slope `m`, reflected. -/
def chord (m x₁ y₁ x₂ : F) : F × F :=
  let x₃ := m * m - x₂ - x₁
  let y₃ := m * (x₃ - x₁) + y₁
  (x₃, -y₃)

/- The sum of two points. -/
def addCoords
    [DecidableEq F]
    (a : F) :
    Option (F × F) → Option (F × F) → Option (F × F)
| none, Q => Q
| some P, none => some P
| some (x₁, y₁), some (x₂, y₂) =>
    if x₁ = x₂ then
      if y₁ = y₂ ∧ y₁ ≠ 0 then
        some (chord ((3 * x₁ * x₁ + a) / (2 * y₁)) x₁ y₁ x₂)
      else
        none
    else
      some (chord ((y₂ - y₁) / (x₂ - x₁)) x₁ y₁ x₂)

@[simp] theorem negY_curve
    (x y : F) :
    (curve a b).negY x y = -y := by
  simp [Affine.negY, curve]

private theorem chord_eq
    (m x₁ y₁ x₂ : F) :
    chord m x₁ y₁ x₂ =
      ((curve a b).addX x₁ x₂ m,
        (curve a b).addY x₁ x₂ y₁ m) := by
  simp only [chord, Affine.addX, Affine.addY,
    Affine.negAddY, negY_curve, Prod.mk.injEq]
  simp only [curve]
  constructor
  · ring
  · ring

theorem coords_neg
    (P : (curve a b).Point) :
    coords (-P) = (coords P).map fun P => (P.1, -P.2) := by
  cases P with
  | zero => rfl
  | some x y hP =>
      simp only [Affine.Point.neg_some, coords_some,
        negY_curve, Option.map_some]

variable [DecidableEq F]

private theorem coords_add_of_slope
    {x₁ y₁ x₂ y₂ m : F}
    {hP : (curve a b).Nonsingular x₁ y₁}
    {hQ : (curve a b).Nonsingular x₂ y₂}
    (hNot : ¬ (x₁ = x₂ ∧ y₁ = (curve a b).negY x₂ y₂))
    (hSlope : (curve a b).slope x₁ x₂ y₁ y₂ = m) :
    coords (.some x₁ y₁ hP + .some x₂ y₂ hQ) =
      some (chord m x₁ y₁ x₂) := by
  rw [Affine.Point.add_some hNot, coords_some, chord_eq,
    hSlope]

theorem coords_add
    (hTwo : (2 : F) ≠ 0)
    (P Q : (curve a b).Point) :
    coords (P + Q) = addCoords a (coords P) (coords Q) := by
  cases P with
  | zero =>
      rw [← Affine.Point.zero_def, zero_add]
      rfl
  | some x₁ y₁ hP =>
      cases Q with
      | zero =>
          rw [← Affine.Point.zero_def, add_zero]
          rfl
      | some x₂ y₂ hQ =>
          rw [coords_some, coords_some, addCoords]
          by_cases hx : x₁ = x₂
          · have hEqs := Affine.Y_eq_of_X_eq hP.1 hQ.1 hx
            rw [negY_curve] at hEqs
            rw [if_pos hx]
            by_cases hy : y₁ = y₂ ∧ y₁ ≠ 0
            · -- a tangent
              rw [if_pos hy]
              have hNe : y₁ ≠ (curve a b).negY x₂ y₂ := by
                rw [negY_curve, ← hy.1]
                intro hEq
                have hDouble : 2 * y₁ = 0 := by
                  linear_combination hEq
                rcases mul_eq_zero.mp hDouble with h | h
                · exact hTwo h
                · exact hy.2 h
              apply coords_add_of_slope (fun h => hNe h.2)
              rw [Affine.slope_of_Y_ne hx hNe, negY_curve]
              simp only [curve]
              congr 1
              · ring
              · ring
            · -- a vertical line
              rw [if_neg hy, coords_eq_none_iff]
              apply Affine.Point.add_of_Y_eq hx
              rw [negY_curve]
              rcases hEqs with hEq | hEq
              · have hZero : y₁ = 0 := by
                  by_contra hNe
                  exact hy ⟨hEq, hNe⟩
                rw [← hEq, hZero, neg_zero]
              · exact hEq
          · rw [if_neg hx]
            apply coords_add_of_slope (fun h => hx h.1)
            rw [Affine.slope_of_X_ne hx, ← neg_sub y₂ y₁,
              ← neg_sub x₂ x₁, neg_div_neg_eq]

end ShortWeierstrass
