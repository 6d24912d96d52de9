import StingFlashbots.Crypto.Pratt
import StingFlashbots.Curve.Jacobian
import Mathlib.GroupTheory.Perm.Cycle.Type
import Mathlib.GroupTheory.SpecificGroups.Cyclic
import Mathlib.Tactic.NormNum.Prime

/-
  The curve secp256k1.

  Its field and its order are prime, and the base point has
  that order. To an abscissa there are at most two points,
  so the group has at most `2 * p + 1` elements, and it has
  none of order two: the base point generates it.

  Key definitions include:
    * `Secp256k1.p`, `Secp256k1.n`
    * `Secp256k1.Group`
    * `Secp256k1.G`

  Main results:
    * `Secp256k1.prime_p`, `Secp256k1.prime_n`
    * `Secp256k1.n_nsmul_G`
    * `Secp256k1.nsmul_G_eq_iff`
    * `Secp256k1.card_group`
    * `Secp256k1.exists_nsmul_G`
-/

namespace Secp256k1

open ShortWeierstrass

------------------------------------------------------------
-- Primes
------------------------------------------------------------

/- The characteristic of the field. -/
def p : Nat :=
  0xFFFFFFFFFFFFFFFFFFFFFFFFFFFFFFFFFFFFFFFFFFFFFFFFFFFFFFFEFFFFFC2F

/- The order of the base point. -/
def n : Nat :=
  0xFFFFFFFFFFFFFFFFFFFFFFFFFFFFFFFEBAAEDCE6AF48A03BBFD25E8CD0364141

/- The primes the certificate starts from. -/
private def smallPrimes : List Nat :=
  [2, 3, 5, 7, 11, 17, 29, 31, 41, 53, 59, 97, 109, 149,
   293, 461, 631, 797, 971, 1373, 1627, 1871, 2011, 2621,
   2657, 4051, 4423, 5323, 7723, 9349, 13441, 16699, 20113,
   24809, 28181, 41201, 85831, 96557, 120233, 305873]

/- Each prime with a base and the factors below it. -/
private def certificate : List Pratt.Step :=
  [⟨1206781, 10,
     [2, 3, 5, 20113]⟩,
   ⟨1627771, 3,
     [2, 3, 5, 29, 1871]⟩,
   ⟨4681609, 23,
     [2, 3, 97, 2011]⟩,
   ⟨7240687, 3,
     [2, 3, 1206781]⟩,
   ⟨13331831, 13,
     [2, 5, 971, 1373]⟩,
   ⟨44706919, 6,
     [2, 3, 797, 9349]⟩,
   ⟨107590001, 3,
     [2, 5, 7, 29, 53]⟩,
   ⟨545358713, 5,
     [2, 41, 59, 28181]⟩,
   ⟨297159362677, 2,
     [2, 3, 11, 461, 1627771]⟩,
   ⟨107361793816595537, 3,
     [2, 16699, 85831, 4681609]⟩,
   ⟨173378833005251801, 6,
     [2, 5, 2621, 24809, 13331831]⟩,
   ⟨174723607534414371449, 3,
     [2, 17, 59, 4051, 120233, 44706919]⟩,
   ⟨22149492674086928081353, 5,
     [2, 3, 5323, 173378833005251801]⟩,
   ⟨132896956044521568488119, 6,
     [2, 3, 22149492674086928081353]⟩,
   ⟨29047611873442575647497758179, 2,
     [2, 293, 305873, 545358713, 297159362677]⟩,
   ⟨341948486974166000522343609283189, 2,
     [2, 3, 109, 29047611873442575647497758179]⟩,
   ⟨255515944373312847190720520512484175977, 3,
     [2, 7, 11, 1627, 2657, 4423, 41201, 96557, 7240687,
      107590001]⟩,
   ⟨205115282021455665897114700593932402728804164701536103180137503955397371, 10,
     [2, 3, 5, 29, 31, 7723, 132896956044521568488119,
      255515944373312847190720520512484175977]⟩,
   ⟨n, 7,
     [2, 3, 149, 631, 107361793816595537,
      174723607534414371449,
      341948486974166000522343609283189]⟩,
   ⟨p, 3,
     [2, 3, 7, 13441,
      205115282021455665897114700593932402728804164701536103180137503955397371]⟩]

private theorem certificate_prime
    {q : Nat}
    (hStep : ∃ step ∈ certificate, step.number = q) :
    q.Prime := by
  rcases hStep with ⟨step, hStep, rfl⟩
  have hSmall : ∀ q ∈ smallPrimes, q.Prime := by
    unfold smallPrimes
    norm_num
  have hCheck :
      Pratt.check 256 smallPrimes certificate = true := by
    decide +kernel
  exact Pratt.prime_of_check hSmall hCheck hStep

theorem prime_p : p.Prime :=
  certificate_prime (by simp [certificate])

theorem prime_n : n.Prime :=
  certificate_prime (by simp [certificate])

instance : Fact p.Prime := ⟨prime_p⟩

instance : Fact n.Prime := ⟨prime_n⟩

------------------------------------------------------------
-- The Group
------------------------------------------------------------

/- The curve `y * y = x * x * x + 7`. -/
abbrev Curve : WeierstrassCurve.Affine (ZMod p) :=
  curve ((0 : Nat) : ZMod p) ((7 : Nat) : ZMod p)

abbrev Group :=
  Curve.Point

/- The coordinates of the base point. -/
def gx : Nat :=
  0x79BE667EF9DCBBAC55A06295CE870B07029BFCDB2DCE28D959F2815B16F81798

def gy : Nat :=
  0x483ADA7726A3C4655DA4FBFC0E1108A8FD17B448A68554199C47D08FFB10D4B8

theorem smooth :
    Smooth ((0 : Nat) : ZMod p) ((7 : Nat) : ZMod p) := by
  have hNe : ((21168 : Nat) : ZMod p) ≠ 0 := by
    rw [Ne, ZMod.natCast_eq_zero_iff]
    decide +kernel
  intro hZero
  apply hNe
  rw [← neg_eq_zero, ← hZero]
  push_cast
  ring

theorem two_ne_zero : (2 : ZMod p) ≠ 0 :=
  smooth.two_ne_zero

/- Coordinates below `p` that solve the equation. -/
theorem nonsingular_of_eq
    {x y : Nat}
    (hEq : y * y % p = (x * x * x + 7) % p) :
    Curve.Nonsingular (x : ZMod p) (y : ZMod p) := by
  rw [nonsingular_iff smooth]
  have hCast :=
    (ZMod.natCast_eq_natCast_iff' _ _ _).mpr hEq
  push_cast at hCast ⊢
  rw [hCast]
  ring

/- The base point. -/
noncomputable def G : Group :=
  .some (gx : ZMod p) (gy : ZMod p)
    (nonsingular_of_eq (by decide +kernel))

theorem coords_G :
    coords G = some ((gx : ZMod p), (gy : ZMod p)) := rfl

theorem G_ne_zero : G ≠ 0 :=
  WeierstrassCurve.Affine.Point.some_ne_zero _

/- A multiple of a point, computed without division. -/
theorem represents_nsmul
    {x y m : Nat}
    (hBits : m < 2 ^ 257)
    {P : Group}
    (hP : coords P = some ((x : ZMod p), (y : ZMod p))) :
    Jacobian.Represents p
      (Jacobian.scale p 0 257 m ⟨x, y, 1⟩ ⟨0, 0, 0⟩)
      (coords (m • P)) := by
  have hPoint :
      Jacobian.Represents p ⟨x, y, 1⟩ (coords P) := by
    rw [hP]
    exact Jacobian.represents_affine x y
  have hZero :
      Jacobian.Represents p ⟨0, 0, 0⟩
        (coords (0 : Group)) := .infinity rfl
  have hScale := Jacobian.represents_scale two_ne_zero
    hBits hPoint hZero
  rw [zero_add] at hScale
  exact hScale

theorem n_nsmul_G : n • G = 0 := by
  have hBits : n < 2 ^ 257 := by decide +kernel
  have hScale := represents_nsmul hBits coords_G
  apply coords_eq_none_iff.mp
  apply Jacobian.eq_none_of_represents hScale
  decide +kernel

/- The base point has order `n`. -/
theorem addOrderOf_G : addOrderOf G = n := by
  apply addOrderOf_eq_prime n_nsmul_G G_ne_zero

theorem nsmul_G_eq_iff
    {i j : Nat} :
    i • G = j • G ↔ i ≡ j [MOD n] := by
  rw [nsmul_eq_nsmul_iff_modEq, addOrderOf_G]

/- Equal residues give equal multiples. -/
theorem nsmul_G_congr
    {i j : Nat}
    (hEq : (i : ZMod n) = j) :
    i • G = j • G :=
  nsmul_G_eq_iff.mpr
    ((ZMod.natCast_eq_natCast_iff _ _ _).mp hEq)

theorem nsmul_G_eq_zero_iff
    {i : Nat} :
    i • G = 0 ↔ (i : ZMod n) = 0 := by
  rw [ZMod.natCast_eq_zero_iff, ← addOrderOf_G,
    addOrderOf_dvd_iff_nsmul_eq_zero]

theorem zsmul_G_eq_zero_iff
    {i : Int} :
    i • G = 0 ↔ (i : ZMod n) = 0 := by
  rw [ZMod.intCast_zmod_eq_zero_iff_dvd, ← addOrderOf_G,
    addOrderOf_dvd_iff_zsmul_eq_zero]

/- Multiples of the base point are killed by the order. -/
theorem n_nsmul_nsmul_G
    (i : Nat) :
    n • i • G = 0 := by
  rw [nsmul_left_comm, n_nsmul_G, nsmul_zero]

/- Factors count modulo the order. -/
theorem nsmul_mod
    {P : Group}
    (hP : n • P = 0)
    (m : Nat) :
    (m % n) • P = m • P := by
  conv_rhs =>
    rw [← Nat.mod_add_div m n, add_nsmul, mul_nsmul, hP,
      nsmul_zero, add_zero]

------------------------------------------------------------
-- Square Roots
------------------------------------------------------------

/- A power of a square is one of its roots. -/
theorem pow_eq_or_eq_neg
    (y : ZMod p) :
    (y * y) ^ ((p + 1) / 4) = y ∨
      (y * y) ^ ((p + 1) / 4) = -y := by
  have hFour :
      (p + 1) / 4 * 2 + (p + 1) / 4 * 2 = p + 1 := by
    decide +kernel
  apply mul_self_eq_mul_self_iff.mp
  rw [← pow_two y, ← pow_mul', ← pow_add, hFour, pow_succ,
    ZMod.pow_card, pow_two]

------------------------------------------------------------
-- Points with a Given Abscissa
------------------------------------------------------------

/- The abscissa and the parity of the ordinate. -/
def IsLift
    (P : Group)
    (r parity : Nat) : Prop :=
  ∃ x y, coords P = some (x, y) ∧
    x.val = r ∧ y.val % 2 = parity

private theorem odd_p : p % 2 = 1 := by
  decide

/- The opposite has the other parity. -/
theorem IsLift.neg
    {P : Group}
    {x y : ZMod p}
    (hP : coords P = some (x, y))
    (hy : y ≠ 0) :
    IsLift (-P) x.val (1 - y.val % 2) := by
  have hOdd := odd_p
  have hLt := y.val_lt
  have hPos : y.val ≠ 0 :=
    fun hZero => hy ((ZMod.val_eq_zero y).mp hZero)
  refine ⟨x, -y, ?_, rfl, ?_⟩
  · rw [coords_neg, hP]
    rfl
  · rw [ZMod.neg_val, if_neg hy]
    omega

/- There is one point to an abscissa and a parity. -/
theorem IsLift.unique
    {P Q : Group}
    {r parity : Nat}
    (hP : IsLift P r parity)
    (hQ : IsLift Q r parity) :
    P = Q := by
  rcases hP with ⟨x, y, hP, hx, hy⟩
  rcases hQ with ⟨x', y', hQ, hx', hy'⟩
  have hX : x = x' :=
    ZMod.val_injective p (hx.trans hx'.symm)
  have hEqP := (exists_coords_iff smooth).mp ⟨P, hP⟩
  have hEqQ := (exists_coords_iff smooth).mp ⟨Q, hQ⟩
  have hSquares : y * y = y' * y' := by
    rw [hEqP, hEqQ, hX]
  apply coords_injective
  rw [hP, hQ, hX]
  rcases mul_self_eq_mul_self_iff.mp hSquares with hY | hY
  · rw [hY]
  · -- opposite ordinates of one parity are zero
    by_cases hZero : y' = 0
    · rw [hY, hZero, neg_zero]
    · have hOdd := odd_p
      have hLt := y'.val_lt
      rw [hY, ZMod.neg_val, if_neg hZero] at hy
      omega

/- Points of odd order have a nonzero ordinate. -/
theorem ordinate_ne_zero
    {P : Group}
    (hP : n • P = 0)
    {x y : ZMod p}
    (hCoords : coords P = some (x, y)) :
    y ≠ 0 := by
  intro hy
  have hNeg : -P = P := by
    apply coords_injective
    rw [coords_neg, hCoords, hy]
    simp
  have hDouble : 2 • P = 0 := by
    rw [two_nsmul]
    nth_rewrite 1 [← hNeg]
    exact neg_add_cancel _
  have hOdd : n = n / 2 * 2 + 1 := by decide
  rw [hOdd, add_nsmul, mul_nsmul', hDouble, nsmul_zero,
    zero_add, one_nsmul] at hP
  rw [hP] at hCoords
  cases hCoords

/- A multiple that is not zero has a nonzero ordinate. -/
theorem exists_coords_nsmul_G
    {i : Nat}
    (hi : (i : ZMod n) ≠ 0) :
    ∃ x y, coords (i • G) = some (x, y) ∧ y ≠ 0 := by
  rcases hCoords : coords (i • G) with _ | ⟨x, y⟩
  · rw [coords_eq_none_iff, nsmul_G_eq_zero_iff] at hCoords
    exact absurd hCoords hi
  · exact ⟨x, y, rfl,
      ordinate_ne_zero (n_nsmul_nsmul_G i) hCoords⟩

theorem exists_coords_zsmul_G
    {i : Int}
    (hi : (i : ZMod n) ≠ 0) :
    ∃ x y, coords (i • G) = some (x, y) ∧ y ≠ 0 := by
  have hOrder : n • i • G = 0 := by
    rw [smul_comm, n_nsmul_G, zsmul_zero]
  rcases hCoords : coords (i • G) with _ | ⟨x, y⟩
  · rw [coords_eq_none_iff, zsmul_G_eq_zero_iff] at hCoords
    exact absurd hCoords hi
  · exact ⟨x, y, rfl, ordinate_ne_zero hOrder hCoords⟩

------------------------------------------------------------
-- The Order of the Group
------------------------------------------------------------

/- Minus seven is not a cube. -/
theorem cube_add_seven_ne_zero
    (x : ZMod p) :
    x * x * x + ((7 : Nat) : ZMod p) ≠ 0 := by
  intro hZero
  have hx : x ≠ 0 := by
    intro hx
    rw [hx, mul_zero, zero_add,
      ZMod.natCast_eq_zero_iff] at hZero
    revert hZero
    decide +kernel
  have hThree : (p - 1) / 3 * 3 = p - 1 := by decide
  have hBits : (p - 1) / 3 < 2 ^ 256 := by decide
  have hCube : ((p - 7 : Nat) : ZMod p) = x ^ 3 := by
    rw [Nat.cast_sub (by decide),
      ZMod.natCast_self]
    linear_combination -hZero
  have hPower :
      ((p - 7 : Nat) : ZMod p) ^ ((p - 1) / 3) = 1 := by
    rw [hCube, ← pow_mul, mul_comm, hThree,
      ZMod.pow_card_sub_one_eq_one hx]
  rw [Pratt.pow_eq_one_iff prime_p.two_le hBits] at hPower
  revert hPower
  decide +kernel

/- The abscissa and the parity of a point. -/
def compress
    (P : Group) : Option (ZMod p × Fin 2) :=
  (coords P).map fun c => (c.1, Fin.ofNat 2 c.2.val)

theorem compress_injective :
    Function.Injective compress := by
  intro P Q hEq
  unfold compress at hEq
  rcases hP : coords P with _ | ⟨x, y⟩
  · rcases hQ : coords Q with _ | ⟨x', y'⟩
    · apply coords_injective
      rw [hP, hQ]
    · rw [hP, hQ] at hEq
      cases hEq
  · rcases hQ : coords Q with _ | ⟨x', y'⟩
    · rw [hP, hQ] at hEq
      cases hEq
    · rw [hP, hQ, Option.map_some, Option.map_some,
        Option.some.injEq, Prod.mk.injEq] at hEq
      have hParity : y.val % 2 = y'.val % 2 :=
        congrArg Fin.val hEq.2
      apply IsLift.unique (r := x.val)
      · exact ⟨x, y, hP, rfl, rfl⟩
      · have hAbscissa : x = x' := hEq.1
        rw [hAbscissa]
        exact ⟨x', y', hQ, rfl, hParity.symm⟩

instance : Finite Group :=
  Finite.of_injective compress compress_injective

/- There are at most two points to an abscissa. -/
theorem card_group_le : Nat.card Group ≤ 2 * p + 1 := by
  have hLe :=
    Nat.card_le_card_of_injective compress compress_injective
  rw [Finite.card_option, Nat.card_prod, Nat.card_zmod,
    Nat.card_fin, mul_comm] at hLe
  exact hLe

/- No point is its own opposite. -/
theorem not_two_dvd_card : ¬ 2 ∣ Nat.card Group := by
  intro hTwo
  have hPrime : Fact (Nat.Prime 2) := ⟨Nat.prime_two⟩
  rcases exists_prime_addOrderOf_dvd_card' 2 hTwo with
    ⟨P, hOrder⟩
  have hDouble : P + P = 0 := by
    rw [← two_nsmul, ← hOrder]
    exact addOrderOf_nsmul_eq_zero P
  rcases hCoords : coords P with _ | ⟨x, y⟩
  · rw [coords_eq_none_iff] at hCoords
    rw [hCoords, addOrderOf_zero] at hOrder
    cases hOrder
  · have hNeg := coords_neg P
    rw [neg_eq_of_add_eq_zero_left hDouble, hCoords] at hNeg
    have hy : y = -y := by
      simpa using hNeg
    have hZero : y = 0 := by
      have hSum : (2 : ZMod p) * y = 0 := by
        linear_combination hy
      exact (mul_eq_zero.mp hSum).resolve_left two_ne_zero
    have hCurve := (exists_coords_iff smooth).mp ⟨P, hCoords⟩
    apply cube_add_seven_ne_zero x
    rw [hZero] at hCurve
    simpa using hCurve.symm

/- The group has the order of its base point. -/
theorem card_group : Nat.card Group = n := by
  have hDvd := addOrderOf_dvd_natCard G
  rw [addOrderOf_G] at hDvd
  rcases hDvd with ⟨m, hm⟩
  have hPos : 0 < Nat.card Group := Nat.card_pos
  have hLe := card_group_le
  have hOdd := not_two_dvd_card
  have hBound : 2 * p + 1 < n * 3 := by decide
  have hSmall : m < 3 := by
    rw [hm] at hLe
    exact lt_of_mul_lt_mul_left
      (lt_of_le_of_lt hLe hBound) (Nat.zero_le n)
  match m with
  | 0 => omega
  | 1 => rw [hm, mul_one]
  | 2 =>
      exfalso
      apply hOdd
      rw [hm]
      exact dvd_mul_left 2 n
  | m + 3 => omega

/- Every point is a multiple of the base point. -/
theorem exists_nsmul_G
    (P : Group) :
    ∃ m : Nat, m < n ∧ P = m • G := by
  have hMem : P ∈ AddSubgroup.zmultiples G :=
    mem_zmultiples_of_prime_card card_group G_ne_zero
  rw [mem_zmultiples_iff_mem_range_addOrderOf, addOrderOf_G,
    Finset.mem_image] at hMem
  rcases hMem with ⟨m, hm, rfl⟩
  exact ⟨m, Finset.mem_range.mp hm, rfl⟩

end Secp256k1
