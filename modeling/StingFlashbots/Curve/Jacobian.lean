import StingFlashbots.Crypto.Pratt
import StingFlashbots.Curve.ShortWeierstrass
import Mathlib.Algebra.Field.ZMod
import Mathlib.FieldTheory.Finite.Basic

/-
  Multiples of a point without division.

  A triple `(x, y, z)` of numbers modulo `p` stands for the
  point with coordinates `x / z ^ 2` and `y / z ^ 3`, and for
  infinity when `z` is zero. Large multiples of a point can
  be computed this way and compared with given coordinates.

  Key definitions include:
    * `Jacobian.Triple`
    * `Jacobian.double`, `Jacobian.add`, `Jacobian.scale`
    * `Jacobian.Represents`

  Main results:
    * `Jacobian.represents_double`
    * `Jacobian.represents_add`
    * `Jacobian.represents_scale`
    * `Jacobian.coords_eq_of_represents`
    * `Jacobian.toAffine_of_represents`
-/

namespace Jacobian

open ShortWeierstrass

structure Triple where
  x : Nat
  y : Nat
  z : Nat
deriving DecidableEq, Repr

/- The difference modulo `p`. -/
def minus (p m n : Nat) : Nat :=
  (m + (p - n % p)) % p

/- A point plus itself. -/
def double
    (p a : Nat)
    (t : Triple) : Triple :=
  let yy := t.y * t.y % p
  let zz := t.z * t.z % p
  let s := 4 * t.x * yy % p
  let m := (3 * t.x * t.x + a * zz * zz) % p
  let x := minus p (m * m) (2 * s)
  { x := x
    y := minus p (m * minus p s x) (8 * yy * yy)
    z := 2 * t.y * t.z % p }

/- The sum of two points. -/
def add
    (p a : Nat)
    (t u : Triple) : Triple :=
  if t.z = 0 then
    u
  else if u.z = 0 then
    t
  else
    let zz₁ := t.z * t.z % p
    let zz₂ := u.z * u.z % p
    let u₁ := t.x * zz₂ % p
    let u₂ := u.x * zz₁ % p
    let s₁ := t.y * zz₂ * u.z % p
    let s₂ := u.y * zz₁ * t.z % p
    if u₁ = u₂ then
      if s₁ = s₂ then double p a t else ⟨0, 0, 0⟩
    else
      let h := minus p u₂ u₁
      let r := minus p s₂ s₁
      let hh := h * h % p
      let v := u₁ * hh % p
      let x := minus p (r * r) (h * hh + 2 * v)
      { x := x
        y := minus p (r * minus p v x) (s₁ * h * hh)
        z := h * t.z * u.z % p }

/- Add `n` times a point, bit by bit. -/
def scale
    (p a : Nat) :
    (bits n : Nat) → (point sum : Triple) → Triple
| 0, _, _, sum => sum
| bits + 1, n, point, sum =>
    scale p a bits (n / 2) (double p a point)
      (if n % 2 = 1 then add p a sum point else sum)

/- The triple stands for a point with these coordinates. -/
structure Affine
    (p : Nat)
    (t : Triple)
    (x y : ZMod p) : Prop where
  z_ne : (t.z : ZMod p) ≠ 0
  x_eq : (t.x : ZMod p) = x * t.z ^ 2
  y_eq : (t.y : ZMod p) = y * t.z ^ 3

/- What a triple stands for. -/
inductive Represents
    (p : Nat)
    (t : Triple) :
    Option (ZMod p × ZMod p) → Prop where
| infinity :
    t.z = 0 → Represents p t none
| affine
    {x y : ZMod p} :
    Affine p t x y → Represents p t (some (x, y))

variable {p : Nat} [Fact p.Prime]

theorem cast_minus
    (m n : Nat) :
    ((minus p m n : Nat) : ZMod p) = m - n := by
  have hLt : n % p < p := Nat.mod_lt _ (NeZero.pos p)
  rw [minus, ZMod.natCast_mod, Nat.cast_add,
    Nat.cast_sub hLt.le, ZMod.natCast_mod,
    ZMod.natCast_self]
  ring

private theorem cast_eq_iff
    {m n : Nat} :
    m % p = n % p ↔ (m : ZMod p) = n :=
  (ZMod.natCast_eq_natCast_iff' m n p).symm

private theorem mod_eq_zero_iff
    {n : Nat} :
    n % p = 0 ↔ (n : ZMod p) = 0 := by
  rw [ZMod.natCast_eq_zero_iff, Nat.dvd_iff_mod_eq_zero]

variable {a : Nat}

/- The doubled triple, modulo `p`. -/
private theorem cast_double
    (t : Triple) :
    ((double p a t).x : ZMod p) =
      (3 * t.x ^ 2 + a * t.z ^ 4) ^ 2 -
        8 * t.x * t.y ^ 2 ∧
    ((double p a t).y : ZMod p) =
      (3 * t.x ^ 2 + a * t.z ^ 4) *
        (4 * t.x * t.y ^ 2 - (double p a t).x) -
          8 * t.y ^ 4 ∧
    ((double p a t).z : ZMod p) = 2 * t.y * t.z := by
  simp only [double, cast_minus, Nat.cast_mul,
    Nat.cast_add, Nat.cast_ofNat, ZMod.natCast_mod,
    and_true]
  constructor
  · ring
  · ring

theorem represents_double
    (hTwo : (2 : ZMod p) ≠ 0)
    {t : Triple}
    {c : Option (ZMod p × ZMod p)}
    (hc : Represents p t c) :
    Represents p (double p a t) (addCoords a c c) := by
  rcases cast_double (a := a) (p := p) t with
    ⟨hX, hY, hZ⟩
  cases hc with
  | infinity hz =>
      apply Represents.infinity
      simp [double, hz]
  | @affine x y hc =>
      rcases hc with ⟨hz, hx, hy⟩
      rw [addCoords, if_pos rfl]
      by_cases hy0 : y = 0
      · rw [if_neg (fun h => h.2 hy0)]
        apply Represents.infinity
        apply mod_eq_zero_iff.mpr
        simp [hy, hy0]
      · rw [if_pos ⟨rfl, hy0⟩]
        apply Represents.affine
        constructor
        · rw [hZ, hy]
          simp [hTwo, hy0, hz]
        · simp only [hX, hZ, hx, hy]
          field_simp
          ring
        · simp only [hY, hX, hZ, hx, hy]
          field_simp
          ring

/- The sum of triples with different abscissas. -/
private def chordTriple (t u : Triple) : Triple :=
  let zz₁ := t.z * t.z % p
  let zz₂ := u.z * u.z % p
  let u₁ := t.x * zz₂ % p
  let s₁ := t.y * zz₂ * u.z % p
  let h := minus p (u.x * zz₁ % p) u₁
  let r := minus p (u.y * zz₁ * t.z % p) s₁
  let hh := h * h % p
  let v := u₁ * hh % p
  let x := minus p (r * r) (h * hh + 2 * v)
  { x := x
    y := minus p (r * minus p v x) (s₁ * h * hh)
    z := h * t.z * u.z % p }

private theorem represents_chordTriple
    {t u : Triple}
    {x₁ y₁ x₂ y₂ : ZMod p}
    (ht : Affine p t x₁ y₁)
    (hu : Affine p u x₂ y₂)
    (hNe : x₁ ≠ x₂) :
    Represents p (chordTriple (p := p) t u)
      (some (chord ((y₂ - y₁) / (x₂ - x₁)) x₁ y₁ x₂)) := by
  rcases ht with ⟨hz₁, hx₁, hy₁⟩
  rcases hu with ⟨hz₂, hx₂, hy₂⟩
  have hSub : x₂ - x₁ ≠ 0 := sub_ne_zero.mpr (Ne.symm hNe)
  apply Represents.affine
  constructor
  · simp only [chordTriple, cast_minus, Nat.cast_mul,
      ZMod.natCast_mod, hx₁, hx₂]
    have hEq :
        (x₂ * (u.z : ZMod p) ^ 2 * (t.z * t.z) -
          x₁ * t.z ^ 2 * (u.z * u.z)) * t.z * u.z =
            (x₂ - x₁) * (t.z * u.z) ^ 3 := by
      ring
    rw [hEq]
    exact mul_ne_zero hSub
      (pow_ne_zero 3 (mul_ne_zero hz₁ hz₂))
  · simp only [chordTriple, cast_minus, Nat.cast_mul,
      Nat.cast_add, Nat.cast_ofNat, ZMod.natCast_mod,
      hx₁, hx₂, hy₁, hy₂]
    field_simp
    ring
  · simp only [chordTriple, cast_minus, Nat.cast_mul,
      Nat.cast_add, Nat.cast_ofNat, ZMod.natCast_mod,
      hx₁, hx₂, hy₁, hy₂]
    field_simp
    ring

private theorem abscissas_eq_iff
    {t u : Triple}
    {x₁ y₁ x₂ y₂ : ZMod p}
    (ht : Affine p t x₁ y₁)
    (hu : Affine p u x₂ y₂) :
    t.x * (u.z * u.z % p) % p =
        u.x * (t.z * t.z % p) % p ↔
      x₁ = x₂ := by
  have hw : ((t.z : ZMod p) * u.z) ^ 2 ≠ 0 :=
    pow_ne_zero 2 (mul_ne_zero ht.z_ne hu.z_ne)
  rw [cast_eq_iff]
  apply Iff.trans _ (mul_left_inj' hw)
  simp only [Nat.cast_mul, ZMod.natCast_mod,
    ht.x_eq, hu.x_eq]
  ring_nf

private theorem ordinates_eq_iff
    {t u : Triple}
    {x₁ y₁ x₂ y₂ : ZMod p}
    (ht : Affine p t x₁ y₁)
    (hu : Affine p u x₂ y₂) :
    t.y * (u.z * u.z % p) * u.z % p =
        u.y * (t.z * t.z % p) * t.z % p ↔
      y₁ = y₂ := by
  have hw : ((t.z : ZMod p) * u.z) ^ 3 ≠ 0 :=
    pow_ne_zero 3 (mul_ne_zero ht.z_ne hu.z_ne)
  rw [cast_eq_iff]
  apply Iff.trans _ (mul_left_inj' hw)
  simp only [Nat.cast_mul, ZMod.natCast_mod,
    ht.y_eq, hu.y_eq]
  ring_nf

theorem represents_add
    (hTwo : (2 : ZMod p) ≠ 0)
    {t u : Triple}
    {c d : Option (ZMod p × ZMod p)}
    (hc : Represents p t c)
    (hd : Represents p u d) :
    Represents p (add p a t u) (addCoords a c d) := by
  cases hc with
  | infinity hz =>
      rw [add, if_pos hz]
      exact hd
  | @affine x₁ y₁ hc =>
      have hz₁ : t.z ≠ 0 := by
        intro hz
        apply hc.z_ne
        rw [hz, Nat.cast_zero]
      cases hd with
      | infinity hz =>
          rw [add, if_neg hz₁, if_pos hz]
          exact .affine hc
      | @affine x₂ y₂ hd =>
          have hz₂ : u.z ≠ 0 := by
            intro hz
            apply hd.z_ne
            rw [hz, Nat.cast_zero]
          have hU := abscissas_eq_iff hc hd
          have hS := ordinates_eq_iff hc hd
          rw [add, if_neg hz₁, if_neg hz₂]
          simp only [hU, hS]
          by_cases hx : x₁ = x₂
          · by_cases hy : y₁ = y₂
            · have hDouble :=
                represents_double (a := a) hTwo (.affine hc)
              rw [if_pos hx, if_pos hy, ← hx, ← hy]
              exact hDouble
            · rw [if_pos hx, if_neg hy, addCoords,
                if_pos hx, if_neg (fun h => hy h.1)]
              exact .infinity rfl
          · rw [if_neg hx, addCoords, if_neg hx]
            exact represents_chordTriple hc hd hx

/- The loop adds the multiple of the point. -/
theorem represents_scale
    {b : ZMod p}
    (hTwo : (2 : ZMod p) ≠ 0)
    {bits n : Nat}
    (hBits : n < 2 ^ bits)
    {point sum : Triple}
    {P S : (curve (a : ZMod p) b).Point}
    (hPoint : Represents p point (coords P))
    (hSum : Represents p sum (coords S)) :
    Represents p (scale p a bits n point sum)
      (coords (S + n • P)) := by
  induction bits generalizing n point sum P S with
  | zero =>
      have hZero : n = 0 := by omega
      rw [hZero, zero_nsmul, add_zero]
      exact hSum
  | succ bits ih =>
      have hHalf : n / 2 < 2 ^ bits := by
        rw [pow_succ] at hBits
        omega
      have hDouble :
          Represents p (double p a point)
            (coords (P + P)) := by
        rw [coords_add hTwo]
        exact represents_double hTwo hPoint
      rw [scale]
      split_ifs with hOdd
      · have hNext :
            Represents p (add p a sum point)
              (coords (S + P)) := by
          rw [coords_add hTwo]
          exact represents_add hTwo hSum hPoint
        have hRest := ih hHalf hDouble hNext
        have hEq :
            S + P + (n / 2) • (P + P) = S + n • P := by
          have hSplit : n = 1 + (n / 2) * 2 := by omega
          conv_rhs => rw [hSplit, add_nsmul, one_nsmul,
            mul_nsmul', two_nsmul]
          rw [add_assoc]
        rw [hEq] at hRest
        exact hRest
      · have hRest := ih hHalf hDouble hSum
        have hEq :
            S + (n / 2) • (P + P) = S + n • P := by
          have hSplit : n = (n / 2) * 2 := by omega
          conv_rhs => rw [hSplit, mul_nsmul', two_nsmul]
        rw [hEq] at hRest
        exact hRest

/- A triple and the coordinates it stands for. -/
def reads
    (p : Nat)
    (t : Triple)
    (x y : Nat) : Bool :=
  t.z % p ≠ 0 ∧
  t.x % p = x * t.z * t.z % p ∧
  t.y % p = y * t.z * t.z * t.z % p

theorem coords_eq_of_represents
    {t : Triple}
    {c : Option (ZMod p × ZMod p)}
    (hc : Represents p t c)
    {x y : Nat}
    (hReads : reads p t x y = true) :
    c = some ((x : ZMod p), (y : ZMod p)) := by
  simp only [reads, decide_eq_true_eq] at hReads
  rcases hReads with ⟨hz, hx, hy⟩
  rw [cast_eq_iff] at hx hy
  push_cast at hx hy
  cases hc with
  | infinity hZero =>
      rw [hZero, Nat.zero_mod] at hz
      exact absurd rfl hz
  | @affine x' y' hc =>
      rw [hc.x_eq] at hx
      rw [hc.y_eq] at hy
      have hX : x' = x := by
        apply mul_right_cancel₀ (pow_ne_zero 2 hc.z_ne)
        rw [hx]
        ring
      have hY : y' = y := by
        apply mul_right_cancel₀ (pow_ne_zero 3 hc.z_ne)
        rw [hy]
        ring
      rw [hX, hY]

theorem eq_none_of_represents
    {t : Triple}
    {c : Option (ZMod p × ZMod p)}
    (hc : Represents p t c)
    (hz : t.z = 0) :
    c = none := by
  cases hc with
  | infinity _ => rfl
  | affine hc =>
      apply absurd _ hc.z_ne
      rw [hz, Nat.cast_zero]

/- Affine coordinates as a triple. -/
theorem represents_affine
    (x y : Nat) :
    Represents p ⟨x, y, 1⟩
      (some ((x : ZMod p), (y : ZMod p))) := by
  apply Represents.affine
  constructor
  · simp
  · simp
  · simp

------------------------------------------------------------
-- Affine Coordinates
------------------------------------------------------------

/- The inverse modulo a prime, by Fermat's theorem. -/
def inverse (p n : Nat) : Nat :=
  Pratt.powMod p (p.log2 + 1) n (p - 2)

/- The coordinates a triple stands for. -/
def toAffine
    (p : Nat)
    (t : Triple) : Nat × Nat :=
  let i := inverse p t.z
  (t.x * i * i % p, t.y * i * i * i % p)

theorem cast_inverse
    {n : Nat}
    (hn : (n : ZMod p) ≠ 0) :
    ((inverse p n : Nat) : ZMod p) = (n : ZMod p)⁻¹ := by
  have hTwo : 2 ≤ p := (Fact.out : p.Prime).two_le
  have hBits : p - 2 < 2 ^ (p.log2 + 1) :=
    lt_of_le_of_lt (Nat.sub_le p 2) Nat.lt_log2_self
  have hSplit : p - 1 = (p - 2) + 1 := by omega
  have hFermat := ZMod.pow_card_sub_one_eq_one hn
  rw [hSplit, pow_succ] at hFermat
  rw [inverse, Pratt.powMod_eq p hBits, ZMod.natCast_mod]
  push_cast
  exact eq_inv_of_mul_eq_one_left hFermat

theorem inverse_lt
    (n : Nat) :
    inverse p n < p := by
  have hBits : p - 2 < 2 ^ (p.log2 + 1) :=
    lt_of_le_of_lt (Nat.sub_le p 2) Nat.lt_log2_self
  rw [inverse, Pratt.powMod_eq p hBits]
  exact Nat.mod_lt _ (NeZero.pos p)

private theorem val_mod
    {m : Nat}
    {x : ZMod p}
    (hx : (m : ZMod p) = x) :
    m % p = x.val := by
  rw [← hx, ZMod.val_natCast]

theorem toAffine_of_represents
    {t : Triple}
    {x y : ZMod p}
    (ht : Represents p t (some (x, y))) :
    toAffine p t = (x.val, y.val) := by
  cases ht with
  | affine ht =>
      rcases ht with ⟨hz, hx, hy⟩
      have hInverse := cast_inverse hz
      refine Prod.ext (val_mod ?_) (val_mod ?_)
      · push_cast
        rw [hInverse, hx]
        field_simp
      · push_cast
        rw [hInverse, hy]
        field_simp

end Jacobian
