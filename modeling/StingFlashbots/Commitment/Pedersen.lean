import StingFlashbots.Commitment.Compression

/-
  Pedersen commitments.

  A commitment is the number read from the text of a point
  `x * G + r * H`. It depends on the class of `x + h * r`
  modulo the order only, where `h` is the discrete logarithm
  of `H`, and it tells these classes apart. The class of
  zero has no commitment: the identity cannot be written.

  Key definitions include:
    * `Commitment.hPoint`
    * `Commitment.computePedersenCommitment`
    * `Commitment.makePedersenCommitment`

  Main results:
    * `Commitment.commitmentOf_inj`
    * `Commitment.computePedersenCommitment_ne_zero`
    * `Commitment.computePedersenCommitment_linear`
-/

namespace Commitment

open Sting IntegerModP

------------------------------------------------------------
-- Commitments
------------------------------------------------------------

/- The coordinates of the second generator. -/
def hx : Nat :=
  0xbc4f48d7a8651dc97ae415f0b47a52ef1a2702098202392b88bc925f6e89ee17

def hy : Nat :=
  0x361b27b55c10f94ec0630b4c7d28f963221a0031632092bf585825823f6e27df

/- The second generator `H`. -/
def hPoint : Point curve :=
  .point ⟨hx, by decide⟩ ⟨hy, by decide⟩
    (by decide +kernel)

/- The point `x * G + r * H`. -/
def pedersenPoint (x r : Int) : Py (Point curve) := do
  let xG ← basePoint.mul x
  let rH ← hPoint.mul r
  xG.add rH

/- `bytes_to_int(hex_to_bytes(ser(C)))` -/
def commitmentOf (C : Point curve) : Py Nat := do
  let text ← ser C
  let b ← hexToBytes text
  return bytesToInt b

/- `compute_pedersen_commitment` -/
def computePedersenCommitment (x r : Int) : Py Nat := do
  let C ← pedersenPoint x r
  commitmentOf C

/- `make_pedersen_commitment`, with the bytes it draws. -/
def makePedersenCommitment
    (x : Int)
    (rndBytes : Bytes) : Py (Nat × Nat) := do
  let r ← uint256FromStr rndBytes
  let C ← pedersenPoint x r
  return (← commitmentOf C, r)

/- What is made is what is computed again. -/
theorem makePedersenCommitment_eq_ok
    {x : Int}
    {rndBytes : Bytes}
    {C r : Nat}
    (hMake :
      makePedersenCommitment x rndBytes = .ok (C, r)) :
    uint256FromStr rndBytes = .ok r ∧
    computePedersenCommitment x r = .ok C := by
  rcases bind_eq_ok.mp hMake with ⟨r', hRandom, hMake⟩
  rcases bind_eq_ok.mp hMake with ⟨P, hPoint, hMake⟩
  rcases bind_eq_ok.mp hMake with ⟨C', hCommit, hPair⟩
  cases hPair
  refine ⟨hRandom, ?_⟩
  rw [computePedersenCommitment, hPoint]
  exact hCommit

------------------------------------------------------------
-- Points as Numbers
------------------------------------------------------------

theorem commitmentOf_point
    (x y : Fq)
    (onCurve : curve.testPoint x y) :
    commitmentOf (.point x y onCurve) =
      .ok (BigEndian.decode (serBytes x y)) := by
  rw [commitmentOf, ser_eq, ok_bind, hexToBytes_encode]
  rfl

/- Only the identity has no number. -/
theorem commitmentOf_raises_iff
    (P : Point curve) :
    (∃ e, commitmentOf P = .error e) ↔ P = .ideal := by
  cases P with
  | ideal => exact ⟨fun _ => rfl, fun _ => ⟨_, rfl⟩⟩
  | point x y onCurve =>
      rw [commitmentOf_point]
      constructor
      · rintro ⟨e, hError⟩
        cases hError
      · intro hEq
        cases hEq

theorem signByte_eq_iff
    {y y' : Fq} :
    signByte y = signByte y' ↔ y.n % 2 = y'.n % 2 := by
  unfold signByte
  rcases Nat.mod_two_eq_zero_or_one y.n with hy | hy <;>
    rcases Nat.mod_two_eq_zero_or_one y'.n with hy' | hy' <;>
    rw [hy, hy'] <;>
    decide

/- The number of a point determines it. -/
theorem commitmentOf_inj
    {P Q : Point curve}
    {C : Nat}
    (hP : commitmentOf P = .ok C)
    (hQ : commitmentOf Q = .ok C) :
    P = Q := by
  cases P with
  | ideal => cases hP
  | point x y onCurve =>
      cases Q with
      | ideal => cases hQ
      | point x' y' onCurve' =>
          rw [commitmentOf_point, Except.ok.injEq]
            at hP hQ
          have hBytes : serBytes x y = serBytes x' y' := by
            apply BigEndian.decode_inj
            · rw [length_serBytes, length_serBytes]
            · rw [hP, hQ]
          rcases List.cons.inj hBytes with ⟨hSign, hAbscissa⟩
          have hx : x = x' := by
            have hDecode :=
              congrArg LittleEndian.decode hAbscissa
            rw [LittleEndian.decode_encode,
              LittleEndian.decode_encode] at hDecode
            rw [← ofInt_n x, hDecode, ofInt_n]
          subst hx
          have hy : y = y' :=
            eq_of_parity onCurve onCurve'
              (signByte_eq_iff.mp hSign)
          subst hy
          rfl

/- No point has the abscissa zero: seven is not a square. -/
theorem abscissa_ne_zero
    {x y : Fq}
    (onCurve : curve.testPoint x y) :
    x.n ≠ 0 := by
  intro hZero
  have hx : x = ofInt q 0 := by
    rw [← ofInt_n x, hZero]
    rfl
  have hRoot : HasRoot x :=
    ⟨y, testPoint_iff_rightSide.mp onCurve⟩
  have hSquare := pow_mul_self hRoot
  rw [hx] at hSquare
  revert hSquare
  decide +kernel

/-
  A commitment is not zero. As a nonce it is never taken for
  a missing one.
-/
theorem computePedersenCommitment_ne_zero
    {x r : Int}
    {C : Nat}
    (hOk : computePedersenCommitment x r = .ok C) :
    C ≠ 0 := by
  rcases bind_eq_ok.mp hOk with ⟨P, _, hNumber⟩
  cases P with
  | ideal => cases hNumber
  | point x y onCurve =>
      rw [commitmentOf_point, Except.ok.injEq] at hNumber
      rintro rfl
      rw [serBytes, BigEndian.decode_cons] at hNumber
      have hBytes :
          LittleEndian.encode 32 x.n =
            LittleEndian.encode 32 0 := by
        apply BigEndian.decode_inj
        · rw [LittleEndian.length_encode
              (lt_trans x.isLt q_lt |>.trans_eq (by norm_num)),
            LittleEndian.length_encode (by norm_num)]
        · have hNone :
              BigEndian.decode (LittleEndian.encode 32 0) =
                0 := by
            decide
          rw [hNone]
          omega
      apply abscissa_ne_zero onCurve
      have hDecode := congrArg LittleEndian.decode hBytes
      rw [LittleEndian.decode_encode,
        LittleEndian.decode_encode] at hDecode
      exact hDecode

------------------------------------------------------------
-- The Linear Form
------------------------------------------------------------

theorem addOrderOf_basePoint :
    addOrderOf basePoint.toGroup = Secp256k1.n :=
  Secp256k1.addOrderOf_G

theorem zsmul_basePoint_eq_zero_iff
    (m : Int) :
    m • basePoint.toGroup = 0 ↔
      m ≡ 0 [ZMOD Secp256k1.n] := by
  rw [← addOrderOf_basePoint, Int.modEq_zero_iff_dvd,
    addOrderOf_dvd_iff_zsmul_eq_zero]

theorem toGroup_eq_zero_iff
    {P : Point curve} :
    P.toGroup = 0 ↔ P = .ideal := by
  rw [← Point.toGroup_injective.eq_iff]
  rfl

section

variable {h : Int}
variable (hLog :
  hPoint.toGroup = h • basePoint.toGroup)

include hLog

/- The committed point is a multiple of the base point. -/
theorem pedersenPoint_eq
    (x r : Int) :
    ∃ P, pedersenPoint x r = .ok P ∧
      P.toGroup = (x + h * r) • basePoint.toGroup := by
  rcases Point.mul_eq basePoint x with ⟨A, hA, hxG⟩
  rcases Point.mul_eq hPoint r with ⟨B, hB, hrH⟩
  rcases Point.add_eq A B with ⟨P, hP, hSum⟩
  refine ⟨P, ?_, ?_⟩
  · rw [pedersenPoint, hA, ok_bind, hB, ok_bind, hP]
  · rw [hSum, hxG, hrH, hLog, ← mul_zsmul, ← add_zsmul,
      mul_comm r h]

/-
  A commitment is a linear form of its two numbers modulo
  the order of the group, except that zero has none.
-/
theorem computePedersenCommitment_linear :
    (∀ x r : Int,
      (∃ e, computePedersenCommitment x r = .error e) ↔
        x + h * r ≡ 0 [ZMOD Secp256k1.n]) ∧
    ∀ (x r x' r' : Int) (C C' : Nat),
      computePedersenCommitment x r = .ok C →
      computePedersenCommitment x' r' = .ok C' →
      (C = C' ↔
        x + h * r ≡ x' + h * r' [ZMOD Secp256k1.n]) := by
  constructor
  · intro x r
    rcases pedersenPoint_eq hLog x r with ⟨P, hP, hGroup⟩
    rw [computePedersenCommitment, hP, ok_bind,
      commitmentOf_raises_iff, ← toGroup_eq_zero_iff,
      hGroup, zsmul_basePoint_eq_zero_iff]
  · intro x r x' r' C C' hC hC'
    rcases pedersenPoint_eq hLog x r with ⟨P, hP, hGroup⟩
    rcases pedersenPoint_eq hLog x' r' with
      ⟨P', hP', hGroup'⟩
    rw [computePedersenCommitment, hP, ok_bind] at hC
    rw [computePedersenCommitment, hP', ok_bind] at hC'
    have hPoints : C = C' ↔ P = P' := by
      constructor
      · rintro rfl
        exact commitmentOf_inj hC hC'
      · rintro rfl
        rw [hC] at hC'
        exact Except.ok.inj hC'
    rw [hPoints, ← Point.toGroup_injective.eq_iff, hGroup,
      hGroup', zsmul_eq_zsmul_iff_modEq,
      addOrderOf_basePoint]

end

/- The second generator has a discrete logarithm. -/
theorem exists_log :
    ∃ h : Int, ¬ h ≡ 0 [ZMOD Secp256k1.n] ∧
      hPoint.toGroup = h • basePoint.toGroup := by
  rcases Secp256k1.exists_nsmul_G hPoint.toGroup with
    ⟨m, _, hm⟩
  have hLog :
      hPoint.toGroup = (m : Int) • basePoint.toGroup := by
    rw [natCast_zsmul]
    exact hm
  refine ⟨m, ?_, hLog⟩
  intro hZero
  rw [(zsmul_basePoint_eq_zero_iff m).mpr hZero,
    toGroup_eq_zero_iff] at hLog
  cases hLog

/- A form that is zero, and two that are equal. -/
theorem computePedersenCommitment_linear_sample :
    ∃ h : Int, hPoint.toGroup = h • basePoint.toGroup ∧
      (∃ e, computePedersenCommitment (-(h * 5)) 5 =
        .error e) ∧
      ∃ C, computePedersenCommitment 3 0 = .ok C ∧
        computePedersenCommitment (3 - h) 1 = .ok C := by
  rcases exists_log with ⟨h, _, hLog⟩
  rcases computePedersenCommitment_linear hLog with
    ⟨hRaises, hEqual⟩
  have hReturns (x r : Int) (hForm : x + h * r = 3) :
      ∃ C, computePedersenCommitment x r = .ok C := by
    cases hCompute : computePedersenCommitment x r with
    | ok C => exact ⟨C, rfl⟩
    | error e =>
        exfalso
        have hZero := (hRaises x r).mp ⟨e, hCompute⟩
        rw [hForm] at hZero
        revert hZero
        decide +kernel
  have hSecond : 3 - h + h * 1 = 3 := by ring
  rcases hReturns 3 0 (by ring) with ⟨C, hC⟩
  rcases hReturns (3 - h) 1 hSecond with ⟨C', hC'⟩
  refine ⟨h, hLog, ?_, C, hC, ?_⟩
  · rw [hRaises, neg_add_cancel]
  · have hForms := hEqual 3 0 (3 - h) 1 C C' hC hC'
    rw [hSecond, mul_zero, add_zero] at hForms
    rw [hForms.mpr rfl]
    exact hC'

end Commitment
