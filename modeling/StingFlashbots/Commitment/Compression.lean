import StingFlashbots.Commitment.Elliptic
import StingFlashbots.Curve.Secp256k1
import StingFlashbots.Encoding.LittleEndian
import StingFlashbots.Searcher.Utils
import Mathlib.NumberTheory.LegendreSymbol.Basic

/-
  Points of secp256k1 as texts of 33 bytes.

  A point is written as a byte for the parity of its
  ordinate and the bytes of its abscissa. Reading solves for
  the ordinate with a power of the right side and picks the
  parity. No ordinate is zero, so the parity tells the two
  points of an abscissa apart.

  Key definitions include:
    * `Commitment.curve`
    * `Commitment.uint256FromStr`, `Commitment.uint256ToStr`
    * `Commitment.sqrt`, `Commitment.solve`
    * `Commitment.ser`, `Commitment.deser`

  Main results:
    * `Commitment.solve_eq`
    * `Commitment.ser_eq`
    * `Commitment.compression_bijective`
-/

namespace Commitment

open Sting IntegerModP

------------------------------------------------------------
-- The Curve
------------------------------------------------------------

/- The modulus of the field. -/
abbrev q : Nat :=
  Secp256k1.p

theorem q_eq :
    q =
      2 ^ 256 - 2 ^ 32 - 2 ^ 9 - 2 ^ 8 - 2 ^ 7 - 2 ^ 6 -
        2 ^ 4 - 1 := by
  decide

instance : NeZero q := ⟨Secp256k1.prime_p.ne_zero⟩

abbrev Fq :=
  IntegerModP q

/- The curve `y * y = x * x * x + 7`. -/
def curve : EllipticCurve q where
  a := ⟨0, by decide⟩
  b := ⟨7, by decide⟩
  isSmooth := by decide +kernel

/- The base point `G`. -/
def basePoint : Point curve :=
  .point ⟨Secp256k1.gx, by decide⟩
    ⟨Secp256k1.gy, by decide⟩ (by decide +kernel)

------------------------------------------------------------
-- Numbers of 256 Bits
------------------------------------------------------------

/- `uint256_from_str` -/
def uint256FromStr (s : Bytes) : Py Nat :=
  let b := s.take 32
  if b.length ≠ 32 then
    .error (.exception
      "unpack requires a buffer of 32 bytes")
  else
    .ok (LittleEndian.ofWords 8 b)

/- `uint256_to_str` -/
def uint256ToStr (n : Nat) : Py Bytes := do
  pyAssert (n < 2 ^ 256)
  return LittleEndian.toWords 8 n

theorem uint256FromStr_eq
    {s : Bytes}
    (hLength : s.length = 32) :
    uint256FromStr s = .ok (LittleEndian.decode s) := by
  have hTake : s.take 32 = s :=
    List.take_of_length_le hLength.le
  rw [uint256FromStr, hTake, if_neg (not_not.mpr hLength),
    LittleEndian.ofWords_eq hLength.ge, hTake]

theorem uint256ToStr_eq
    {n : Nat}
    (hn : n < 2 ^ 256) :
    uint256ToStr n = .ok (LittleEndian.encode 32 n) := by
  have hFit : n < 256 ^ (4 * 8) :=
    lt_of_lt_of_eq hn (by norm_num)
  rw [uint256ToStr, pyAssert_pos hn,
    LittleEndian.toWords_eq hFit]
  rfl

------------------------------------------------------------
-- Solving for the Ordinate
------------------------------------------------------------

/- `sqrt` -/
def sqrt (a : Fq) : Py Fq := do
  pyAssert ((q - 1) % 2 = 0 ∧ (q + 1) % 4 = 0)
  let legendre := a.pow ((q - 1) / 2)
  if legendre = ofInt q (-1) then
    throw (.valueError "")
  return a.pow ((q + 1) / 4)

/- The right side of the equation of the curve. -/
def rightSide (x : Fq) : Fq :=
  x.pow 3 + ofInt q 7

/- `solve` -/
def solve (x : Fq) : Py (Point curve) := do
  let y ← sqrt (rightSide x)
  pyAssert (y * y = rightSide x)
  let y := if y.n % 2 = 0 then -y else y
  if ¬ curve.testPoint x y then
    throw (.valueError "")
  Point.new curve x y

------------------------------------------------------------
-- Texts
------------------------------------------------------------

/- `ser` -/
def ser : Point curve → Py (List Char)
| .ideal => .error .attributeError
| .point x y _ => do
    pyAssert (curve.testPoint x y)
    let sign := if y.n % 2 = 0 then '1' else '0'
    let s ← uint256ToStr x.n
    let text := '0' :: sign :: Hex.encode s
    pyAssert (text.length = 66)
    return text

theorem testPoint_neg
    {x y : Fq}
    (onCurve : curve.testPoint x y) :
    curve.testPoint x (-y) := by
  rw [EllipticCurve.testPoint_iff] at onCurve ⊢
  rw [toZMod_neg, neg_mul_neg]
  exact onCurve

/- The assignment `point.y = -point.y`. -/
def negateOrdinate : Point curve → Py (Point curve)
| .ideal => .error .attributeError
| .point x y onCurve =>
    .ok (.point x (-y) (testPoint_neg onCurve))

/- `deser` -/
def deser (text : List Char) : Py (Point curve) := do
  let s ← hexToBytes text
  pyAssert (s.length = 33)
  let sign := (s.getD 0 0).toNat
  pyAssert (sign = 0 ∨ sign = 1)
  let x ← uint256FromStr (s.drop 1)
  pyAssert (x < q)
  let point ← solve (ofInt q x)
  if sign ≠ 0 then negateOrdinate point else return point

------------------------------------------------------------
-- Parity
------------------------------------------------------------

theorem odd_q : q % 2 = 1 := by
  decide

/- The opposite has the other parity. -/
theorem parity_neg
    {y : Fq}
    (hy : y.toZMod ≠ 0) :
    (-y).n % 2 = 1 - y.n % 2 := by
  have hOdd := odd_q
  have hLt := y.isLt
  have hPos : y.n ≠ 0 := by
    intro hZero
    apply hy
    rw [toZMod, hZero, Nat.cast_zero]
  rw [← val_toZMod, toZMod_neg, ZMod.neg_val, if_neg hy,
    val_toZMod]
  omega

theorem toZMod_rightSide
    (x : Fq) :
    (rightSide x).toZMod =
      x.toZMod * x.toZMod * x.toZMod + ((7 : Nat) : ZMod q) := by
  rw [rightSide, toZMod_add, toZMod_pow, toZMod_ofInt,
    pow_succ, pow_two]
  rfl

theorem testPoint_iff_rightSide
    {x y : Fq} :
    curve.testPoint x y ↔ y * y = rightSide x := by
  have hZero : curve.a.toZMod = 0 := Nat.cast_zero
  rw [EllipticCurve.testPoint_iff,
    ← toZMod_injective.eq_iff, toZMod_mul,
    toZMod_rightSide, hZero, zero_mul, add_zero]
  rfl

/- No point has the ordinate zero. -/
theorem ordinate_ne_zero
    {x y : Fq}
    (onCurve : curve.testPoint x y) :
    y.toZMod ≠ 0 := by
  intro hZero
  rw [testPoint_iff_rightSide, ← toZMod_injective.eq_iff,
    toZMod_mul, hZero, mul_zero, toZMod_rightSide]
    at onCurve
  exact Secp256k1.cube_add_seven_ne_zero _ onCurve.symm

/- The abscissa and the parity determine the ordinate. -/
theorem eq_of_parity
    {x y y' : Fq}
    (hy : curve.testPoint x y)
    (hy' : curve.testPoint x y')
    (hParity : y.n % 2 = y'.n % 2) :
    y = y' := by
  have hSquares :
      y.toZMod * y.toZMod = y'.toZMod * y'.toZMod := by
    rw [← toZMod_mul, ← toZMod_mul,
      testPoint_iff_rightSide.mp hy,
      testPoint_iff_rightSide.mp hy']
  rcases mul_self_eq_mul_self_iff.mp hSquares with hEq | hEq
  · exact toZMod_injective hEq
  · rw [← toZMod_neg] at hEq
    have hNeg := toZMod_injective hEq
    rw [hNeg, parity_neg (ordinate_ne_zero hy')] at hParity
    omega

------------------------------------------------------------
-- Solutions
------------------------------------------------------------

/- The right side is a square. -/
def HasRoot (x : Fq) : Prop :=
  ∃ y : Fq, y * y = rightSide x

theorem rightSide_ne_zero
    (x : Fq) :
    (rightSide x).toZMod ≠ 0 := by
  rw [toZMod_rightSide]
  exact Secp256k1.cube_add_seven_ne_zero _

theorem hasRoot_iff
    (x : Fq) :
    HasRoot x ↔
      (rightSide x).toZMod ^ ((q - 1) / 2) ≠ -1 := by
  have hNe := rightSide_ne_zero x
  have hHalf : (q - 1) / 2 = q / 2 := by decide
  have hSquare := ZMod.euler_criterion q hNe
  have hCases := ZMod.pow_div_two_eq_neg_one_or_one q hNe
  have hOne : (1 : ZMod q) ≠ -1 := by
    intro hEq
    apply Secp256k1.two_ne_zero
    linear_combination hEq
  rw [hHalf]
  constructor
  · rintro ⟨y, hy⟩
    rw [hSquare.mp ⟨y.toZMod, by rw [← hy, toZMod_mul]⟩]
    exact hOne
  · intro hNot
    rcases hSquare.mpr (hCases.resolve_right hNot) with
      ⟨y, hy⟩
    refine ⟨ofInt q y.val, ?_⟩
    apply toZMod_injective
    rw [toZMod_mul, toZMod_ofInt, Int.cast_natCast,
      ZMod.natCast_zmod_val, hy]

/- The Legendre symbol decides. -/
theorem sqrt_rightSide
    (x : Fq) :
    (HasRoot x →
      sqrt (rightSide x) =
        .ok ((rightSide x).pow ((q + 1) / 4))) ∧
    (¬ HasRoot x →
      sqrt (rightSide x) = .error (.valueError "")) := by
  have hAssert : (q - 1) % 2 = 0 ∧ (q + 1) % 4 = 0 := by
    decide
  have hLegendre :
      (rightSide x).pow ((q - 1) / 2) = ofInt q (-1) ↔
        ¬ HasRoot x := by
    rw [hasRoot_iff, not_not, ← toZMod_injective.eq_iff,
      toZMod_pow, toZMod_ofInt, Int.cast_neg, Int.cast_one]
  rw [sqrt, pyAssert_pos hAssert, ok_bind]
  constructor
  · intro hRoot
    simp only
    rw [if_neg (by rw [hLegendre, not_not]; exact hRoot)]
    rfl
  · intro hRoot
    simp only
    rw [if_pos (hLegendre.mpr hRoot)]
    rfl

/- The power is a root of the right side. -/
theorem pow_mul_self
    {x : Fq}
    (hRoot : HasRoot x) :
    (rightSide x).pow ((q + 1) / 4) *
        (rightSide x).pow ((q + 1) / 4) =
      rightSide x := by
  rcases hRoot with ⟨y, hy⟩
  apply toZMod_injective
  rw [toZMod_mul, toZMod_pow, ← hy, toZMod_mul]
  rcases Secp256k1.pow_eq_or_eq_neg y.toZMod with hPow | hPow
  · rw [hPow]
  · rw [hPow, neg_mul_neg]

/- The solution with an odd ordinate, if there is one. -/
theorem solve_eq
    (x : Fq) :
    (HasRoot x →
      ∃ y onCurve, solve x = .ok (.point x y onCurve) ∧
        y.n % 2 = 1) ∧
    (¬ HasRoot x → solve x = .error (.valueError "")) := by
  rcases sqrt_rightSide x with ⟨hSome, hNone⟩
  constructor
  · intro hRoot
    have hSquare := pow_mul_self hRoot
    have hOn := testPoint_iff_rightSide.mpr hSquare
    rw [solve, hSome hRoot, ok_bind, pyAssert_pos hSquare,
      ok_bind]
    by_cases hEven :
        ((rightSide x).pow ((q + 1) / 4)).n % 2 = 0
    · refine ⟨_, testPoint_neg hOn, ?_, ?_⟩
      · simp only [if_pos hEven]
        rw [if_neg (not_not.mpr (testPoint_neg hOn))]
        exact dif_pos (testPoint_neg hOn)
      · rw [parity_neg (ordinate_ne_zero hOn), hEven]
    · refine ⟨_, hOn, ?_, ?_⟩
      · simp only [if_neg hEven]
        rw [if_neg (not_not.mpr hOn)]
        exact dif_pos hOn
      · omega
  · intro hRoot
    rw [solve, hNone hRoot]
    rfl

------------------------------------------------------------
-- Writing and Reading
------------------------------------------------------------

/- The byte that tells an even ordinate. -/
def signByte (y : Fq) : UInt8 :=
  if y.n % 2 = 0 then 1 else 0

theorem q_lt : q < 2 ^ 256 := by
  decide

theorem ofInt_n
    (x : Fq) :
    ofInt q x.n = x := by
  apply toZMod_injective
  rw [toZMod_ofInt, Int.cast_natCast]
  rfl

theorem n_ofInt
    {m : Nat}
    (hm : m < q) :
    (ofInt q m).n = m := by
  rw [← val_toZMod, toZMod_ofInt, Int.cast_natCast,
    ZMod.val_cast_of_lt hm]

/- The 33 bytes a point is written as. -/
def serBytes (x y : Fq) : Bytes :=
  signByte y :: LittleEndian.encode 32 x.n

private theorem length_abscissa
    (x : Fq) :
    (LittleEndian.encode 32 x.n).length = 32 := by
  apply LittleEndian.length_encode
  have hLt := lt_trans x.isLt q_lt
  exact lt_of_lt_of_eq hLt (by norm_num)

theorem length_serBytes
    (x y : Fq) :
    (serBytes x y).length = 33 := by
  rw [serBytes, List.length_cons, length_abscissa]

theorem ser_eq
    (x y : Fq)
    (onCurve : curve.testPoint x y) :
    ser (.point x y onCurve) =
      .ok (Hex.encode (serBytes x y)) := by
  have hText :
      '0' :: (if y.n % 2 = 0 then '1' else '0') ::
          Hex.encode (LittleEndian.encode 32 x.n) =
        Hex.encode (serBytes x y) := by
    rw [serBytes, signByte, Hex.encode_cons]
    split_ifs
    · rfl
    · rfl
  have hLength : (Hex.encode (serBytes x y)).length = 66 := by
    rw [Hex.length_encode, length_serBytes]
  simp only [ser, pyAssert_pos onCurve, ok_bind,
    uint256ToStr_eq (lt_trans x.isLt q_lt), hText,
    pyAssert_pos hLength]
  rfl

section

variable {text : List Char}
variable {b : UInt8}
variable {rest : Bytes}

/- Reading 33 bytes. -/
private theorem deser_of_bytes
    (hText : hexToBytes text = .ok (b :: rest))
    (hRest : rest.length = 32) :
    deser text = do
      pyAssert (b.toNat = 0 ∨ b.toNat = 1)
      pyAssert (LittleEndian.decode rest < q)
      let point ← solve (ofInt q (LittleEndian.decode rest))
      if b.toNat ≠ 0 then
        negateOrdinate point
      else
        return point := by
  have hLength : (b :: rest).length = 33 := by
    rw [List.length_cons, hRest]
  rw [deser, hText, ok_bind, pyAssert_pos hLength, ok_bind,
    List.getD_cons_zero, List.drop_one, List.tail_cons,
    uint256FromStr_eq hRest]
  rfl

/- The points that are read from 33 bytes. -/
theorem deser_eq_ok_iff
    (hText : hexToBytes text = .ok (b :: rest))
    (hRest : rest.length = 32)
    (P : Point curve) :
    deser text = .ok P ↔
      LittleEndian.decode rest < q ∧
      ∃ y onCurve,
        P = .point (ofInt q (LittleEndian.decode rest)) y
          onCurve ∧
        signByte y = b := by
  rw [deser_of_bytes hText hRest]
  rcases solve_eq (ofInt q (LittleEndian.decode rest)) with
    ⟨hSome, hNone⟩
  constructor
  · intro hOk
    rcases bind_eq_ok.mp hOk with ⟨_, hSign, hOk⟩
    rcases bind_eq_ok.mp hOk with ⟨_, hLess, hOk⟩
    rcases bind_eq_ok.mp hOk with ⟨point, hSolve, hOk⟩
    rw [pyAssert_eq_ok] at hSign hLess
    have hRoot :
        HasRoot (ofInt q (LittleEndian.decode rest)) := by
      by_contra hNot
      rw [hNone hNot] at hSolve
      cases hSolve
    rcases hSome hRoot with ⟨y, hOn, hPoint, hOdd⟩
    rw [hPoint] at hSolve
    cases hSolve
    refine ⟨hLess, ?_⟩
    rcases hSign with hZero | hOne
    · rw [if_neg (not_not.mpr hZero)] at hOk
      cases hOk
      refine ⟨y, hOn, rfl, ?_⟩
      rw [signByte, if_neg (by omega)]
      exact UInt8.toNat_inj.mp hZero.symm
    · rw [if_pos (by omega)] at hOk
      cases hOk
      refine ⟨-y, testPoint_neg hOn, rfl, ?_⟩
      have hEven := parity_neg (ordinate_ne_zero hOn)
      rw [signByte, if_pos (by omega)]
      exact UInt8.toNat_inj.mp hOne.symm
  · rintro ⟨hLess, y, onCurve, rfl, hByte⟩
    rcases hSome ⟨y, testPoint_iff_rightSide.mp onCurve⟩ with
      ⟨y₁, hOn, hPoint, hOdd⟩
    have hNeg := parity_neg (ordinate_ne_zero hOn)
    rw [signByte] at hByte
    split_ifs at hByte with hEven
    · subst hByte
      have hEq : -y₁ = y :=
        eq_of_parity (testPoint_neg hOn) onCurve (by omega)
      subst hEq
      have hSign : UInt8.toNat 1 = 0 ∨ UInt8.toNat 1 = 1 := by
        decide
      rw [pyAssert_pos hSign, ok_bind,
        pyAssert_pos hLess, ok_bind, hPoint, ok_bind]
      rfl
    · subst hByte
      have hEq : y₁ = y :=
        eq_of_parity hOn onCurve (by omega)
      subst hEq
      have hSign : UInt8.toNat 0 = 0 ∨ UInt8.toNat 0 = 1 := by
        decide
      rw [pyAssert_pos hSign, ok_bind,
        pyAssert_pos hLess, ok_bind, hPoint, ok_bind]
      rfl

/- Some point is read when the abscissa has a solution. -/
theorem deser_accepts_iff
    (hText : hexToBytes text = .ok (b :: rest))
    (hRest : rest.length = 32) :
    (∃ P, deser text = .ok P) ↔
      (b = 0 ∨ b = 1) ∧
      LittleEndian.decode rest < q ∧
      HasRoot (ofInt q (LittleEndian.decode rest)) := by
  simp only [deser_eq_ok_iff hText hRest]
  constructor
  · rintro ⟨P, hLess, y, onCurve, _, hByte⟩
    refine ⟨?_, hLess, y, testPoint_iff_rightSide.mp onCurve⟩
    rw [← hByte, signByte]
    split_ifs
    · exact Or.inr rfl
    · exact Or.inl rfl
  · rintro ⟨hSign, hLess, y, hy⟩
    have hOn := testPoint_iff_rightSide.mpr hy
    have hNeg := parity_neg (ordinate_ne_zero hOn)
    by_cases hByte : signByte y = b
    · exact ⟨_, hLess, y, hOn, rfl, hByte⟩
    · refine ⟨_, hLess, -y, testPoint_neg hOn, rfl, ?_⟩
      unfold signByte at hByte ⊢
      rw [hNeg]
      rcases Nat.mod_two_eq_zero_or_one y.n with hBit | hBit
      · rw [hBit] at hByte ⊢
        exact (hSign.resolve_right
          (fun hOne => hByte hOne.symm)).symm
      · rw [hBit] at hByte ⊢
        exact (hSign.resolve_left
          (fun hZero => hByte hZero.symm)).symm

end

/-
  Writing and reading undo each other, and reading accepts
  exactly the bytes of points.
-/
theorem compression_bijective :
    (∀ x y onCurve, ∃ text,
      ser (.point x y onCurve) = .ok text ∧
      deser text = .ok (.point x y onCurve)) ∧
    (∀ text s P, hexToBytes text = .ok s → s.length = 33 →
      deser text = .ok P →
        ∃ text', ser P = .ok text' ∧
          hexToBytes text' = .ok s) ∧
    ∀ text s, hexToBytes text = .ok s → s.length = 33 →
      ((∃ P, deser text = .ok P) ↔
        (s.getD 0 0 = 0 ∨ s.getD 0 0 = 1) ∧
        LittleEndian.decode (s.drop 1) < q ∧
        HasRoot
          (ofInt q (LittleEndian.decode (s.drop 1)))) := by
  refine ⟨?_, ?_, ?_⟩
  · intro x y onCurve
    refine ⟨_, ser_eq x y onCurve, ?_⟩
    have hText := hexToBytes_encode (serBytes x y)
    rw [deser_eq_ok_iff hText (length_abscissa x),
      LittleEndian.decode_encode, ofInt_n]
    exact ⟨x.isLt, y, onCurve, rfl, rfl⟩
  · intro text s P hText hLength hOk
    cases s with
    | nil => cases hLength
    | cons b rest =>
        have hRest : rest.length = 32 := by
          rw [List.length_cons] at hLength
          omega
        rcases (deser_eq_ok_iff hText hRest P).mp hOk with
          ⟨hLess, y, onCurve, rfl, hByte⟩
        refine ⟨_, ser_eq _ y onCurve, ?_⟩
        have hEncode :
            LittleEndian.encode 32
                (LittleEndian.decode rest) =
              rest := by
          rw [← hRest, LittleEndian.encode_decode]
        rw [hexToBytes_encode, serBytes, hByte,
          n_ofInt hLess, hEncode]
  · intro text s hText hLength
    cases s with
    | nil => cases hLength
    | cons b rest =>
        apply deser_accepts_iff hText
        rw [List.length_cons] at hLength
        omega

/- The text of the base point, whose ordinate is even. -/
def baseText : List Char :=
  ("019817f8165b81f259d928ce2ddbfc9b02070b87ce9562a055ac" ++
    "bbdcf97e66be79").toList

/- The base point is written and read. -/
theorem compression_bijective_sample :
    deser baseText = .ok basePoint ∧
    ∃ s, hexToBytes baseText = .ok s ∧ s.length = 33 ∧
      ∃ text', ser basePoint = .ok text' ∧
        hexToBytes text' = .ok s := by
  rcases compression_bijective with ⟨hWrite, hRead, _⟩
  rcases hWrite ⟨Secp256k1.gx, by decide⟩
      ⟨Secp256k1.gy, by decide⟩
      (by decide +kernel) with
    ⟨text, hSer, hDeser⟩
  have hText : ser basePoint = .ok baseText := by
    decide +kernel
  have hEq : baseText = text :=
    Except.ok.inj (hText.symm.trans hSer)
  have hBytes :
      hexToBytes baseText =
        .ok (1 :: LittleEndian.encode 32 Secp256k1.gx) := by
    decide +kernel
  have hLength :
      (1 :: LittleEndian.encode 32 Secp256k1.gx :
        Bytes).length = 33 := by
    decide +kernel
  have hPoint : deser baseText = .ok basePoint := by
    rw [hEq]
    exact hDeser
  exact ⟨hPoint, _, hBytes, hLength,
    hRead baseText _ basePoint hBytes hLength hPoint⟩

end Commitment
