import StingFlashbots.Ecdsa.Nonces
import Mathlib.NumberTheory.LegendreSymbol.Basic

/-
  Checking a signature and recovering its key.

  The package checks a signature with affine points and
  recovers the key with Jacobian triples. A signature made
  with any nonce passes the check and leads back to its key,
  also when the abscissa is not below the order.

  Key definitions include:
    * `Ecdsa.JacobianLibrary`
    * `Ecdsa.ecdsaRawVerify`
    * `Ecdsa.ecdsaRawRecover`
    * `Ecdsa.JacobianLibrary.Standard`

  Main results:
    * `Ecdsa.ecdsaRawVerify_eq`
    * `Ecdsa.ecdsaRawRecover_eq`
    * `Ecdsa.ecdsaRawSign_verifies`
-/

namespace Ecdsa

open Sting ShortWeierstrass
open Jacobian (Triple)

------------------------------------------------------------
-- The Package
------------------------------------------------------------

/- The `jacobian` module with what checking takes from it. -/
structure JacobianLibrary extends JacobianModule where
  fastAdd : Nat × Nat → Nat × Nat → Nat × Nat
  isIdentity : Triple → Bool
  jacobianAdd : Triple → Triple → Triple
  jacobianMultiply : Triple → Nat → Triple
  fromJacobian : Triple → Nat × Nat

/- `decode_public_key` -/
def decodePublicKey
    (publicKeyBytes : Bytes) : Nat × Nat :=
  (BigEndian.decode (publicKeyBytes.take 32),
    BigEndian.decode ((publicKeyBytes.drop 32).take 32))

/- The built-in `pow` with a modulus. -/
def pow (base exponent modulus : Nat) : Nat :=
  Pratt.powMod modulus (exponent.log2 + 1) base exponent

section

variable (L : JacobianLibrary)

/- `ecdsa_raw_verify` -/
def ecdsaRawVerify
    (msgHash : Bytes)
    (rs : Nat × Nat)
    (publicKeyBytes : Bytes) : Bool :=
  let rawPublicKey := decodePublicKey publicKeyBytes
  let (r, s) := rs
  let w := L.inv s N
  let z := BigEndian.decode msgHash
  let u₁ := z * w % N
  let u₂ := r * w % N
  let (x, _) := L.fastAdd (L.fastMultiply G u₁)
    (L.fastMultiply rawPublicKey u₂)
  r = x ∧ r % N ≠ 0 ∧ s % N ≠ 0

/- The ordinate of one parity to an abscissa. -/
def recoverOrdinate (v xcubedaxb : Nat) : Nat :=
  let beta :=
    pow xcubedaxb ((Secp256k1.p + 1) / 4) Secp256k1.p
  if (v % 2) ^^^ (beta % 2) ≠ 0 then
    beta
  else
    Secp256k1.p - beta

/- `ecdsa_raw_recover` -/
def ecdsaRawRecover
    (msgHash : Bytes)
    (vrs : Nat × Nat × Nat) : Py Bytes :=
  let (v, r, s) := vrs
  let v := v + 27
  if ¬ (27 ≤ v ∧ v ≤ 34) then
    .error (.badSignatureText
      (toString v ++ " must in range 27-31"))
  else
    let x := r
    let xcubedaxb := (x * x * x + 0 * x + 7) % Secp256k1.p
    let y := recoverOrdinate v xcubedaxb
    if ((xcubedaxb : Int) - y * y) % Secp256k1.p ≠ 0 ∨
        r % N = 0 ∨ s % N = 0 then
      .error (.badSignatureText "Invalid signature")
    else
      let z := BigEndian.decode msgHash
      let gz := L.jacobianMultiply
        ⟨Secp256k1.gx, Secp256k1.gy, 1⟩
        (((N : Int) - z) % N).toNat
      let xy := L.jacobianMultiply ⟨x, y, 1⟩ s
      let qr := L.jacobianAdd gz xy
      let q := L.jacobianMultiply qr (L.inv r N)
      if L.isIdentity q then
        .error (.badSignatureText "InvalidSignature")
      else
        .ok (encodeRawPublicKey (L.fromJacobian q))

end

------------------------------------------------------------
-- The Group
------------------------------------------------------------

/-
  Pairs and triples stand for the points of the curve. What
  stands for the identity is left open.
-/
structure JacobianLibrary.Standard
    (L : JacobianLibrary) : Prop where
  inv :
    ∀ a : Int, a % N ≠ 0 →
      L.inv a N < N ∧ a * L.inv a N % N = 1
  pairs :
    ∃ affine : Secp256k1.Group → Nat × Nat,
      (∀ P c, coords P = some c → affine P = values c) ∧
      (∀ P (m : Int),
        L.fastMultiply (affine P) m = affine (m • P)) ∧
      ∀ P Q, L.fastAdd (affine P) (affine Q) = affine (P + Q)
  triples :
    ∃ Stands : Triple → Secp256k1.Group → Prop,
      (∀ P x y, coords P = some (x, y) →
        Stands ⟨x.val, y.val, 1⟩ P) ∧
      (∀ t P (m : Nat), Stands t P →
        Stands (L.jacobianMultiply t m) (m • P)) ∧
      (∀ t u P Q, Stands t P → Stands u Q →
        Stands (L.jacobianAdd t u) (P + Q)) ∧
      (∀ t P, Stands t P →
        (L.isIdentity t = true ↔ P = 0)) ∧
      ∀ t P c, Stands t P → coords P = some c →
        L.fromJacobian t = values c

theorem JacobianLibrary.Standard.toModule
    {L : JacobianLibrary}
    (hL : L.Standard) :
    L.toJacobianModule.Standard where
  inv := hL.inv
  fastMultiply := by
    intro P m c d hP hMultiple
    rcases hL.pairs with ⟨affine, hAffine, hMultiply, _⟩
    rw [← hAffine P c hP, hMultiply P m,
      hAffine _ d hMultiple]

------------------------------------------------------------
-- Public Keys
------------------------------------------------------------

private theorem p_lt : Secp256k1.p < 256 ^ 32 := by
  decide

/- A public key decodes to its coordinates. -/
theorem decodePublicKey_encode
    (c : ZMod Secp256k1.p × ZMod Secp256k1.p) :
    decodePublicKey (encodeRawPublicKey (values c)) =
      values c := by
  have hx := BigEndian.length_encodeFixed
    (lt_trans c.1.val_lt p_lt)
  have hy := BigEndian.length_encodeFixed
    (lt_trans c.2.val_lt p_lt)
  have hEncode :
      encodeRawPublicKey (values c) =
        BigEndian.encodeFixed 32 c.1.val ++
          BigEndian.encodeFixed 32 c.2.val := by
    rw [← toBytes32_eq, ← toBytes32_eq]
    rfl
  rw [hEncode, decodePublicKey, List.take_left' hx,
    List.drop_left' hx, List.take_of_length_le hy.le,
    BigEndian.decode_encodeFixed,
    BigEndian.decode_encodeFixed]
  rfl

------------------------------------------------------------
-- Checking
------------------------------------------------------------

section

variable {L : JacobianLibrary}
variable {msgHash : Bytes}
variable {d v r s : Nat}
variable {R : Secp256k1.Group}

/- What is needed of a signature and of its point. -/
structure Solves
    (z d v r s : Nat)
    (R : Secp256k1.Group) : Prop where
  lift : Secp256k1.IsLift R r v
  order : Secp256k1.n • R = 0
  sum : s • R = (z + r * d) • Secp256k1.G
  r_ne : r % N ≠ 0
  s_ne : s % N ≠ 0

/- The two multiples of the check add up to the point. -/
private theorem check_sum
    (hL : L.Standard)
    (hR : Solves (BigEndian.decode msgHash) d v r s R) :
    (BigEndian.decode msgHash * L.inv s N % N) •
        Secp256k1.G +
      (r * L.inv s N % N) • d • Secp256k1.G = R := by
  have hOne := (hL.toModule.inv_natCast hR.s_ne).2
  calc
    _ = (L.inv s N *
          (BigEndian.decode msgHash + r * d)) •
            Secp256k1.G := by
      rw [Secp256k1.nsmul_mod Secp256k1.n_nsmul_G,
        Secp256k1.nsmul_mod (Secp256k1.n_nsmul_nsmul_G d),
        ← mul_nsmul', ← add_nsmul]
      congr 1
      ring
    _ = (L.inv s N * s) • R := by
      rw [mul_nsmul', mul_nsmul', hR.sum]
    _ = R := by
      rw [← Secp256k1.nsmul_mod hR.order, mul_comm, hOne,
        one_nsmul]

/- A signature that solves the equation passes. -/
theorem ecdsaRawVerify_eq
    (hL : L.Standard)
    (hd : (d : ZMod N) ≠ 0)
    (hR : Solves (BigEndian.decode msgHash) d v r s R) :
    ecdsaRawVerify L msgHash (r, s)
        (encodeRawPublicKey (L.fastMultiply G d)) =
      true := by
  rcases hL.pairs with
    ⟨affine, hAffine, hMultiply, hAdd⟩
  rcases hR.lift with ⟨x, y, hCoords, hx, _⟩
  rcases Secp256k1.exists_coords_nsmul_G hd with
    ⟨dx, dy, hKey, _⟩
  have hBase : G = affine Secp256k1.G := by
    rw [hAffine _ _ Secp256k1.coords_G, values_G]
  have hPublic :
      decodePublicKey
          (encodeRawPublicKey (L.fastMultiply G d)) =
        affine (d • Secp256k1.G) := by
    rw [hBase, hMultiply, natCast_zsmul, hAffine _ _ hKey,
      decodePublicKey_encode]
  have hSum :
      L.fastAdd
          (L.fastMultiply G
            (BigEndian.decode msgHash * L.inv s N % N : Nat))
          (L.fastMultiply (affine (d • Secp256k1.G))
            (r * L.inv s N % N : Nat)) =
        (r, y.val) := by
    rw [hBase, hMultiply, hMultiply, hAdd, natCast_zsmul,
      natCast_zsmul, check_sum hL hR, hAffine _ _ hCoords,
      values, hx]
  simp only [ecdsaRawVerify, hPublic, hSum]
  exact decide_eq_true ⟨trivial, hR.r_ne, hR.s_ne⟩

------------------------------------------------------------
-- Recovering
------------------------------------------------------------

private theorem pow_eq
    (base exponent modulus : Nat) :
    pow base exponent modulus = base ^ exponent % modulus :=
  Pratt.powMod_eq modulus Nat.lt_log2_self

private theorem odd_modulus : Secp256k1.p % 2 = 1 := by
  decide

/- The parity picks the ordinate. -/
theorem recoverOrdinate_eq
    {xcubedaxb : Nat}
    {y : ZMod Secp256k1.p}
    (hSquare : (xcubedaxb : ZMod Secp256k1.p) = y * y)
    (hy : y ≠ 0)
    (hParity : y.val % 2 = v) :
    recoverOrdinate (v + 27) xcubedaxb = y.val := by
  have hOdd := odd_modulus
  have hLt := y.val_lt
  have hPos : y.val ≠ 0 :=
    fun hZero => hy ((ZMod.val_eq_zero y).mp hZero)
  have hRoot :
      pow xcubedaxb ((Secp256k1.p + 1) / 4) Secp256k1.p =
        ((y * y) ^ ((Secp256k1.p + 1) / 4)).val := by
    rw [pow_eq, ← hSquare, ← Nat.cast_pow,
      ZMod.val_natCast]
  unfold recoverOrdinate
  simp only
  rw [hRoot]
  rcases Secp256k1.pow_eq_or_eq_neg y with hPow | hPow
  · have hBits : (v + 27) % 2 = 1 - v := by omega
    rw [hPow, hParity, hBits]
    rcases Nat.mod_two_eq_zero_or_one y.val with hBit | hBit
    · rw [← hParity, hBit]
      rfl
    · rw [← hParity, hBit]
      rfl
  · have hBits : (v + 27) % 2 = 1 - v := by omega
    have hNeg :
        (Secp256k1.p - y.val) % 2 = 1 - v := by omega
    rw [hPow, ZMod.neg_val, if_neg hy, hNeg, hBits,
      Nat.xor_self, if_neg (not_not.mpr rfl)]
    omega

private theorem toNat_emod
    (a : Int) :
    ((a % N).toNat : Int) = a % N :=
  Int.toNat_of_nonneg (Int.emod_nonneg _ (by decide))

private theorem cast_toNat_emod
    (a : Int) :
    ((a % N).toNat : ZMod N) = a := by
  rw [← Int.cast_natCast, toNat_emod, ZMod.intCast_mod]

/- The opposite of the message, as a factor. -/
private theorem neg_message
    (z : Nat) :
    (((N : Int) - z) % N).toNat • Secp256k1.G =
      -(z • Secp256k1.G) := by
  have hCast :
      ((((N : Int) - z) % N).toNat : ZMod N) = -z := by
    rw [cast_toNat_emod]
    push_cast
    rw [ZMod.natCast_self, zero_sub]
  rw [← add_eq_zero_iff_eq_neg, ← add_nsmul,
    Secp256k1.nsmul_G_eq_zero_iff, Nat.cast_add, hCast,
    neg_add_cancel]

/- The key, from the point of a signature. -/
private theorem recover_sum
    (hL : L.Standard)
    (hR : Solves (BigEndian.decode msgHash) d v r s R) :
    L.inv r N •
        ((((N : Int) - BigEndian.decode msgHash) %
            N).toNat • Secp256k1.G + s • R) =
      d • Secp256k1.G := by
  have hOne := (hL.toModule.inv_natCast hR.r_ne).2
  rw [neg_message, hR.sum, add_nsmul, neg_add_cancel_left,
    mul_nsmul', ← mul_nsmul', mul_comm,
    ← Secp256k1.nsmul_mod (Secp256k1.n_nsmul_nsmul_G d),
    hOne, one_nsmul]

/- A signature that solves the equation gives the key. -/
theorem ecdsaRawRecover_eq
    (hL : L.Standard)
    (hd : (d : ZMod N) ≠ 0)
    (hR : Solves (BigEndian.decode msgHash) d v r s R) :
    ecdsaRawRecover L msgHash (v, r, s) =
      .ok (encodeRawPublicKey (L.fastMultiply G d)) := by
  rcases hL.triples with
    ⟨Stands, hPoint, hMultiply, hAdd, hIdentity, hAffine⟩
  rcases hR.lift with ⟨x, y, hCoords, hx, hParity⟩
  rcases Secp256k1.exists_coords_nsmul_G hd with
    ⟨dx, dy, hKey, _⟩
  have hy := Secp256k1.ordinate_ne_zero hR.order hCoords
  have hCurve :=
    (exists_coords_iff Secp256k1.smooth).mp ⟨R, hCoords⟩
  have hSquare :
      (((r * r * r + 0 * r + 7) % Secp256k1.p : Nat) :
        ZMod Secp256k1.p) = y * y := by
    rw [ZMod.natCast_mod, hCurve, ← hx]
    push_cast
    rw [ZMod.natCast_zmod_val]
  have hOrdinate :=
    recoverOrdinate_eq hSquare hy hParity
  have hOnCurve :
      (((r * r * r + 0 * r + 7) % Secp256k1.p : Nat) -
        (y.val : Int) * y.val) % Secp256k1.p = 0 := by
    apply Int.emod_eq_zero_of_dvd
    rw [← ZMod.intCast_zmod_eq_zero_iff_dvd]
    rw [Int.cast_sub, Int.cast_natCast, hSquare]
    push_cast
    rw [ZMod.natCast_zmod_val, sub_self]
  have hBase := hPoint _ _ _ Secp256k1.coords_G
  have hLift := hPoint _ _ _ hCoords
  have hGx : ((Secp256k1.gx : Nat) : ZMod Secp256k1.p).val =
      Secp256k1.gx :=
    ZMod.val_cast_of_lt (by decide)
  have hGy : ((Secp256k1.gy : Nat) : ZMod Secp256k1.p).val =
      Secp256k1.gy :=
    ZMod.val_cast_of_lt (by decide)
  rw [hGx, hGy] at hBase
  rw [hx] at hLift
  have hStands := hMultiply _ _ (L.inv r N)
    (hAdd _ _ _ _
      (hMultiply _ _
        (((N : Int) - BigEndian.decode msgHash) % N).toNat
        hBase)
      (hMultiply _ _ s hLift))
  rw [recover_sum hL hR] at hStands
  have hNotZero : d • Secp256k1.G ≠ 0 := by
    rw [Ne, Secp256k1.nsmul_G_eq_zero_iff]
    exact hd
  have hBounds : 27 ≤ v + 27 ∧ v + 27 ≤ 34 := by omega
  have hNotIdentity := mt (hIdentity _ _ hStands).mp hNotZero
  simp only [ecdsaRawRecover, hOrdinate]
  rw [if_neg (not_not.mpr hBounds), if_neg, if_neg hNotIdentity,
    hAffine _ _ _ hStands hKey,
    hL.toModule.fastMultiply_G hKey]
  rintro (hFirst | hr | hs)
  · exact hFirst hOnCurve
  · exact hR.r_ne hr
  · exact hR.s_ne hs

/- A signature made with the key solves its equation. -/
theorem exists_solves
    (hL : L.Standard)
    {k : Int}
    {m : Nat}
    (hNonce : chooseNonce msgHash (keyBytes d) k = m)
    (hm : m % N ≠ 0)
    (hSign :
      ecdsaRawSign L.toJacobianModule msgHash (keyBytes d)
          k =
        (v, r, s))
    (hr : r % N ≠ 0)
    (hs : s ≠ 0) :
    s ≤ maxS ∧
      ∃ R, Solves (BigEndian.decode msgHash) d v r s R := by
  have hLow := ecdsaRawSign_low L.toJacobianModule msgHash
    (keyBytes d) k
  have hLift := ecdsaRawSign_lift hL.toModule hNonce hm
  have hMax := maxS_lt
  rw [hSign] at hLow hLift
  rw [decode_keyBytes] at hLift
  simp only at hLow
  rcases hLift with ⟨R, hLift, hOrder, hSum⟩
  refine ⟨hLow, R, hLift, hOrder, hSum, hr, ?_⟩
  rw [Nat.mod_eq_of_lt (by omega)]
  exact hs

end

/-
  Whatever the nonce, a signature has a bit and a low second
  half, passes the check and gives back the key.
-/
theorem ecdsaRawSign_verifies
    (L : JacobianLibrary)
    (hL : L.Standard)
    (msgHash : Bytes)
    (d : Nat)
    (hd : 0 < d)
    (hdN : d < N)
    (k : Nat)
    (hk : 0 < k)
    (hkN : k % N ≠ 0)
    (v r s : Nat)
    (hSign :
      ecdsaRawSign L.toJacobianModule msgHash (keyBytes d)
          k =
        (v, r, s))
    (hr : r % N ≠ 0)
    (hs : s ≠ 0) :
    (v = 0 ∨ v = 1) ∧ 0 < 2 * s ∧ 2 * s < N ∧
    ∃ pub,
      privateKeyToPublicKey L.toJacobianModule
          (keyBytes d) =
        .ok pub ∧
      ecdsaRawVerify L msgHash (r, s) pub = true ∧
      ecdsaRawRecover L msgHash (v, r, s) = .ok pub := by
  have hNonce : chooseNonce msgHash (keyBytes d) k = k :=
    chooseNonce_of_ne_zero _ _ (by omega)
  rcases exists_solves hL hNonce hkN hSign hr hs with
    ⟨hLow, R, hR⟩
  have hKey : (d : ZMod N) ≠ 0 := by
    apply cast_ne_zero
    rw [Nat.mod_eq_of_lt hdN]
    exact hd.ne'
  have hv := ecdsaRawSign_v_le hL.toModule hNonce hkN
  have hOrder := N_eq
  rw [hSign] at hv
  simp only at hv
  refine ⟨by omega, by omega, by omega, _, ?_,
    ecdsaRawVerify_eq hL hKey hR,
    ecdsaRawRecover_eq hL hKey hR⟩
  rw [privateKeyToPublicKey, decode_keyBytes,
    if_neg (not_le.mpr hdN)]

------------------------------------------------------------
-- A Reference Implementation
------------------------------------------------------------

/- A pair as a triple; two zeros stand for the identity. -/
def ofAffine (P : Nat × Nat) : Triple :=
  if P.1 = 0 ∧ P.2 = 0 then ⟨0, 0, 0⟩ else ⟨P.1, P.2, 1⟩

/- A multiple, bit by bit. -/
def multiply
    (t : Triple)
    (m : Nat) : Triple :=
  Jacobian.scale Secp256k1.p 0 (m.log2 + 1) m t ⟨0, 0, 0⟩

/-
  `inv` of the package: its loop does not run on a multiple
  of `n`, and one is left unless the number is zero.
-/
def inv
    (a : Int)
    (n : Nat) : Nat :=
  if a ≠ 0 ∧ a % n = 0 then
    1
  else
    Jacobian.inverse n (a % n).toNat

/- The module, computed without the group. -/
def JacobianLibrary.computed : JacobianLibrary where
  inv := inv
  fastMultiply := fun P m =>
    Jacobian.toAffine Secp256k1.p
      (multiply (ofAffine P) (m % N).toNat)
  fastAdd := fun P Q =>
    Jacobian.toAffine Secp256k1.p
      (Jacobian.add Secp256k1.p 0 (ofAffine P) (ofAffine Q))
  isIdentity := fun t => t.z = 0
  jacobianAdd := Jacobian.add Secp256k1.p 0
  jacobianMultiply := multiply
  fromJacobian := Jacobian.toAffine Secp256k1.p

/- The triple stands for the point. -/
abbrev Stands
    (t : Triple)
    (P : Secp256k1.Group) : Prop :=
  Jacobian.Represents Secp256k1.p t (coords P)

/- The pair of a point. -/
def affine (P : Secp256k1.Group) : Nat × Nat :=
  match coords P with
  | none => (0, 0)
  | some c => values c

theorem stands_multiply
    {t : Triple}
    {P : Secp256k1.Group}
    (ht : Stands t P)
    (m : Nat) :
    Stands (multiply t m) (m • P) := by
  have hZero :
      Jacobian.Represents Secp256k1.p ⟨0, 0, 0⟩
        (coords (0 : Secp256k1.Group)) := .infinity rfl
  have hScale := Jacobian.represents_scale
    Secp256k1.two_ne_zero (Nat.lt_log2_self (n := m)) ht hZero
  rw [zero_add] at hScale
  exact hScale

theorem stands_add
    {t u : Triple}
    {P Q : Secp256k1.Group}
    (ht : Stands t P)
    (hu : Stands u Q) :
    Stands (Jacobian.add Secp256k1.p 0 t u) (P + Q) := by
  rw [Stands, coords_add Secp256k1.two_ne_zero]
  exact Jacobian.represents_add Secp256k1.two_ne_zero ht hu

theorem stands_ofAffine
    (P : Secp256k1.Group) :
    Stands (ofAffine (affine P)) P := by
  unfold Stands affine
  rcases hCoords : coords P with _ | ⟨x, y⟩
  · exact .infinity rfl
  · have hCurve :=
      (exists_coords_iff Secp256k1.smooth).mp ⟨P, hCoords⟩
    have hNotZero : ¬ (x.val = 0 ∧ y.val = 0) := by
      rintro ⟨hx, hy⟩
      rw [(ZMod.val_eq_zero x).mp hx,
        (ZMod.val_eq_zero y).mp hy] at hCurve
      have hSeven : ((7 : Nat) : ZMod Secp256k1.p) = 0 := by
        simpa using hCurve.symm
      rw [ZMod.natCast_eq_zero_iff] at hSeven
      revert hSeven
      decide
    have hPair := Jacobian.represents_affine
      (p := Secp256k1.p) x.val y.val
    rw [ZMod.natCast_zmod_val, ZMod.natCast_zmod_val]
      at hPair
    have hTriple :
        ofAffine (values (x, y)) = ⟨x.val, y.val, 1⟩ :=
      if_neg hNotZero
    simp only
    rw [hTriple]
    exact hPair

private theorem toAffine_of_zero
    {t : Triple}
    (hz : t.z = 0) :
    Jacobian.toAffine Secp256k1.p t = (0, 0) := by
  have hInverse : Jacobian.inverse Secp256k1.p 0 = 0 := by
    decide +kernel
  simp only [Jacobian.toAffine, hz, hInverse, Nat.mul_zero,
    Nat.zero_mod]

theorem toAffine_of_stands
    {t : Triple}
    {P : Secp256k1.Group}
    (ht : Stands t P) :
    Jacobian.toAffine Secp256k1.p t = affine P := by
  unfold Stands at ht
  unfold affine
  rcases hCoords : coords P with _ | ⟨x, y⟩
  · rw [hCoords] at ht
    cases ht with
    | infinity hz => exact toAffine_of_zero hz
  · rw [hCoords] at ht
    exact Jacobian.toAffine_of_represents ht

theorem affine_of_coords
    {P : Secp256k1.Group}
    {c : ZMod Secp256k1.p × ZMod Secp256k1.p}
    (hCoords : coords P = some c) :
    affine P = values c := by
  rw [affine, hCoords]

/- Every point is killed by the order. -/
private theorem toNat_emod_nsmul
    (P : Secp256k1.Group)
    (m : Int) :
    (m % N).toNat • P = m • P := by
  have hOrder : Nat.card Secp256k1.Group = N :=
    Secp256k1.card_group
  rw [← natCast_zsmul, toNat_emod, ← hOrder,
    mod_natCard_zsmul]

theorem JacobianLibrary.computed_fastMultiply
    (P : Secp256k1.Group)
    (m : Int) :
    JacobianLibrary.computed.fastMultiply (affine P) m =
      affine (m • P) := by
  rw [← toNat_emod_nsmul]
  exact toAffine_of_stands
    (stands_multiply (stands_ofAffine P) _)

theorem JacobianLibrary.computed_fastAdd
    (P Q : Secp256k1.Group) :
    JacobianLibrary.computed.fastAdd (affine P) (affine Q) =
      affine (P + Q) :=
  toAffine_of_stands
    (stands_add (stands_ofAffine P) (stands_ofAffine Q))

/- The reference does what is expected of the module. -/
theorem JacobianLibrary.computed_standard :
    JacobianLibrary.computed.Standard where
  inv := by
    intro a ha
    have hNe := intCast_ne_zero ha
    have hResidue := cast_toNat_emod a
    have hOne : (1 : Int) % N = 1 := by decide
    have hCast :
        ((a * Jacobian.inverse N (a % N).toNat : Int) :
          ZMod N) = ((1 : Int) : ZMod N) := by
      rw [Int.cast_mul, Int.cast_natCast,
        Jacobian.cast_inverse (by rw [hResidue]; exact hNe),
        hResidue, mul_inv_cancel₀ hNe, Int.cast_one]
    have hInv :
        JacobianLibrary.computed.inv a N =
          Jacobian.inverse N (a % N).toNat :=
      if_neg fun hZero => ha hZero.2
    rw [hInv]
    refine ⟨Jacobian.inverse_lt _, ?_⟩
    exact ((ZMod.intCast_eq_intCast_iff' _ _ _).mp
      hCast).trans hOne
  pairs :=
    ⟨affine, fun P c => affine_of_coords,
      JacobianLibrary.computed_fastMultiply,
      JacobianLibrary.computed_fastAdd⟩
  triples := by
    refine ⟨Stands, ?_, ?_, ?_, ?_, ?_⟩
    · intro P x y hCoords
      have hPair := Jacobian.represents_affine
        (p := Secp256k1.p) x.val y.val
      rw [ZMod.natCast_zmod_val, ZMod.natCast_zmod_val,
        ← hCoords] at hPair
      exact hPair
    · intro t P m ht
      exact stands_multiply ht m
    · intro t u P Q ht hu
      exact stands_add ht hu
    · intro t P ht
      rw [← coords_eq_none_iff]
      constructor
      · intro hz
        exact Jacobian.eq_none_of_represents ht
          (of_decide_eq_true hz)
      · intro hNone
        unfold Stands at ht
        rw [hNone] at ht
        cases ht with
        | infinity hz => exact decide_eq_true hz
    · intro t P c ht hCoords
      rw [← affine_of_coords hCoords]
      exact toAffine_of_stands ht

/- A hash above the order, signed with the nonce five. -/
theorem ecdsaRawSign_verifies_sample :
    ∃ v r s pub,
      ecdsaRawSign JacobianLibrary.computed.toJacobianModule
          (List.replicate 32 0xff) (keyBytes 2) 5 =
        (v, r, s) ∧
      ecdsaRawVerify JacobianLibrary.computed
          (List.replicate 32 0xff) (r, s) pub =
        true ∧
      ecdsaRawRecover JacobianLibrary.computed
          (List.replicate 32 0xff) (v, r, s) =
        .ok pub := by
  rcases hSign : ecdsaRawSign
      JacobianLibrary.computed.toJacobianModule
      (List.replicate 32 0xff) (keyBytes 2) 5 with
    ⟨v, r, s⟩
  have hParts :
      (ecdsaRawSign JacobianLibrary.computed.toJacobianModule
        (List.replicate 32 0xff) (keyBytes 2) 5).2.1 % N ≠
          0 ∧
      (ecdsaRawSign JacobianLibrary.computed.toJacobianModule
        (List.replicate 32 0xff) (keyBytes 2) 5).2.2 ≠
          0 := by
    decide +kernel
  rw [hSign] at hParts
  rcases (ecdsaRawSign_verifies JacobianLibrary.computed
      JacobianLibrary.computed_standard _ 2
      (by decide +kernel) (by decide +kernel) 5
      (by decide +kernel) (by decide +kernel) v r s hSign
      hParts.1 hParts.2).2.2.2 with
    ⟨pub, _, hVerify, hRecover⟩
  exact ⟨v, r, s, pub, rfl, hVerify, hRecover⟩

end Ecdsa
