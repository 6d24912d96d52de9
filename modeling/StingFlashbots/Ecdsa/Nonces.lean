import StingFlashbots.Ecdsa.Recovery

/-
  What a signature tells about its nonce.

  A signature depends on the nonce through the abscissa of
  its point, the parity of the ordinate and its inverse. A
  nonce and its opposite have the same abscissa, opposite
  ordinates and opposite inverses, and taking the lower one
  of `s` and `N - s` makes their signatures equal. No other
  nonce gives the same signature.

  Key definitions include:
    * `Ecdsa.Opposite`
    * `Ecdsa.recoveryBit`, `Ecdsa.lowS`

  Main results:
    * `Ecdsa.ecdsaRawSign_eq`
    * `Ecdsa.ecdsaRawSign_eq_iff`
-/

namespace Ecdsa

open Sting ShortWeierstrass

------------------------------------------------------------
-- The Parts of a Signature
------------------------------------------------------------

/- The lower one of a number and its opposite. -/
def lowS (sRaw : Nat) : Nat :=
  if sRaw * 2 < N then sRaw else N - sRaw

/- The parity of the ordinate that goes with it. -/
def recoveryBit (y sRaw : Nat) : Nat :=
  if sRaw * 2 < N then y % 2 else 1 - y % 2

private theorem xor_flag
    (y : Nat)
    (c : Prop)
    [Decidable c] :
    27 + ((y % 2) ^^^ (if c then 0 else 1)) - 27 =
      if c then y % 2 else 1 - y % 2 := by
  split_ifs
  · exact xor_parity.1
  · exact xor_parity.2

/- A signature by the point and the inverse of its nonce. -/
theorem ecdsaRawSign_eq
    (J : JacobianModule)
    (msgHash privateKeyBytes : Bytes)
    {k : Int}
    {r y : Nat}
    (hMultiply :
      J.fastMultiply G
        (chooseNonce msgHash privateKeyBytes k) = (r, y)) :
    ecdsaRawSign J msgHash privateKeyBytes k =
      let sRaw :=
        J.inv (chooseNonce msgHash privateKeyBytes k) N *
          (BigEndian.decode msgHash +
            r * BigEndian.decode privateKeyBytes) % N
      (recoveryBit y sRaw, r, lowS sRaw) := by
  simp only [ecdsaRawSign, hMultiply, xor_flag]
  rfl

private theorem odd_N : N % 2 = 1 := by
  decide

/- The opposite has the same lower one. -/
private theorem lowS_opposite
    {sRaw : Nat}
    (hLt : sRaw < N) :
    lowS (N - sRaw) = lowS sRaw := by
  have hOdd := odd_N
  unfold lowS
  split_ifs
  · omega
  · rfl
  · omega
  · omega

private theorem recoveryBit_opposite
    {y y' sRaw : Nat}
    (hParity : y' % 2 = 1 - y % 2)
    (hPos : sRaw ≠ 0)
    (hLt : sRaw < N) :
    recoveryBit y' (N - sRaw) = recoveryBit y sRaw := by
  have hOdd := odd_N
  unfold recoveryBit
  split_ifs
  · omega
  · omega
  · omega
  · omega

------------------------------------------------------------
-- Opposite Nonces
------------------------------------------------------------

/- The numbers are opposite modulo the order. -/
def Opposite (k k' : Nat) : Prop :=
  (k + k') % N = 0

theorem cast_eq_neg_iff
    {k k' : Nat} :
    (k : ZMod N) = -(k' : ZMod N) ↔ Opposite k k' := by
  rw [Opposite, ← Nat.dvd_iff_mod_eq_zero,
    ← ZMod.natCast_eq_zero_iff, Nat.cast_add,
    add_eq_zero_iff_eq_neg]

private theorem zsmul_G_eq_iff
    {k k' : Int} :
    k • Secp256k1.G = k' • Secp256k1.G ↔
      (k : ZMod N) = k' := by
  rw [← sub_eq_zero, sub_eq_add_neg, ← sub_zsmul,
    Secp256k1.zsmul_G_eq_zero_iff, Int.cast_sub,
    sub_eq_zero]

private theorem zsmul_G_eq_neg_iff
    {k k' : Int} :
    k • Secp256k1.G = -(k' • Secp256k1.G) ↔
      (k : ZMod N) = -(k' : ZMod N) := by
  rw [← neg_zsmul, zsmul_G_eq_iff, Int.cast_neg]

/- Points with the same abscissa are equal or opposite. -/
private theorem eq_or_eq_neg_of_abscissa
    {P Q : Secp256k1.Group}
    {x y y' : ZMod Secp256k1.p}
    (hP : coords P = some (x, y))
    (hQ : coords Q = some (x, y')) :
    P = Q ∨ P = -Q := by
  have hEqP :=
    (exists_coords_iff Secp256k1.smooth).mp ⟨P, hP⟩
  have hEqQ :=
    (exists_coords_iff Secp256k1.smooth).mp ⟨Q, hQ⟩
  rcases mul_self_eq_mul_self_iff.mp
      (hEqP.trans hEqQ.symm) with hy | hy
  · left
    apply coords_injective
    rw [hP, hQ, hy]
  · right
    apply coords_injective
    rw [coords_neg, hP, hQ, hy]
    rfl

private theorem inv_congr
    {J : JacobianModule}
    (hJ : J.Standard)
    {k k' : Int}
    (hk : k % N ≠ 0)
    (hk' : k' % N ≠ 0)
    (hEq : (k : ZMod N) = k') :
    J.inv k N = J.inv k' N := by
  have hCast :
      ((J.inv k N : Nat) : ZMod N) = (J.inv k' N : Nat) := by
    rw [hJ.cast_inv hk, hJ.cast_inv hk', hEq]
  have hMod := (ZMod.natCast_eq_natCast_iff' _ _ _).mp hCast
  rw [Nat.mod_eq_of_lt (hJ.inv k hk).1,
    Nat.mod_eq_of_lt (hJ.inv k' hk').1] at hMod
  exact hMod

/- Opposite nonces give opposite numbers before lowering. -/
private theorem sRaw_opposite
    {J : JacobianModule}
    (hJ : J.Standard)
    {k k' : Int}
    {e : Nat}
    (hk : k % N ≠ 0)
    (hk' : k' % N ≠ 0)
    (hOpposite : (k : ZMod N) = -(k' : ZMod N))
    (hPos : J.inv k' N * e % N ≠ 0) :
    J.inv k N * e % N = N - J.inv k' N * e % N := by
  have hLt : J.inv k' N * e % N < N :=
    Nat.mod_lt _ (NeZero.pos N)
  have hCast :
      ((J.inv k N * e : Nat) : ZMod N) =
        ((N - J.inv k' N * e % N : Nat) : ZMod N) := by
    rw [Nat.cast_sub hLt.le, ZMod.natCast_self,
      ZMod.natCast_mod, Nat.cast_mul, Nat.cast_mul,
      hJ.cast_inv hk, hJ.cast_inv hk', hOpposite, inv_neg]
    ring
  have hMod := (ZMod.natCast_eq_natCast_iff' _ _ _).mp hCast
  rw [hMod]
  apply Nat.mod_eq_of_lt
  omega

------------------------------------------------------------
-- Equal Signatures
------------------------------------------------------------

private theorem ne_zero_of_emod
    {k : Int}
    (hk : k % N ≠ 0) :
    k ≠ 0 := by
  rintro rfl
  exact hk rfl

section

variable {J : JacobianModule}
variable {msgHash privateKeyBytes : Bytes}
variable {k k' : Int}

/- The point of a nonce, and the signature from it. -/
private theorem exists_point
    (hJ : J.Standard)
    (hkN : k % N ≠ 0) :
    ∃ x y, coords (k • Secp256k1.G) = some (x, y) ∧
      y ≠ 0 ∧
      ecdsaRawSign J msgHash privateKeyBytes k =
        let sRaw :=
          J.inv k N *
            (BigEndian.decode msgHash +
              x.val * BigEndian.decode privateKeyBytes) % N
        (recoveryBit y.val sRaw, x.val, lowS sRaw) := by
  rcases Secp256k1.exists_coords_zsmul_G
      (intCast_ne_zero hkN) with ⟨x, y, hCoords, hy⟩
  have hNonce := chooseNonce_of_ne_zero msgHash
    privateKeyBytes (ne_zero_of_emod hkN)
  have hMultiply := hJ.fastMultiply_zsmul_G hCoords
  rw [← hNonce] at hMultiply
  have hSign :=
    ecdsaRawSign_eq J msgHash privateKeyBytes hMultiply
  rw [hNonce] at hSign
  exact ⟨x, y, hCoords, hy, hSign⟩

/- Equal abscissas come from equal or opposite nonces. -/
private theorem modEq_or_opposite
    {x y x' y' : ZMod Secp256k1.p}
    (hCoords :
      coords (k • Secp256k1.G) = some (x, y))
    (hCoords' :
      coords (k' • Secp256k1.G) = some (x', y'))
    (hx : x.val = x'.val) :
    (k : ZMod N) = k' ∨ (k : ZMod N) = -(k' : ZMod N) := by
  rw [← ZMod.val_injective _ hx] at hCoords'
  rcases eq_or_eq_neg_of_abscissa hCoords hCoords' with
    hEq | hEq
  · exact Or.inl (zsmul_G_eq_iff.mp hEq)
  · exact Or.inr (zsmul_G_eq_neg_iff.mp hEq)

/- Congruent nonces sign alike. -/
private theorem ecdsaRawSign_congr
    (hJ : J.Standard)
    (hkN : k % N ≠ 0)
    (hkN' : k' % N ≠ 0)
    (hEq : (k : ZMod N) = k') :
    ecdsaRawSign J msgHash privateKeyBytes k =
      ecdsaRawSign J msgHash privateKeyBytes k' := by
  rcases exists_point hJ hkN with
    ⟨x, y, hCoords, _, hSign⟩
  rcases exists_point hJ hkN' with
    ⟨x', y', hCoords', _, hSign'⟩
  rw [zsmul_G_eq_iff.mpr hEq, hCoords'] at hCoords
  cases hCoords
  rw [hSign, hSign', inv_congr hJ hkN hkN' hEq]

/- Opposite nonces sign alike. -/
private theorem ecdsaRawSign_opposite
    (hJ : J.Standard)
    (hkN : k % N ≠ 0)
    (hkN' : k' % N ≠ 0)
    (hOpposite : (k : ZMod N) = -(k' : ZMod N))
    (hs :
      (ecdsaRawSign J msgHash privateKeyBytes k').2.2 ≠ 0) :
    ecdsaRawSign J msgHash privateKeyBytes k =
      ecdsaRawSign J msgHash privateKeyBytes k' := by
  rcases exists_point hJ hkN with
    ⟨x, y, hCoords, _, hSign⟩
  rcases exists_point hJ hkN' with
    ⟨x', y', hCoords', hy', hSign'⟩
  rw [zsmul_G_eq_neg_iff.mpr hOpposite, coords_neg,
    hCoords'] at hCoords
  cases hCoords
  rw [hSign'] at hs
  simp only at hs
  have hLt :
      J.inv k' N *
        (BigEndian.decode msgHash +
          x'.val * BigEndian.decode privateKeyBytes) % N < N :=
    Nat.mod_lt _ (NeZero.pos N)
  have hPos :
      J.inv k' N *
        (BigEndian.decode msgHash +
          x'.val * BigEndian.decode privateKeyBytes) % N ≠
            0 := by
    intro hZero
    rw [hZero] at hs
    exact hs rfl
  have hParity : (-y').val % 2 = 1 - y'.val % 2 := by
    rcases Secp256k1.IsLift.neg hCoords' hy' with
      ⟨_, _, hNeg, _, hBit⟩
    rw [coords_neg, hCoords'] at hNeg
    cases hNeg
    exact hBit
  rw [hSign, hSign']
  simp only
  rw [sRaw_opposite hJ hkN hkN' hOpposite hPos,
    lowS_opposite hLt, recoveryBit_opposite hParity hPos hLt]

/- Exactly equal and opposite nonces sign alike. -/
theorem ecdsaRawSign_eq_iff_nonces
    (hJ : J.Standard)
    (hkN : k % N ≠ 0)
    (hkN' : k' % N ≠ 0)
    (hs :
      (ecdsaRawSign J msgHash privateKeyBytes k').2.2 ≠ 0) :
    ecdsaRawSign J msgHash privateKeyBytes k =
        ecdsaRawSign J msgHash privateKeyBytes k' ↔
      (k : ZMod N) = k' ∨ (k : ZMod N) = -(k' : ZMod N) := by
  constructor
  · intro hEq
    rcases exists_point hJ hkN with
      ⟨x, y, hCoords, _, hSign⟩
    rcases exists_point hJ hkN' with
      ⟨x', y', hCoords', _, hSign'⟩
    rw [hSign, hSign'] at hEq
    exact modEq_or_opposite hCoords hCoords'
      (congrArg (fun vrs => vrs.2.1) hEq)
  · rintro (hEq | hOpposite)
    · exact ecdsaRawSign_congr hJ hkN hkN' hEq
    · exact ecdsaRawSign_opposite hJ hkN hkN' hOpposite hs

end

/- A signature that is accepted has the raw numbers. -/
theorem signMsgHash_eq_ok
    {J : JacobianModule}
    {key : PrivateKey}
    {messageHash : Bytes}
    {k : Int}
    {signature : Signature}
    (hOk :
      key.signMsgHash J messageHash k = .ok signature) :
    (signature.v, signature.r, signature.s) =
      ecdsaRawSign J messageHash key.rawKey k := by
  unfold PrivateKey.signMsgHash Signature.new at hOk
  split at hOk
  · cases hOk
    rfl
  · cases hOk

/- A signed transaction carries the raw signature. -/
theorem signTransactionHash_eq_ok
    {J : JacobianModule}
    {account : PrivateKey}
    {transactionHash : Bytes}
    {chainId : Option Nat}
    {k : Int}
    {vrs : Nat × Nat × Nat}
    (hOk :
      signTransactionHash J account transactionHash chainId
          k =
        .ok vrs) :
    vrs =
      (toEthV
        (ecdsaRawSign J transactionHash account.rawKey k).1
        chainId,
        (ecdsaRawSign J transactionHash account.rawKey k).2) := by
  rcases bind_eq_ok.mp hOk with ⟨signature, hSign, hOk⟩
  cases hOk
  rw [← signMsgHash_eq_ok hSign]

theorem toEthV_injective
    (chainId : Option Nat) :
    Function.Injective fun v => toEthV v chainId := by
  intro v v' hEq
  cases chainId with
  | none =>
      simp only [toEthV] at hEq
      omega
  | some chainId =>
      simp only [toEthV] at hEq
      omega

/-
  A signature fixes its nonce up to sign, modulo the order,
  and so does the signature of a transaction.
-/
theorem ecdsaRawSign_eq_iff
    (J : JacobianModule)
    (hJ : J.Standard)
    (msgHash : Bytes)
    (d k k' : Nat)
    (_hk : 0 < k)
    (_hk' : 0 < k')
    (hkN : ¬ N ∣ k)
    (hkN' : ¬ N ∣ k')
    (hs' :
      (ecdsaRawSign J msgHash (keyBytes d) k').2.2 ≠ 0) :
    (ecdsaRawSign J msgHash (keyBytes d) k =
        ecdsaRawSign J msgHash (keyBytes d) k' ↔
      k ≡ k' [MOD N] ∨ Opposite k k') ∧
    ∀ publicKey chainId vrs vrs',
      signTransactionHash J ⟨keyBytes d, publicKey⟩ msgHash
          chainId k =
        .ok vrs →
      signTransactionHash J ⟨keyBytes d, publicKey⟩ msgHash
          chainId k' =
        .ok vrs' →
      ((vrs.1 = vrs'.1 ∧ vrs.2.1 = vrs'.2.1 ∧
          vrs.2.2 = vrs'.2.2) ↔
        k ≡ k' [MOD N] ∨ Opposite k k') := by
  rw [← Int.natCast_dvd_natCast, Int.dvd_iff_emod_eq_zero]
    at hkN hkN'
  have hIff := ecdsaRawSign_eq_iff_nonces hJ hkN hkN' hs'
  rw [Int.cast_natCast, Int.cast_natCast,
    ZMod.natCast_eq_natCast_iff, cast_eq_neg_iff] at hIff
  refine ⟨hIff, ?_⟩
  intro publicKey chainId vrs vrs' hOk hOk'
  rw [signTransactionHash_eq_ok hOk,
    signTransactionHash_eq_ok hOk', ← hIff]
  constructor
  · rintro ⟨hv, hr, hs⟩
    refine Prod.ext ?_ (Prod.ext hr hs)
    exact toEthV_injective chainId hv
  · intro hEq
    rw [hEq]
    exact ⟨rfl, rfl, rfl⟩

/- The nonces one and minus one. -/
theorem ecdsaRawSign_eq_iff_sample :
    ecdsaRawSign JacobianModule.reference
        (List.replicate 32 0) (keyBytes 1) (N - 1) =
      ecdsaRawSign JacobianModule.reference
        (List.replicate 32 0) (keyBytes 1) 1 := by
  have hMultiply :
      JacobianModule.reference.fastMultiply G 1 =
        (Secp256k1.gx, Secp256k1.gy) :=
    JacobianModule.reference_fastMultiply_one
  have hInv : JacobianModule.reference.inv 1 N = 1 := by
    apply JacobianModule.reference_inv
    · decide +kernel
    · decide +kernel
  have hLow :
      (ecdsaRawSign JacobianModule.reference
        (List.replicate 32 0) (keyBytes 1) 1).2.2 ≠ 0 := by
    rw [ecdsaRawSign_eq _ _ _ hMultiply,
      chooseNonce_of_ne_zero _ _ one_ne_zero, hInv]
    decide +kernel
  have hIff := (ecdsaRawSign_eq_iff JacobianModule.reference
    JacobianModule.reference_standard (List.replicate 32 0)
    1 (N - 1) 1 (by decide +kernel) Nat.one_pos
    (by decide +kernel) (by decide +kernel) hLow).1
  apply hIff.mpr
  right
  unfold Opposite
  decide +kernel

end Ecdsa
