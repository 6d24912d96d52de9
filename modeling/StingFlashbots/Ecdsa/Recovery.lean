import StingFlashbots.Contract.Signature
import StingFlashbots.Crypto.Keccak
import StingFlashbots.Ecdsa.Signing
import Mathlib.Data.List.GetD

/-
  Recovering the signer of a message.

  The contract hands a signature to the recovery precompile.
  What the enclave signs with its key, the contract recovers
  to the address of the key: both sides agree on the text
  that is hashed, on the layout of the signature and on
  which of the two signatures of a nonce is the low one.

  Key definitions include:
    * `Ecdsa.JacobianModule.Standard`
    * `Ecdsa.standardEcrecover`
    * `Ecdsa.defunctMessage`
    * `Ecdsa.ethAddress`

  Main results:
    * `Ecdsa.standardEcrecover_ecdsaRawSign`
    * `Ecdsa.ecdsaRawSign_low`
    * `Ecdsa.recoversTo_signEthData`
-/

namespace Ecdsa

open Sting EVM ShortWeierstrass

------------------------------------------------------------
-- The Group
------------------------------------------------------------

/- The numbers of a point with coordinates. -/
def values (c : ZMod Secp256k1.p × ZMod Secp256k1.p) :
    Nat × Nat :=
  (c.1.val, c.2.val)

/-
  The module implements the group: inverses modulo the
  order, and multiples of points.
-/
structure JacobianModule.Standard (J : JacobianModule) : Prop where
  inv :
    ∀ a : Int, a % N ≠ 0 →
      J.inv a N < N ∧ a * J.inv a N % N = 1
  fastMultiply :
    ∀ (P : Secp256k1.Group) (m : Int) {c d},
      coords P = some c → coords (m • P) = some d →
        J.fastMultiply (values c) m = values d

------------------------------------------------------------
-- Recovery
------------------------------------------------------------

open Classical in
/- The key that makes a signature of a number valid. -/
noncomputable def recoverKey
    (z v r s : Nat) : Secp256k1.Group :=
  if hLift : ∃ R, Secp256k1.IsLift R r (v - 27) then
    ((r : ZMod N)⁻¹).val •
      (s • hLift.choose - z • Secp256k1.G)
  else
    0

/- The address of a public key. -/
def ethAddress
    (keccak : Digest)
    (publicKey : Bytes) : Address :=
  BitVec.ofNat 160
    (BigEndian.decode ((keccak publicKey).drop 12))

/- The recovery precompile. -/
noncomputable def standardEcrecover
    (keccak : Digest)
    (hash : Bytes)
    (v r s : Nat) : Address :=
  if (v = 27 ∨ v = 28) ∧ 0 < r ∧ r < N ∧ 0 < s ∧ s < N then
    match coords
      (recoverKey (BigEndian.decode hash) v r s) with
    | none => 0
    | some c => ethAddress keccak (encodeRawPublicKey (values c))
  else
    0

theorem recoverKey_eq
    {z v r s d : Nat}
    {R : Secp256k1.Group}
    (hLift : Secp256k1.IsLift R r (v - 27))
    (hr : (r : ZMod N) ≠ 0)
    (hSum : s • R = (z + r * d) • Secp256k1.G) :
    recoverKey z v r s = d • Secp256k1.G := by
  have hExists : ∃ R, Secp256k1.IsLift R r (v - 27) :=
    ⟨R, hLift⟩
  have hChoice : hExists.choose = R :=
    hExists.choose_spec.unique hLift
  rw [recoverKey, dif_pos hExists, hChoice, hSum,
    add_nsmul, add_sub_cancel_left, ← mul_nsmul']
  apply Secp256k1.nsmul_G_congr
  push_cast
  rw [ZMod.natCast_zmod_val, ← mul_assoc,
    inv_mul_cancel₀ hr, one_mul]

------------------------------------------------------------
-- Raw Signatures
------------------------------------------------------------

/- The largest low number is half of the order. -/
theorem N_eq : N = 2 * maxS + 1 := by
  decide

theorem maxS_lt : maxS < N := by
  have hOrder := N_eq
  omega

/- The second half of a signature is in the lower half. -/
theorem ecdsaRawSign_low
    (J : JacobianModule)
    (msgHash privateKeyBytes : Bytes)
    (k : Int) :
    (ecdsaRawSign J msgHash privateKeyBytes k).2.2 ≤
      maxS := by
  have hOrder := N_eq
  unfold ecdsaRawSign
  simp only
  split_ifs with hLow
  · omega
  · omega

theorem xor_parity
    {y : Nat} :
    27 + ((y % 2) ^^^ 0) - 27 = y % 2 ∧
      27 + ((y % 2) ^^^ 1) - 27 = 1 - y % 2 := by
  rcases Nat.mod_two_eq_zero_or_one y with hy | hy
  · simp [hy]
  · simp [hy]

theorem values_G :
    values ((Secp256k1.gx : ZMod Secp256k1.p),
      (Secp256k1.gy : ZMod Secp256k1.p)) = G := by
  have hx : Secp256k1.gx < Secp256k1.p := by decide
  have hy : Secp256k1.gy < Secp256k1.p := by decide
  simp only [values, G, ZMod.val_cast_of_lt hx,
    ZMod.val_cast_of_lt hy]

theorem JacobianModule.Standard.fastMultiply_zsmul_G
    {J : JacobianModule}
    (hJ : J.Standard)
    {m : Int}
    {c : ZMod Secp256k1.p × ZMod Secp256k1.p}
    (hCoords : coords (m • Secp256k1.G) = some c) :
    J.fastMultiply G m = values c := by
  rw [← values_G]
  exact hJ.fastMultiply Secp256k1.G m Secp256k1.coords_G
    hCoords

theorem JacobianModule.Standard.fastMultiply_G
    {J : JacobianModule}
    (hJ : J.Standard)
    {m : Nat}
    {c : ZMod Secp256k1.p × ZMod Secp256k1.p}
    (hCoords : coords (m • Secp256k1.G) = some c) :
    J.fastMultiply G m = values c := by
  rw [← natCast_zsmul] at hCoords
  exact hJ.fastMultiply_zsmul_G hCoords

theorem JacobianModule.Standard.inv_natCast
    {J : JacobianModule}
    (hJ : J.Standard)
    {a : Nat}
    (ha : a % N ≠ 0) :
    J.inv a N < N ∧ a * J.inv a N % N = 1 := by
  have hInv := hJ.inv a (by exact_mod_cast ha)
  exact ⟨hInv.1, by exact_mod_cast hInv.2⟩

theorem cast_ne_zero
    {m : Nat}
    (hm : m % N ≠ 0) :
    (m : ZMod N) ≠ 0 := by
  rw [Ne, ZMod.natCast_eq_zero_iff, Nat.dvd_iff_mod_eq_zero]
  exact hm

theorem intCast_ne_zero
    {m : Int}
    (hm : m % N ≠ 0) :
    (m : ZMod N) ≠ 0 := by
  rw [Ne, ZMod.intCast_zmod_eq_zero_iff_dvd,
    Int.dvd_iff_emod_eq_zero]
  exact hm

/- The inverse is that of the field of residues. -/
theorem JacobianModule.Standard.cast_inv
    {J : JacobianModule}
    (hJ : J.Standard)
    {k : Int}
    (hk : k % N ≠ 0) :
    ((J.inv k N : Nat) : ZMod N) = (k : ZMod N)⁻¹ := by
  have hCast :=
    congrArg (Int.cast (R := ZMod N)) (hJ.inv k hk).2
  rw [ZMod.intCast_mod] at hCast
  push_cast at hCast
  exact eq_inv_of_mul_eq_one_right hCast

/- The inverse of the nonce takes the nonce away. -/
private theorem nonce_nsmul
    {J : JacobianModule}
    (hJ : J.Standard)
    {k e : Nat}
    (hk : k % N ≠ 0) :
    (J.inv k N * e % N) • k • Secp256k1.G =
      e • Secp256k1.G := by
  have hInv : (k : ZMod N) * J.inv k N = 1 := by
    rw [hJ.cast_inv (by exact_mod_cast hk),
      Int.cast_natCast, mul_inv_cancel₀ (cast_ne_zero hk)]
  rw [← mul_nsmul']
  apply Secp256k1.nsmul_G_congr
  push_cast
  rw [ZMod.natCast_mod]
  push_cast
  linear_combination (e : ZMod N) * hInv

/-
  A signature solves the equation of its key, for the point
  of its nonce or the opposite of it.
-/
theorem ecdsaRawSign_lift
    {J : JacobianModule}
    (hJ : J.Standard)
    {msgHash privateKeyBytes : Bytes}
    {k : Int}
    {m : Nat}
    (hNonce : chooseNonce msgHash privateKeyBytes k = m)
    (hm : m % N ≠ 0) :
    let vrs := ecdsaRawSign J msgHash privateKeyBytes k
    ∃ R, Secp256k1.IsLift R vrs.2.1 vrs.1 ∧
      Secp256k1.n • R = 0 ∧
      vrs.2.2 • R =
        (BigEndian.decode msgHash +
          vrs.2.1 * BigEndian.decode privateKeyBytes) •
            Secp256k1.G := by
  rcases Secp256k1.exists_coords_nsmul_G
      (cast_ne_zero hm) with ⟨x, y, hCoords, hy⟩
  have hMultiply := hJ.fastMultiply_G hCoords
  intro vrs
  simp only [vrs, ecdsaRawSign, hNonce, hMultiply, values]
  have hSum := nonce_nsmul hJ hm
    (e := BigEndian.decode msgHash +
      x.val * BigEndian.decode privateKeyBytes)
  split_ifs with hLow
  · refine ⟨_, ?_, Secp256k1.n_nsmul_nsmul_G _, hSum⟩
    rw [xor_parity.1]
    exact ⟨x, y, hCoords, rfl, rfl⟩
  · refine ⟨-(m • Secp256k1.G), ?_, ?_, ?_⟩
    · rw [xor_parity.2]
      exact Secp256k1.IsLift.neg hCoords hy
    · rw [neg_nsmul, Secp256k1.n_nsmul_nsmul_G, neg_zero]
    · have hLe : ∀ i, i % N ≤ N :=
        fun i => (Nat.mod_lt i (NeZero.pos N)).le
      rw [← hSum, neg_nsmul, sub_nsmul _ (hLe _),
        Secp256k1.n_nsmul_nsmul_G, zero_add, neg_neg]

theorem ecdsaRawSign_v_le
    {J : JacobianModule}
    (hJ : J.Standard)
    {msgHash privateKeyBytes : Bytes}
    {k : Int}
    {m : Nat}
    (hNonce : chooseNonce msgHash privateKeyBytes k = m)
    (hm : m % N ≠ 0) :
    (ecdsaRawSign J msgHash privateKeyBytes k).1 ≤ 1 := by
  rcases ecdsaRawSign_lift hJ hNonce hm with
    ⟨R, hLift, _, _⟩
  rcases hLift with ⟨x, y, _, _, hParity⟩
  omega

------------------------------------------------------------
-- The Bytes of a Signature
------------------------------------------------------------

private theorem N_lt : N < 256 ^ 32 := by
  decide

theorem toBytes32_eq
    (n : Nat) :
    toBytes32 n = BigEndian.encodeFixed 32 n := by
  unfold toBytes32 intToBigEndian
  split_ifs with hZero
  · rw [hZero]
    decide
  · rfl

theorem length_signature
    {r s : Nat}
    {last : UInt8}
    (hr : r < 256 ^ 32)
    (hs : s < 256 ^ 32) :
    (toBytes32 r ++ toBytes32 s ++ [last]).length = 65 := by
  simp only [toBytes32_eq, List.length_append,
    BigEndian.length_encodeFixed hr,
    BigEndian.length_encodeFixed hs, List.length_singleton]

/- The contract takes a signature apart again. -/
theorem recover_eq
    {pre : Precompiles}
    {hash : Bytes}
    {v r s : Nat}
    (hv : v < 256)
    (hr : r < 256 ^ 32)
    (hs : s ≤ maxS)
    (hSigner : pre.ecrecover hash v r s ≠ 0) :
    recover pre hash
        (toBytes32 r ++ toBytes32 s ++ [UInt8.ofNat v]) =
      .ok (pre.ecrecover hash v r s) := by
  have hMax : maxS < 256 ^ 32 := lt_trans maxS_lt N_lt
  have hR := BigEndian.length_encodeFixed hr
  have hS := BigEndian.length_encodeFixed
    (lt_of_le_of_lt hs hMax)
  have hLast : (UInt8.ofNat v).toNat = v := by
    rw [UInt8.toNat_ofNat', Nat.mod_eq_of_lt hv]
  have hByte :
      (BigEndian.encodeFixed 32 r ++
        (BigEndian.encodeFixed 32 s ++
          [UInt8.ofNat v])).getD 64 0 = UInt8.ofNat v := by
    rw [List.getD_append_right _ _ _ _ (by omega), hR,
      List.getD_append_right _ _ _ _ (by omega), hS]
    rfl
  have hLength :
      (BigEndian.encodeFixed 32 r ++
        (BigEndian.encodeFixed 32 s ++
          [UInt8.ofNat v])).length = 65 := by
    simp [hR, hS]
  simp only [toBytes32_eq, recover, List.append_assoc]
  rw [if_pos hLength, List.take_left' hR,
    List.drop_left' hR, List.take_left' hS,
    BigEndian.decode_encodeFixed,
    BigEndian.decode_encodeFixed, hByte, hLast,
    if_neg (not_lt.mpr hs), if_neg hSigner]

------------------------------------------------------------
-- Signing and Recovering
------------------------------------------------------------

/-
  What `encode_defunct` and `_hash_eip191_message` put
  together: the version `E`, a header with the length of the
  data, and the data.
-/
def defunctMessage (data : Bytes) : Bytes :=
  [0x19] ++ [0x45] ++
    ("thereum Signed Message:\n".toList.map fun c =>
      UInt8.ofNat c.toNat) ++
    decimal data.length ++ data

/- Both sides hash the same text. -/
theorem hashData_eq
    (pre : Precompiles)
    (data : Bytes) :
    hashData pre data =
      .ok (pre.keccak (defunctMessage data)) := by
  rw [hashData, uint2str_eq, ok_bind]
  rfl

/- The private key of a number. -/
def keyBytes (d : Nat) : Bytes :=
  BigEndian.encodeFixed 32 d

theorem decode_keyBytes
    (d : Nat) :
    BigEndian.decode (keyBytes d) = d :=
  BigEndian.decode_encodeFixed 32 d

theorem parsePrivateKey_keyBytes
    (J : JacobianModule)
    {d : Nat}
    (hd : d < N) :
    parsePrivateKey J (keyBytes d) =
      .ok
        { rawKey := keyBytes d
          publicKey :=
            encodeRawPublicKey (J.fastMultiply G d) } := by
  have hLength : (keyBytes d).length = 32 :=
    BigEndian.length_encodeFixed (lt_trans hd N_lt)
  rw [parsePrivateKey, if_neg (not_not.mpr hLength),
    privateKeyToPublicKey, decode_keyBytes,
    if_neg (not_le.mpr hd)]
  rfl

private theorem intToBigEndian_v
    {v : Nat}
    (hv : v ≤ 1) :
    intToBigEndian (v + 27) = [UInt8.ofNat (v + 27)] := by
  have hCases : ∀ v ≤ 1,
      intToBigEndian (v + 27) = [UInt8.ofNat (v + 27)] := by
    decide
  exact hCases v hv

/- The 65 bytes that are signed with a key. -/
theorem signEthData_eq
    {J : JacobianModule}
    {hashMessage : Bytes → Bytes}
    {data : Bytes}
    (hLength : (hashMessage data).length = 32)
    {d v r s : Nat}
    (hd : d < N)
    (hSign :
      ecdsaRawSign J (hashMessage data) (keyBytes d) 0 =
        (v, r, s))
    (hv : v ≤ 1)
    (hr : r < N)
    (hs : s < N) :
    signEthData J hashMessage (keyBytes d) data =
      .ok (toBytes32 r ++ toBytes32 s ++
        [UInt8.ofNat (v + 27)]) := by
  have hNew :
      Signature.new (v, r, s) =
        .ok ⟨v, r, s, hv, hr, hs⟩ :=
    dif_pos ⟨hv, hr, hs⟩
  simp only [signEthData, signHash, hLength, ne_eq,
    not_true_eq_false, if_false,
    parsePrivateKey_keyBytes J hd, ok_bind,
    signMessageHash, PrivateKey.signMsgHash, hSign, hNew]
  rw [← intToBigEndian_v hv]
  rfl

/- The precompile recovers the key of a signature. -/
theorem standardEcrecover_ecdsaRawSign
    {J : JacobianModule}
    (hJ : J.Standard)
    (keccak : Digest)
    {hash : Bytes}
    {d v r s : Nat}
    (hd : 0 < d)
    (hdN : d < N)
    (hNonce :
      deterministicGenerateK hash (keyBytes d) % N ≠ 0)
    (hSign :
      ecdsaRawSign J hash (keyBytes d) 0 = (v, r, s))
    (hr : 0 < r)
    (hrN : r < N)
    (hs : s ≠ 0) :
    standardEcrecover keccak hash (v + 27) r s =
      ethAddress keccak
        (encodeRawPublicKey (J.fastMultiply G d)) := by
  have hZero := chooseNonce_zero hash (keyBytes d)
  have hLift := ecdsaRawSign_lift hJ hZero hNonce
  have hv := ecdsaRawSign_v_le hJ hZero hNonce
  have hLow := ecdsaRawSign_low J hash (keyBytes d) 0
  have hMax := maxS_lt
  rw [hSign] at hLift hv hLow
  rcases hLift with ⟨R, hLift, _, hSum⟩
  have hNotZero {m : Nat} (hPos : 0 < m) (hLt : m < N) :
      (m : ZMod N) ≠ 0 := by
    apply cast_ne_zero
    rw [Nat.mod_eq_of_lt hLt]
    exact hPos.ne'
  rw [decode_keyBytes] at hSum
  have hKey :
      recoverKey (BigEndian.decode hash) (v + 27) r s =
        d • Secp256k1.G := by
    apply recoverKey_eq _ (hNotZero hr hrN) hSum
    exact hLift
  rcases Secp256k1.exists_coords_nsmul_G
      (hNotZero hd hdN) with ⟨x, y, hCoords, _⟩
  simp only at hv hLow
  rw [standardEcrecover, if_pos (by omega), hKey, hCoords,
    hJ.fastMultiply_G hCoords]

/-
  The contract accepts what the enclave signs: whenever the
  nonce gives a signature at all, the contract recovers the
  address of the key. The numeral in front of the data and
  the bound on the signature never get in the way.
-/
theorem recoversTo_signEthData
    (J : JacobianModule)
    (hJ : J.Standard)
    (pre : Precompiles)
    (hRecover : pre.ecrecover = standardEcrecover pre.keccak)
    (hashMessage : Bytes → Bytes)
    (hMessage :
      ∀ data, hashMessage data =
        pre.keccak (defunctMessage data))
    (data : Bytes)
    (d : Nat)
    (hd : 0 < d)
    (hdN : d < N)
    (v r s : Nat)
    (hNonce :
      deterministicGenerateK (hashMessage data) (keyBytes d) %
        N ≠ 0)
    (hSign :
      ecdsaRawSign J (hashMessage data) (keyBytes d) 0 =
        (v, r, s))
    (hr : 0 < r)
    (hrN : r < N)
    (hs : s ≠ 0)
    (hAddress :
      ethAddress pre.keccak
        (encodeRawPublicKey (J.fastMultiply G d)) ≠ 0) :
    (∃ sig,
      signEthData J hashMessage (keyBytes d) data = .ok sig ∧
      sig.length = 65 ∧
      RecoversTo pre data sig
        (ethAddress pre.keccak
          (encodeRawPublicKey (J.fastMultiply G d)))) ∧
    (∀ n, uint2str n = .ok (decimal n)) ∧
    ∀ msgHash privateKeyBytes k,
      (ecdsaRawSign J msgHash privateKeyBytes k).2.2 ≤
        maxS := by
  have hHash : (hashMessage data).length = 32 := by
    rw [hMessage]
    exact pre.keccak.length_hash _
  have hv :
      (ecdsaRawSign J (hashMessage data) (keyBytes d) 0).1 ≤
        1 :=
    ecdsaRawSign_v_le hJ (chooseNonce_zero _ _) hNonce
  have hLow :=
    ecdsaRawSign_low J (hashMessage data) (keyBytes d) 0
  have hMax := maxS_lt
  rw [hSign] at hv hLow
  simp only at hv hLow
  have hSigner :
      pre.ecrecover (hashMessage data) (v + 27) r s =
        ethAddress pre.keccak
          (encodeRawPublicKey (J.fastMultiply G d)) := by
    rw [hRecover]
    exact standardEcrecover_ecdsaRawSign hJ pre.keccak
      hd hdN hNonce hSign hr hrN hs
  have hN := N_lt
  have hRN : r < 256 ^ 32 := lt_trans hrN hN
  refine ⟨⟨_, signEthData_eq hHash hdN hSign hv hrN
    (by omega), length_signature hRN (by omega), ?_⟩,
    uint2str_eq, ecdsaRawSign_low J⟩
  refine ⟨hashMessage data, ?_, ?_⟩
  · rw [hashData_eq, hMessage]
  · rw [← hSigner] at hAddress ⊢
    exact recover_eq (by omega) hRN hLow hAddress

------------------------------------------------------------
-- A Reference Implementation
------------------------------------------------------------

open Classical in
/-
  The point arithmetic, taken from the group itself. The
  package finds one for the inverse of a multiple of `n`
  that is not zero.
-/
noncomputable def JacobianModule.reference :
    JacobianModule where
  inv := fun a n =>
    if a ≠ 0 ∧ a % n = 0 then
      1
    else
      ((a : ZMod n)⁻¹).val
  fastMultiply := fun P m =>
    if hPoint : ∃ Q : Secp256k1.Group,
        coords Q =
          some ((P.1 : ZMod Secp256k1.p), (P.2 : ZMod _)) then
      match coords (m • hPoint.choose) with
      | none => (0, 0)
      | some c => values c
    else
      (0, 0)

theorem JacobianModule.reference_inv_eq
    {a : Int}
    (ha : a % N ≠ 0) :
    JacobianModule.reference.inv a N =
      ((a : ZMod N)⁻¹).val :=
  if_neg fun hZero => ha hZero.2

theorem JacobianModule.reference_standard :
    JacobianModule.reference.Standard where
  inv := by
    intro a ha
    rw [JacobianModule.reference_inv_eq ha]
    refine ⟨ZMod.val_lt _, ?_⟩
    have hOne : (1 : Int) % N = 1 := by decide
    have hCast :
        ((a * ((a : ZMod N)⁻¹).val : Int) : ZMod N) =
          ((1 : Int) : ZMod N) := by
      push_cast
      rw [ZMod.natCast_zmod_val,
        mul_inv_cancel₀ (intCast_ne_zero ha)]
    exact ((ZMod.intCast_eq_intCast_iff' _ _ _).mp
      hCast).trans hOne
  fastMultiply := by
    intro P m c d hP hMultiple
    have hCast :
        some (((values c).1 : ZMod Secp256k1.p),
          ((values c).2 : ZMod Secp256k1.p)) = some c := by
      simp only [values, ZMod.natCast_zmod_val]
    have hExists : ∃ Q : Secp256k1.Group,
        coords Q =
          some (((values c).1 : ZMod Secp256k1.p),
            ((values c).2 : ZMod Secp256k1.p)) :=
      ⟨P, hP.trans hCast.symm⟩
    have hChoice : hExists.choose = P :=
      coords_injective
        ((hExists.choose_spec.trans hCast).trans hP.symm)
    simp only [reference]
    rw [dif_pos hExists, hChoice, hMultiple]

/- Multiples of the base point, computed without division. -/
theorem JacobianModule.reference_fastMultiply_G
    {m x y : Nat}
    (hBits : m < 2 ^ 257)
    (hx : x < Secp256k1.p)
    (hy : y < Secp256k1.p)
    (hReads :
      Jacobian.reads Secp256k1.p
        (Jacobian.scale Secp256k1.p 0 257 m
          ⟨Secp256k1.gx, Secp256k1.gy, 1⟩ ⟨0, 0, 0⟩)
        x y = true) :
    JacobianModule.reference.fastMultiply G m = (x, y) := by
  have hCoords := Jacobian.coords_eq_of_represents
    (Secp256k1.represents_nsmul hBits Secp256k1.coords_G)
    hReads
  rw [reference_standard.fastMultiply_G hCoords, values,
    ZMod.val_cast_of_lt hx, ZMod.val_cast_of_lt hy]

theorem JacobianModule.reference_inv
    {k i : Nat}
    (hi : i < N)
    (hInv : k * i % N = 1) :
    JacobianModule.reference.inv k N = i := by
  have hOne : (k : ZMod N) * i = 1 := by
    have hCast := congrArg (Nat.cast (R := ZMod N)) hInv
    rw [ZMod.natCast_mod] at hCast
    push_cast at hCast
    exact hCast
  have hNotZero : (k : Int) % N ≠ 0 := by
    intro hZero
    have hk : k % N = 0 := by exact_mod_cast hZero
    rw [Nat.mul_mod, hk, Nat.zero_mul, Nat.zero_mod] at hInv
    cases hInv
  rw [JacobianModule.reference_inv_eq hNotZero,
    Int.cast_natCast, ← eq_inv_of_mul_eq_one_right hOne,
    ZMod.val_cast_of_lt hi]

/- The precompiles with the Keccak hash. -/
noncomputable def standardPrecompiles : Precompiles where
  keccak := Digest.keccak256
  ecrecover := standardEcrecover Digest.keccak256

/- The hash of a message. -/
def sampleHash (data : Bytes) : Bytes :=
  Digest.keccak256 (defunctMessage data)

/- The nonce and signature of three bytes, for key one. -/
def sampleK : Nat :=
  0x8415a6cd3f287469c5aaa5845a168b7641ba4bd00cb8bb5d0b06038a95cb8dbd

def sampleR : Nat :=
  0x27f468732e886244ee6275f6d82adb8bbce64803d1d1b5a543350deaf23f1c53

def sampleS : Nat :=
  0x5eab0af573f9297d4b0cb9cbd7091e7b13efec0914e274f601182320eac819a

private theorem sample_nonce :
    deterministicGenerateK (sampleHash [1, 2, 3])
        (keyBytes 1) =
      sampleK := by
  decide +kernel

private theorem sample_multiply :
    JacobianModule.reference.fastMultiply G sampleK =
      (sampleR,
        0x5e846279be777feeca619b8c2689ca626c910c93932ee205069038c64f222e51) := by
  apply JacobianModule.reference_fastMultiply_G
  · decide +kernel
  · decide +kernel
  · decide +kernel
  · decide +kernel

private theorem sample_inv :
    JacobianModule.reference.inv sampleK N =
      0x3df8e146fb0a92613dd6b1c29063198bccc773adc46ae34a78b7ad476cb1c874 := by
  apply JacobianModule.reference_inv
  · decide
  · decide

private theorem sample_sign :
    ecdsaRawSign JacobianModule.reference
        (sampleHash [1, 2, 3]) (keyBytes 1) 0 =
      (0, sampleR, sampleS) := by
  simp only [ecdsaRawSign, chooseNonce_zero, sample_nonce,
    sample_multiply, sample_inv]
  decide +kernel

theorem JacobianModule.reference_fastMultiply_one :
    JacobianModule.reference.fastMultiply G (1 : Nat) =
      G := by
  apply JacobianModule.reference_fastMultiply_G
  · decide +kernel
  · decide +kernel
  · decide +kernel
  · decide +kernel

/- Three bytes, signed with the key one. -/
theorem recoversTo_signEthData_sample :
    ∃ sig,
      signEthData JacobianModule.reference sampleHash
          (keyBytes 1) [1, 2, 3] =
        .ok sig ∧
      RecoversTo standardPrecompiles [1, 2, 3] sig
        0x7e5f4552091a69125d5dfcb7b8c2659029395bdf := by
  have hAddress :
      ethAddress standardPrecompiles.keccak
          (encodeRawPublicKey
            (JacobianModule.reference.fastMultiply G
              (1 : Nat))) =
        0x7e5f4552091a69125d5dfcb7b8c2659029395bdf := by
    rw [JacobianModule.reference_fastMultiply_one]
    change ethAddress Digest.keccak256 (encodeRawPublicKey G) =
      _
    decide +kernel
  have hNonce :
      deterministicGenerateK (sampleHash [1, 2, 3])
          (keyBytes 1) % N ≠ 0 := by
    rw [sample_nonce]
    decide +kernel
  have hRecovers := recoversTo_signEthData
    JacobianModule.reference
    JacobianModule.reference_standard standardPrecompiles rfl
    sampleHash (fun _ => rfl) [1, 2, 3] 1 (by decide +kernel)
    (by decide +kernel) 0 sampleR sampleS hNonce sample_sign
    (by decide +kernel) (by decide +kernel)
    (by decide +kernel) (by rw [hAddress]; decide +kernel)
  rcases hRecovers.1 with ⟨sig, hSig, _, hSigner⟩
  rw [hAddress] at hSigner
  exact ⟨sig, hSig, hSigner⟩

end Ecdsa
