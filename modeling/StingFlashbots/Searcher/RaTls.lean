import StingFlashbots.Searcher.Value

/-
  The attested connection to the builder.

  The session is built from a certificate file. During the
  handshake OpenSSL hands the callback the certificates it
  goes through, each with its own verdict, and the callback
  asks the attestation library about a certificate. The TCP
  connection is taken to be established.

  Key definitions include:
    * `RaTls.verifyCallback`
    * `RaTls.doHandshake`
    * `RaTls.getRaTlsSession`
    * `RaTls.AttestsPeer`

  Main results:
    * `RaTls.doHandshake_eq_ok_iff`
    * `RaTls.getRaTlsSession_attests_iff`
-/

namespace RaTls

open Sting

------------------------------------------------------------
-- Parties
------------------------------------------------------------

/- A certificate with OpenSSL's verdict on it. -/
structure PreVerify where
  x509 : Bytes
  errnum : Nat
  depth : Nat
  ok : Bool
deriving DecidableEq, Repr

/-
  The other side of the connection: its certificate, and
  what OpenSSL hands the callback on the way through the
  chain. The certificate itself is handed over at depth 0.
-/
structure Peer where
  certificate : Bytes
  handed : List PreVerify
  handsCertificate :
    ∃ pre ∈ handed, pre.x509 = certificate ∧ pre.depth = 0

/-
  The attestation library: what
  `ra_tls_verify_callback_extended_der` returns for a
  certificate, zero if it accepts.
-/
abbrev VerifyLib := Bytes → Int

/-
  Whether OpenSSL reads a certificate from the text that is
  made of some bytes.
-/
abbrev PemReader := Bytes → Bool

/- A call of the library. -/
structure LibCall where
  der : Bytes
  ret : Int
deriving DecidableEq, Repr

/- The globals of the module. -/
structure Globals where
  certDer : Option Bytes
  host : Option String
  port : Option Nat
deriving DecidableEq, Repr

/-
  A session: the certificate its context trusts and the
  calls of the library made during the handshake.
-/
structure Session where
  trusted : Bytes
  calls : List LibCall
deriving DecidableEq, Repr

------------------------------------------------------------
-- The Handshake
------------------------------------------------------------

variable (pem : PemReader)
variable (lib : VerifyLib)

/- `load_verify_locations`, for the text of a certificate. -/
def loadVerifyLocations (der : Bytes) : Py Unit :=
  if pem der = true then
    .ok ()
  else
    .error .sslError

/- `verify_callback`, with the call of the library it made. -/
def verifyCallback
    (globals : Globals)
    (_x509 : Bytes)
    (_errnum depth : Nat)
    (_ok : Bool) : Py (Bool × LibCall) := do
  -- because this is a self signed certificate
  pyAssert (depth = 0)
  match globals.certDer with
  | none => throw .typeError
  | some certDer =>
      let ret := lib certDer
      return (ret = 0, ⟨certDer, ret⟩)

/-
  `do_handshake`. It goes on as long as the callback returns
  true, whatever OpenSSL's own verdict was.
-/
def doHandshake
    (globals : Globals) :
    List PreVerify → Py (List LibCall)
| [] => .ok []
| pre :: rest => do
    let (accepted, call) ← verifyCallback lib globals
      pre.x509 pre.errnum pre.depth pre.ok
    if accepted then
      let calls ← doHandshake globals rest
      return call :: calls
    else
      throw .sslError

/-
  `get_ra_tls_session`. The file is read twice: once for the
  certificate the context trusts and once for the global.
-/
def getRaTlsSession
    (host : String)
    (port : Nat)
    (reads : Nat → Bytes)
    (peer : Peer) : Py (Globals × Session) := do
  let trusted := reads 0
  loadVerifyLocations pem trusted
  let globals : Globals :=
    { certDer := some (reads 1)
      host := some host
      port := some port }
  let calls ← doHandshake lib globals peer.handed
  return (globals, { trusted := trusted, calls := calls })

------------------------------------------------------------
-- When the Peer is Attested
------------------------------------------------------------

/-
  If the handshake completes, the certificates the library
  accepted are the one of the peer.
-/
def AttestsPeer
    (peer : Peer)
    (result : Py (Globals × Session)) : Prop :=
  ∀ globals session,
    result = .ok (globals, session) →
      (∃ call ∈ session.calls,
        call.ret = 0 ∧ call.der = peer.certificate) ∧
      ∀ call ∈ session.calls,
        call.ret = 0 → call.der = peer.certificate

variable {pem : PemReader}
variable {lib : VerifyLib}

theorem loadVerifyLocations_eq_ok
    {der : Bytes}
    {u : Unit} :
    loadVerifyLocations pem der = .ok u ↔
      pem der = true := by
  unfold loadVerifyLocations
  split_ifs with hPem <;> simp [hPem]

private theorem verifyCallback_eq
    {globals : Globals}
    {certDer : Bytes}
    (hCert : globals.certDer = some certDer)
    (pre : PreVerify) :
    verifyCallback lib globals
        pre.x509 pre.errnum pre.depth pre.ok =
      if pre.depth = 0 then
        .ok (lib certDer = 0, ⟨certDer, lib certDer⟩)
      else
        .error .assertionError := by
  unfold verifyCallback
  rw [hCert]
  split_ifs with hDepth
  · rw [pyAssert_pos hDepth]
    rfl
  · rw [pyAssert_neg hDepth]
    rfl

private theorem doHandshake_cons
    {globals : Globals}
    {certDer : Bytes}
    (hCert : globals.certDer = some certDer)
    (pre : PreVerify)
    (rest : List PreVerify)
    (calls : List LibCall) :
    doHandshake lib globals (pre :: rest) = .ok calls ↔
      (pre.depth = 0 ∧ lib certDer = 0) ∧
      ∃ others,
        doHandshake lib globals rest = .ok others ∧
        calls = ⟨certDer, 0⟩ :: others := by
  rw [doHandshake, verifyCallback_eq hCert]
  by_cases hDepth : pre.depth = 0
  · by_cases hRet : lib certDer = 0
    · simp only [hDepth, hRet, if_true, ok_bind,
        decide_true, bind_eq_ok, true_and]
      apply exists_congr
      intro others
      apply and_congr_right
      intro _
      exact ⟨fun h => (Except.ok.inj h).symm,
        fun h => congrArg Except.ok h.symm⟩
    · rw [if_pos hDepth, ok_bind]
      simp only [hRet, decide_false, Bool.false_eq_true,
        if_false, and_false, false_and, iff_false]
      intro hOk
      cases hOk
  · rw [if_neg hDepth]
    simp [hDepth]

/- A handshake completes when every callback accepts. -/
theorem doHandshake_eq_ok_iff
    {globals : Globals}
    {certDer : Bytes}
    (hCert : globals.certDer = some certDer)
    (handed : List PreVerify)
    (calls : List LibCall) :
    doHandshake lib globals handed = .ok calls ↔
      (∀ pre ∈ handed, pre.depth = 0 ∧ lib certDer = 0) ∧
      calls = handed.map fun _ => ⟨certDer, 0⟩ := by
  induction handed generalizing calls with
  | nil => simp [doHandshake, eq_comm]
  | cons pre rest ih =>
      rw [doHandshake_cons hCert, List.forall_mem_cons]
      constructor
      · rintro ⟨hFirst, others, hRest, rfl⟩
        rcases (ih others).mp hRest with ⟨hAll, rfl⟩
        exact ⟨⟨hFirst, hAll⟩, rfl⟩
      · rintro ⟨⟨hFirst, hAll⟩, rfl⟩
        exact ⟨hFirst, _, (ih _).mpr ⟨hAll, rfl⟩, rfl⟩

/- Every session attests the file, whoever the peer is. -/
theorem getRaTlsSession_eq_ok_iff
    {host : String}
    {port : Nat}
    {reads : Nat → Bytes}
    {peer : Peer}
    {globals : Globals}
    {session : Session} :
    getRaTlsSession pem lib host port reads peer =
        .ok (globals, session) ↔
      pem (reads 0) = true ∧
      (∀ pre ∈ peer.handed,
        pre.depth = 0 ∧ lib (reads 1) = 0) ∧
      globals = ⟨some (reads 1), some host, some port⟩ ∧
      session =
        ⟨reads 0,
          peer.handed.map fun _ => ⟨reads 1, 0⟩⟩ := by
  unfold getRaTlsSession
  rw [bind_eq_ok]
  constructor
  · rintro ⟨_, hLoad, hOk⟩
    rcases bind_eq_ok.mp hOk with ⟨calls, hCalls, hOk⟩
    rcases (doHandshake_eq_ok_iff rfl _ _).mp hCalls with
      ⟨hAll, rfl⟩
    cases hOk
    exact ⟨loadVerifyLocations_eq_ok.mp hLoad, hAll, rfl,
      rfl⟩
  · rintro ⟨hPem, hAll, rfl, rfl⟩
    refine ⟨(), loadVerifyLocations_eq_ok.mpr hPem, ?_⟩
    exact bind_eq_ok.mpr
      ⟨_, (doHandshake_eq_ok_iff rfl _ _).mpr ⟨hAll, rfl⟩,
        rfl⟩

/-
  The peer is attested exactly when its certificate is the
  one in the file, or the handshake does not complete:
  OpenSSL finds no certificate in the file, a certificate
  comes at another depth, or the library rejects the file.
-/
theorem getRaTlsSession_attests_iff
    (pem : PemReader)
    (lib : VerifyLib)
    (host : String)
    (port : Nat)
    (reads : Nat → Bytes)
    (peer : Peer) :
    AttestsPeer peer
        (getRaTlsSession pem lib host port reads peer) ↔
      reads 1 = peer.certificate ∨
      pem (reads 0) = false ∨
      (∃ pre ∈ peer.handed, pre.depth ≠ 0) ∨
      lib (reads 1) ≠ 0 := by
  rcases peer.handsCertificate with ⟨own, hOwn, _, _⟩
  constructor
  · intro hAttests
    by_contra hNot
    push Not at hNot
    rcases hNot with ⟨hOther, hPem, hDepths, hRet⟩
    have hPem := Bool.eq_true_of_not_eq_false hPem
    have hAll :
        ∀ pre ∈ peer.handed,
          pre.depth = 0 ∧ lib (reads 1) = 0 :=
      fun pre hPre => ⟨hDepths pre hPre, hRet⟩
    rcases hAttests _ _ (getRaTlsSession_eq_ok_iff.mpr
      ⟨hPem, hAll, rfl, rfl⟩) with ⟨_, hEvery⟩
    apply hOther
    exact hEvery ⟨reads 1, 0⟩
      (List.mem_map.mpr ⟨own, hOwn, rfl⟩) rfl
  · intro hCase globals session hDone
    rcases getRaTlsSession_eq_ok_iff.mp hDone with
      ⟨hPem, hAll, _, rfl⟩
    have hSame : reads 1 = peer.certificate := by
      rcases hCase with hSame | hNone | ⟨pre, hPre, hDepth⟩ |
        hRet
      · exact hSame
      · rw [hNone] at hPem
        cases hPem
      · exact absurd (hAll pre hPre).1 hDepth
      · exact absurd (hAll own hOwn).2 hRet
    constructor
    · exact ⟨⟨reads 1, 0⟩,
        List.mem_map.mpr ⟨own, hOwn, rfl⟩, rfl, hSame⟩
    · intro call hCall _
      rcases List.mem_map.mp hCall with ⟨_, _, rfl⟩
      exact hSame

------------------------------------------------------------
-- An Impostor
------------------------------------------------------------

/- Sequences of the outer tag are certificates. -/
def samplePem : PemReader :=
  fun der => der.head? = some 0x30

/- A library that accepts one certificate. -/
def sampleLib : VerifyLib :=
  fun der => if der = [0x30, 1, 0] then 0 else -0x2700

/-
  A peer with a self-signed certificate of its own, which
  OpenSSL reports.
-/
def samplePeer : Peer where
  certificate := [0x30, 1, 1]
  handed := [⟨[0x30, 1, 1], 18, 0, false⟩,
    ⟨[0x30, 1, 1], 18, 0, true⟩]
  handsCertificate := by decide

/- The impostor is let in on the builder's certificate. -/
theorem getRaTlsSession_attests_impostor :
    ¬ AttestsPeer samplePeer
      (getRaTlsSession samplePem sampleLib "builder" 8545
        (fun _ => [0x30, 1, 0]) samplePeer) := by
  intro hAttests
  have hDone :
      getRaTlsSession samplePem sampleLib "builder" 8545
          (fun _ => [0x30, 1, 0]) samplePeer =
        .ok (⟨some [0x30, 1, 0], some "builder", some 8545⟩,
          ⟨[0x30, 1, 0],
            [⟨[0x30, 1, 0], 0⟩, ⟨[0x30, 1, 0], 0⟩]⟩) := by
    decide
  rcases hAttests _ _ hDone with ⟨_, hEvery⟩
  have hSame := hEvery ⟨[0x30, 1, 0], 0⟩ (by simp) rfl
  revert hSame
  decide

end RaTls
