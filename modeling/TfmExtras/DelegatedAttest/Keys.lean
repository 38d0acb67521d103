import TfmExtras.DelegatedAttest.BootState

/-! The delegated attestation key and the platform token of `delegated_attest.c`. The crypto and
attestation services are not part of the repository: they answer calls out of a state of their
own. -/

namespace DelegatedAttest
open MeasuredBoot

/-! ## Calls to other services -/

abbrev PsaStatus := Int

def psaSuccess : PsaStatus := 0
def psaErrorProgrammerError : PsaStatus := -129
def psaErrorGenericError : PsaStatus := -132
def psaErrorNotPermitted : PsaStatus := -133
def psaErrorNotSupported : PsaStatus := -134
def psaErrorInvalidArgument : PsaStatus := -135
def psaErrorInvalidHandle : PsaStatus := -136
def psaErrorBadState : PsaStatus := -137
def psaErrorBufferTooSmall : PsaStatus := -138
def psaErrorDoesNotExist : PsaStatus := -140

/-- The status code of an error. -/
def statusOf : Error → PsaStatus
  | .genericError => psaErrorGenericError
  | .notPermitted => psaErrorNotPermitted
  | .notSupported => psaErrorNotSupported
  | .invalidArgument => psaErrorInvalidArgument
  | .doesNotExist => psaErrorDoesNotExist
  | .badState => psaErrorBadState
  | .bufferTooSmall => psaErrorBufferTooSmall
  | .programmerError => psaErrorProgrammerError

def psaKeyIdNull : Nat := 0
def psaAlgNone : Nat := 0

/-- `PSA_ALG_HKDF(PSA_ALG_SHA_256)`. -/
def psaAlgHkdfSha256 : Nat := 0x08000109

/-- `PSA_KEY_EXPORT_ECC_PUBLIC_KEY_MAX_SIZE`. -/
def psaKeyExportEccPublicKeyMaxSize (keyBits : Nat) : Nat := 2 * ((keyBits + 7) / 8) + 1

/-- The attributes of a key pair on a curve. The only usage is the export. -/
structure KeyAttributes where
  eccCurve : Nat
  bits : Nat
deriving DecidableEq, Repr

inductive Call
  | hashSetup (alg : Nat)
  | hashAbort
  | destroyKey (id : Nat)
  | keyDerivationSetup (alg : Nat)
  | keyDerivationInputDakSeed
  | keyDerivationInputInfo (data : List UInt8)
  | keyDerivationOutputKey (attributes : KeyAttributes)
  | keyDerivationAbort
  | exportKey (id dataSize : Nat)
  | exportPublicKey (id dataSize : Nat)
  | hashCompare (alg : Nat) (input hash : List UInt8)
  | initialAttestGetToken (authChallenge : List UInt8) (tokenBufSize : Nat)
deriving DecidableEq, Repr

/-- The status, the bytes written to the buffer of the call, and the key id written. -/
structure Answer where
  status : PsaStatus
  data : List UInt8
  keyId : Option Nat
deriving DecidableEq, Repr

abbrev Services (κ : Type) := Call → κ → Answer × κ

/-- What the partition is built against. -/
structure Platform (κ : Type) where
  services : Services κ
  psaHashLength : Nat → Nat
  encode : List CborItem → List UInt8
  tfmAttestBootRecordsMaxSize : Nat
  psaInitialAttestTokenMaxSize : Nat

/-- The static variables, the state of the services and the calls made so far. -/
structure State (κ : Type) where
  dakKeyId : Nat
  dakRequested : Bool
  dakPubHashAlgo : Nat
  services : κ
  calls : List Call

variable {κ : Type}

def State.init (services : κ) : State κ := ⟨psaKeyIdNull, false, psaAlgNone, services, []⟩

def State.call (s : State κ) (p : Platform κ) (c : Call) : Answer × State κ :=
  ((p.services c s.services).1,
    { s with services := (p.services c s.services).2, calls := s.calls ++ [c] })

/-! ## The functions -/

section
variable (p : Platform κ)

def verifyDakPubHash (dakPubHash : List UInt8) (s : State κ) : PsaStatus × State κ :=
  if dakPubHash.length ≠ p.psaHashLength s.dakPubHashAlgo then (psaErrorInvalidArgument, s)
  else
    let (pubKey, s) := s.call p (.exportPublicKey s.dakKeyId (psaKeyExportEccPublicKeyMaxSize 521))
    if pubKey.status ≠ psaSuccess then (psaErrorGenericError, s)
    else
      let (a, s) := s.call p (.hashCompare s.dakPubHashAlgo pubKey.data dakPubHash)
      if a.status ≠ psaSuccess then (psaErrorInvalidArgument, s)
      else (a.status, s)

/-- The label `err_release_op`. -/
def errReleaseOp (s : State κ) : PsaStatus × List UInt8 × State κ :=
  let (_, s) := s.call p .keyDerivationAbort
  (psaErrorGenericError, [], s)

/-- The label `err_release_key`. -/
def errReleaseKey (s : State κ) : PsaStatus × List UInt8 × State κ :=
  let (_, s) := s.call p (.destroyKey s.dakKeyId)
  errReleaseOp p s

/-- The end of `derive_delegated_attestation_key`, once there is a key. -/
def exportDelegatedAttestationKey (keyBufLen : Nat) (s : State κ) :
    PsaStatus × List UInt8 × State κ :=
  let (key, s) := s.call p (.exportKey s.dakKeyId keyBufLen)
  if key.status ≠ psaSuccess then errReleaseKey p s
  else
    let (a, s) := s.call p .keyDerivationAbort
    (a.status, key.data, s)

/-- The part of `derive_delegated_attestation_key` from the output of the key on. -/
def outputDelegatedAttestationKey (eccCurve keyBits keyBufLen : Nat) (s : State κ) :
    PsaStatus × List UInt8 × State κ :=
  let (a, s) := s.call p (.keyDerivationOutputKey ⟨eccCurve, keyBits⟩)
  let s := { s with dakKeyId := a.keyId.getD s.dakKeyId }
  if a.status ≠ psaSuccess then errReleaseOp p s
  else exportDelegatedAttestationKey p keyBufLen s

/-- The old key is destroyed before the new one is derived. -/
def deriveDelegatedAttestationKey (eccCurve keyBits : Nat) (salt : List UInt8) (keyBufLen : Nat)
    (s : State κ) : PsaStatus × List UInt8 × State κ :=
  if salt.length = 0 then (psaErrorInvalidArgument, [], s)
  else
    let (a, s) := s.call p (.destroyKey s.dakKeyId)
    if a.status ≠ psaSuccess ∧ a.status ≠ psaErrorInvalidHandle then (a.status, [], s)
    else
      let (a, s) := s.call p (.keyDerivationSetup psaAlgHkdfSha256)
      if a.status ≠ psaSuccess then (a.status, [], s)
      else
        let (a, s) := s.call p .keyDerivationInputDakSeed
        if a.status ≠ psaSuccess then errReleaseOp p s
        else
          let (a, s) := s.call p (.keyDerivationInputInfo salt)
          if a.status ≠ psaSuccess then errReleaseOp p s
          else outputDelegatedAttestationKey p eccCurve keyBits keyBufLen s

/-- The boot state is read from the measurement slots as they are at the request. -/
def delegatedAttestGetDelegatedKey (slots : MeasurementSlots) (eccCurve keyBits keyBufSize : Nat)
    (hashAlgo : Nat) (s : State κ) : PsaStatus × List UInt8 × State κ :=
  let (a, s) := s.call p (.hashSetup hashAlgo)
  let (_, s) := s.call p .hashAbort
  if a.status ≠ psaSuccess then (a.status, [], s)
  else match getPlatformBootState (fun items => (p.encode items).length) slots
      p.tfmAttestBootRecordsMaxSize with
    | .error e => (statusOf e, [], s)
    | .ok (items, _) =>
      let (status, key, s) :=
        deriveDelegatedAttestationKey p eccCurve keyBits (p.encode items) keyBufSize s
      if status ≠ psaSuccess then (status, key, s)
      else (psaSuccess, key, { s with dakRequested := true, dakPubHashAlgo := hashAlgo })

def delegatedAttestGetPlatformToken (dakPubHash : List UInt8) (tokenBufSize : Nat) (s : State κ) :
    PsaStatus × List UInt8 × State κ :=
  if !s.dakRequested then (psaErrorInvalidArgument, [], s)
  else
    let (status, s) := verifyDakPubHash p dakPubHash s
    if status ≠ psaSuccess then (status, [], s)
    else
      let (token, s) := s.call p (.initialAttestGetToken dakPubHash tokenBufSize)
      if token.status ≠ psaSuccess then (token.status, [], s)
      else (psaSuccess, token.data, s)

end

end DelegatedAttest
