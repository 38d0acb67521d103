import TfmExtras.DelegatedAttest.Keys
import TfmExtras.Lib.Bytes
import TfmExtras.Lib.Ipc

/-! The Delegated Attestation partition, from the message to the reply:
`delegated_attest_req_mngr.c`. -/

namespace DelegatedAttest
open MeasuredBoot Bytes Ipc

variable {κ : Type} (p : Platform κ)

def psaEccFamilySecpR1 : Nat := 0x12

/-- `PSA_KEY_EXPORT_ECC_KEY_PAIR_MAX_SIZE`. -/
def psaKeyExportEccKeyPairMaxSize (keyBits : Nat) : Nat := (keyBits + 7) / 8

/-- The size of `dak_buf`. -/
def delegatedAttestKeyMaxSize : Nat := psaKeyExportEccKeyPairMaxSize 521

def eccFamilySize : Nat := 1
def keyBitsSize : Nat := 4
def algorithmSize : Nat := 4

/-- `PSA_HASH_LENGTH` of SHA-256, SHA-384 and SHA-512; the last is the size of `dak_pub_hash`. -/
def sha256Length : Nat := 32
def sha384Length : Nat := 48
def sha512Length : Nat := 64

def getDelegatedAttestationKey (slots : MeasurementSlots) (msg : Msg) (s : State κ)
    (io : Io PsaStatus) : PsaStatus × State κ × Io PsaStatus :=
  if msg.inSize 0 ≠ eccFamilySize ∨ msg.inSize 1 ≠ keyBitsSize ∨ msg.inSize 2 ≠ algorithmSize then
    (psaErrorProgrammerError, s, io)
  else
    let (eccCurve, io) := io.psaRead msg 0 eccFamilySize eccFamilySize
    if eccCurve.length ≠ eccFamilySize then (psaErrorGenericError, s, io)
    else
      let (keyBits, io) := io.psaRead msg 1 keyBitsSize keyBitsSize
      if keyBits.length ≠ keyBitsSize then (psaErrorGenericError, s, io)
      else
        let (hashAlgo, io) := io.psaRead msg 2 algorithmSize algorithmSize
        if hashAlgo.length ≠ algorithmSize then (psaErrorGenericError, s, io)
        else if leNat eccCurve ≠ psaEccFamilySecpR1 then (psaErrorInvalidArgument, s, io)
        else if leNat keyBits ≠ 256 ∧ leNat keyBits ≠ 384 ∧ leNat keyBits ≠ 521 then
          (psaErrorInvalidArgument, s, io)
        else if msg.outSize 0 < psaKeyExportEccKeyPairMaxSize (leNat keyBits) then
          (psaErrorBufferTooSmall, s, io)
        else
          let keyBufSize := min (msg.outSize 0) delegatedAttestKeyMaxSize
          let (status, key, s) := delegatedAttestGetDelegatedKey p slots (leNat eccCurve)
            (leNat keyBits) keyBufSize (leNat hashAlgo) s
          (status, s, if status = psaSuccess then io.psaWrite 0 key else io)

/-- The hash is read before its size is checked. -/
def getPlatformAttestationToken (msg : Msg) (s : State κ) (io : Io PsaStatus) :
    PsaStatus × State κ × Io PsaStatus :=
  let dakPubHashSize := msg.inSize 0
  let (dakPubHash, io) := io.psaRead msg 0 sha512Length dakPubHashSize
  if dakPubHash.length ≠ dakPubHashSize then (psaErrorGenericError, s, io)
  else
    let tokenBufSize := min (msg.outSize 0) p.psaInitialAttestTokenMaxSize
    if dakPubHashSize ≠ sha256Length ∧ dakPubHashSize ≠ sha384Length ∧
        dakPubHashSize ≠ sha512Length then (psaErrorInvalidArgument, s, io)
    else
      let (status, token, s) := delegatedAttestGetPlatformToken p dakPubHash tokenBufSize s
      (status, s, if status = psaSuccess then io.psaWrite 0 token else io)

/-! ## The loop -/

def delegatedAttestGetDelegatedKeyType : Int := 1001
def delegatedAttestGetPlatformTokenType : Int := 1002

def delegatedAttestationSignalHandle (slots : MeasurementSlots) (msg : Option Msg) (s : State κ) :
    List (Event PsaStatus) × State κ :=
  match msg with
  | none => ([], s)
  | some msg =>
    if msg.type = delegatedAttestGetDelegatedKeyType then
      let (status, s, io) := getDelegatedAttestationKey p slots msg s .start
      (.get msg.handle :: (io.psaReply msg.handle status).events, s)
    else if msg.type = delegatedAttestGetPlatformTokenType then
      let (status, s, io) := getPlatformAttestationToken p msg s .start
      (.get msg.handle :: (io.psaReply msg.handle status).events, s)
    else ([.get msg.handle, .panic], s)

/-- The signals of the services of the partition. -/
inductive Signal
  | delegatedAttestation

/-- One round of the loop of `delegated_attest_partition_main`; the measurement slots are those
that the Measured Boot partition has at the time. -/
def delegatedAttestationRound (i : Pending Signal × MeasurementSlots) (s : State κ) :
    List (Event PsaStatus) × State κ :=
  if (i.1.msg .delegatedAttestation).isSome then
    delegatedAttestationSignalHandle p i.2 (i.1.msg .delegatedAttestation) s
  else ([.panic], s)

end DelegatedAttest
