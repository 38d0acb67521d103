import TfmExtras.Etss.FlashFs
import TfmExtras.Lib.Ipc

/-! The ETSS partition, from the message to the reply: `external_trusted_secure_storage.c` and
`etss_req_mngr.c`. The filesystem that a client's requests go to is a parameter, and so is its
state `φ`. -/

namespace Etss
open Bytes Ipc

/-! ## What the partition works on -/

/-- The calls to the filesystem of a client. -/
structure FileSystem (φ : Type) where
  fileGetInfo : Fid → φ → Except Status FileInfo × φ
  fileWrite : Fid → (flags maxSize dataSize offset : Nat) → (Nat → UInt8) → φ →
    Except Status Unit × φ
  fileRead : Fid → (size offset : Nat) → φ → Except Status (List UInt8) × φ
  fileDelete : Fid → φ → Except Status Unit × φ

/-- `security_feature`. -/
structure SecurityFeature where
  securityStorage : Bool
  puf : Bool
  rng : Bool
  rpmc : Bool

/-- What the partition is built with. Without client isolation every client has the same
filesystem. The vendor's provisioning is not part of the repository. -/
structure Platform (φ : Type) where
  securityFeature : SecurityFeature
  fsCtx : Int → Option (FileSystem φ)
  assetDataSize : Nat
  provBlobLenMax : Nat
  performAndVerify : List UInt8 → φ → Bool × φ
  assetDataSize_pos : 0 < assetDataSize

/-- The filesystems and the buffer `asset_data`. -/
structure Partition (φ : Type) where
  fs : φ
  assetData : Nat → UInt8

/-- What the local variables hold that are not initialised. -/
structure Locals where
  actualSize : UInt8
  buf : Nat → UInt8

abbrev Reply := Except Status Unit

/-- The reply, the partition and the traffic; nothing when the call does not return. -/
abbrev Result (φ : Type) := Option (Reply × Partition φ × Io Reply)

variable {φ : Type} (p : Platform φ)

def bytesOf (buf : Nat → UInt8) (n : Nat) : List UInt8 := (List.range n).map buf

/-- The buffer with `bs` copied to its start. -/
def fillBuf (buf : Nat → UInt8) (bs : List UInt8) : Nat → UInt8 := fun i => bs.getD i (buf i)

/-! ## Assets -/

def etssInvalidUid : Nat := 0

def psaStorageFlagWriteOnce : Nat := 1
def psaStorageFlagNoConfidentiality : Nat := 2
def psaStorageFlagNoReplayProtection : Nat := 4

def supportedFlags : Nat :=
  psaStorageFlagWriteOnce ||| psaStorageFlagNoConfidentiality ||| psaStorageFlagNoReplayProtection

/-- The client id in the low four bytes, the uid above it. -/
def etssGetFid (clientId : Int) (uid : Nat) : Fid :=
  BitVec.ofNat 96 ((clientId % 2 ^ 32).toNat + 2 ^ 32 * (uid % 2 ^ 64))

/-- The loop of `etss_set`. -/
def etssSetLoop (fs : FileSystem φ) (fid : Fid) (msg : Msg) (flags dataLength offset : Nat)
    (s : Partition φ) (io : Io Reply) : Reply × Partition φ × Io Reply :=
  let writeSize := min dataLength p.assetDataSize
  let (buf, io) := io.psaRead msg 1 p.assetDataSize writeSize
  let assetData := fillBuf s.assetData buf
  match fs.fileWrite fid flags dataLength writeSize offset assetData s.fs with
  | (.error e, φ) => (.error e, ⟨φ, assetData⟩, io)
  | (.ok (), φ) =>
    let flags := flags &&& not32 (flagCreate ||| flagTruncate)
    if h : dataLength - writeSize > 0 then
      have : dataLength - min dataLength p.assetDataSize < dataLength := by
        have := p.assetDataSize_pos
        omega
      etssSetLoop fs fid msg flags (dataLength - writeSize) (offset + writeSize) ⟨φ, assetData⟩ io
    else (.ok (), ⟨φ, assetData⟩, io)
termination_by dataLength

def etssSet (msg : Msg) (uid dataLength createFlags : Nat) (s : Partition φ) (io : Io Reply) :
    Reply × Partition φ × Io Reply :=
  if p.securityFeature.securityStorage then
    if uid = etssInvalidUid then (.error .invalidArgument, s, io)
    else if createFlags &&& not32 supportedFlags ≠ 0 then (.error .notSupported, s, io)
    else
      let fid := etssGetFid msg.clientId uid
      match p.fsCtx msg.clientId with
      | none => (.error .notPermitted, s, io)
      | some fs =>
        let (info, φ) := fs.fileGetInfo fid s.fs
        let s := { s with fs := φ }
        let write := etssSetLoop p fs fid msg (createFlags ||| flagCreate ||| flagTruncate)
          dataLength 0 s io
        match info with
        | .ok info =>
          if info.flags &&& psaStorageFlagWriteOnce ≠ 0 then (.error .notPermitted, s, io)
          else write
        | .error .doesNotExist => write
        | .error e => (.error e, s, io)
  else (.error .notSupported, s, io)

/-- The loop of `etss_get`. -/
def etssGetLoop (fs : FileSystem φ) (fid : Fid) (dataSize dataOffset : Nat) (s : Partition φ)
    (io : Io Reply) : Reply × Partition φ × Io Reply :=
  let readSize := min dataSize p.assetDataSize
  match fs.fileRead fid readSize dataOffset s.fs with
  | (.error e, φ) => (.error e, { s with fs := φ }, io)
  | (.ok bs, φ) =>
    let assetData := fillBuf s.assetData bs
    let io := io.psaWrite 0 (bytesOf assetData readSize)
    if h : dataSize - readSize > 0 then
      have : dataSize - min dataSize p.assetDataSize < dataSize := by
        have := p.assetDataSize_pos
        omega
      etssGetLoop fs fid (dataSize - readSize) (dataOffset + readSize) ⟨φ, assetData⟩ io
    else (.ok (), ⟨φ, assetData⟩, io)
termination_by dataSize

def etssGet (msg : Msg) (uid dataOffset dataSize : Nat) (s : Partition φ) (io : Io Reply) :
    Reply × Partition φ × Io Reply :=
  if p.securityFeature.securityStorage then
    if uid = etssInvalidUid then (.error .invalidArgument, s, io)
    else
      let fid := etssGetFid msg.clientId uid
      match p.fsCtx msg.clientId with
      | none => (.error .notPermitted, s, io)
      | some fs =>
        match fs.fileGetInfo fid s.fs with
        | (.error e, φ) => (.error e, { s with fs := φ }, io)
        | (.ok info, φ) =>
          if dataOffset > info.sizeCurrent then (.error .invalidArgument, { s with fs := φ }, io)
          else etssGetLoop p fs fid (min dataSize (info.sizeCurrent - dataOffset)) dataOffset
            { s with fs := φ } io
  else (.error .notSupported, s, io)

/-- `psa_storage_info_t`. -/
structure StorageInfo where
  capacity : Nat
  size : Nat
  flags : Nat

def StorageInfo.encode (i : StorageInfo) : List UInt8 :=
  leBytes 4 i.capacity ++ leBytes 4 i.size ++ leBytes 4 i.flags

def storageInfoSize : Nat := 12

def etssGetInfo (msg : Msg) (uid : Nat) (s : Partition φ) :
    Except Status StorageInfo × Partition φ :=
  if p.securityFeature.securityStorage then
    if uid = etssInvalidUid then (.error .invalidArgument, s)
    else
      let fid := etssGetFid msg.clientId uid
      match p.fsCtx msg.clientId with
      | none => (.error .notPermitted, s)
      | some fs =>
        match fs.fileGetInfo fid s.fs with
        | (.error e, φ) => (.error e, { s with fs := φ })
        | (.ok info, φ) =>
          (.ok ⟨info.sizeCurrent, info.sizeCurrent, info.flags⟩, { s with fs := φ })
  else (.error .notSupported, s)

def etssRemove (msg : Msg) (uid : Nat) (s : Partition φ) : Reply × Partition φ :=
  if p.securityFeature.securityStorage then
    if uid = etssInvalidUid then (.error .invalidArgument, s)
    else
      let fid := etssGetFid msg.clientId uid
      match p.fsCtx msg.clientId with
      | none => (.error .notPermitted, s)
      | some fs =>
        match fs.fileGetInfo fid s.fs with
        | (.error e, φ) => (.error e, { s with fs := φ })
        | (.ok info, φ) =>
          if info.flags &&& psaStorageFlagWriteOnce ≠ 0 then
            (.error .notPermitted, { s with fs := φ })
          else
            let (status, φ) := fs.fileDelete fid φ
            (status, { s with fs := φ })
  else (.error .notSupported, s)

/-! ## The other services -/

/-- The three bodies are still to be written: they succeed and leave their outputs as they are. -/
def secureflashGetPuf (actualSize : UInt8) : Except Status UInt8 := .ok actualSize

def secureflashGetTrng (actualSize : UInt8) : Except Status UInt8 := .ok actualSize

def secureflashGetMc (actualSize : UInt8) : Except Status UInt8 := .ok actualSize

def secureflashIncreaseMc : Except Status Unit := .ok ()

def etssGetPuf (l : Locals) (bufSize : Nat) (io : Io Reply) : Reply × Io Reply :=
  if p.securityFeature.puf then
    match secureflashGetPuf l.actualSize with
    | .error _ => (.error .storageFailure, io)
    | .ok actualSize => (.ok (), io.psaWrite 0 (bytesOf l.buf (min bufSize actualSize.toNat)))
  else (.error .notSupported, io)

/-- The loop of `etss_generate_random_number`, for at most `n` rounds. -/
def generateRandomLoop (l : Locals) :
    Nat → (bufSize : Nat) → (actualSize : UInt8) → Io Reply → Option (Reply × Io Reply)
  | _, 0, _, io => some (.ok (), io)
  | 0, _ + 1, _, _ => none
  | n + 1, bufSize + 1, actualSize, io =>
    match secureflashGetTrng actualSize with
    | .error _ => some (.error .storageFailure, io)
    | .ok actualSize =>
      let actualSize := UInt8.ofNat (min (bufSize + 1) actualSize.toNat)
      generateRandomLoop l n (bufSize + 1 - actualSize.toNat) actualSize
        (io.psaWrite 0 (bytesOf l.buf actualSize.toNat))

/-- A round that takes no byte comes again unchanged, so that `buf_size` rounds are enough. -/
def etssGenerateRandomNumber (l : Locals) (bufSize : Nat) (io : Io Reply) :
    Option (Reply × Io Reply) :=
  if p.securityFeature.rng then generateRandomLoop l bufSize bufSize l.actualSize io
  else some (.error .notSupported, io)

def etssMcIncrement (_mcId : Nat) : Reply :=
  if p.securityFeature.rpmc then
    match secureflashIncreaseMc with
    | .error _ => .error .storageFailure
    | .ok () => .ok ()
  else .error .notSupported

def etssMcGet (l : Locals) (_mcId size : Nat) (io : Io Reply) : Reply × Io Reply :=
  if p.securityFeature.rpmc then
    match secureflashGetMc l.actualSize with
    | .error _ => (.error .storageFailure, io)
    | .ok actualSize => (.ok (), io.psaWrite 0 (bytesOf l.buf (min size actualSize.toNat)))
  else (.error .notSupported, io)

def etssSecureFlashProvisioning (provData : List UInt8) (s : Partition φ) :
    Reply × Partition φ :=
  let (ok, φ) := p.performAndVerify provData s.fs
  (if ok then .ok () else .error .sfProvision, { s with fs := φ })

/-! ## Requests -/

def uidSize : Nat := 8
def createFlagsSize : Nat := 4
def sizeTSize : Nat := 4
def mcIdSize : Nat := 1

def etssSetIpc (msg : Msg) (s : Partition φ) (io : Io Reply) : Result φ :=
  if msg.inSize 0 ≠ uidSize ∨ msg.inSize 2 ≠ createFlagsSize then
    some (.error .programmerError, s, io)
  else
    let dataLength := msg.inSize 1
    let (uid, io) := io.psaRead msg 0 uidSize uidSize
    if uid.length ≠ uidSize then some (.error .programmerError, s, io)
    else
      let (createFlags, io) := io.psaRead msg 2 createFlagsSize createFlagsSize
      if createFlags.length ≠ createFlagsSize then some (.error .programmerError, s, io)
      else some (etssSet p msg (leNat uid) dataLength (leNat createFlags) s io)

def etssGetIpc (msg : Msg) (s : Partition φ) (io : Io Reply) : Result φ :=
  if msg.inSize 0 ≠ uidSize ∨ msg.inSize 1 ≠ sizeTSize then
    some (.error .programmerError, s, io)
  else
    let dataSize := msg.outSize 0
    let (uid, io) := io.psaRead msg 0 uidSize uidSize
    if uid.length ≠ uidSize then some (.error .programmerError, s, io)
    else
      let (dataOffset, io) := io.psaRead msg 1 sizeTSize sizeTSize
      if dataOffset.length ≠ sizeTSize then some (.error .programmerError, s, io)
      else some (etssGet p msg (leNat uid) (leNat dataOffset) dataSize s io)

def etssGetInfoIpc (msg : Msg) (s : Partition φ) (io : Io Reply) : Result φ :=
  if msg.inSize 0 ≠ uidSize ∨ msg.outSize 0 ≠ storageInfoSize then
    some (.error .programmerError, s, io)
  else
    let (uid, io) := io.psaRead msg 0 uidSize uidSize
    if uid.length ≠ uidSize then some (.error .programmerError, s, io)
    else match etssGetInfo p msg (leNat uid) s with
      | (.error e, s) => some (.error e, s, io)
      | (.ok info, s) => some (.ok (), s, io.psaWrite 0 info.encode)

def etssRemoveIpc (msg : Msg) (s : Partition φ) (io : Io Reply) : Result φ :=
  if msg.inSize 0 ≠ uidSize then some (.error .programmerError, s, io)
  else
    let (uid, io) := io.psaRead msg 0 uidSize uidSize
    if uid.length ≠ uidSize then some (.error .programmerError, s, io)
    else
      let (status, s) := etssRemove p msg (leNat uid) s
      some (status, s, io)

def etssGetPufIpc (l : Locals) (msg : Msg) (s : Partition φ) (io : Io Reply) : Result φ :=
  let (status, io) := etssGetPuf p l (msg.outSize 0) io
  some (status, s, io)

def etssGenerateRandomNumberIpc (l : Locals) (msg : Msg) (s : Partition φ) (io : Io Reply) :
    Result φ :=
  match etssGenerateRandomNumber p l (msg.outSize 0) io with
  | none => none
  | some (status, io) => some (status, s, io)

def etssMcIncrementIpc (msg : Msg) (s : Partition φ) (io : Io Reply) : Result φ :=
  let (mcId, io) := io.psaRead msg 0 mcIdSize mcIdSize
  if mcId.length ≠ mcIdSize then some (.error .programmerError, s, io)
  else some (etssMcIncrement p (leNat mcId), s, io)

def etssMcGetIpc (l : Locals) (msg : Msg) (s : Partition φ) (io : Io Reply) : Result φ :=
  let (mcId, io) := io.psaRead msg 0 mcIdSize mcIdSize
  if mcId.length ≠ mcIdSize then some (.error .programmerError, s, io)
  else
    let (status, io) := etssMcGet p l (leNat mcId) (msg.outSize 0) io
    some (status, s, io)

def etssSecureFlashProvisioningIpc (msg : Msg) (s : Partition φ) (io : Io Reply) :
    Reply × Partition φ × Io Reply :=
  let dataLength := msg.inSize 0
  if dataLength > p.provBlobLenMax then (.error .genericError, s, io)
  else
    let (provData, io) := io.psaRead msg 0 p.provBlobLenMax dataLength
    if provData.length ≠ dataLength then (.error .programmerError, s, io)
    else
      let (status, s) := etssSecureFlashProvisioning p provData s
      (status, s, io)

/-! ## The loops -/

def psaIpcConnect : Int := -1
def psaIpcCall : Int := 0
def psaIpcDisconnect : Int := -2

/-- The services of `etss.yaml`. -/
inductive Signal
  | set | get | getInfo | remove | getPuf | generateRandomNumber | mcIncrement | mcGet
  | secureFlashProvisioning
deriving DecidableEq, Repr

def etssSignalHandle (pfn : Msg → Partition φ → Io Reply → Result φ) (msg : Option Msg)
    (s : Partition φ) : List (Event Reply) × Partition φ :=
  match msg with
  | none => ([], s)
  | some msg =>
    if msg.type = psaIpcConnect then ([.get msg.handle, .reply msg.handle (.ok ())], s)
    else if msg.type = psaIpcCall then
      match pfn msg s .start with
      | none => ([.get msg.handle, .hang], s)
      | some (status, s, io) => (.get msg.handle :: (io.psaReply msg.handle status).events, s)
    else if msg.type = psaIpcDisconnect then
      ([.get msg.handle, .reply msg.handle (.ok ())], s)
    else ([.get msg.handle, .panic], s)

/-- One round of the loop of `etss_req_mngr_init`, on a device that is provisioned. -/
def etssRound (i : Pending Signal × Locals) (s : Partition φ) :
    List (Event Reply) × Partition φ :=
  let (pending, l) := i
  if (pending.msg .set).isSome then etssSignalHandle (etssSetIpc p) (pending.msg .set) s
  else if (pending.msg .get).isSome then etssSignalHandle (etssGetIpc p) (pending.msg .get) s
  else if (pending.msg .getInfo).isSome then
    etssSignalHandle (etssGetInfoIpc p) (pending.msg .getInfo) s
  else if (pending.msg .remove).isSome then
    etssSignalHandle (etssRemoveIpc p) (pending.msg .remove) s
  else if (pending.msg .getPuf).isSome then
    etssSignalHandle (etssGetPufIpc p l) (pending.msg .getPuf) s
  else if (pending.msg .generateRandomNumber).isSome then
    etssSignalHandle (etssGenerateRandomNumberIpc p l) (pending.msg .generateRandomNumber) s
  else if (pending.msg .mcIncrement).isSome then
    etssSignalHandle (etssMcIncrementIpc p) (pending.msg .mcIncrement) s
  else if (pending.msg .mcGet).isSome then
    etssSignalHandle (etssMcGetIpc p l) (pending.msg .mcGet) s
  else ([.panic], s)

/-- One round of the loop that waits for provisioning. A message of another type gets no reply. -/
def etssProvisioningRound (msg : Msg) (s : Partition φ) : List (Event Reply) × Partition φ :=
  if msg.type = psaIpcConnect ∨ msg.type = psaIpcDisconnect then
    ([.get msg.handle, .reply msg.handle (.ok ())], s)
  else if msg.type = psaIpcCall then
    let (status, s, io) := etssSecureFlashProvisioningIpc p msg s .start
    (.get msg.handle :: (io.psaReply msg.handle status).events, s)
  else ([.get msg.handle], s)

end Etss
