import TfmExtras.Lib.Bytes
import TfmExtras.Lib.Ipc
import TfmExtras.MeasuredBoot.Slots

/-! The Measured Boot partition with the buffers of its slots, from the message to the reply:
`measured_boot.c` and `measured_boot_req_mngr.c`. -/

namespace MeasuredBoot.Service
open Bytes Ipc

/-- A copy of all of `src` to the start of a buffer. -/
def memcpy (dst src : List UInt8) : List UInt8 := src ++ dst.drop src.length

def zeros (n : Nat) : List UInt8 := List.replicate n 0

/-- `TFM_MEASURED_BOOT_HASH_ALG`. -/
inductive HashAlg
  | sha256 | sha512

/-- `MEASUREMENT_VALUE_SIZE`, which the build sets from the algorithm. -/
def HashAlg.measurementValueSize : HashAlg → Nat
  | .sha256 => 32
  | .sha512 => 64

def measurementValueInitPattern : UInt8 := 0

/-! ## Slots -/

structure MeasurementMetadata where
  signerId : List UInt8
  signerIdSize : Nat
  version : List UInt8
  versionSize : Nat
  measurementAlgo : Nat
  swType : List UInt8
  swTypeSize : Nat
deriving DecidableEq, Repr

structure MeasurementValue where
  hashBuf : List UInt8
  hashBufSize : Nat
deriving DecidableEq, Repr

/-- `measured_boot_slot_t`. -/
structure SlotBuffers where
  isLocked : Bool
  isPopulated : Bool
  isCommon : Bool
  value : MeasurementValue
  metadata : MeasurementMetadata
deriving DecidableEq, Repr

/-- `measurement_slot`, by index. -/
abbrev Slots := Nat → SlotBuffers

def MeasurementMetadata.zero : MeasurementMetadata :=
  ⟨zeros signerIdMaxSize, 0, zeros versionMaxSize, 0, 0, zeros swTypeMaxSize, 0⟩

/-- The slots are static, so that the size of the value is 0 from the start. -/
def initialiseAllMeasurements : Slots := fun _ =>
  ⟨false, false, false,
    ⟨List.replicate measurementValueMaxSize measurementValueInitPattern, 0⟩, .zero⟩

/-! ## Reading a slot -/

def measuredBootReadMeasurement (slots : Slots)
    (index signerIdSize versionSize swTypeSize measurementValueSize : Nat) :
    Except Error Reading :=
  let srcMetadata := (slots index).metadata
  let srcValue := (slots index).value
  if isReadAccessProhibited index then .error .notPermitted
  else if (slots index).isPopulated then
    if versionSize < srcMetadata.versionSize ∨ swTypeSize < srcMetadata.swTypeSize ∨
        signerIdSize < srcMetadata.signerIdSize ∨
        measurementValueSize < srcValue.hashBufSize then .error .invalidArgument
    else .ok ⟨⟨srcValue.hashBuf.take srcValue.hashBufSize,
      srcMetadata.signerId.take srcMetadata.signerIdSize,
      srcMetadata.version.take srcMetadata.versionSize, srcMetadata.measurementAlgo,
      srcMetadata.swType.take srcMetadata.swTypeSize⟩, (slots index).isLocked⟩
  else .error .doesNotExist

/-! ## Extending a slot -/

/-- The stored size goes through a `uint8_t`. -/
def isSignerIdDifferent (slot : SlotBuffers) (signerId : List UInt8) : Bool :=
  let storedSignerIdSize := slot.metadata.signerIdSize % 2 ^ 8
  signerId.take storedSignerIdSize != slot.metadata.signerId.take storedSignerIdSize

def isSlotAccessProhibited (slot : SlotBuffers) (signerId : List UInt8) : Bool :=
  if isSignerIdDifferent slot signerId then !slot.isCommon else false

def updateMetadata (slot : SlotBuffers) (signerId : List UInt8) (signerIdSize : Nat)
    (version : List UInt8) (versionSize measurementAlgo : Nat) (swType : List UInt8)
    (swTypeSize : Nat) : SlotBuffers :=
  { slot with metadata := {
      signerId := memcpy slot.metadata.signerId (signerId.take signerIdSize)
      signerIdSize := signerIdSize
      version := memcpy slot.metadata.version (version.take versionSize)
      versionSize := versionSize
      measurementAlgo := measurementAlgo
      swType := memcpy slot.metadata.swType (swType.take swTypeSize)
      swTypeSize := swTypeSize } }

def extendMetadata (slot : SlotBuffers) : SlotBuffers :=
  { slot with metadata := { slot.metadata with
      version := zeros versionMaxSize, versionSize := 0
      swType := zeros swTypeMaxSize, swTypeSize := 0 } }

def storeMeasurementValue (slot : SlotBuffers) (value : List UInt8) : SlotBuffers :=
  { slot with value := ⟨memcpy slot.value.hashBuf value, value.length⟩ }

section
variable (alg : HashAlg) (hashCompute : List UInt8 → Except Error (List UInt8))

def extendMeasurementValue (slot : SlotBuffers) (measurement : List UInt8)
    (measurementSize : Nat) : Except Error (List UInt8) :=
  hashCompute (slot.value.hashBuf.take alg.measurementValueSize ++ measurement.take measurementSize)

/-- The slot is changed before the hash is known to succeed. -/
def measuredBootExtendMeasurement (slot : SlotBuffers) (signerId : List UInt8)
    (signerIdSize : Nat) (version : List UInt8) (versionSize measurementAlgo : Nat)
    (swType : List UInt8) (swTypeSize : Nat) (measurementValue : List UInt8)
    (measurementValueSize lockMeasurement : Nat) : Except Error Unit × SlotBuffers :=
  if isSlotAccessProhibited slot signerId then (.error .notPermitted, slot)
  else if slot.isLocked then (.error .badState, slot)
  else
    let slot := if slot.isPopulated then extendMetadata slot
      else { updateMetadata slot signerId signerIdSize version versionSize measurementAlgo swType
        swTypeSize with isPopulated := true }
    match extendMeasurementValue alg hashCompute slot measurementValue measurementValueSize with
    | .error e => (.error e, slot)
    | .ok hashResult =>
      let slot := storeMeasurementValue slot hashResult
      (.ok (), if lockMeasurement ≠ 0 then { slot with isLocked := true } else slot)

end

/-! ## Requests -/

def tfmMeasuredBootRead : Int := 1001
def tfmMeasuredBootExtend : Int := 1002

/-- `measured_boot_read_iovec_in_t`. -/
structure ReadIovecIn where
  index : Nat
  swTypeSize : Nat
  versionSize : Nat

def ReadIovecIn.decode (bs : List UInt8) : ReadIovecIn := ⟨field bs 0 1, field bs 1 1, field bs 2 1⟩

def readIovecInSize : Nat := 3

/-- `measured_boot_read_iovec_out_t`. -/
structure ReadIovecOut where
  isLocked : Bool
  measurementAlgo : Nat
  swType : List UInt8
  swTypeLen : Nat
  version : List UInt8
  versionLen : Nat

/-- Three bytes of padding follow the lock. -/
def ReadIovecOut.encode (o : ReadIovecOut) : List UInt8 :=
  leBytes 1 o.isLocked.toNat ++ (zeros 3 ++ (leBytes 4 o.measurementAlgo ++ (o.swType ++
    (leBytes 1 o.swTypeLen ++ (o.version ++ leBytes 1 o.versionLen)))))

def readIovecOutSize : Nat := 44

/-- The fixed-size answer for a reading; the unused bytes of its buffers are zero. -/
def ReadIovecOut.ofReading (r : Reading) : ReadIovecOut :=
  ⟨r.isLocked, r.measurement.measurementAlgo, memcpy (zeros swTypeMaxSize) r.measurement.swType,
    r.measurement.swType.length, memcpy (zeros versionMaxSize) r.measurement.version,
    r.measurement.version.length⟩

/-- `measured_boot_extend_iovec_t`. -/
structure ExtendIovec where
  index : Nat
  lockMeasurement : Nat
  measurementAlgo : Nat
  swType : List UInt8
  swTypeSize : Nat

def ExtendIovec.decode (bs : List UInt8) : ExtendIovec :=
  ⟨field bs 0 1, field bs 1 1, field bs 4 4, (bs.drop 8).take swTypeMaxSize, field bs 28 1⟩

def extendIovecSize : Nat := 32

abbrev Reply := Except Error Unit

def readMeasurements (slots : Slots) (msg : Msg) (io : Io Reply) : Reply × Io Reply :=
  if msg.inSize 0 ≠ readIovecInSize ∨ msg.outSize 0 ≠ readIovecOutSize then
    (.error .programmerError, io)
  else
    let (buf, io) := io.psaRead msg 0 readIovecInSize readIovecInSize
    if buf.length ≠ readIovecInSize then (.error .programmerError, io)
    else
      let readIovIn := ReadIovecIn.decode buf
      if readIovIn.index ≥ numOfMeasurementSlots then (.error .invalidArgument, io)
      else match measuredBootReadMeasurement slots readIovIn.index (msg.outSize 1)
          readIovIn.versionSize readIovIn.swTypeSize (msg.outSize 2) with
        | .error e => (.error e, io)
        | .ok r => (.ok (), ((io.psaWrite 0 (ReadIovecOut.ofReading r).encode).psaWrite 1
            r.measurement.signerId).psaWrite 2 r.measurement.hashBuf)

section
variable (alg : HashAlg) (hashCompute : List UInt8 → Except Error (List UInt8))

/-- The sizes that an extend request is let through with. -/
def ExtendSizesOk (signerIdSize versionSize measurementValueSize swTypeSize : Nat) : Prop :=
  ¬ (signerIdSize < signerIdMinSize ∨ signerIdSize > signerIdMaxSize ∨
    versionSize > versionMaxSize ∨ measurementValueSize < measurementValueMinSize ∨
    measurementValueSize > measurementValueMaxSize ∨ swTypeSize > swTypeMaxSize)

instance (a b c d : Nat) : Decidable (ExtendSizesOk a b c d) := instDecidableNot

def extendMeasurement (slots : Slots) (msg : Msg) (io : Io Reply) : Reply × Slots × Io Reply :=
  if msg.inSize 0 ≠ extendIovecSize then (.error .programmerError, slots, io)
  else
    let signerIdSize := msg.inSize 1
    let versionSize := msg.inSize 2
    let measurementValueSize := msg.inSize 3
    let (buf, io) := io.psaRead msg 0 extendIovecSize extendIovecSize
    if buf.length ≠ extendIovecSize then (.error .programmerError, slots, io)
    else
      let extendIov := ExtendIovec.decode buf
      if ¬ ExtendSizesOk signerIdSize versionSize measurementValueSize extendIov.swTypeSize then
        (.error .invalidArgument, slots, io)
      else if extendIov.index ≥ numOfMeasurementSlots then (.error .invalidArgument, slots, io)
      else
        let (signerId, io) := io.psaRead msg 1 signerIdMaxSize signerIdSize
        if signerId.length ≠ signerIdSize then (.error .programmerError, slots, io)
        else
          let (version, io) := io.psaRead msg 2 versionMaxSize versionSize
          if version.length ≠ versionSize then (.error .programmerError, slots, io)
          else
            let (measurementValue, io) :=
              io.psaRead msg 3 measurementValueMaxSize measurementValueSize
            if measurementValue.length ≠ measurementValueSize then
              (.error .programmerError, slots, io)
            else
              let (status, slot) := measuredBootExtendMeasurement alg hashCompute
                (slots extendIov.index) (memcpy (zeros signerIdMaxSize) signerId) signerIdSize
                (memcpy (zeros versionMaxSize) version) (versionSize % 2 ^ 8)
                extendIov.measurementAlgo extendIov.swType extendIov.swTypeSize
                (memcpy (zeros measurementValueMaxSize) measurementValue) measurementValueSize
                extendIov.lockMeasurement
              (status, Function.update slots extendIov.index slot, io)

/-- A message of another type gets no reply. -/
def measuredBootSignalHandle (msg : Option Msg) (slots : Slots) : List (Event Reply) × Slots :=
  match msg with
  | none => ([], slots)
  | some msg =>
    if msg.type = tfmMeasuredBootRead then
      let (status, io) := readMeasurements slots msg .start
      (.get msg.handle :: (io.psaReply msg.handle status).events, slots)
    else if msg.type = tfmMeasuredBootExtend then
      let (status, slots, io) := extendMeasurement alg hashCompute slots msg .start
      (.get msg.handle :: (io.psaReply msg.handle status).events, slots)
    else ([.get msg.handle], slots)

/-- The signals of the services of the partition. -/
inductive Signal
  | measuredBoot

/-- One round of the loop of `tfm_measured_boot_init`. -/
def measuredBootRound (p : Pending Signal) (slots : Slots) : List (Event Reply) × Slots :=
  if (p.msg .measuredBoot).isSome then
    measuredBootSignalHandle alg hashCompute (p.msg .measuredBoot) slots
  else ([.panic], slots)

end

end MeasuredBoot.Service
