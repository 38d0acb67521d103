import Mathlib.Algebra.Group.Nat.Defs

/-! The measurement slots of the Measured Boot partition and the read service over them:
`measured_boot.c`, `measured_boot_req_mngr.c` and `measured_boot_api.c`. -/

namespace MeasuredBoot

/-- The errors among the PSA status codes. -/
inductive Error
  | genericError | notPermitted | notSupported | invalidArgument | doesNotExist | badState
  | bufferTooSmall | programmerError
deriving DecidableEq, Repr

/-! ## Slots -/

def measurementValueMinSize : Nat := 32
def measurementValueMaxSize : Nat := 64
def signerIdMinSize : Nat := measurementValueMinSize
def signerIdMaxSize : Nat := measurementValueMaxSize
def versionMaxSize : Nat := 14
def swTypeMaxSize : Nat := 20
def numOfMeasurementSlots : Nat := 32

/-- `measurement_t`. A buffer with its size is the list of the bytes in use. -/
structure Measurement where
  hashBuf : List UInt8
  signerId : List UInt8
  version : List UInt8
  measurementAlgo : Nat
  swType : List UInt8
deriving DecidableEq, Repr

structure MeasuredBootSlot where
  isLocked : Bool
  isPopulated : Bool
  isCommon : Bool
  measurement : Measurement
deriving DecidableEq, Repr

/-- The lengths that the extend service lets through to a slot. -/
structure Measurement.SizesAccepted (m : Measurement) : Prop where
  signerId_ge : signerIdMinSize ≤ m.signerId.length
  signerId_le : m.signerId.length ≤ signerIdMaxSize
  version_le : m.version.length ≤ versionMaxSize
  swType_le : m.swType.length ≤ swTypeMaxSize
  hashBuf_ge : measurementValueMinSize ≤ m.hashBuf.length
  hashBuf_le : m.hashBuf.length ≤ measurementValueMaxSize

/-- `measurement_slot`, whose populated slots were all filled by the extend service. -/
structure MeasurementSlots where
  slot : Nat → MeasuredBootSlot
  sizes : ∀ index, (slot index).isPopulated → (slot index).measurement.SizesAccepted

/-! ## Reading a slot -/

/-- The data a successful read returns. -/
structure Reading where
  measurement : Measurement
  isLocked : Bool
deriving DecidableEq, Repr

def isReadAccessProhibited (_slotIndex : Nat) : Bool := false

def measuredBootReadMeasurement (slots : MeasurementSlots)
    (index signerIdSize versionSize swTypeSize measurementValueSize : Nat) :
    Except Error Reading :=
  let srcMeasurement := (slots.slot index).measurement
  if isReadAccessProhibited index then .error .notPermitted
  else if (slots.slot index).isPopulated then
    if versionSize < srcMeasurement.version.length ∨ swTypeSize < srcMeasurement.swType.length ∨
        signerIdSize < srcMeasurement.signerId.length ∨
        measurementValueSize < srcMeasurement.hashBuf.length then
      .error .invalidArgument
    else .ok ⟨srcMeasurement, (slots.slot index).isLocked⟩
  else .error .doesNotExist

/-- The read request as the partition handles it. -/
def readMeasurements (slots : MeasurementSlots)
    (index signerIdSize versionSize swTypeSize measurementValueSize : Nat) :
    Except Error Reading :=
  if index ≥ numOfMeasurementSlots then .error .invalidArgument
  else measuredBootReadMeasurement slots index signerIdSize versionSize swTypeSize
    measurementValueSize

/-- The client side; two of the buffer sizes go through a `uint8_t`. -/
def tfmMeasuredBootReadMeasurement (slots : MeasurementSlots)
    (index signerIdSize versionSize swTypeSize measurementValueSize : Nat) :
    Except Error Reading :=
  readMeasurements slots (index % 2 ^ 8) signerIdSize (versionSize % 2 ^ 8) (swTypeSize % 2 ^ 8)
    measurementValueSize

end MeasuredBoot
