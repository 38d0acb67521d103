import TfmExtras.Lib.Bytes
import TfmExtras.Lib.FlashM

/-! Configuration, flash structures and RAM context of the ETSS flash filesystem. -/

namespace Etss
open Bytes NorFlash

/-- The errors among the PSA status codes; the `ETSS_ERR_` codes have the same values. -/
inductive Status
  | genericError | notPermitted | notSupported | invalidArgument | doesNotExist
  | insufficientStorage | storageFailure | dataCorrupt | programmerError
  | sfUnprovisioned | sfInit | sfProvision
deriving DecidableEq, Repr

/-! ## Arithmetic of `size_t` and `uint32_t` -/

def add32 (a b : Nat) : Nat := (a + b) % 2 ^ 32

def sub32 (a b : Nat) : Nat := (a + (2 ^ 32 - b)) % 2 ^ 32

def not32 (a : Nat) : Nat := 2 ^ 32 - 1 - a

/-- `ETSS_UTILS_ALIGN`; the alignment is a `uint16_t`, so that `a - 1` of 0 is all ones. -/
def utilsAlign (x a : Nat) : Nat := add32 x (sub32 a 1) &&& not32 (sub32 a 1)

def utilsIsAligned (x a : Nat) : Bool := x &&& sub32 a 1 == 0

def utilsCheckContainedIn (supersetSize subsetOffset subsetSize : Nat) : Except Status Unit :=
  if subsetOffset > supersetSize then .error .invalidArgument
  else if subsetSize > supersetSize - subsetOffset then .error .invalidArgument
  else .ok ()

/-! ## Configuration -/

/-- `etss_flash_fs_config_t` with the ranges of its C types, and the build switch
`ETSS_VALIDATE_METADATA_FROM_FLASH`. -/
structure Config where
  flashAreaAddr : Nat
  sectorSize : Nat
  blockSize : Nat
  numBlocks : Nat
  programUnit : Nat
  maxFileSize : Nat
  maxNumFiles : Nat
  eraseVal : UInt8
  validateMetadata : Bool
  blockSize_lt : blockSize < 2 ^ 32 := by decide
  numBlocks_lt : numBlocks < 2 ^ 16 := by decide
  programUnit_lt : programUnit < 2 ^ 16 := by decide
  maxFileSize_lt : maxFileSize < 2 ^ 16 := by decide
  maxNumFiles_lt : maxNumFiles < 2 ^ 16 := by decide

/-! ## File ids -/

/-- The `ETSS_FILE_ID_SIZE` bytes of a file id, least significant first. -/
abbrev Fid := BitVec 96

def utilsValidateFid (fid : Fid) : Except Status Unit :=
  if fid ≠ 0 then .ok () else .error .doesNotExist

/-! ## Structures programmed to flash

`ETSS_FLASH_MAX_ALIGNMENT` is defined nowhere, so that no structure has a `roundup` member. -/

def supportedVersion : UInt8 := 0x02
def backwardSupportedVersion : UInt8 := 0x01
def metadataInvalidIndex : Nat := 0xFFFF
def blockInvalidId : Nat := 0xFFFFFFFF
def logicalDblock0 : Nat := 0
def metadataBlock0 : Nat := 0
def metadataBlock1 : Nat := 1

/-- `etss_metadata_block_header_t`; `pad` is the byte that pads it to a multiple of four. -/
structure MetadataBlockHeader where
  scratchDblock : Nat
  fsVersion : UInt8
  metadataXor : UInt8
  activeSwapCount : UInt8
  pad : UInt8
deriving DecidableEq, Repr

structure BlockMeta where
  phyId : Nat
  dataStart : Nat
  freeSize : Nat
deriving DecidableEq, Repr

structure FileMeta where
  lblock : Nat
  dataIdx : Nat
  curSize : Nat
  maxSize : Nat
  flags : Nat
  id : Fid
deriving DecidableEq, Repr

def blockMetaHeaderSize : Nat := 8
def blockMetaHeaderCompSize : Nat := 8
def blockMetadataSize : Nat := 12
def fileMetadataSize : Nat := 32

namespace MetadataBlockHeader

def encode (h : MetadataBlockHeader) : List UInt8 :=
  leBytes 4 h.scratchDblock ++ [h.fsVersion, h.metadataXor, h.activeSwapCount, h.pad]

def decode (bs : List UInt8) : MetadataBlockHeader :=
  ⟨field bs 0 4, bs.getD 4 0, bs.getD 5 0, bs.getD 6 0, bs.getD 7 0⟩

/-- `active_swap_count` of the same bytes read as an `etss_metadata_block_header_comp_t`. -/
def compSwapCount (h : MetadataBlockHeader) : UInt8 := h.metadataXor

def zero : MetadataBlockHeader := ⟨0, 0, 0, 0, 0⟩

end MetadataBlockHeader

namespace BlockMeta

def encode (m : BlockMeta) : List UInt8 :=
  leBytes 4 m.phyId ++ (leBytes 4 m.dataStart ++ leBytes 4 m.freeSize)

def decode (bs : List UInt8) : BlockMeta := ⟨field bs 0 4, field bs 4 4, field bs 8 4⟩

end BlockMeta

namespace FileMeta

def encode (m : FileMeta) : List UInt8 :=
  leBytes 4 m.lblock ++ (leBytes 4 m.dataIdx ++ (leBytes 4 m.curSize ++
    (leBytes 4 m.maxSize ++ (leBytes 4 m.flags ++ leBytes 12 m.id.toNat))))

def decode (bs : List UInt8) : FileMeta :=
  ⟨field bs 0 4, field bs 4 4, field bs 8 4, field bs 12 4, field bs 16 4,
    BitVec.ofNat 96 (field bs 20 12)⟩

def zero : FileMeta := ⟨0, 0, 0, 0, 0, 0⟩

end FileMeta

/-! ## Running context -/

/-- `etss_flash_fs_ctx_t` without the pointers to its configuration and operations. -/
structure Ctx where
  metaBlockHeader : MetadataBlockHeader
  activeMetablock : Nat
  scratchMetablock : Nat
deriving DecidableEq, Repr

def Ctx.zero : Ctx := ⟨.zero, 0, 0⟩

/-- A filesystem function: it works on the context and the flash, and returns a status. -/
abbrev FsM := FlashM Ctx Status

def opsInit : FsM (List UInt8) := FlashM.issue .init .storageFailure

def opsRead (block offset size : Nat) : FsM (List UInt8) :=
  FlashM.issue (.read block offset size) .storageFailure

def opsWrite (block : Nat) (buf : List UInt8) (offset : Nat) : FsM (List UInt8) :=
  FlashM.issue (.write block offset buf) .storageFailure

def opsFlush (block : Nat) : FsM (List UInt8) := FlashM.issue (.flush block) .storageFailure

def opsErase (block : Nat) : FsM (List UInt8) := FlashM.issue (.erase block) .storageFailure

/-! ## Flags of a file -/

def userFlagsMask : Nat := 2 ^ 16 - 1
def flagCreate : Nat := 2 ^ 16
def flagTruncate : Nat := 2 ^ 17
/-- Filesystem-internal flags, which cannot be passed by the caller. -/
def internalFlagsMask : Nat := (2 ^ 32 - 1) - (2 ^ 24 - 1)
/-- The file is to be deleted in the next block update. -/
def flagDelete : Nat := 2 ^ 24

end Etss
