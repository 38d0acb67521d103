import TfmExtras.Etss.Mblock

/-! The file operations of the filesystem: `etss_flash_fs_dblock.c` and `etss_flash_fs.c`. -/

namespace Etss
open NorFlash FlashM

/-! ## Configuration checks -/

/-- `etss_flash_fs_num_active_dblocks` of `etss_flash_fs.c`. -/
def flashFsNumActiveDblocks (cfg : Config) : Nat :=
  if cfg.numBlocks = 2 then 1 else sub32 cfg.numBlocks 2

def flashFsAllMetadataSize (cfg : Config) : Nat :=
  (blockMetaHeaderSize + flashFsNumActiveDblocks cfg * blockMetadataSize +
    cfg.maxNumFiles * fileMetadataSize) % 2 ^ 32

def flashFsValidateConfig (cfg : Config) : Except Status Unit :=
  if (cfg.numBlocks < 2 ∨ cfg.numBlocks = 3) ∨
      (cfg.numBlocks = 2 ∧
        cfg.maxFileSize > sub32 cfg.blockSize (flashFsAllMetadataSize cfg)) ∨
      cfg.maxFileSize > cfg.blockSize ∨
      flashFsAllMetadataSize cfg > cfg.blockSize then
    .error .invalidArgument
  else .ok ()

/-- The context `etss_flash_fs_init_ctx` leaves for an accepted configuration. -/
def flashFsInitCtx (cfg : Config) : Except Status Ctx :=
  match flashFsValidateConfig cfg with
  | .error e => .error e
  | .ok () => .ok Ctx.zero

variable (cfg : Config)

/-! ## Data blocks -/

def dblockLoToPhy (lblock : Nat) : FsM Nat := do
  match ← (flashFsMblockReadBlockMetadata cfg lblock).attempt with
  | .error _ => pure blockInvalidId
  | .ok blockMeta => pure blockMeta.phyId

def flashFsDblockCompactBlock (lblock freeSize srcOffset dstOffset size : Nat) : FsM Unit := do
  let blockMeta ← flashFsMblockReadBlockMetadata cfg lblock
  let blockMeta := { blockMeta with freeSize := add32 blockMeta.freeSize freeSize }
  let scratchId ← flashFsMblockCurDataScratchId lblock
  if size > 0 then
    (flashFsBlockToBlockMove scratchId dstOffset blockMeta.phyId srcOffset size).failAs
      .genericError
  else pure ()
  if dstOffset > blockMeta.dataStart then
    (flashFsBlockToBlockMove scratchId blockMeta.dataStart blockMeta.phyId blockMeta.dataStart
      (dstOffset - blockMeta.dataStart)).failAs .genericError
  else pure ()
  flashFsMblockSetDataScratch blockMeta.phyId lblock
  match ← (flashFsMblockUpdateScratchBlockMeta cfg lblock
      { blockMeta with phyId := scratchId }).attempt with
  | .error e => do
    -- the context gets its scratch block back
    flashFsMblockSetDataScratch scratchId lblock
    fail e
  | .ok () =>
    if lblock ≠ logicalDblock0 then do
      let _ ← opsFlush scratchId
      pure ()
    else pure ()

def flashFsDblockReadFile (fileMeta : FileMeta) (offset size : Nat) : FsM (List UInt8) := do
  let physBlock ← dblockLoToPhy cfg fileMeta.lblock
  failIf (physBlock = blockInvalidId) .genericError
  opsRead physBlock (add32 fileMeta.dataIdx offset) size

/-- `data` is the memory behind the pointer; the size rounded up can pass the caller's bytes. -/
def flashFsDblockWriteFile (blockMeta : BlockMeta) (fileMeta : FileMeta) (offset size : Nat)
    (data : Nat → UInt8) : FsM Unit := do
  let scratchId ← flashFsMblockCurDataScratchId fileMeta.lblock
  let pos := add32 fileMeta.dataIdx offset
  flashFsBlockToBlockMove scratchId blockMeta.dataStart blockMeta.phyId blockMeta.dataStart
    (sub32 pos blockMeta.dataStart)
  let _ ← opsWrite scratchId ((List.range size).map data) pos
  let pos := add32 fileMeta.dataIdx fileMeta.maxSize
  let numBytes := sub32 (sub32 cfg.blockSize blockMeta.freeSize) pos
  flashFsBlockToBlockMove scratchId pos blockMeta.phyId pos numBytes
  if fileMeta.lblock ≠ logicalDblock0 then do
    let _ ← opsFlush scratchId
    pure ()
  else pure ()

def flashFsFileWriteAlignedData (blockMeta : BlockMeta) (fileMeta : FileMeta)
    (offset size : Nat) (data : Nat → UInt8) : FsM Unit := do
  failIf (utilsIsAligned offset cfg.programUnit = false) .invalidArgument
  let size := utilsAlign size cfg.programUnit
  failIf (offset > fileMeta.curSize) .invalidArgument
  (ofExcept (utilsCheckContainedIn fileMeta.maxSize offset size)).failAs .invalidArgument
  flashFsDblockWriteFile cfg blockMeta fileMeta offset size data

/-! ## Deleting a file -/

/-- What the loop over the file table collects: `src_offset` and `nbr_bytes_to_move`. -/
structure DeleteScan where
  srcOffset : Nat
  nbrBytesToMove : Nat
deriving DecidableEq, Repr

/-- The entry of a file that remains, and the scan after it. -/
def deleteIdxEntry (delFileLblock delFileDataIdx delFileMaxSize : Nat) (scan : DeleteScan)
    (fileMeta : FileMeta) : DeleteScan × FileMeta :=
  if fileMeta.lblock = delFileLblock ∧ (utilsValidateFid fileMeta.id).isOk ∧
      fileMeta.dataIdx > delFileDataIdx then
    (⟨min scan.srcOffset fileMeta.dataIdx, add32 scan.nbrBytesToMove fileMeta.maxSize⟩,
      { fileMeta with dataIdx := sub32 fileMeta.dataIdx delFileMaxSize })
  else (scan, fileMeta)

def deleteIdxLoop (delFileIdx delFileLblock delFileDataIdx delFileMaxSize : Nat) :
    Nat → Nat → DeleteScan → FsM DeleteScan
  | 0, _, scan => pure scan
  | n + 1, idx, scan =>
    if idx = delFileIdx then
      deleteIdxLoop delFileIdx delFileLblock delFileDataIdx delFileMaxSize n (idx + 1) scan
    else do
      let fileMeta ← flashFsMblockReadFileMeta cfg idx
      let r := deleteIdxEntry delFileLblock delFileDataIdx delFileMaxSize scan fileMeta
      flashFsMblockUpdateScratchFileMeta cfg idx r.2
      deleteIdxLoop delFileIdx delFileLblock delFileDataIdx delFileMaxSize n (idx + 1) r.1

def flashFsDeleteIdx (delFileIdx : Nat) : FsM Unit := do
  let fileMeta ← flashFsMblockReadFileMeta cfg delFileIdx
  (ofExcept (utilsValidateFid fileMeta.id)).failAs .doesNotExist
  flashFsMblockUpdateScratchFileMeta cfg delFileIdx FileMeta.zero
  let scan ← deleteIdxLoop cfg delFileIdx fileMeta.lblock fileMeta.dataIdx fileMeta.maxSize
    cfg.maxNumFiles 0 ⟨cfg.blockSize, 0⟩
  flashFsDblockCompactBlock cfg fileMeta.lblock fileMeta.maxSize scan.srcOffset fileMeta.dataIdx
    scan.nbrBytesToMove
  if fileMeta.lblock ≠ logicalDblock0 then
    (flashFsMblockMigrateLb0DataToScratch cfg).failAs .genericError
  else pure ()
  flashFsMblockMetaUpdateFinalize cfg

def flashFsFileDelete (fid : Fid) : FsM Unit := do
  let delFileIdx ← (flashFsMblockGetFileIdx cfg fid).failAs .doesNotExist
  flashFsDeleteIdx cfg delFileIdx

/-! ## Writing a file -/

/-- The entry a write starts from: the index of an existing file with the id, the index that is
reused, and the entry itself. -/
structure WriteTarget where
  oldIdx : Nat
  newIdx : Nat
  fileMeta : FileMeta
deriving DecidableEq, Repr

/-- Looks the file up, and marks it to be deleted when it is replaced. -/
def fileWriteLookup (fid : Fid) (flags maxSize : Nat) : FsM WriteTarget := do
  match ← (flashFsMblockGetFileIdx cfg fid).attempt with
  | .ok oldIdx => do
    let fileMeta ← (flashFsMblockReadFileMeta cfg oldIdx).failAs .doesNotExist
    if flags &&& flagTruncate ≠ 0 then
      if fileMeta.maxSize = maxSize then
        pure ⟨oldIdx, oldIdx, { fileMeta with curSize := 0, flags := flags }⟩
      else do
        let fileMeta := { fileMeta with flags := fileMeta.flags ||| flagDelete }
        (flashFsMblockUpdateScratchFileMeta cfg oldIdx fileMeta).failAs .genericError
        pure ⟨oldIdx, metadataInvalidIndex, fileMeta⟩
    else pure ⟨oldIdx, oldIdx, fileMeta⟩
  | .error .doesNotExist => do
    failIf (flags &&& flagCreate = 0) .doesNotExist
    pure ⟨metadataInvalidIndex, metadataInvalidIndex, FileMeta.zero⟩
  | .error e => fail e

/-- Reserves a new entry, or reads the block entry of the reused one. -/
def fileWriteReserve (fid : Fid) (flags maxSize : Nat) (t : WriteTarget) :
    FsM (Nat × FileMeta × BlockMeta) := do
  if t.newIdx = metadataInvalidIndex then do
    failIf (maxSize > cfg.maxFileSize) .invalidArgument
    let useSpare := t.oldIdx ≠ metadataInvalidIndex
    flashFsMblockReserveFile cfg fid useSpare maxSize flags
  else do
    let blockMeta ← (flashFsMblockReadBlockMetadata cfg t.fileMeta.lblock).failAs .genericError
    pure (t.newIdx, t.fileMeta, blockMeta)

/-- Writes the data to the scratch block, which becomes the block of the file. -/
def fileWriteData (fileMeta : FileMeta) (blockMeta : BlockMeta) (dataSize offset : Nat)
    (data : Nat → UInt8) : FsM (FileMeta × BlockMeta) := do
  if dataSize ≠ 0 then do
    (flashFsFileWriteAlignedData cfg blockMeta fileMeta offset dataSize data).failAs .genericError
    let fileMeta := if add32 offset dataSize > fileMeta.curSize then
      { fileMeta with curSize := add32 offset dataSize } else fileMeta
    let curPhysBlock := blockMeta.phyId
    let phyId ← flashFsMblockCurDataScratchId fileMeta.lblock
    flashFsMblockSetDataScratch curPhysBlock fileMeta.lblock
    pure (fileMeta, { blockMeta with phyId := phyId })
  else pure (fileMeta, blockMeta)

/-- Completes the metadata in the scratch metadata block. -/
def fileWriteMeta (oldIdx newIdx : Nat) (fileMeta : FileMeta) (blockMeta : BlockMeta)
    (dataSize : Nat) : FsM Unit := do
  (flashFsMblockUpdateScratchBlockMeta cfg fileMeta.lblock blockMeta).failAs .genericError
  (flashFsMblockUpdateScratchFileMeta cfg newIdx fileMeta).failAs .genericError
  let idx := min newIdx oldIdx
  (flashFsMblockCpFileMeta cfg 0 idx).failAs .genericError
  let idx ← if oldIdx ≠ metadataInvalidIndex ∧ oldIdx ≠ newIdx then do
      (flashFsMblockCpFileMeta cfg (idx + 1) (max newIdx oldIdx)).failAs .genericError
      pure (max newIdx oldIdx)
    else pure idx
  (flashFsMblockCpFileMeta cfg (idx + 1) cfg.maxNumFiles).failAs .genericError
  if fileMeta.lblock ≠ logicalDblock0 ∨ dataSize = 0 then
    (flashFsMblockMigrateLb0DataToScratch cfg).failAs .genericError
  else pure ()

def flashFsFileWrite (fid : Fid) (flags maxSize dataSize offset : Nat) (data : Nat → UInt8) :
    FsM Unit := do
  failIf (flags &&& internalFlagsMask ≠ 0) .invalidArgument
  let maxSize := utilsAlign maxSize cfg.programUnit
  let t ← fileWriteLookup cfg fid flags maxSize
  let (newIdx, fileMeta, blockMeta) ← fileWriteReserve cfg fid flags maxSize t
  let (fileMeta, blockMeta) ← fileWriteData cfg fileMeta blockMeta dataSize offset data
  fileWriteMeta cfg t.oldIdx newIdx fileMeta blockMeta dataSize
  flashFsMblockMetaUpdateFinalize cfg
  -- a replaced file goes in a second update
  if t.oldIdx ≠ metadataInvalidIndex ∧ t.oldIdx ≠ newIdx then flashFsDeleteIdx cfg t.oldIdx
  else pure ()

/-! ## Reading a file -/

/-- `etss_file_info_t`. -/
structure FileInfo where
  sizeCurrent : Nat
  sizeMax : Nat
  flags : Nat
deriving DecidableEq, Repr

def flashFsFileExist (fid : Fid) : FsM Unit := do
  let _ ← (flashFsMblockGetFileIdx cfg fid).failAs .doesNotExist
  pure ()

def flashFsFileGetInfo (fid : Fid) : FsM FileInfo := do
  let idx ← (flashFsMblockGetFileIdx cfg fid).failAs .doesNotExist
  let tmpMetadata ← flashFsMblockReadFileMeta cfg idx
  failIf (fid ≠ tmpMetadata.id) .doesNotExist
  pure ⟨tmpMetadata.curSize, tmpMetadata.maxSize, tmpMetadata.flags &&& userFlagsMask⟩

def flashFsFileRead (fid : Fid) (size offset : Nat) : FsM (List UInt8) := do
  let idx ← (flashFsMblockGetFileIdx cfg fid).failAs .doesNotExist
  let tmpMetadata ← (flashFsMblockReadFileMeta cfg idx).failAs .genericError
  failIf (fid ≠ tmpMetadata.id) .doesNotExist
  ofExcept (utilsCheckContainedIn tmpMetadata.curSize offset size)
  (flashFsDblockReadFile cfg tmpMetadata offset size).failAs .genericError

/-! ## Mounting and wiping -/

def flashFsPrepare : FsM Unit := do
  flashFsMblockInit cfg
  match ← (flashFsMblockGetFileIdxFlag cfg flagDelete).attempt with
  | .ok idx => flashFsDeleteIdx cfg idx
  | .error .doesNotExist => pure ()
  | .error e => fail e

def flashFsWipeAll : FsM Unit := flashFsMblockResetMetablock cfg

end Etss
