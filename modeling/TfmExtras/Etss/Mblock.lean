import TfmExtras.Etss.Defs

/-! The metadata blocks of the filesystem: `etss_flash_fs_mblock.c`. -/

namespace Etss
open NorFlash FlashM

variable (cfg : Config)

def maxBlockDataCopy : Nat := 256

def otherMetaBlock (metablock : Nat) : Nat :=
  if metablock = metadataBlock0 then metadataBlock1 else metadataBlock0

def initScratchDblock : Nat := if cfg.numBlocks = 2 then 1 else 2

def initDblockStart : Nat := if cfg.numBlocks = 2 then 0 else 3

def numDedicatedDblocks : Nat :=
  if cfg.numBlocks = 2 then 0 else sub32 cfg.numBlocks (initDblockStart cfg)

def numActiveDblocks : Nat := add32 (numDedicatedDblocks cfg) 1

def mblockBlockMetaOffset (lblock : Nat) : Nat :=
  (blockMetaHeaderSize + lblock * blockMetadataSize) % 2 ^ 32

def mblockFileMetaOffset (idx : Nat) : Nat :=
  (blockMetaHeaderSize + numActiveDblocks cfg * blockMetadataSize + idx * fileMetadataSize)
    % 2 ^ 32

def mblockSwapMetablocks : FsM Unit :=
  modify fun c => { c with
    scratchMetablock := c.activeMetablock, activeMetablock := c.scratchMetablock }

/-- The metadata block with the later swap count, counting over the erase value. -/
def mblockLatestMetaBlock (hMeta0 hMeta1 : MetadataBlockHeader) : Nat :=
  let rolloverVal : UInt8 := if cfg.eraseVal = 0x00 then 1 else 0
  if hMeta1.activeSwapCount = rolloverVal ∧ hMeta0.activeSwapCount ≠ rolloverVal + 1 then
    metadataBlock1
  else if hMeta0.activeSwapCount = rolloverVal ∧ hMeta1.activeSwapCount ≠ rolloverVal + 1 then
    metadataBlock0
  else if hMeta1.activeSwapCount > hMeta0.activeSwapCount then metadataBlock1
  else metadataBlock0

/-! ## Validation of metadata read from flash -/

def mblockValidateFileMeta (fileMeta : FileMeta) : Except Status Unit :=
  if fileMeta.lblock ≥ numActiveDblocks cfg then .error .dataCorrupt
  else match utilsValidateFid fileMeta.id with
    | .error _ => .ok ()
    | .ok () =>
      if fileMeta.maxSize > cfg.maxFileSize then .error .dataCorrupt
      else if fileMeta.curSize > fileMeta.maxSize then .error .dataCorrupt
      else if fileMeta.lblock = logicalDblock0 ∧
          fileMeta.dataIdx < mblockFileMetaOffset cfg cfg.maxNumFiles then .error .dataCorrupt
      else match utilsCheckContainedIn cfg.blockSize fileMeta.dataIdx fileMeta.maxSize with
        | .error _ => .error .dataCorrupt
        | .ok () => .ok ()

/-- The checks on a block entry, for the start of the data in a metadata block. -/
def mblockCheckBlockMeta (metaDataStart : Nat) (blockMeta : BlockMeta) : Except Status Unit :=
  if blockMeta.phyId ≥ cfg.numBlocks then .error .dataCorrupt
  else match utilsCheckContainedIn cfg.blockSize blockMeta.dataStart blockMeta.freeSize with
    | .error _ => .error .dataCorrupt
    | .ok () =>
      let validDataStartValue :=
        if blockMeta.phyId = metadataBlock0 ∨ blockMeta.phyId = metadataBlock1 then
          metaDataStart
        else 0
      if blockMeta.dataStart ≠ validDataStartValue then .error .dataCorrupt else .ok ()

def mblockValidateBlockMeta : BlockMeta → Except Status Unit :=
  mblockCheckBlockMeta cfg (mblockFileMetaOffset cfg cfg.maxNumFiles)

def mblockValidateBlockMetaComp : BlockMeta → Except Status Unit :=
  mblockCheckBlockMeta cfg ((blockMetaHeaderCompSize + numActiveDblocks cfg * blockMetadataSize +
    cfg.maxNumFiles * fileMetadataSize) % 2 ^ 32)

/-- One loop of the XOR: entries `i`, `i + 1`, ... of a table, `n` of them. -/
def mblockXorEntries (blockId size : Nat) (pos : Nat → Nat) : Nat → Nat → UInt8 → FsM UInt8
  | 0, _, xorValue => pure xorValue
  | n + 1, i, xorValue => do
    let metadata ← opsRead blockId (pos i) size
    mblockXorEntries blockId size pos n (i + 1) (metadata.foldl (· ^^^ ·) xorValue)

def mblockCalculateMetadataXor (blockId : Nat) : FsM UInt8 := do
  failIf (blockId ≠ metadataBlock0 ∧ blockId ≠ metadataBlock1) .invalidArgument
  let xorValue ← mblockXorEntries blockId blockMetadataSize mblockBlockMetaOffset
    (numActiveDblocks cfg) 0 0
  mblockXorEntries blockId fileMetadataSize (mblockFileMetaOffset cfg) cfg.maxNumFiles 0 xorValue

def mblockValidateMetadataXor (hMeta : MetadataBlockHeader) (blockId : Nat) : FsM Unit := do
  let xorValue ← mblockCalculateMetadataXor cfg blockId
  failIf (xorValue ≠ hMeta.metadataXor) .storageFailure

def mblockValidateSwapCount (swapCount : UInt8) : Except Status Unit :=
  if swapCount = cfg.eraseVal then .error .genericError else .ok ()

/-- Whether a supported version is the backward compatible one. -/
def mblockValidateFsVersion (fsVersion : UInt8) : Except Status Bool :=
  if fsVersion = backwardSupportedVersion then .ok true
  else if fsVersion = supportedVersion then .ok false
  else .error .genericError

def mblockValidateHeaderMeta (hMeta : MetadataBlockHeader) (blockId : Nat) : FsM Unit := do
  let backwardCompatible ← ofExcept (mblockValidateFsVersion hMeta.fsVersion)
  if backwardCompatible then
    ofExcept (mblockValidateSwapCount cfg hMeta.compSwapCount)
  else do
    ofExcept (mblockValidateSwapCount cfg hMeta.activeSwapCount)
    if cfg.validateMetadata then mblockValidateMetadataXor cfg hMeta blockId else pure ()

/-! ## Reading entries of the active metadata block -/

def flashFsMblockReadFileMeta (idx : Nat) : FsM FileMeta := do
  let c ← get
  let buf ← opsRead c.activeMetablock (mblockFileMetaOffset cfg idx) fileMetadataSize
  let fileMeta := FileMeta.decode buf
  ofExcept (if cfg.validateMetadata then mblockValidateFileMeta cfg fileMeta else .ok ())
  pure fileMeta

def flashFsMblockReadBlockMetadata (lblock : Nat) : FsM BlockMeta := do
  let c ← get
  let buf ← opsRead c.activeMetablock (mblockBlockMetaOffset lblock) blockMetadataSize
  let blockMeta := BlockMeta.decode buf
  ofExcept (if cfg.validateMetadata then mblockValidateBlockMeta cfg blockMeta else .ok ())
  pure blockMeta

def flashFsMblockReadBlockMetadataComp (lblock : Nat) : FsM BlockMeta := do
  let c ← get
  let buf ← opsRead c.activeMetablock
    ((blockMetaHeaderCompSize + lblock * blockMetadataSize) % 2 ^ 32) blockMetadataSize
  let blockMeta := BlockMeta.decode buf
  ofExcept (if cfg.validateMetadata then mblockValidateBlockMetaComp cfg blockMeta else .ok ())
  pure blockMeta

/-- The first of `n` file entries from `i` on that satisfies `p`. -/
def mblockFindFileMeta (p : FileMeta → Bool) : Nat → Nat → FsM Nat
  | 0, _ => fail .doesNotExist
  | n + 1, i => do
    let tmpMetadata ← (flashFsMblockReadFileMeta cfg i).failAs .genericError
    if p tmpMetadata then pure i else mblockFindFileMeta p n (i + 1)

def flashFsMblockGetFileIdx (fid : Fid) : FsM Nat :=
  mblockFindFileMeta cfg (fun tmpMetadata => tmpMetadata.id == fid) cfg.maxNumFiles 0

def flashFsMblockGetFileIdxFlag (flags : Nat) : FsM Nat :=
  mblockFindFileMeta cfg (fun tmpMetadata => tmpMetadata.flags &&& flags != 0) cfg.maxNumFiles 0

/-- `n` entries from `i` on; without `useSpare` the first free one is passed over. -/
def getFreeFileIndexLoop : Nat → Nat → Bool → FsM Nat
  | 0, _, _ => pure metadataInvalidIndex
  | n + 1, i, useSpare => do
    match ← (flashFsMblockReadFileMeta cfg i).attempt with
    | .error _ => pure metadataInvalidIndex
    | .ok tmpMetadata =>
      match utilsValidateFid tmpMetadata.id with
      | .ok () => getFreeFileIndexLoop n (i + 1) useSpare
      | .error _ => if useSpare then pure i else getFreeFileIndexLoop n (i + 1) true

def getFreeFileIndex (useSpare : Bool) : FsM Nat :=
  getFreeFileIndexLoop cfg cfg.maxNumFiles 0 useSpare

/-! ## Blocks -/

def flashFsMblockCurDataScratchId (lblock : Nat) : FsM Nat := do
  let c ← get
  pure (if lblock = logicalDblock0 then c.scratchMetablock else c.metaBlockHeader.scratchDblock)

def flashFsMblockSetDataScratch (phyId lblock : Nat) : FsM Unit :=
  if lblock ≠ logicalDblock0 then
    modify fun c => { c with metaBlockHeader := { c.metaBlockHeader with scratchDblock := phyId } }
  else pure ()

/-- At most `n` chunks of the move. -/
def blockToBlockMoveLoop (dstBlock srcBlock : Nat) : Nat → Nat → Nat → Nat → FsM Unit
  | 0, _, _, _ => pure ()
  | n + 1, dstOffset, srcOffset, size =>
    if size = 0 then pure ()
    else do
      let bytesToMove := min size maxBlockDataCopy
      let dstBlockDataCopy ← opsRead srcBlock srcOffset bytesToMove
      let _ ← opsWrite dstBlock dstBlockDataCopy dstOffset
      blockToBlockMoveLoop dstBlock srcBlock n (add32 dstOffset bytesToMove)
        (add32 srcOffset bytesToMove) (size - bytesToMove)

/-- Every chunk moves at least one byte, so that `size` chunks are enough. -/
def flashFsBlockToBlockMove (dstBlock dstOffset srcBlock srcOffset size : Nat) : FsM Unit :=
  blockToBlockMoveLoop dstBlock srcBlock size dstOffset srcOffset size

def mblockEraseScratchBlocks : FsM Unit := do
  let c ← get
  let _ ← opsErase c.scratchMetablock
  if cfg.numBlocks > 2 then do
    let scratchDatablock ← flashFsMblockCurDataScratchId (logicalDblock0 + 1)
    let _ ← opsErase scratchDatablock
    pure ()
  else pure ()

def mblockUpdateScratchBlockMeta (lblock : Nat) (blockMeta : BlockMeta) : FsM Unit := do
  let c ← get
  let _ ← opsWrite c.scratchMetablock blockMeta.encode (mblockBlockMetaOffset lblock)
  pure ()

def mblockCopyRemainingBlockMeta (lblock : Nat) : FsM Unit := do
  let c ← get
  let scratchBlock := c.scratchMetablock
  let metaBlock := c.activeMetablock
  if lblock ≠ logicalDblock0 then do
    let blockMeta ← (flashFsMblockReadBlockMetadata cfg logicalDblock0).failAs .genericError
    (mblockUpdateScratchBlockMeta logicalDblock0 { blockMeta with phyId := scratchBlock }).failAs
      .genericError
    if lblock > 1 then
      let pos := mblockBlockMetaOffset (logicalDblock0 + 1)
      flashFsBlockToBlockMove scratchBlock pos metaBlock pos
        (sub32 (mblockBlockMetaOffset lblock) pos)
    else pure ()
  else pure ()
  let pos := mblockBlockMetaOffset (lblock + 1)
  flashFsBlockToBlockMove scratchBlock pos metaBlock pos (sub32 (mblockFileMetaOffset cfg 0) pos)

def flashFsMblockUpdateScratchBlockMeta (lblock : Nat) (blockMeta : BlockMeta) : FsM Unit := do
  let c ← get
  let blockMeta := if lblock = logicalDblock0 then { blockMeta with phyId := c.scratchMetablock }
    else blockMeta
  (mblockUpdateScratchBlockMeta lblock blockMeta).failAs .genericError
  mblockCopyRemainingBlockMeta cfg lblock

def flashFsMblockUpdateScratchFileMeta (idx : Nat) (fileMeta : FileMeta) : FsM Unit := do
  let c ← get
  let _ ← opsWrite c.scratchMetablock fileMeta.encode (mblockFileMetaOffset cfg idx)
  pure ()

def flashFsMblockCpFileMeta (idxStart idxEnd : Nat) : FsM Unit := do
  let c ← get
  let posStart := mblockFileMetaOffset cfg idxStart
  let posEnd := mblockFileMetaOffset cfg idxEnd
  flashFsBlockToBlockMove c.scratchMetablock posStart c.activeMetablock posStart
    (sub32 posEnd posStart)

def flashFsMblockMigrateLb0DataToScratch : FsM Unit := do
  let blockMeta ← flashFsMblockReadBlockMetadata cfg logicalDblock0
  let dataSize := sub32 (sub32 cfg.blockSize blockMeta.dataStart) blockMeta.freeSize
  let c ← get
  flashFsBlockToBlockMove c.scratchMetablock blockMeta.dataStart c.activeMetablock
    blockMeta.dataStart dataSize

/-! ## Committing an update -/

def mblockWriteScratchMetaHeader : FsM Unit := do
  modify fun c => { c with metaBlockHeader :=
    { c.metaBlockHeader with activeSwapCount := c.metaBlockHeader.activeSwapCount + 1 } }
  modify fun c =>
    match mblockValidateSwapCount cfg c.metaBlockHeader.activeSwapCount with
    | .ok () => c
    | .error _ => { c with metaBlockHeader :=
        { c.metaBlockHeader with activeSwapCount := c.metaBlockHeader.activeSwapCount + 1 } }
  let c ← get
  let xorValue ← if cfg.validateMetadata then mblockCalculateMetadataXor cfg c.scratchMetablock
    else pure 0
  modify fun c => { c with metaBlockHeader := { c.metaBlockHeader with metadataXor := xorValue } }
  let c ← get
  let _ ← opsWrite c.scratchMetablock c.metaBlockHeader.encode 0
  pure ()

def flashFsMblockMetaUpdateFinalize : FsM Unit := do
  mblockWriteScratchMetaHeader cfg
  let c ← get
  let _ ← opsFlush c.scratchMetablock
  mblockSwapMetablocks
  mblockEraseScratchBlocks cfg

/-! ## Mounting -/

def mblockUpgradeMetaHeader : FsM Unit := do
  let c ← get
  let backwardCompatible ← ofExcept (mblockValidateFsVersion c.metaBlockHeader.fsVersion)
  if backwardCompatible then do
    let blockMeta0 ← flashFsMblockReadBlockMetadataComp cfg logicalDblock0
    let number := sub32 (sub32 cfg.blockSize blockMeta0.freeSize) blockMetaHeaderCompSize
    flashFsBlockToBlockMove c.scratchMetablock (mblockBlockMetaOffset logicalDblock0)
      c.activeMetablock blockMetaHeaderCompSize number
    modify fun c => { c with metaBlockHeader := { c.metaBlockHeader with
      activeSwapCount := c.metaBlockHeader.compSwapCount, fsVersion := supportedVersion } }
    flashFsMblockMetaUpdateFinalize cfg
  else pure ()

def mblockReadMetaHeader : FsM Unit := do
  let c ← get
  let buf ← opsRead c.activeMetablock 0 blockMetaHeaderSize
  let hMeta := MetadataBlockHeader.decode buf
  modify fun c => { c with metaBlockHeader := hMeta }
  mblockValidateHeaderMeta cfg hMeta c.activeMetablock

/-- Reads and validates the header of a metadata block; `none` when the read or a check fails. -/
def initReadHeader (blockId : Nat) : FsM (Option MetadataBlockHeader) := do
  match ← (opsRead blockId 0 blockMetaHeaderSize).attempt with
  | .error _ => pure none
  | .ok buf =>
    let hMeta := MetadataBlockHeader.decode buf
    match ← (mblockValidateHeaderMeta cfg hMeta blockId).attempt with
    | .error _ => pure none
    | .ok () => pure (some hMeta)

def initGetActiveMetablock : FsM Unit := do
  let hMeta0 ← initReadHeader cfg metadataBlock0
  let hMeta1 ← initReadHeader cfg metadataBlock1
  let curMetaBlock ← ofExcept (match hMeta0, hMeta1 with
    | some hMeta0, some hMeta1 => .ok (mblockLatestMetaBlock cfg hMeta0 hMeta1)
    | some _, none => .ok metadataBlock0
    | none, some _ => .ok metadataBlock1
    | none, none => .error .genericError)
  modify fun c => { c with
    activeMetablock := curMetaBlock, scratchMetablock := otherMetaBlock curMetaBlock }

def flashFsMblockInit : FsM Unit := do
  let _ ← opsInit
  (initGetActiveMetablock cfg).failAs .genericError
  (mblockReadMetaHeader cfg).failAs .genericError
  (mblockEraseScratchBlocks cfg).failAs .genericError
  mblockUpgradeMetaHeader cfg

/-! ## Reserving space for a file -/

/-- The first of `n` logical blocks from `i` on with room for the file. -/
def mblockReserveFileLoop (fid : Fid) (size flags : Nat) :
    Nat → Nat → FsM (FileMeta × BlockMeta)
  | 0, _ => fail .insufficientStorage
  | n + 1, i => do
    let blockMeta ← (flashFsMblockReadBlockMetadata cfg i).failAs .genericError
    if blockMeta.freeSize ≥ size then
      pure (⟨i, sub32 cfg.blockSize blockMeta.freeSize, 0, size, flags, fid⟩,
        { blockMeta with freeSize := blockMeta.freeSize - size })
    else mblockReserveFileLoop fid size flags n (i + 1)

def mblockReserveFile (fid : Fid) (size flags : Nat) : FsM (FileMeta × BlockMeta) :=
  mblockReserveFileLoop cfg fid size flags (numActiveDblocks cfg) 0

def flashFsMblockReserveFile (fid : Fid) (useSpare : Bool) (size flags : Nat) :
    FsM (Nat × FileMeta × BlockMeta) := do
  let err ← (mblockReserveFile cfg fid size flags).attempt
  let idx ← getFreeFileIndex cfg useSpare
  match err with
  | .error _ => fail .insufficientStorage
  | .ok (fileMeta, blockMeta) =>
    if idx = metadataInvalidIndex then fail .insufficientStorage
    else pure (idx, fileMeta, blockMeta)

/-! ## Creating an empty layout -/

/-- Erases every dedicated block, and reports whether all erases succeeded. -/
def resetEraseDblocks : Nat → Nat → Bool → FsM Bool
  | 0, _, good => pure good
  | n + 1, i, good => do
    let r ← (opsErase (i + initDblockStart cfg)).attempt
    resetEraseDblocks n (i + 1) (good && r.isOk)

def resetWriteBlockMeta (blockMeta : BlockMeta) : Nat → Nat → FsM Unit
  | 0, _ => pure ()
  | n + 1, i => do
    (mblockUpdateScratchBlockMeta (i + 1)
      { blockMeta with phyId := i + initDblockStart cfg }).failAs .genericError
    resetWriteBlockMeta blockMeta n (i + 1)

def resetWriteFileMeta (fileMetadata : FileMeta) : Nat → Nat → FsM Unit
  | 0, _ => pure ()
  | n + 1, i => do
    (flashFsMblockUpdateScratchFileMeta cfg i fileMetadata).failAs .genericError
    resetWriteFileMeta fileMetadata n (i + 1)

def flashFsMblockResetMetablock : FsM Unit := do
  let found ← (initGetActiveMetablock cfg).attempt
  let c ← get
  let metablockToEraseFirst := if found.isOk then c.scratchMetablock else metadataBlock0
  let _ ← opsErase metablockToEraseFirst
  let _ ← opsErase (otherMetaBlock metablockToEraseFirst)
  modify fun c =>
    { metaBlockHeader := { c.metaBlockHeader with
        activeSwapCount := if cfg.eraseVal = 0x00 then 1 else 0
        scratchDblock := initScratchDblock cfg
        fsVersion := supportedVersion }
      scratchMetablock := metadataBlock1
      activeMetablock := metadataBlock0 }
  let dataStart := mblockFileMetaOffset cfg cfg.maxNumFiles
  mblockUpdateScratchBlockMeta logicalDblock0
    ⟨metadataBlock1, dataStart, sub32 cfg.blockSize dataStart⟩
  let good ← resetEraseDblocks cfg (numDedicatedDblocks cfg) 0 true
  failIf (good = false) .storageFailure
  resetWriteBlockMeta cfg ⟨metadataBlock1, 0, cfg.blockSize⟩ (numDedicatedDblocks cfg) 0
  resetWriteFileMeta cfg FileMeta.zero cfg.maxNumFiles 0
  (mblockWriteScratchMetaHeader cfg).failAs .genericError
  let c ← get
  let _ ← opsFlush c.scratchMetablock
  mblockSwapMetablocks

end Etss
