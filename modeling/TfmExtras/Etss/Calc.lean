import TfmExtras.Etss.Write
import TfmExtras.Lib.Noted

/-! The computations that are made with the sizes and offsets stored in the tables, noted down
where the file operations make them. -/

namespace Etss
open NorFlash FlashM

/-- A sum or a difference of `size_t` or `uint32_t` values. -/
inductive Calc
  | add (a b : Nat)
  | sub (a b : Nat)
deriving DecidableEq, Repr

/-- The computation does not wrap. -/
def Calc.Exact : Calc → Prop
  | add a b => a + b < 2 ^ 32
  | sub a b => b ≤ a

instance (x : Calc) : Decidable x.Exact :=
  match x with
  | .add a b => inferInstanceAs (Decidable (a + b < 2 ^ 32))
  | .sub a b => inferInstanceAs (Decidable (b ≤ a))

/-- A filesystem function that notes its computations. -/
abbrev CalcM := FlashM (Ctx × List Calc) Status

variable (cfg : Config)

/-! ## Data blocks -/

def migrateLb0DataToScratchNoted : CalcM Unit := do
  let blockMeta ← silent (flashFsMblockReadBlockMetadata cfg logicalDblock0)
  note [.sub cfg.blockSize blockMeta.dataStart,
    .sub (sub32 cfg.blockSize blockMeta.dataStart) blockMeta.freeSize]
  let dataSize := sub32 (sub32 cfg.blockSize blockMeta.dataStart) blockMeta.freeSize
  let c ← silent get
  silent (flashFsBlockToBlockMove c.scratchMetablock blockMeta.dataStart c.activeMetablock
    blockMeta.dataStart dataSize)

def dblockCompactBlockNoted (lblock freeSize srcOffset dstOffset size : Nat) : CalcM Unit := do
  let blockMeta ← silent (flashFsMblockReadBlockMetadata cfg lblock)
  note [.add blockMeta.freeSize freeSize]
  let blockMeta := { blockMeta with freeSize := add32 blockMeta.freeSize freeSize }
  let scratchId ← silent (flashFsMblockCurDataScratchId lblock)
  if size > 0 then
    silent ((flashFsBlockToBlockMove scratchId dstOffset blockMeta.phyId srcOffset size).failAs
      .genericError)
  else pure ()
  if dstOffset > blockMeta.dataStart then do
    note [.sub dstOffset blockMeta.dataStart]
    silent ((flashFsBlockToBlockMove scratchId blockMeta.dataStart blockMeta.phyId
      blockMeta.dataStart (dstOffset - blockMeta.dataStart)).failAs .genericError)
  else pure ()
  silent (flashFsMblockSetDataScratch blockMeta.phyId lblock)
  silent do
    match ← (flashFsMblockUpdateScratchBlockMeta cfg lblock
        { blockMeta with phyId := scratchId }).attempt with
    | .error e => do
      flashFsMblockSetDataScratch scratchId lblock
      fail e
    | .ok () =>
      if lblock ≠ logicalDblock0 then do
        let _ ← opsFlush scratchId
        pure ()
      else pure ()

def dblockReadFileNoted (fileMeta : FileMeta) (offset size : Nat) : CalcM (List UInt8) := do
  let physBlock ← silent (dblockLoToPhy cfg fileMeta.lblock)
  silent (failIf (physBlock = blockInvalidId) .genericError)
  note [.add fileMeta.dataIdx offset]
  silent (opsRead physBlock (add32 fileMeta.dataIdx offset) size)

def dblockWriteFileNoted (blockMeta : BlockMeta) (fileMeta : FileMeta) (offset size : Nat)
    (data : Nat → UInt8) : CalcM Unit := do
  let scratchId ← silent (flashFsMblockCurDataScratchId fileMeta.lblock)
  note [.add fileMeta.dataIdx offset, .sub (add32 fileMeta.dataIdx offset) blockMeta.dataStart]
  let pos := add32 fileMeta.dataIdx offset
  silent (flashFsBlockToBlockMove scratchId blockMeta.dataStart blockMeta.phyId
    blockMeta.dataStart (sub32 pos blockMeta.dataStart))
  let _ ← silent (opsWrite scratchId ((List.range size).map data) pos)
  note [.add fileMeta.dataIdx fileMeta.maxSize, .sub cfg.blockSize blockMeta.freeSize,
    .sub (sub32 cfg.blockSize blockMeta.freeSize) (add32 fileMeta.dataIdx fileMeta.maxSize)]
  let pos := add32 fileMeta.dataIdx fileMeta.maxSize
  let numBytes := sub32 (sub32 cfg.blockSize blockMeta.freeSize) pos
  silent (flashFsBlockToBlockMove scratchId pos blockMeta.phyId pos numBytes)
  silent (if fileMeta.lblock ≠ logicalDblock0 then do
      let _ ← opsFlush scratchId
      pure ()
    else pure ())

def fileWriteAlignedDataNoted (blockMeta : BlockMeta) (fileMeta : FileMeta)
    (offset size : Nat) (data : Nat → UInt8) : CalcM Unit := do
  silent (failIf (utilsIsAligned offset cfg.programUnit = false) .invalidArgument)
  let size := utilsAlign size cfg.programUnit
  silent (failIf (offset > fileMeta.curSize) .invalidArgument)
  silent ((ofExcept (utilsCheckContainedIn fileMeta.maxSize offset size)).failAs .invalidArgument)
  dblockWriteFileNoted cfg blockMeta fileMeta offset size data

/-! ## Deleting a file -/

/-- The computations for the entry of a file that remains. -/
def deleteIdxEntryCalcs (delFileLblock delFileDataIdx delFileMaxSize : Nat) (scan : DeleteScan)
    (fileMeta : FileMeta) : List Calc :=
  if fileMeta.lblock = delFileLblock ∧ (utilsValidateFid fileMeta.id).isOk ∧
      fileMeta.dataIdx > delFileDataIdx then
    [.sub fileMeta.dataIdx delFileMaxSize, .add scan.nbrBytesToMove fileMeta.maxSize]
  else []

def deleteIdxLoopNoted (delFileIdx delFileLblock delFileDataIdx delFileMaxSize : Nat) :
    Nat → Nat → DeleteScan → CalcM DeleteScan
  | 0, _, scan => pure scan
  | n + 1, idx, scan =>
    if idx = delFileIdx then
      deleteIdxLoopNoted delFileIdx delFileLblock delFileDataIdx delFileMaxSize n (idx + 1) scan
    else do
      let fileMeta ← silent (flashFsMblockReadFileMeta cfg idx)
      note (deleteIdxEntryCalcs delFileLblock delFileDataIdx delFileMaxSize scan fileMeta)
      let r := deleteIdxEntry delFileLblock delFileDataIdx delFileMaxSize scan fileMeta
      silent (flashFsMblockUpdateScratchFileMeta cfg idx r.2)
      deleteIdxLoopNoted delFileIdx delFileLblock delFileDataIdx delFileMaxSize n (idx + 1) r.1

def deleteIdxNoted (delFileIdx : Nat) : CalcM Unit := do
  let fileMeta ← silent (flashFsMblockReadFileMeta cfg delFileIdx)
  silent ((ofExcept (utilsValidateFid fileMeta.id)).failAs .doesNotExist)
  silent (flashFsMblockUpdateScratchFileMeta cfg delFileIdx FileMeta.zero)
  let scan ← deleteIdxLoopNoted cfg delFileIdx fileMeta.lblock fileMeta.dataIdx fileMeta.maxSize
    cfg.maxNumFiles 0 ⟨cfg.blockSize, 0⟩
  dblockCompactBlockNoted cfg fileMeta.lblock fileMeta.maxSize scan.srcOffset fileMeta.dataIdx
    scan.nbrBytesToMove
  if fileMeta.lblock ≠ logicalDblock0 then
    (migrateLb0DataToScratchNoted cfg).failAs .genericError
  else pure ()
  silent (flashFsMblockMetaUpdateFinalize cfg)

def fileDeleteNoted (fid : Fid) : CalcM Unit := do
  let delFileIdx ← silent ((flashFsMblockGetFileIdx cfg fid).failAs .doesNotExist)
  deleteIdxNoted cfg delFileIdx

/-! ## Writing a file -/

def mblockReserveFileLoopNoted (fid : Fid) (size flags : Nat) :
    Nat → Nat → CalcM (FileMeta × BlockMeta)
  | 0, _ => silent (fail .insufficientStorage)
  | n + 1, i => do
    let blockMeta ← silent ((flashFsMblockReadBlockMetadata cfg i).failAs .genericError)
    if blockMeta.freeSize ≥ size then do
      note [.sub cfg.blockSize blockMeta.freeSize, .sub blockMeta.freeSize size]
      pure (⟨i, sub32 cfg.blockSize blockMeta.freeSize, 0, size, flags, fid⟩,
        { blockMeta with freeSize := blockMeta.freeSize - size })
    else mblockReserveFileLoopNoted fid size flags n (i + 1)

def mblockReserveFileNoted (fid : Fid) (useSpare : Bool) (size flags : Nat) :
    CalcM (Nat × FileMeta × BlockMeta) := do
  let err ← (mblockReserveFileLoopNoted cfg fid size flags (numActiveDblocks cfg) 0).attempt
  let idx ← silent (getFreeFileIndex cfg useSpare)
  silent (match err with
    | .error _ => fail .insufficientStorage
    | .ok (fileMeta, blockMeta) =>
      if idx = metadataInvalidIndex then fail .insufficientStorage
      else pure (idx, fileMeta, blockMeta))

def fileWriteReserveNoted (fid : Fid) (flags maxSize : Nat) (t : WriteTarget) :
    CalcM (Nat × FileMeta × BlockMeta) := do
  if t.newIdx = metadataInvalidIndex then do
    silent (failIf (maxSize > cfg.maxFileSize) .invalidArgument)
    mblockReserveFileNoted cfg fid (t.oldIdx ≠ metadataInvalidIndex) maxSize flags
  else do
    let blockMeta ←
      silent ((flashFsMblockReadBlockMetadata cfg t.fileMeta.lblock).failAs .genericError)
    pure (t.newIdx, t.fileMeta, blockMeta)

def fileWriteDataNoted (fileMeta : FileMeta) (blockMeta : BlockMeta) (dataSize offset : Nat)
    (data : Nat → UInt8) : CalcM (FileMeta × BlockMeta) := do
  if dataSize ≠ 0 then do
    (fileWriteAlignedDataNoted cfg blockMeta fileMeta offset dataSize data).failAs .genericError
    silent do
      let fileMeta := if add32 offset dataSize > fileMeta.curSize then
        { fileMeta with curSize := add32 offset dataSize } else fileMeta
      let curPhysBlock := blockMeta.phyId
      let phyId ← flashFsMblockCurDataScratchId fileMeta.lblock
      flashFsMblockSetDataScratch curPhysBlock fileMeta.lblock
      pure (fileMeta, { blockMeta with phyId := phyId })
  else pure (fileMeta, blockMeta)

/-- The file table of a write, in the scratch metadata block. -/
def fileWriteTable (oldIdx newIdx : Nat) (fileMeta : FileMeta) (blockMeta : BlockMeta) :
    FsM Unit := do
  (flashFsMblockUpdateScratchBlockMeta cfg fileMeta.lblock blockMeta).failAs .genericError
  (flashFsMblockUpdateScratchFileMeta cfg newIdx fileMeta).failAs .genericError
  let idx := min newIdx oldIdx
  (flashFsMblockCpFileMeta cfg 0 idx).failAs .genericError
  let idx ← if oldIdx ≠ metadataInvalidIndex ∧ oldIdx ≠ newIdx then do
      (flashFsMblockCpFileMeta cfg (idx + 1) (max newIdx oldIdx)).failAs .genericError
      pure (max newIdx oldIdx)
    else pure idx
  (flashFsMblockCpFileMeta cfg (idx + 1) cfg.maxNumFiles).failAs .genericError

def fileWriteMetaNoted (oldIdx newIdx : Nat) (fileMeta : FileMeta) (blockMeta : BlockMeta)
    (dataSize : Nat) : CalcM Unit := do
  silent (fileWriteTable cfg oldIdx newIdx fileMeta blockMeta)
  if fileMeta.lblock ≠ logicalDblock0 ∨ dataSize = 0 then
    (migrateLb0DataToScratchNoted cfg).failAs .genericError
  else pure ()

/-- The first update of a write. -/
def fileWriteFirstNoted (r : WriteReq) : CalcM WritePlan := do
  silent (failIf (r.flags &&& internalFlagsMask ≠ 0) .invalidArgument)
  let t ← silent (fileWriteLookup cfg r.fid r.flags (r.max cfg))
  let (newIdx, fileMeta, blockMeta) ← fileWriteReserveNoted cfg r.fid r.flags (r.max cfg) t
  let (fileMeta, blockMeta) ←
    fileWriteDataNoted cfg fileMeta blockMeta r.dataSize r.offset r.data
  fileWriteMetaNoted cfg t.oldIdx newIdx fileMeta blockMeta r.dataSize
  silent (flashFsMblockMetaUpdateFinalize cfg)
  pure ⟨t.oldIdx, newIdx, fileMeta, blockMeta⟩

def fileWriteNoted (r : WriteReq) : CalcM Unit := do
  let x ← fileWriteFirstNoted cfg r
  if x.oldIdx ≠ metadataInvalidIndex ∧ x.oldIdx ≠ x.newIdx then deleteIdxNoted cfg x.oldIdx
  else pure ()

/-! ## Reading a file -/

def fileReadNoted (fid : Fid) (size offset : Nat) : CalcM (List UInt8) := do
  let idx ← silent ((flashFsMblockGetFileIdx cfg fid).failAs .doesNotExist)
  let tmpMetadata ← silent ((flashFsMblockReadFileMeta cfg idx).failAs .genericError)
  silent (failIf (fid ≠ tmpMetadata.id) .doesNotExist)
  silent (ofExcept (utilsCheckContainedIn tmpMetadata.curSize offset size))
  (dblockReadFileNoted cfg tmpMetadata offset size).failAs .genericError

/-! ## The functions that take no notes -/

variable {cfg}

theorem migrateLb0DataToScratchNoted_notes :
    Notes (migrateLb0DataToScratchNoted cfg) (flashFsMblockMigrateLb0DataToScratch cfg) :=
  (notes_silent _).bind fun _ => notes_note_bind
    ((notes_silent _).bind fun _ => notes_silent _)

theorem dblockCompactBlockNoted_notes (lblock freeSize srcOffset dstOffset size : Nat) :
    Notes (dblockCompactBlockNoted cfg lblock freeSize srcOffset dstOffset size)
      (flashFsDblockCompactBlock cfg lblock freeSize srcOffset dstOffset size) := by
  unfold dblockCompactBlockNoted flashFsDblockCompactBlock
  refine (notes_silent _).bind fun blockMeta => notes_note_bind ?_
  refine (notes_silent _).bind fun scratchId => ?_
  refine Notes.ite_bind (notes_silent _) ?_
  refine .ite (notes_note_bind ?_) ((notes_silent _).bind fun _ => notes_silent _)
  exact (notes_silent _).bind fun _ => (notes_silent _).bind fun _ => notes_silent _

theorem dblockReadFileNoted_notes (fileMeta : FileMeta) (offset size : Nat) :
    Notes (dblockReadFileNoted cfg fileMeta offset size)
      (flashFsDblockReadFile cfg fileMeta offset size) :=
  (notes_silent _).bind fun _ => (notes_silent _).bind fun _ => notes_note_bind (notes_silent _)

theorem dblockWriteFileNoted_notes (blockMeta : BlockMeta) (fileMeta : FileMeta)
    (offset size : Nat) (data : Nat → UInt8) :
    Notes (dblockWriteFileNoted cfg blockMeta fileMeta offset size data)
      (flashFsDblockWriteFile cfg blockMeta fileMeta offset size data) := by
  unfold dblockWriteFileNoted flashFsDblockWriteFile
  refine (notes_silent _).bind fun scratchId => notes_note_bind ?_
  refine (notes_silent _).bind fun _ => (notes_silent _).bind fun _ => notes_note_bind ?_
  exact (notes_silent _).bind fun _ => notes_silent _

theorem fileWriteAlignedDataNoted_notes (blockMeta : BlockMeta) (fileMeta : FileMeta)
    (offset size : Nat) (data : Nat → UInt8) :
    Notes (fileWriteAlignedDataNoted cfg blockMeta fileMeta offset size data)
      (flashFsFileWriteAlignedData cfg blockMeta fileMeta offset size data) :=
  (notes_silent _).bind fun _ => (notes_silent _).bind fun _ => (notes_silent _).bind fun _ =>
    dblockWriteFileNoted_notes _ _ _ _ _

theorem deleteIdxLoopNoted_notes (d lblock dataIdx maxSize n idx : Nat) (scan : DeleteScan) :
    Notes (deleteIdxLoopNoted cfg d lblock dataIdx maxSize n idx scan)
      (deleteIdxLoop cfg d lblock dataIdx maxSize n idx scan) := by
  induction n generalizing idx scan with
  | zero => exact notes_pure _
  | succ n ih =>
    unfold deleteIdxLoopNoted deleteIdxLoop
    refine .ite (ih _ _) ((notes_silent _).bind fun fileMeta => notes_note_bind ?_)
    exact (notes_silent _).bind fun _ => ih _ _

theorem deleteIdxNoted_notes (d : Nat) : Notes (deleteIdxNoted cfg d) (flashFsDeleteIdx cfg d) := by
  unfold deleteIdxNoted flashFsDeleteIdx
  refine (notes_silent _).bind fun fileMeta => (notes_silent _).bind fun _ => ?_
  refine (notes_silent _).bind fun _ => Notes.bind (deleteIdxLoopNoted_notes _ _ _ _ _ _ _) fun scan => ?_
  refine Notes.bind (dblockCompactBlockNoted_notes _ _ _ _ _) fun _ => ?_
  exact Notes.ite_bind (Notes.failAs migrateLb0DataToScratchNoted_notes) (notes_silent _)

theorem fileDeleteNoted_notes (fid : Fid) :
    Notes (fileDeleteNoted cfg fid) (flashFsFileDelete cfg fid) :=
  (notes_silent _).bind fun _ => deleteIdxNoted_notes _

theorem mblockReserveFileLoopNoted_notes (fid : Fid) (size flags n i : Nat) :
    Notes (mblockReserveFileLoopNoted cfg fid size flags n i)
      (mblockReserveFileLoop cfg fid size flags n i) := by
  induction n generalizing i with
  | zero => exact notes_silent _
  | succ n ih =>
    unfold mblockReserveFileLoopNoted mblockReserveFileLoop
    exact (notes_silent _).bind fun _ => .ite (notes_note_bind (notes_pure _)) (ih _)

theorem mblockReserveFileNoted_notes (fid : Fid) (useSpare : Bool) (size flags : Nat) :
    Notes (mblockReserveFileNoted cfg fid useSpare size flags)
      (flashFsMblockReserveFile cfg fid useSpare size flags) :=
  Notes.bind (Notes.attempt (mblockReserveFileLoopNoted_notes _ _ _ _ _)) fun _ =>
    (notes_silent _).bind fun _ => notes_silent _

theorem fileWriteReserveNoted_notes (fid : Fid) (flags maxSize : Nat) (t : WriteTarget) :
    Notes (fileWriteReserveNoted cfg fid flags maxSize t)
      (fileWriteReserve cfg fid flags maxSize t) :=
  .ite ((notes_silent _).bind fun _ => mblockReserveFileNoted_notes _ _ _ _)
    ((notes_silent _).bind fun _ => notes_pure _)

theorem fileWriteDataNoted_notes (fileMeta : FileMeta) (blockMeta : BlockMeta)
    (dataSize offset : Nat) (data : Nat → UInt8) :
    Notes (fileWriteDataNoted cfg fileMeta blockMeta dataSize offset data)
      (fileWriteData cfg fileMeta blockMeta dataSize offset data) :=
  .ite (Notes.bind (Notes.failAs (fileWriteAlignedDataNoted_notes _ _ _ _ _)) fun _ => notes_silent _)
    (notes_pure _)

theorem fileWriteMeta_eq (oldIdx newIdx : Nat) (fileMeta : FileMeta) (blockMeta : BlockMeta)
    (dataSize : Nat) : fileWriteMeta cfg oldIdx newIdx fileMeta blockMeta dataSize =
      fileWriteTable cfg oldIdx newIdx fileMeta blockMeta >>= fun _ =>
        if fileMeta.lblock ≠ logicalDblock0 ∨ dataSize = 0 then
          (flashFsMblockMigrateLb0DataToScratch cfg).failAs .genericError
        else pure () := by
  unfold fileWriteMeta fileWriteTable
  simp only [bind_assoc]
  split_ifs <;> simp only [bind_assoc, pure_bind]

theorem fileWriteMetaNoted_notes (oldIdx newIdx : Nat) (fileMeta : FileMeta)
    (blockMeta : BlockMeta) (dataSize : Nat) :
    Notes (fileWriteMetaNoted cfg oldIdx newIdx fileMeta blockMeta dataSize)
      (fileWriteMeta cfg oldIdx newIdx fileMeta blockMeta dataSize) := by
  rw [fileWriteMeta_eq]
  exact (notes_silent _).bind fun _ =>
    .ite (Notes.failAs migrateLb0DataToScratchNoted_notes) (notes_pure _)

/-- The first update of a write, and what its second one starts from. -/
def fileWriteFirst (cfg : Config) (r : WriteReq) : FsM WritePlan := do
  let x ← fileWriteStage cfg r
  fileWriteComplete cfg r x
  flashFsMblockMetaUpdateFinalize cfg
  pure x

theorem fileWrite_first (cfg : Config) (r : WriteReq) :
    flashFsFileWrite cfg r.fid r.flags r.maxSize r.dataSize r.offset r.data =
      fileWriteFirst cfg r >>= fileWriteReplace cfg := by
  rw [fileWrite_eq]
  unfold fileWriteFirst
  simp only [bind_assoc, pure_bind]

theorem fileWriteFirstNoted_notes (r : WriteReq) :
    Notes (fileWriteFirstNoted cfg r) (fileWriteFirst cfg r) := by
  unfold fileWriteFirstNoted fileWriteFirst fileWriteStage fileWriteComplete
  simp only [bind_assoc, pure_bind]
  refine (notes_silent _).bind fun _ => (notes_silent _).bind fun t => ?_
  refine Notes.bind (fileWriteReserveNoted_notes _ _ _ _) fun q => ?_
  refine Notes.bind (fileWriteDataNoted_notes _ _ _ _ _) fun x => ?_
  exact Notes.bind (fileWriteMetaNoted_notes _ _ _ _ _) fun _ => (notes_silent _).bind fun _ =>
    notes_pure _

theorem fileWriteNoted_notes (r : WriteReq) : Notes (fileWriteNoted cfg r)
    (flashFsFileWrite cfg r.fid r.flags r.maxSize r.dataSize r.offset r.data) := by
  rw [fileWrite_first]
  exact (fileWriteFirstNoted_notes r).bind fun x =>
    .ite (deleteIdxNoted_notes _) (notes_pure _)

theorem fileReadNoted_notes (fid : Fid) (size offset : Nat) :
    Notes (fileReadNoted cfg fid size offset) (flashFsFileRead cfg fid size offset) :=
  (notes_silent _).bind fun _ => (notes_silent _).bind fun _ => (notes_silent _).bind fun _ =>
    (notes_silent _).bind fun _ => Notes.failAs (dblockReadFileNoted_notes _ _ _)

end Etss
