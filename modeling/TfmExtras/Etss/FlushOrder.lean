import TfmExtras.Etss.LookupFault
import TfmExtras.Etss.Upgrade
import TfmExtras.Lib.Flush

/-! The order of writes and flushes: a device that buffers one block has to be flushed before
another block is written. The metadata of an update is never flushed before its header, so that
data for a dedicated block has to be written before any of it. -/

namespace Etss
open NorFlash NorFlash.Flash FlashM

variable {cfg : Config} {s sd : Nat} {c c' : Ctx} {fl fl' : Flash} {d : Option Nat}

/-! ## What is written to the scratch metadata block only -/

/-- The contexts with scratch metadata block `s`. -/
def ScratchIs (s : Nat) (c : Ctx) : Prop := c.scratchMetablock = s

/-- The call writes the scratch metadata block only. -/
abbrev ToScratch {α : Type} (s : Nat) (m : FsM α) : Prop := m.WritesTo s (ScratchIs s)

theorem blockToBlockMoveLoop_writesTo {I : Ctx → Prop} (dst src n : Nat) :
    ∀ dstOffset srcOffset size,
      (blockToBlockMoveLoop dst src n dstOffset srcOffset size).WritesTo dst I := by
  induction n with
  | zero => exact fun _ _ _ => writesTo_pure ()
  | succ n ih =>
    intro dstOffset srcOffset size
    exact WritesTo.ite (fun _ => writesTo_pure ()) fun _ => (writesTo_read _ _ _ _).bind fun _ =>
      (writesTo_write _ _ _).bind fun _ => ih _ _ _

theorem blockToBlockMove_writesTo {I : Ctx → Prop} (dst dstOffset src srcOffset size : Nat) :
    (flashFsBlockToBlockMove dst dstOffset src srcOffset size).WritesTo dst I :=
  blockToBlockMoveLoop_writesTo _ _ _ _ _ _

theorem readBlockMetadata_reads (l : Nat) (c : Ctx) : (flashFsMblockReadBlockMetadata cfg l).Reads c :=
  (reads_get c).bind fun _ => (reads_issue _ _ _ _ c).bind fun _ => (reads_ofExcept _ c).bind
    fun _ => reads_pure _ c

theorem readBlockMetadataComp_reads (l : Nat) (c : Ctx) :
    (flashFsMblockReadBlockMetadataComp cfg l).Reads c :=
  (reads_get c).bind fun _ => (reads_issue _ _ _ _ c).bind fun _ => (reads_ofExcept _ c).bind
    fun _ => reads_pure _ c

theorem updateScratchFileMeta_toScratch (i : Nat) (fileMeta : FileMeta) :
    ToScratch s (flashFsMblockUpdateScratchFileMeta cfg i fileMeta) := by
  refine get_bind_writesTo fun c hc => ?_
  obtain rfl : c.scratchMetablock = s := hc
  exact (writesTo_write _ _ _).bind fun _ => writesTo_pure ()

theorem writeBlockMeta_toScratch (l : Nat) (blockMeta : BlockMeta) :
    ToScratch s (mblockUpdateScratchBlockMeta l blockMeta) := by
  refine get_bind_writesTo fun c hc => ?_
  obtain rfl : c.scratchMetablock = s := hc
  exact (writesTo_write _ _ _).bind fun _ => writesTo_pure ()

theorem copyRemainingBlockMeta_toScratch (l : Nat) :
    ToScratch s (mblockCopyRemainingBlockMeta cfg l) := by
  unfold mblockCopyRemainingBlockMeta
  refine get_bind_writesTo fun c hc => ?_
  have hmove : ∀ dstOffset srcOffset size, ToScratch s (flashFsBlockToBlockMove c.scratchMetablock
      dstOffset c.activeMetablock srcOffset size) := fun _ _ _ => by
    obtain rfl : c.scratchMetablock = s := hc
    exact blockToBlockMove_writesTo _ _ _ _ _
  refine WritesTo.ite (fun _ => ?_) fun _ => (writesTo_pure ()).bind fun _ => hmove _ _ _
  refine (writesTo_of_reads (readBlockMetadata_reads _)).failAs.bind fun _ =>
    (writeBlockMeta_toScratch _ _).failAs.bind fun _ => WritesTo.ite (fun _ => ?_) fun _ => ?_
  · generalize mblockBlockMetaOffset (logicalDblock0 + 1) = pos
    exact (hmove _ _ _).bind fun _ => hmove _ _ _
  · exact (writesTo_pure ()).bind fun _ => hmove _ _ _

theorem updateScratchBlockMeta_toScratch (l : Nat) (blockMeta : BlockMeta) :
    ToScratch s (flashFsMblockUpdateScratchBlockMeta cfg l blockMeta) :=
  get_bind_writesTo fun _ _ => (writeBlockMeta_toScratch _ _).failAs.bind fun _ =>
    copyRemainingBlockMeta_toScratch l

theorem cpFileMeta_toScratch (i j : Nat) : ToScratch s (flashFsMblockCpFileMeta cfg i j) := by
  refine get_bind_writesTo fun c hc => ?_
  obtain rfl : c.scratchMetablock = s := hc
  exact blockToBlockMove_writesTo _ _ _ _ _

theorem migrateLb0_toScratch : ToScratch s (flashFsMblockMigrateLb0DataToScratch cfg) := by
  refine (writesTo_of_reads (readBlockMetadata_reads _)).bind fun _ => get_bind_writesTo fun c hc => ?_
  obtain rfl : c.scratchMetablock = s := hc
  exact blockToBlockMove_writesTo _ _ _ _ _

theorem deleteIdxLoop_toScratch (i lblock dataIdx maxSize n : Nat) : ∀ idx scan,
    ToScratch s (deleteIdxLoop cfg i lblock dataIdx maxSize n idx scan) := by
  induction n with
  | zero => exact fun _ _ => writesTo_pure _
  | succ n ih =>
    intro idx scan
    exact WritesTo.ite (fun _ => ih _ _) fun _ => (writesTo_of_reads fun _ => readFileMeta_reads _).bind
      fun _ => (updateScratchFileMeta_toScratch _ _).bind fun _ => ih _ _

theorem fileWriteMeta_toScratch (oldIdx newIdx : Nat) (fileMeta : FileMeta) (blockMeta : BlockMeta)
    (dataSize : Nat) :
    ToScratch s (fileWriteMeta cfg oldIdx newIdx fileMeta blockMeta dataSize) := by
  refine (updateScratchBlockMeta_toScratch _ _).failAs.bind fun _ =>
    (updateScratchFileMeta_toScratch _ _).failAs.bind fun _ => (cpFileMeta_toScratch _ _).failAs.bind
    fun _ => WritesTo.ite (fun _ => ?_) fun _ => ?_
  · exact (cpFileMeta_toScratch _ _).failAs.bind fun _ => (writesTo_pure _).bind fun _ =>
      (cpFileMeta_toScratch _ _).failAs.bind fun _ =>
        WritesTo.ite (fun _ => migrateLb0_toScratch.failAs) fun _ => writesTo_pure ()
  · exact (writesTo_pure _).bind fun _ => (cpFileMeta_toScratch _ _).failAs.bind fun _ =>
      WritesTo.ite (fun _ => migrateLb0_toScratch.failAs) fun _ => writesTo_pure ()

theorem setDataScratch_toScratch {α : Type} (phyId lblock : Nat) {k : Unit → FsM α}
    (h : ToScratch s (k ())) : ToScratch s (flashFsMblockSetDataScratch phyId lblock >>= k) := by
  unfold flashFsMblockSetDataScratch
  split_ifs
  · exact modify_bind_writesTo (fun _ hc => hc) h
  · exact h

/-! ## The commit -/

theorem xorEntries_reads (blockId size : Nat) (pos : Nat → Nat) (n : Nat) : ∀ i x (c : Ctx),
    (mblockXorEntries blockId size pos n i x).Reads c := by
  induction n with
  | zero => exact fun _ _ c => reads_pure _ c
  | succ n ih => exact fun _ _ c => (reads_issue _ _ _ _ c).bind fun _ => ih _ _ c

theorem calculateMetadataXor_reads (b : Nat) (c : Ctx) :
    (mblockCalculateMetadataXor cfg b).Reads c := by
  have hrest := (xorEntries_reads b blockMetadataSize mblockBlockMetaOffset (numActiveDblocks cfg) 0
    0 c).bind fun x => xorEntries_reads b fileMetadataSize (mblockFileMetaOffset cfg)
      cfg.maxNumFiles 0 x c
  exact (reads_failIf _ _ c).bind fun _ => hrest

theorem writeScratchMetaHeader_toScratch : ToScratch s (mblockWriteScratchMetaHeader cfg) := by
  have hend : ∀ xorValue : UInt8, ToScratch s (do
      modify fun c => { c with metaBlockHeader := { c.metaBlockHeader with metadataXor := xorValue } }
      let c ← get
      let _ ← opsWrite c.scratchMetablock c.metaBlockHeader.encode 0
      pure () : FsM Unit) := fun xorValue => by
    refine modify_bind_writesTo (fun _ hc => hc) (get_bind_writesTo fun c hc => ?_)
    obtain rfl : c.scratchMetablock = s := hc
    exact (writesTo_write _ _ _).bind fun _ => writesTo_pure ()
  refine modify_bind_writesTo (fun _ hc => hc) (modify_bind_writesTo (fun c hc => ?_) ?_)
  · dsimp only
    split <;> exact hc
  · refine get_bind_writesTo fun c _ => WritesTo.ite (fun _ => ?_) fun _ => ?_
    · exact (writesTo_of_reads (calculateMetadataXor_reads _)).bind hend
    · exact (writesTo_pure _).bind hend

/-- The scratch metadata block is flushed. -/
theorem flushScratch_flushes {k : FsM Unit} (hc : ScratchIs s c) (hd : d = none ∨ d = some s)
    (hk : ∀ c, k.Flushes c none AllFlushed) :
    (FlashM.get >>= fun c : Ctx => opsFlush c.scratchMetablock >>= fun _ => k).Flushes c d
      AllFlushed := by
  obtain rfl : c.scratchMetablock = s := hc
  have hstep : (Op.flush c.scratchMetablock).flushStep d = some none := by
    rcases hd with rfl | rfl
    · rfl
    · exact congrArg some (if_pos rfl)
  have hflush : (opsFlush c.scratchMetablock).Flushes c d fun _ _ d' => d' = none :=
    flushes_issue hstep (fun _ => rfl) rfl
  refine get_bind_flushes (hflush.bind (fun _ c d hd => ?_)
    fun e c d _ => allFlushed_error e c d)
  subst hd
  exact hk c

theorem eraseScratchBlocks_idle : (mblockEraseScratchBlocks cfg).Idle := by
  have hcur : ∀ l, (flashFsMblockCurDataScratchId l).Idle := fun l =>
    idle_get.bind fun _ => idle_of_reads (reads_pure _)
  unfold mblockEraseScratchBlocks
  refine idle_get.bind fun c => (idle_erase _ _).bind fun _ => ?_
  split_ifs
  · exact (hcur _).bind fun _ => (idle_erase _ _).bind fun _ => idle_of_reads (reads_pure _)
  · exact idle_of_reads (reads_pure _)

/-- The commit of an update flushes what was written to the scratch metadata block. -/
theorem metaUpdateFinalize_flushes (hc : ScratchIs s c) (hd : d = none ∨ d = some s) :
    (flashFsMblockMetaUpdateFinalize cfg).Flushes c d AllFlushed := by
  unfold flashFsMblockMetaUpdateFinalize
  refine writeScratchMetaHeader_toScratch.bind_flushes hc hd (fun _ c₁ d₁ hc₁ hd₁ => ?_)
    allFlushed_error
  refine flushScratch_flushes hc₁ hd₁ fun c₂ => ?_
  refine (idle_modify _).bind_flushes (fun _ c₃ => ?_) allFlushed_error
  exact (eraseScratchBlocks_idle c₃ none).mono fun _ _ _ hd _ => hd

/-! ## Wiping -/

theorem validateHeaderMeta_reads (hMeta : MetadataBlockHeader) (b : Nat) (c : Ctx) :
    (mblockValidateHeaderMeta cfg hMeta b).Reads c := by
  refine (reads_ofExcept _ c).bind fun backwardCompatible => ?_
  cases backwardCompatible with
  | true => exact reads_ofExcept _ c
  | false =>
    refine (reads_ofExcept _ c).bind fun _ => ?_
    split_ifs
    · refine (calculateMetadataXor_reads b c).bind fun x => ?_
      unfold failIf
      split_ifs
      · exact reads_fail _ c
      · exact reads_pure _ c
    · exact reads_pure _ c

theorem initReadHeader_reads (b : Nat) (c : Ctx) : (initReadHeader cfg b).Reads c := by
  refine (reads_issue _ _ _ _ c).attempt.bind fun r => ?_
  cases r with
  | error e => exact reads_pure _ c
  | ok buf =>
    refine (validateHeaderMeta_reads _ b c).attempt.bind fun r => ?_
    cases r <;> exact reads_pure _ c

theorem initGetActiveMetablock_idle : (initGetActiveMetablock cfg).Idle :=
  (idle_of_reads (initReadHeader_reads _)).bind fun _ =>
    (idle_of_reads (initReadHeader_reads _)).bind fun _ =>
      (idle_of_reads (reads_ofExcept _)).bind fun _ => idle_modify _

theorem resetEraseDblocks_toScratch (n : Nat) : ∀ i good,
    ToScratch s (resetEraseDblocks cfg n i good) := by
  induction n with
  | zero => exact fun _ _ => writesTo_pure _
  | succ n ih => exact fun _ _ => (writesTo_erase _ _).attempt.bind fun _ => ih _ _

theorem resetWriteBlockMeta_toScratch (blockMeta : BlockMeta) (n : Nat) : ∀ i,
    ToScratch s (resetWriteBlockMeta cfg blockMeta n i) := by
  induction n with
  | zero => exact fun _ => writesTo_pure ()
  | succ n ih => exact fun _ => (writeBlockMeta_toScratch _ _).failAs.bind fun _ => ih _

theorem resetWriteFileMeta_toScratch (fileMeta : FileMeta) (n : Nat) : ∀ i,
    ToScratch s (resetWriteFileMeta cfg fileMeta n i) := by
  induction n with
  | zero => exact fun _ => writesTo_pure ()
  | succ n ih => exact fun _ => (updateScratchFileMeta_toScratch _ _).failAs.bind fun _ => ih _

/-- Wiping keeps the flush protocol on any flash. -/
theorem wipeAll_flushes (c : Ctx) : (flashFsWipeAll cfg).Flushes c none AllFlushed := by
  unfold flashFsWipeAll flashFsMblockResetMetablock
  refine initGetActiveMetablock_idle.attempt.bind_flushes (fun _ c₁ => ?_) allFlushed_error
  refine get_bind_flushes ?_
  refine (idle_erase _ _).bind_flushes (fun _ c₂ => ?_) allFlushed_error
  refine (idle_erase _ _).bind_flushes (fun _ c₃ => ?_) allFlushed_error
  have htail : ∀ c d, ScratchIs metadataBlock1 c → d = none ∨ d = some metadataBlock1 → (do
      (mblockWriteScratchMetaHeader cfg).failAs .genericError
      let c ← FlashM.get
      let _ ← opsFlush c.scratchMetablock
      mblockSwapMetablocks : FsM Unit).Flushes c d AllFlushed := fun c d hc hd => by
    refine writeScratchMetaHeader_toScratch.failAs.bind_flushes hc hd (fun _ c' d' hc' hd' => ?_)
      allFlushed_error
    exact flushScratch_flushes hc' hd' fun c' => fun _ => rfl
  refine modify_bind_flushes ?_
  refine WritesTo.bind_flushes (b := metadataBlock1) (writeBlockMeta_toScratch _ _) rfl (.inl rfl)
    (fun _ c d hc hd => ?_) allFlushed_error
  refine (resetEraseDblocks_toScratch _ _ _).bind_flushes hc hd (fun _ c d hc hd => ?_)
    allFlushed_error
  refine (writesTo_of_reads (reads_failIf _ _)).bind_flushes hc hd (fun _ c d hc hd => ?_) allFlushed_error
  refine (resetWriteBlockMeta_toScratch _ _ _).bind_flushes hc hd (fun _ c d hc hd => ?_)
    allFlushed_error
  refine (resetWriteFileMeta_toScratch _ _ _).bind_flushes hc hd (fun _ c d hc hd => ?_)
    allFlushed_error
  exact htail c d hc hd

/-! ## Deleting -/

/-- The bytes of block `s`. -/
def inBlock (s : Nat) : Region := fun b _ => b = s

/-- The selected metadata block holds the tables of `st`, which are those of a well-formed
filesystem of metadata block `a`. -/
structure Scannable (cfg : Config) (st : Image) (a : Nat) (c : Ctx) (fl : Flash) : Prop where
  accepted : cfg.Accepted
  a_le : a ≤ 1
  wf : st.Wf cfg a
  active_le : c.activeMetablock ≤ 1
  scratch : c.scratchMetablock = otherMetaBlock c.activeMetablock
  dblock : cfg.numBlocks ≠ 2 → 2 ≤ c.metaBlockHeader.scratchDblock
  files : ∀ i, i < cfg.maxNumFiles → (mountedImage cfg c fl).files i = st.files i
  blocks : ∀ l, l < numActiveDblocks cfg → (mountedImage cfg c fl).blocks l = st.blocks l

/-- A mounted filesystem can be scanned. -/
theorem Mounted.scannable (h : Mounted cfg c fl) :
    Scannable cfg (mountedImage cfg c fl) c.activeMetablock c fl where
  accepted := h.accepted
  a_le := h.active_le
  wf := h.wf
  active_le := h.active_le
  scratch := h.scratch
  dblock h2 := by
    rw [h.header]
    exact (h.wf.scratch h2).1
  files _ _ := rfl
  blocks _ _ := rfl

variable {st : Image} {a : Nat}

namespace Scannable
variable (h : Scannable cfg st a c fl)
include h

theorem ne : c.scratchMetablock ≠ c.activeMetablock := by
  rw [h.scratch]
  exact otherMetaBlock_ne _

theorem active_lt : c.activeMetablock < cfg.numBlocks :=
  lt_of_le_of_lt h.active_le h.accepted.two_le_numBlocks

theorem readFile (hf : OnlyIn (inBlock c.scratchMetablock) fl fl') {i : Nat}
    (hi : i < cfg.maxNumFiles) : (flashFsMblockReadFileMeta cfg i).Query cfg.eraseVal anyOp c fl'
      (.ok (st.files i)) := by
  have hq : (flashFsMblockReadFileMeta cfg i).Query cfg.eraseVal anyOp c fl' _ :=
    readFileMeta_query (fun _ _ _ _ _ _ => trivial) h.accepted h.active_lt hi
  have he : (image cfg fl' c.activeMetablock).files i = st.files i :=
    (image_files_congr hf fun _ _ _ => h.ne.symm).trans (h.files i hi)
  rw [he] at hq
  rwa [← h.wf.checkFile_eq h.accepted hi]

theorem readBlock (hf : OnlyIn (inBlock c.scratchMetablock) fl fl') {l : Nat}
    (hl : l < numActiveDblocks cfg) :
    (flashFsMblockReadBlockMetadata cfg l).Query cfg.eraseVal anyOp c fl' (.ok (st.blocks l)) := by
  have hq : (flashFsMblockReadBlockMetadata cfg l).Query cfg.eraseVal anyOp c fl' _ :=
    readBlockMetadata_query (fun _ _ _ _ _ _ => trivial) h.accepted h.active_lt hl
  have he : (image cfg fl' c.activeMetablock).blocks l = st.blocks l :=
    (image_blocks_congr hf fun _ _ _ => h.ne.symm).trans (h.blocks l hl)
  rw [he] at hq
  rwa [← h.wf.checkBlock_eq h.accepted h.a_le hl]

end Scannable

/-- An entry is written to the scratch metadata block. -/
theorem updateScratchFileMeta_run (cfg : Config) (i : Nat) (fileMeta : FileMeta) (c : Ctx)
    (fl : Flash) : ∃ fl', (flashFsMblockUpdateScratchFileMeta cfg i fileMeta).run cfg.eraseVal c fl =
      ⟨.ok (), c, fl'⟩ ∧ OnlyIn (inBlock c.scratchMetablock) fl fl' :=
  ⟨_, rfl, (onlyIn_write _ _ _ _).mono fun _ _ hw => hw.1⟩

theorem Scannable.deleteIdxLoop_run (h : Scannable cfg st a c fl) (i : Nat) (n : Nat) :
    ∀ {fl₁ : Flash} (idx : Nat) (scan : DeleteScan), idx + n ≤ cfg.maxNumFiles →
    OnlyIn (inBlock c.scratchMetablock) fl fl₁ →
    ∃ fl', (deleteIdxLoop cfg i (st.files i).lblock
      (st.files i).dataIdx (st.files i).maxSize n idx
        scan).run cfg.eraseVal c fl₁ = ⟨.ok (scanDelete (st.files i)
          st.files i n idx scan), c, fl'⟩ ∧
      OnlyIn (inBlock c.scratchMetablock) fl fl' := by
  induction n with
  | zero => exact fun _ _ _ hf => ⟨_, rfl, hf⟩
  | succ n ih =>
    intro fl₁ idx scan hn hf
    unfold deleteIdxLoop scanDelete
    by_cases hi : idx = i
    · rw [if_pos hi, if_pos hi]
      exact ih _ _ (by omega) hf
    · rw [if_neg hi, if_neg hi, run_bind_ok (a := st.files idx) (by
        rw [(h.readFile hf (by omega)).run_eq]), (h.readFile hf (by omega)).run_eq]
      obtain ⟨fl₂, hr, hf₂⟩ := updateScratchFileMeta_run cfg idx
        (deleteIdxEntry (st.files i).lblock
          (st.files i).dataIdx (st.files i).maxSize scan
          (st.files idx)).2 c fl₁
      dsimp only
      rw [run_bind_ok (a := ()) (by rw [hr]), hr]
      exact ih _ _ (by omega) (hf.trans hf₂)

/-- What a deletion does once the file table is staged. -/
def deleteIdxData (cfg : Config) (fileMeta : FileMeta) (scan : DeleteScan) : FsM Unit := do
  flashFsDblockCompactBlock cfg fileMeta.lblock fileMeta.maxSize scan.srcOffset fileMeta.dataIdx
    scan.nbrBytesToMove
  if fileMeta.lblock ≠ logicalDblock0 then
    (flashFsMblockMigrateLb0DataToScratch cfg).failAs .genericError
  else pure ()
  flashFsMblockMetaUpdateFinalize cfg

/-- The file table of a deletion is staged, and not flushed. -/
theorem Scannable.deleteIdx_goesOn (h : Scannable cfg st a c fl) {i : Nat} (hi : i < cfg.maxNumFiles)
    (hid : (st.files i).id ≠ 0) :
    ∃ fl', GoesOn cfg.eraseVal (flashFsDeleteIdx cfg i) c fl none
      (deleteIdxData cfg (st.files i) (st.deleteScan cfg i))
      c fl' (some c.scratchMetablock) ∧ OnlyIn (inBlock c.scratchMetablock) fl fl' := by
  have hvalid : utilsValidateFid (st.files i).id = .ok () := if_pos hid
  obtain ⟨fl₁, hr₁, hf₁⟩ := updateScratchFileMeta_run cfg i FileMeta.zero c fl
  obtain ⟨fl₂, hr₂, hf₂⟩ := h.deleteIdxLoop_run i cfg.maxNumFiles 0 ⟨cfg.blockSize, 0⟩
    (Nat.zero_add _).le hf₁
  have hloop : ToScratch c.scratchMetablock (deleteIdxLoop cfg i
      (st.files i).lblock (st.files i).dataIdx
      (st.files i).maxSize cfg.maxNumFiles 0 ⟨cfg.blockSize, 0⟩) :=
    deleteIdxLoop_toScratch _ _ _ _ _ _ _
  obtain ⟨d', hd', -, hcase⟩ := hloop.unflushed rfl (.inr rfl) cfg.eraseVal fl₁
  obtain rfl : d' = some c.scratchMetablock := hcase.elim id id
  refine ⟨fl₂, ?_, hf₂⟩
  unfold flashFsDeleteIdx
  refine (Reads.goesOn (readFileMeta_reads i) (h.readFile (.refl _ _) hi)).trans ?_
  refine (Reads.goesOn (.failAs (reads_ofExcept _ c)) (query_check hvalid (G := anyOp))).trans ?_
  exact (goesOn_seq hr₁ rfl).trans (goesOn_seq hr₂ hd')

/-- Compacting once the scratch block is known: the move of the data, and the block table. -/
def compactData (cfg : Config) (lblock srcOffset dstOffset size : Nat) (blockMeta : BlockMeta)
    (scratchId : Nat) : FsM Unit := do
  if size > 0 then
    (flashFsBlockToBlockMove scratchId dstOffset blockMeta.phyId srcOffset size).failAs
      .genericError
  else pure ()
  if dstOffset > blockMeta.dataStart then
    (flashFsBlockToBlockMove scratchId blockMeta.dataStart blockMeta.phyId blockMeta.dataStart
      (dstOffset - blockMeta.dataStart)).failAs .genericError
  else pure ()
  flashFsMblockSetDataScratch blockMeta.phyId lblock
  match ← (flashFsMblockUpdateScratchBlockMeta cfg lblock
      { blockMeta with phyId := scratchId }).attempt with
  | .error e => do
    flashFsMblockSetDataScratch scratchId lblock
    fail e
  | .ok () => flushScratch lblock scratchId

theorem compactBlock_eq_data (cfg : Config) (lblock freeSize srcOffset dstOffset size : Nat) :
    flashFsDblockCompactBlock cfg lblock freeSize srcOffset dstOffset size =
      flashFsMblockReadBlockMetadata cfg lblock >>= fun blockMeta =>
        flashFsMblockCurDataScratchId lblock >>=
          compactData cfg lblock srcOffset dstOffset size
            { blockMeta with freeSize := add32 blockMeta.freeSize freeSize } := rfl

/-- Whether compacting moves bytes into the scratch block. -/
def Moves (dataStart dstOffset size : Nat) : Prop := 0 < size ∨ dataStart < dstOffset

/-- Compacting writes the scratch metadata block only if the data goes there too, or nothing is
moved. -/
theorem compactData_toScratch {lblock srcOffset dstOffset size scratchId : Nat}
    {blockMeta : BlockMeta} (hm : scratchId = s ∨ ¬ Moves blockMeta.dataStart dstOffset size)
    (hne : lblock ≠ logicalDblock0 → scratchId ≠ s) :
    ToScratch s (compactData cfg lblock srcOffset dstOffset size blockMeta scratchId) := by
  have hmove : Moves blockMeta.dataStart dstOffset size → ∀ a b n,
      ToScratch s ((flashFsBlockToBlockMove scratchId a blockMeta.phyId b n).failAs .genericError) :=
    fun hmv a b n => by
      obtain rfl := hm.resolve_right (not_not_intro hmv)
      exact (blockToBlockMove_writesTo _ _ _ _ _).failAs
  have hflush : ToScratch s (flushScratch lblock scratchId) :=
    WritesTo.ite (fun h0 => (writesTo_flush (hne h0) _).bind fun _ => writesTo_pure ())
      fun _ => writesTo_pure ()
  have hend : ToScratch s (flashFsMblockSetDataScratch blockMeta.phyId lblock >>= fun _ =>
      (flashFsMblockUpdateScratchBlockMeta cfg lblock
        { blockMeta with phyId := scratchId }).attempt >>= fun r =>
      (match r with
        | .error e => do
          flashFsMblockSetDataScratch scratchId lblock
          fail e
        | .ok () => flushScratch lblock scratchId : FsM Unit)) := by
    refine setDataScratch_toScratch _ _ ((updateScratchBlockMeta_toScratch _ _).attempt.bind
      fun r => ?_)
    cases r with
    | error e => exact setDataScratch_toScratch _ _ (writesTo_fail e)
    | ok _ => exact hflush
  unfold compactData
  split_ifs with h₂ h₁ h₁
  · exact (hmove (.inr h₂) _ _ _).bind fun _ => (hmove (.inr h₂) _ _ _).bind fun _ => hend
  · exact (hmove (.inr h₂) _ _ _).bind fun _ => hend
  · exact (hmove (.inl h₁) _ _ _).bind fun _ => hend
  · exact hend

/-- No other block is written while the scratch metadata block is unflushed. -/
theorem opsWrite_stuck {b o : Nat} {bytes : List UInt8} (hb : b ≠ s) (ev : UInt8) (c : Ctx)
    (fl : Flash) : (opsWrite b bytes o).unflushed ev c fl (some s) = none := by
  have hstep : (Op.write b o bytes).flushStep (some s) = none := if_neg (by simp [hb.symm])
  show ((Op.write b o bytes).flushStep (some s)).bind _ = none
  rw [hstep]
  rfl

/-- Data is not moved to another block while the scratch metadata block is unflushed. -/
theorem blockToBlockMove_stuck {dst dstOffset src srcOffset size : Nat} (hne : dst ≠ s)
    (hn : 0 < size) (ev : UInt8) (c : Ctx) (fl : Flash) :
    (flashFsBlockToBlockMove dst dstOffset src srcOffset size).unflushed ev c fl (some s) = none := by
  obtain ⟨n, rfl⟩ : ∃ n, size = n + 1 := ⟨size - 1, by omega⟩
  unfold flashFsBlockToBlockMove blockToBlockMoveLoop
  rw [if_neg (Nat.succ_ne_zero n)]
  have hread : ∀ b o n, (opsRead b o n).unflushed ev c fl (some s) = some (some s) :=
    fun _ _ _ => rfl
  rw [unflushed_seq rfl (hread _ _ _)]
  exact unflushed_stuck (opsWrite_stuck hne ev c fl)

/-- Nothing more is written once data is moved in the wrong order. -/
theorem compactData_stuck {lblock srcOffset dstOffset size scratchId : Nat} {blockMeta : BlockMeta}
    (hm : Moves blockMeta.dataStart dstOffset size) (hne : scratchId ≠ s) (ev : UInt8) (c : Ctx) (fl : Flash) :
    (compactData cfg lblock srcOffset dstOffset size blockMeta scratchId).unflushed ev c fl
      (some s) = none := by
  have hmove : ∀ {a b n : Nat}, 0 < n → ((flashFsBlockToBlockMove scratchId a blockMeta.phyId b
      n).failAs .genericError).unflushed ev c fl (some s) = none := fun hn => by
    rw [unflushed_failAs]
    exact blockToBlockMove_stuck hne hn ev c fl
  unfold compactData
  split_ifs with h₂ h₁ h₁
  · exact unflushed_stuck (hmove h₁)
  · exact unflushed_stuck (hmove (Nat.sub_pos_of_lt h₂))
  · exact unflushed_stuck (hmove h₁)
  · exact absurd hm (not_or.mpr ⟨h₁, h₂⟩)

/-- Deleting file `d` moves bytes into the scratch data block. -/
def Image.MovesApart (cfg : Config) (st : Image) (d : Nat) : Prop :=
  (st.files d).lblock ≠ 0 ∧ Moves (st.blocks (st.files d).lblock).dataStart (st.files d).dataIdx
    (st.deleteScan cfg d).nbrBytesToMove

/-- The end of a deletion: logical block 0 follows to the scratch metadata block, and the update is
committed. -/
def deleteIdxEnd (cfg : Config) (lblock : Nat) : FsM Unit := do
  if lblock ≠ logicalDblock0 then
    (flashFsMblockMigrateLb0DataToScratch cfg).failAs .genericError
  else pure ()
  flashFsMblockMetaUpdateFinalize cfg

theorem deleteIdxData_eq (cfg : Config) (fileMeta : FileMeta) (scan : DeleteScan) :
    deleteIdxData cfg fileMeta scan =
      flashFsMblockReadBlockMetadata cfg fileMeta.lblock >>= fun blockMeta =>
        flashFsMblockCurDataScratchId fileMeta.lblock >>= fun scratchId =>
          compactData cfg fileMeta.lblock scan.srcOffset fileMeta.dataIdx scan.nbrBytesToMove
            { blockMeta with freeSize := add32 blockMeta.freeSize fileMeta.maxSize } scratchId >>=
          fun _ => deleteIdxEnd cfg fileMeta.lblock := by
  unfold deleteIdxData
  rw [compactBlock_eq_data]
  simp only [bind_assoc]
  rfl

theorem deleteIdxEnd_flushes {lblock : Nat} (hc : ScratchIs s c) (hd : d = none ∨ d = some s) :
    (deleteIdxEnd cfg lblock).Flushes c d AllFlushed := by
  unfold deleteIdxEnd
  split_ifs
  · exact migrateLb0_toScratch.failAs.bind_flushes hc hd
      (fun _ _ _ hc hd => metaUpdateFinalize_flushes hc hd) allFlushed_error
  · exact metaUpdateFinalize_flushes hc hd

theorem curDataScratchId_reads (l : Nat) (c : Ctx) : (flashFsMblockCurDataScratchId l).Reads c :=
  (reads_get c).bind fun _ => reads_pure _ c

/-! ## Deletions in a well-formed filesystem -/

/-- Deleting file `d` leaves bytes of other files to be moved to the scratch data block: it lies in
a dedicated block, with bytes before it or a nonempty file behind it. -/
def Image.DeletesApart (cfg : Config) (st : Image) (d : Nat) : Prop :=
  (st.files d).lblock ≠ 0 ∧
    (0 < (st.files d).dataIdx ∨ ∃ i ∈ st.behind cfg d, 0 < (st.files i).maxSize)

theorem Image.Wf.movesApart_iff {st : Image} {a i : Nat} (h : st.Wf cfg a)
    (hi : i < cfg.maxNumFiles) (hid : (st.files i).id ≠ 0) :
    st.MovesApart cfg i ↔ st.DeletesApart cfg i := by
  have hl := (h.sizes i hi hid).1
  have hs : ScanOf cfg st (st.behind cfg i) (st.deleteScan cfg i) := deleteScan_spec
  refine and_congr_right fun h0 => ?_
  have hstart := (h.dedicated _ (Nat.pos_of_ne_zero h0) hl).2.2.2
  unfold Moves
  rw [hstart, or_comm]
  refine or_congr_right ⟨fun hn => ?_, ?_⟩
  · by_contra hall
    have hsum : ∑ j ∈ st.behind cfg i, (st.files j).maxSize = 0 :=
      Finset.sum_eq_zero fun j hj => Nat.eq_zero_of_not_pos fun hj' => hall ⟨j, hj, hj'⟩
    have htotal := hs.total
    rw [hsum, Nat.zero_mod] at htotal
    omega
  · rintro ⟨j, hj, hpos⟩
    have hin := (h.tiling _ hl).inside j (Finset.mem_filter.mp hj).1
    rcases h.scan_cases hi hid with ⟨he, _⟩ | ⟨_, hend, hle⟩
    · rw [he] at hj
      exact absurd hj (Finset.notMem_empty j)
    · have := hle j hj
      omega

/-- A call that ends with a deletion keeps the flush protocol unless the deletion moves bytes of a
dedicated block. -/
theorem Scannable.flushKept_iff (h : Scannable cfg st a c fl) {m : FsM Unit} {c₀ : Ctx} {fl₀ : Flash}
    {i : Nat} (hg : GoesOn cfg.eraseVal m c₀ fl₀ none (flashFsDeleteIdx cfg i) c fl none)
    (hi : i < cfg.maxNumFiles) (hid : (st.files i).id ≠ 0) :
    FlushKept cfg.eraseVal m c₀ fl₀ ↔ ¬ st.DeletesApart cfg i := by
  have hl : (st.files i).lblock < numActiveDblocks cfg := (h.wf.sizes i hi hid).1
  rw [← h.wf.movesApart_iff hi hid]
  obtain ⟨fl₁, hgo, hf₁⟩ := h.deleteIdx_goesOn hi hid
  have hread := h.readBlock hf₁ hl
  have hcur : (flashFsMblockCurDataScratchId (st.files i).lblock).Query
      cfg.eraseVal anyOp c fl₁ (.ok (c.scratchId (st.files i).lblock)) :=
    query_get.seq (query_pure _)
  rw [deleteIdxData_eq] at hgo
  have hgo := ((hg.trans hgo).trans (Reads.goesOn (readBlockMetadata_reads _ c) hread)).trans
    (Reads.goesOn (curDataScratchId_reads _ c) hcur)
  unfold Image.MovesApart
  generalize st.deleteScan cfg i = scan at hgo ⊢
  generalize st.files i = file at hgo hl ⊢
  generalize st.blocks file.lblock = block at hgo ⊢
  -- the data goes to another block only for a dedicated one
  have hne : file.lblock ≠ logicalDblock0 → c.scratchId file.lblock ≠ c.scratchMetablock := fun h0 => by
    have hd := h.dblock (numBlocks_ne_two h.accepted h0 hl)
    have hs : c.scratchMetablock ≤ 1 := h.scratch.trans_le (otherMetaBlock_le _)
    unfold Ctx.scratchId
    rw [if_neg h0]
    omega
  by_cases hm : file.lblock ≠ 0 ∧ Moves block.dataStart file.dataIdx scan.nbrBytesToMove
  · refine iff_of_false (hgo.not_flushKept ?_) (not_not_intro hm)
    refine unflushed_stuck (compactData_stuck ?_ (hne hm.1) _ _ _)
    exact hm.2
  · refine iff_of_true (hgo.flushKept ?_) hm
    have hcase : c.scratchId file.lblock = c.scratchMetablock ∨
        ¬ Moves block.dataStart file.dataIdx scan.nbrBytesToMove := by
      by_cases h0 : file.lblock = 0
      · exact .inl (if_pos h0)
      · exact .inr fun hmv => hm ⟨h0, hmv⟩
    refine WritesTo.bind_flushes (compactData_toScratch ?_ hne) rfl (.inr rfl)
      (fun _ _ _ hc hd => deleteIdxEnd_flushes hc hd) allFlushed_error
    exact hcase

theorem getFileIdx_reads (fid : Fid) (c : Ctx) : (flashFsMblockGetFileIdx cfg fid).Reads c :=
  findFileMeta_reads _ _ _

/-- A deletion by id from a store. -/
theorem Store.fileDelete_flushKept_iff {fid : Fid} (h : Store cfg c fl) (hf : fid ≠ 0) :
    FlushKept cfg.eraseVal (flashFsFileDelete cfg fid) c fl ↔ ¬ ∃ i < cfg.maxNumFiles,
      ((mountedImage cfg c fl).files i).id = fid ∧ (mountedImage cfg c fl).DeletesApart cfg i := by
  have hreads : ((flashFsMblockGetFileIdx cfg fid).failAs .doesNotExist).Reads c :=
    (getFileIdx_reads fid c).failAs
  have hrun := Readable.getFileIdx_run h.ready fid
  rcases h.wf.findFile_id h.accepted fid with ⟨i, hi, hid, he⟩ | ⟨hall, he⟩
  · rw [he] at hrun
    have hg : GoesOn cfg.eraseVal (flashFsFileDelete cfg fid) c fl none (flashFsDeleteIdx cfg i) c fl
        none := goesOn_seq hrun hreads.unflushed
    rw [h.toMounted.scannable.flushKept_iff hg hi (hid.symm ▸ hf)]
    refine not_congr ⟨fun hd => ⟨i, hi, hid, hd⟩, ?_⟩
    rintro ⟨j, hj, hjid, hd⟩
    obtain rfl := h.closed.unique i j hi hj (hid.symm ▸ hf) (hid.trans hjid.symm)
    exact hd
  · rw [he] at hrun
    exact iff_of_true (flushKept_seq_error hrun hreads.unflushed) fun ⟨i, hi, hid, _⟩ => hall i hi hid

end Etss
