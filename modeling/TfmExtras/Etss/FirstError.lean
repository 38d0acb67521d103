import TfmExtras.Etss.Write
import TfmExtras.Lib.FlashFault

/-! The functions of the filesystem give up at the first flash operation that fails, with the
context they have then. -/

namespace Etss
open NorFlash FlashM

variable {cfg : Config} {c : Ctx}

/-! ## Reading -/

theorem readFileMeta_steady (i : Nat) : (flashFsMblockReadFileMeta cfg i).Steady c :=
  steady_get.bind fun _ => (steady_issue _ _).bind fun _ => (steady_ofExcept _).bind fun _ =>
    steady_pure _

theorem readFileMeta_reads (i : Nat) : (flashFsMblockReadFileMeta cfg i).Reads c :=
  (reads_get c).bind fun _ => (reads_issue _ _ _ _ c).bind fun _ => (reads_ofExcept _ c).bind
    fun _ => reads_pure _ c

theorem readBlockMetadata_steady (l : Nat) : (flashFsMblockReadBlockMetadata cfg l).Steady c :=
  steady_get.bind fun _ => (steady_issue _ _).bind fun _ => (steady_ofExcept _).bind fun _ =>
    steady_pure _

/-- A search that cannot read an entry does not report that the file is missing. -/
theorem findFileMeta_givesUp (p : FileMeta → Bool) (n : Nat) : ∀ i,
    (mblockFindFileMeta cfg p n i).GivesUp c (· = .genericError) (· = c) (· = c) := by
  induction n with
  | zero => exact fun i => givesUp_fail _ rfl
  | succ n ih =>
    intro i
    refine GivesUp.bind (GivesUp.failAs (readFileMeta_steady i) rfl) (fun _ => id) fun a c' hc => ?_
    obtain rfl : c' = c := hc
    show (if p a then pure i else mblockFindFileMeta cfg p n (i + 1)).GivesUp c' _ _ _
    split_ifs
    · exact givesUp_pure rfl
    · exact ih (i + 1)

theorem getFreeFileIndexLoop_reads (n : Nat) : ∀ i useSpare,
    (getFreeFileIndexLoop cfg n i useSpare).Reads c := by
  induction n with
  | zero => exact fun i useSpare => reads_pure _ c
  | succ n ih =>
    intro i useSpare
    refine (readFileMeta_reads i).attempt.bind fun r => ?_
    cases r with
    | error e => exact reads_pure _ c
    | ok tmpMetadata =>
      dsimp only
      cases utilsValidateFid tmpMetadata.id with
      | ok _ => exact ih _ _
      | error _ =>
        dsimp only
        split_ifs
        · exact reads_pure _ c
        · exact ih _ _

/-- A search for a free entry that cannot read one finds none. -/
theorem getFreeFileIndexLoop_stops (n : Nat) : ∀ i useSpare,
    Prog.Stops (· = (.ok metadataInvalidIndex, c)) (fun r => r.2 = c)
      (getFreeFileIndexLoop cfg n i useSpare c) := by
  induction n with
  | zero => exact fun i useSpare => .pure rfl
  | succ n ih =>
    intro i useSpare
    refine Prog.Stops.bind (readFileMeta_steady i).attempt_stops ?_ ?_
    · rintro ⟨r, c'⟩ ⟨⟨e, hr, _⟩, hc⟩
      obtain rfl : r = .ok (.error e) := hr
      obtain rfl : c' = c := hc
      exact .pure rfl
    · rintro ⟨r, c'⟩ ⟨⟨x, hr⟩, hc⟩
      obtain rfl : r = .ok x := hr
      obtain rfl : c' = c := hc
      cases x with
      | error e => exact .pure rfl
      | ok tmpMetadata =>
        dsimp only
        cases utilsValidateFid tmpMetadata.id with
        | ok _ => exact ih _ _
        | error _ =>
          dsimp only
          split_ifs
          · exact .pure rfl
          · exact ih _ _

theorem reserveFileLoop_steady (fid : Fid) (size flags n : Nat) : ∀ i,
    (mblockReserveFileLoop cfg fid size flags n i).Steady c := by
  induction n with
  | zero => exact fun i => steady_fail _
  | succ n ih =>
    intro i
    exact (readBlockMetadata_steady i).failAs.bind fun _ => Steady.ite (steady_pure _) (ih (i + 1))

theorem reserveFile_steady (fid : Fid) (useSpare : Bool) (size flags : Nat) :
    (flashFsMblockReserveFile cfg fid useSpare size flags).Steady c := by
  refine GivesUp.attempt_bind (reserveFileLoop_steady fid size flags _ 0) ?_ ?_
  · rintro e c' _ rfl
    exact (getFreeFileIndexLoop_reads _ 0 useSpare).bind_fail (S := (· = c')) rfl
  · rintro err c' rfl
    refine Prog.Stops.bind (getFreeFileIndexLoop_stops cfg.maxNumFiles 0 useSpare) ?_ ?_
    · rintro _ rfl
      cases err with
      | error e => exact .pure ⟨⟨_, rfl, trivial⟩, rfl⟩
      | ok q => exact .pure ⟨⟨_, rfl, trivial⟩, rfl⟩
    · rintro ⟨r, c₁⟩ hc
      obtain rfl : c₁ = c' := hc
      cases r with
      | error e => exact .pure rfl
      | ok idx =>
        cases err with
        | error e => exact .pure rfl
        | ok q =>
          show Prog.Stops _ _ ((if idx = metadataInvalidIndex then fail .insufficientStorage
            else pure (idx, q.1, q.2) : FsM _) c₁)
          split_ifs <;> exact .pure rfl

/-! ## Staging -/

theorem blockToBlockMoveLoop_steady (dst src n : Nat) : ∀ dstOffset srcOffset size,
    (blockToBlockMoveLoop dst src n dstOffset srcOffset size).Steady c := by
  induction n with
  | zero => exact fun _ _ _ => steady_pure _
  | succ n ih =>
    intro dstOffset srcOffset size
    exact Steady.ite (steady_pure _) ((steady_issue _ _).bind fun _ =>
      (steady_issue _ _).bind fun _ => ih _ _ _)

theorem blockToBlockMove_steady (dst dstOffset src srcOffset size : Nat) :
    (flashFsBlockToBlockMove dst dstOffset src srcOffset size).Steady c :=
  blockToBlockMoveLoop_steady _ _ _ _ _ _

theorem updateScratchFileMeta_steady (i : Nat) (fileMeta : FileMeta) :
    (flashFsMblockUpdateScratchFileMeta cfg i fileMeta).Steady c :=
  steady_get.bind fun _ => (steady_issue _ _).bind fun _ => steady_pure _

theorem cpFileMeta_steady (i j : Nat) : (flashFsMblockCpFileMeta cfg i j).Steady c :=
  steady_get.bind fun _ => blockToBlockMove_steady _ _ _ _ _

theorem writeBlockMeta_steady (l : Nat) (blockMeta : BlockMeta) :
    (mblockUpdateScratchBlockMeta l blockMeta).Steady c :=
  steady_get.bind fun _ => (steady_issue _ _).bind fun _ => steady_pure _

theorem copyRemainingBlockMeta_steady (l : Nat) : (mblockCopyRemainingBlockMeta cfg l).Steady c := by
  refine steady_get.bind fun _ => Steady.ite ?_ ((steady_pure ()).bind fun _ =>
    blockToBlockMove_steady _ _ _ _ _)
  refine (readBlockMetadata_steady _).failAs.bind fun _ => (writeBlockMeta_steady _ _).failAs.bind
    fun _ => Steady.ite ?_ ?_
  · exact (blockToBlockMove_steady _ _ _ _ _).bind fun _ => blockToBlockMove_steady _ _ _ _ _
  · exact (steady_pure ()).bind fun _ => blockToBlockMove_steady _ _ _ _ _

theorem updateScratchBlockMeta_steady (l : Nat) (blockMeta : BlockMeta) :
    (flashFsMblockUpdateScratchBlockMeta cfg l blockMeta).Steady c :=
  steady_get.bind fun _ => (writeBlockMeta_steady _ _).failAs.bind fun _ =>
    copyRemainingBlockMeta_steady l

theorem migrateLb0_steady : (flashFsMblockMigrateLb0DataToScratch cfg).Steady c :=
  (readBlockMetadata_steady _).bind fun _ => steady_get.bind fun _ =>
    blockToBlockMove_steady _ _ _ _ _

theorem curDataScratchId_steady (l : Nat) : (flashFsMblockCurDataScratchId l).Steady c :=
  steady_get.bind fun _ => steady_pure _

theorem flushScratch_steady (l b : Nat) : (flushScratch l b).Steady c :=
  Steady.ite ((steady_issue _ _).bind fun _ => steady_pure _) (steady_pure _)

/-! ## A deletion -/

theorem deleteIdxLoop_steady (d lblock dataIdx maxSize n : Nat) : ∀ i scan,
    (deleteIdxLoop cfg d lblock dataIdx maxSize n i scan).Steady c := by
  induction n with
  | zero => exact fun _ _ => steady_pure _
  | succ n ih =>
    intro i scan
    exact Steady.ite (ih _ _) ((readFileMeta_steady _).bind fun _ =>
      (updateScratchFileMeta_steady _ _).bind fun _ => ih _ _)

/-! ## Changing the scratch block -/

theorem setDataScratch_bind {α : Type} (phyId lblock : Nat) (k : Unit → FsM α) (c : Ctx) :
    (flashFsMblockSetDataScratch phyId lblock >>= k) c = k () (c.withScratch lblock phyId) := by
  unfold flashFsMblockSetDataScratch Ctx.withScratch
  by_cases h0 : lblock = 0
  · rw [if_neg (show ¬ lblock ≠ logicalDblock0 from not_not_intro h0), if_pos h0]
    rfl
  · rw [if_pos (show lblock ≠ logicalDblock0 from h0), if_neg h0]
    rfl

theorem setDataScratch_bind_givesUp {α : Type} {phyId lblock : Nat} {k : Unit → FsM α}
    {E : Status → Prop} {S R : Ctx → Prop}
    (h : (k ()).GivesUp (c.withScratch lblock phyId) E S R) :
    (flashFsMblockSetDataScratch phyId lblock >>= k).GivesUp c E S R := by
  unfold GivesUp
  rw [setDataScratch_bind]
  exact h

/-- The id of the scratch block that a context has for a logical block. -/
def Ctx.scratchId (c : Ctx) (lblock : Nat) : Nat :=
  if lblock = logicalDblock0 then c.scratchMetablock else c.metaBlockHeader.scratchDblock

theorem curDataScratchId_bind_givesUp {α : Type} {lblock : Nat} {k : Nat → FsM α}
    {E : Status → Prop} {S R : Ctx → Prop} (h : (k (c.scratchId lblock)).GivesUp c E S R) :
    (flashFsMblockCurDataScratchId lblock >>= k).GivesUp c E S R := h

theorem Ctx.withScratch_restore (c : Ctx) (lblock phyId : Nat) :
    (c.withScratch lblock phyId).withScratch lblock (c.scratchId lblock) = c := by
  unfold withScratch scratchId
  by_cases h0 : lblock = 0
  · rw [if_pos h0, if_pos h0]
  · rw [if_neg h0, if_neg h0, if_neg (show ¬ lblock = logicalDblock0 from h0)]

/-- Staging the data of a deletion gives the context its scratch block back when it fails. -/
theorem compactBlockFinish_givesUp (lblock phyId : Nat) (blockMeta : BlockMeta) :
    (compactBlockFinish cfg lblock phyId (c.scratchId lblock) blockMeta).GivesUp c (fun _ => True)
      (· = c) fun _ => True := by
  unfold compactBlockFinish
  refine setDataScratch_bind_givesUp (GivesUp.attempt_bind (updateScratchBlockMeta_steady _ _)
    ?_ ?_)
  · rintro e c' _ rfl
    show Prog.Settles _ ((flashFsMblockSetDataScratch (c.scratchId lblock) lblock >>= fun _ =>
      (fail e : FsM Nat)) _)
    rw [setDataScratch_bind, Ctx.withScratch_restore]
    exact .pure ⟨⟨e, rfl, trivial⟩, rfl⟩
  · rintro r c' rfl
    cases r with
    | ok _ => exact givesUp_pure trivial
    | error e => exact setDataScratch_bind_givesUp (givesUp_fail e trivial)

theorem compactBlockStage_givesUp (lblock freeSize srcOffset dstOffset size : Nat) :
    (compactBlockStage cfg lblock freeSize srcOffset dstOffset size).GivesUp c (fun _ => True)
      (· = c) fun _ => True := by
  unfold compactBlockStage
  refine (readBlockMetadata_steady _).bind_givesUp (S := (· = c)) rfl trivial fun blockMeta => ?_
  refine curDataScratchId_bind_givesUp ?_
  dsimp only
  split_ifs
  · exact (blockToBlockMove_steady _ _ _ _ _).failAs.bind_givesUp (S := (· = c)) rfl trivial fun _ =>
      (blockToBlockMove_steady _ _ _ _ _).failAs.bind_givesUp (S := (· = c)) rfl trivial fun _ =>
      compactBlockFinish_givesUp _ _ _
  · exact (blockToBlockMove_steady _ _ _ _ _).failAs.bind_givesUp (S := (· = c)) rfl trivial fun _ =>
      compactBlockFinish_givesUp _ _ _
  · exact (blockToBlockMove_steady _ _ _ _ _).failAs.bind_givesUp (S := (· = c)) rfl trivial fun _ =>
      compactBlockFinish_givesUp _ _ _
  · exact compactBlockFinish_givesUp _ _ _

theorem deleteIdxStage_givesUp (d : Nat) :
    (deleteIdxStage cfg d).GivesUp c (fun _ => True) (· = c) fun _ => True :=
  (readFileMeta_steady d).bind_givesUp (S := (· = c)) rfl trivial fun _ =>
    (steady_ofExcept _).failAs.bind_givesUp (S := (· = c)) rfl trivial fun _ =>
    (updateScratchFileMeta_steady _ _).bind_givesUp (S := (· = c)) rfl trivial fun _ =>
    (deleteIdxLoop_steady _ _ _ _ _ _ _).bind_givesUp (S := (· = c)) rfl trivial fun _ =>
    (compactBlockStage_givesUp _ _ _ _ _).bind (fun _ => id) fun _ _ _ => givesUp_pure trivial

theorem deleteIdxComplete_steady (x : Nat × Nat) : (deleteIdxComplete cfg x).Steady c :=
  (flushScratch_steady _ _).bind fun _ => Steady.ite migrateLb0_steady.failAs (steady_pure _)

/-! ## A write -/

theorem fileWriteLookup_steady (fid : Fid) (flags maxSize : Nat) :
    (fileWriteLookup cfg fid flags maxSize).Steady c := by
  refine GivesUp.attempt_bind (findFileMeta_givesUp _ cfg.maxNumFiles 0) ?_ ?_
  · rintro _ c' rfl rfl
    exact .pure ⟨⟨_, rfl, trivial⟩, rfl⟩
  · rintro r c' rfl
    cases r with
    | ok oldIdx =>
      refine (readFileMeta_steady oldIdx).failAs.bind fun fileMeta => ?_
      refine Steady.ite (Steady.ite (steady_pure _) ?_) (steady_pure _)
      exact (updateScratchFileMeta_steady _ _).failAs.bind fun _ => steady_pure _
    | error e =>
      cases e <;> first
        | exact steady_fail _
        | exact (steady_failIf _ _).bind fun _ => steady_pure _

theorem fileWriteReserve_steady (fid : Fid) (flags maxSize : Nat) (t : WriteTarget) :
    (fileWriteReserve cfg fid flags maxSize t).Steady c :=
  Steady.ite ((steady_failIf _ _).bind fun _ => reserveFile_steady _ _ _ _)
    ((readBlockMetadata_steady _).failAs.bind fun _ => steady_pure _)

theorem dblockWriteFile_steady (blockMeta : BlockMeta) (fileMeta : FileMeta) (offset size : Nat)
    (data : Nat → UInt8) :
    (flashFsDblockWriteFile cfg blockMeta fileMeta offset size data).Steady c :=
  (curDataScratchId_steady _).bind fun _ => (blockToBlockMove_steady _ _ _ _ _).bind fun _ =>
    (steady_issue _ _).bind fun _ => (blockToBlockMove_steady _ _ _ _ _).bind fun _ =>
    flushScratch_steady _ _

theorem writeAlignedData_steady (blockMeta : BlockMeta) (fileMeta : FileMeta)
    (offset size : Nat) (data : Nat → UInt8) :
    (flashFsFileWriteAlignedData cfg blockMeta fileMeta offset size data).Steady c :=
  (steady_failIf _ _).bind fun _ => (steady_failIf _ _).bind fun _ =>
    (steady_ofExcept _).failAs.bind fun _ => dblockWriteFile_steady _ _ _ _ _

/-- The scratch block changes once the data is written. -/
theorem fileWriteData_givesUp (fileMeta : FileMeta) (blockMeta : BlockMeta) (dataSize offset : Nat)
    (data : Nat → UInt8) :
    (fileWriteData cfg fileMeta blockMeta dataSize offset data).GivesUp c (fun _ => True) (· = c)
      fun _ => True := by
  unfold fileWriteData
  by_cases h0 : dataSize = 0
  · rw [if_neg (not_not_intro h0)]
    exact givesUp_pure trivial
  · rw [if_pos h0]
    refine (writeAlignedData_steady _ _ _ _ _).failAs.bind_givesUp (S := (· = c)) rfl trivial
      fun _ => ?_
    exact curDataScratchId_bind_givesUp (setDataScratch_bind_givesUp (givesUp_pure trivial))

theorem fileWriteStage_givesUp (r : WriteReq) :
    (fileWriteStage cfg r).GivesUp c (fun _ => True) (· = c) fun _ => True :=
  (steady_failIf _ _).bind_givesUp (S := (· = c)) rfl trivial fun _ =>
    (fileWriteLookup_steady _ _ _).bind_givesUp (S := (· = c)) rfl trivial fun _ =>
    (fileWriteReserve_steady _ _ _ _).bind_givesUp (S := (· = c)) rfl trivial fun _ =>
    (fileWriteData_givesUp _ _ _ _ _).bind (fun _ => id) fun _ _ _ => givesUp_pure trivial

theorem fileWriteComplete_steady (r : WriteReq) (x : WritePlan) :
    (fileWriteComplete cfg r x).Steady c := by
  refine (updateScratchBlockMeta_steady _ _).failAs.bind fun _ =>
    (updateScratchFileMeta_steady _ _).failAs.bind fun _ => (cpFileMeta_steady _ _).failAs.bind
    fun _ => Steady.ite ?_ ?_
  · exact (cpFileMeta_steady _ _).failAs.bind fun _ => (steady_pure _).bind fun _ =>
      (cpFileMeta_steady _ _).failAs.bind fun _ => Steady.ite migrateLb0_steady.failAs (steady_pure _)
  · exact (steady_pure _).bind fun _ => (cpFileMeta_steady _ _).failAs.bind fun _ =>
      Steady.ite migrateLb0_steady.failAs (steady_pure _)

/-! ## The commit -/

theorem calculateMetadataXor_steady (b : Nat) : (mblockCalculateMetadataXor cfg b).Steady c := by
  have hloop : ∀ size pos n i x, (mblockXorEntries b size pos n i x).Steady c := by
    intro size pos n
    induction n with
    | zero => exact fun i x => steady_pure _
    | succ n ih => exact fun i x => (steady_issue _ _).bind fun _ => ih _ _
  exact (steady_failIf _ _).bind fun _ => (hloop _ _ _ _ _).bind fun _ => hloop _ _ _ _ _

/-- The context has the next swap count, but still the old active metadata block. -/
def Ctx.Ahead (cfg : Config) (c c' : Ctx) : Prop :=
  c'.activeMetablock = c.activeMetablock ∧
    c'.metaBlockHeader.activeSwapCount = nextSwapCount cfg c.metaBlockHeader.activeSwapCount

/-- The header of the context is only replaced by the next one. -/
theorem commitHeader_givesUp_of {S : Ctx → Prop} (hS : ∀ hdr : MetadataBlockHeader,
    hdr.activeSwapCount = nextSwapCount cfg c.metaBlockHeader.activeSwapCount →
      S { c with metaBlockHeader := hdr }) :
    (commitHeader cfg).GivesUp c (fun _ => True) S fun _ => True := by
  have hwrite : (mblockWriteScratchMetaHeader cfg).GivesUp c (fun _ => True) S S := by
    refine modify_bind_givesUp rfl (modify_bind_givesUp (nextSwapCount_steps cfg c)
      (get_bind_givesUp ?_))
    have hrest : ∀ x : UInt8, (do
        modify fun c => { c with metaBlockHeader := { c.metaBlockHeader with metadataXor := x } }
        let c ← get
        let _ ← opsWrite c.scratchMetablock c.metaBlockHeader.encode 0
        pure () : FsM Unit).GivesUp { c with metaBlockHeader := { c.metaBlockHeader with
          activeSwapCount := nextSwapCount cfg c.metaBlockHeader.activeSwapCount } }
          (fun _ => True) S S := fun x => by
      refine modify_bind_givesUp rfl (get_bind_givesUp ?_)
      exact (steady_issue _ _).bind_givesUp (hS _ rfl) (hS _ rfl) fun _ => givesUp_pure (hS _ rfl)
    split_ifs
    · exact (calculateMetadataXor_steady _).bind_givesUp (hS _ rfl) (hS _ rfl) hrest
    · exact hrest 0
  refine hwrite.bind (fun _ _ => trivial) fun _ c' hc => ?_
  exact get_bind_givesUp (givesUp_issue _ trivial hc trivial)

theorem commitHeader_givesUp : (commitHeader cfg).GivesUp c (fun _ => True) (c.Ahead cfg)
    fun _ => True :=
  commitHeader_givesUp_of fun _ h => ⟨rfl, h⟩

end Etss
