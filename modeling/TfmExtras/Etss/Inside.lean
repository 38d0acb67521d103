import TfmExtras.Etss.Calc
import TfmExtras.Etss.FirstError

/-! The operations that are issued on tables of which only the checks are known: which of them
stay inside a block of the area whatever the tables hold. -/

namespace Etss
open NorFlash NorFlash.Flash FlashM

/-- The operation stays inside a block of the area. -/
def InBlock (cfg : Config) : Op → Prop
  | .init => True
  | .read b off n => b < cfg.numBlocks ∧ off + n ≤ cfg.blockSize
  | .write b off data => b < cfg.numBlocks ∧ off + data.length ≤ cfg.blockSize
  | .flush b => b < cfg.numBlocks
  | .erase b => b < cfg.numBlocks

instance (cfg : Config) (o : Op) : Decidable (InBlock cfg o) :=
  match o with
  | .init => .isTrue trivial
  | .read b off n => inferInstanceAs (Decidable (b < cfg.numBlocks ∧ off + n ≤ cfg.blockSize))
  | .write b off data =>
    inferInstanceAs (Decidable (b < cfg.numBlocks ∧ off + data.length ≤ cfg.blockSize))
  | .flush b => inferInstanceAs (Decidable (b < cfg.numBlocks))
  | .erase b => inferInstanceAs (Decidable (b < cfg.numBlocks))

/-- The scratch blocks of the context are blocks of the area. -/
structure Ctx.Placed (cfg : Config) (c : Ctx) : Prop where
  active_le : c.activeMetablock ≤ 1
  scratch : c.scratchMetablock = otherMetaBlock c.activeMetablock
  dblock_lt : cfg.numBlocks ≠ 2 → c.metaBlockHeader.scratchDblock < cfg.numBlocks

/-- What the checks say about a block entry. -/
structure BlockMeta.Placed (cfg : Config) (m : BlockMeta) : Prop where
  phyId_lt : m.phyId < cfg.numBlocks
  le : m.dataStart + m.freeSize ≤ cfg.blockSize

variable {cfg : Config} {c : Ctx} {fl : Flash}

theorem mblockCheckBlockMeta_placed {start : Nat} {m : BlockMeta}
    (h : mblockCheckBlockMeta cfg start m = .ok ()) : m.Placed cfg := by
  unfold mblockCheckBlockMeta at h
  by_cases hphy : m.phyId ≥ cfg.numBlocks
  · rw [if_pos hphy] at h
    cases h
  rw [if_neg hphy] at h
  cases hin : utilsCheckContainedIn cfg.blockSize m.dataStart m.freeSize with
  | error e =>
    rw [hin] at h
    cases h
  | ok _ => exact ⟨Nat.not_le.mp hphy, utilsCheckContainedIn_eq_ok.mp hin⟩

theorem checkBlock_ok (hval : cfg.validateMetadata = true) {m m' : BlockMeta}
    (h : checkBlock cfg m = .ok m') : m' = m ∧ m.Placed cfg := by
  unfold checkBlock at h
  rw [if_pos hval] at h
  cases hv : mblockValidateBlockMeta cfg m with
  | error e =>
    rw [hv] at h
    cases h
  | ok _ =>
    rw [hv] at h
    cases h
    exact ⟨rfl, mblockCheckBlockMeta_placed hv⟩

/-! ## Copying -/

theorem moveLoop_passes {dst src : Nat} (hdst : dst < cfg.numBlocks) (hsrc : src < cfg.numBlocks)
    (fuel : Nat) : ∀ {dstOffset srcOffset n : Nat}, dstOffset + n ≤ cfg.blockSize →
    srcOffset + n ≤ cfg.blockSize →
    (blockToBlockMoveLoop dst src fuel dstOffset srcOffset n).Passes (InBlock cfg) c := by
  have hbs := cfg.blockSize_lt
  induction fuel with
  | zero => exact fun _ _ => passes_pure ()
  | succ fuel ih =>
    intro dstOffset srcOffset n hd hs
    unfold blockToBlockMoveLoop
    split_ifs
    · exact passes_pure ()
    have hk : min n maxBlockDataCopy ≤ n := min_le_left _ _
    refine issue_bind_within ⟨hsrc, by omega⟩ fun bs hbs => ?_
    have hlen : bs.length = min n maxBlockDataCopy := hbs
    refine issue_bind_within ⟨hdst, by omega⟩ fun _ _ => ?_
    rw [add32_eq (by omega), add32_eq (by omega)]
    exact ih (by omega) (by omega)

/-- A move stays inside the blocks when its bytes do. -/
theorem move_passes {dst dstOffset src srcOffset n : Nat} (hdst : dst < cfg.numBlocks)
    (hsrc : src < cfg.numBlocks) (hd : dstOffset + n ≤ cfg.blockSize)
    (hs : srcOffset + n ≤ cfg.blockSize) :
    (flashFsBlockToBlockMove dst dstOffset src srcOffset n).Passes (InBlock cfg) c :=
  moveLoop_passes hdst hsrc n hd hs

/-! ## The tables -/

section
variable (hacc : cfg.Accepted) (hval : cfg.validateMetadata = true) (hc : c.Placed cfg)

include hacc hc

theorem Ctx.Placed.active_lt : c.activeMetablock < cfg.numBlocks :=
  hc.active_le.trans_lt hacc.two_le_numBlocks

theorem Ctx.Placed.scratch_lt : c.scratchMetablock < cfg.numBlocks := by
  rw [hc.scratch]
  exact (otherMetaBlock_le _).trans_lt hacc.two_le_numBlocks

theorem readBlock_within (hval : cfg.validateMetadata = true) {l : Nat}
    (hl : l < numActiveDblocks cfg) :
    (flashFsMblockReadBlockMetadata cfg l).Within (InBlock cfg) c fun r c' =>
      c' = c ∧ ∀ m, r = .ok m → m.Placed cfg := by
  have hle := hacc.metaEnd_le
  unfold Config.metaEnd Config.fileEntry Config.filesStart at hle
  unfold flashFsMblockReadBlockMetadata
  rw [hacc.blockOffset_eq hl.le]
  refine get_bind_within (issue_bind_within ⟨hc.active_lt hacc, ?_⟩ fun bs _ => ?_)
  · unfold blockMetadataSize
    omega
  dsimp only
  rw [if_pos hval]
  refine Within.bind (within_ofExcept (Q := fun r c' =>
    c' = c ∧ r = mblockValidateBlockMeta cfg (.decode bs)) ⟨rfl, rfl⟩) ?_ ?_
  · rintro _ _ ⟨rfl, hv⟩
    refine within_pure ⟨rfl, fun m hm => ?_⟩
    cases hm
    exact mblockCheckBlockMeta_placed hv.symm
  · rintro e _ ⟨rfl, -⟩
    exact ⟨rfl, fun m hm => by cases hm⟩

/-- What the checks say about the entry of a file. -/
structure FileMeta.Placed (cfg : Config) (m : FileMeta) : Prop where
  lblock_lt : m.lblock < numActiveDblocks cfg
  maxSize_le : m.id ≠ 0 → m.maxSize ≤ cfg.maxFileSize
  curSize_le : m.id ≠ 0 → m.curSize ≤ m.maxSize
  le : m.id ≠ 0 → m.dataIdx + m.maxSize ≤ cfg.blockSize

omit hacc hc in
theorem validateFileMeta_placed {m : FileMeta} (h : mblockValidateFileMeta cfg m = .ok ()) :
    m.Placed cfg := by
  unfold mblockValidateFileMeta utilsValidateFid at h
  by_cases hl : m.lblock ≥ numActiveDblocks cfg
  · rw [if_pos hl] at h
    cases h
  rw [if_neg hl] at h
  by_cases hid : m.id ≠ 0
  · rw [if_pos hid] at h
    dsimp only at h
    split_ifs at h with hmax hcur hmeta
    cases hin : utilsCheckContainedIn cfg.blockSize m.dataIdx m.maxSize with
    | error e =>
      rw [hin] at h
      cases h
    | ok _ => exact ⟨Nat.not_le.mp hl, fun _ => Nat.not_lt.mp hmax, fun _ => Nat.not_lt.mp hcur,
        fun _ => utilsCheckContainedIn_eq_ok.mp hin⟩
  · exact ⟨Nat.not_le.mp hl, fun h0 => absurd h0 hid, fun h0 => absurd h0 hid,
      fun h0 => absurd h0 hid⟩

omit hacc hc in
theorem checkFile_ok (hval : cfg.validateMetadata = true) {m m' : FileMeta}
    (h : checkFile cfg m = .ok m') : m' = m ∧ m.Placed cfg := by
  unfold checkFile at h
  rw [if_pos hval] at h
  cases hv : mblockValidateFileMeta cfg m with
  | error e =>
    rw [hv] at h
    cases h
  | ok _ =>
    rw [hv] at h
    cases h
    exact ⟨rfl, validateFileMeta_placed hv⟩

theorem readFile_stays {i : Nat} (hi : i < cfg.maxNumFiles) :
    (flashFsMblockReadFileMeta cfg i).Stays (InBlock cfg) c := by
  have hle : cfg.fileEntry i + fileMetadataSize ≤ cfg.blockSize :=
    le_trans (hacc.fileEntry_le (Nat.succ_le_of_lt hi)) hacc.metaEnd_le
  unfold flashFsMblockReadFileMeta
  rw [hacc.fileOffset_eq hi.le]
  refine get_bind_within (issue_bind_within ⟨hc.active_lt hacc, hle⟩ fun bs _ => ?_)
  exact Stays.bind (within_ofExcept rfl) (fun _ => within_pure rfl) fun _ => rfl

theorem getFreeFileIndexLoop_within {n i : Nat} (hi : i + n ≤ cfg.maxNumFiles) (useSpare : Bool) :
    (getFreeFileIndexLoop cfg n i useSpare).Within (InBlock cfg) c fun r c' =>
      c' = c ∧ ∀ k, r = .ok k → k = metadataInvalidIndex ∨ k < cfg.maxNumFiles := by
  have hdone : ∀ k, k = metadataInvalidIndex ∨ k < cfg.maxNumFiles →
      (pure k : FsM Nat).Within (InBlock cfg) c fun r c' =>
        c' = c ∧ ∀ k, r = .ok k → k = metadataInvalidIndex ∨ k < cfg.maxNumFiles :=
    fun k hk => within_pure ⟨rfl, fun k' hk' => by cases hk'; exact hk⟩
  induction n generalizing i useSpare with
  | zero => exact hdone _ (.inl rfl)
  | succ n ih =>
    unfold getFreeFileIndexLoop
    refine Stays.bind (readFile_stays hacc hc (by omega)).attempt (fun r => ?_) fun _ => ⟨rfl, fun _ => of_error_eq_ok⟩
    cases r with
    | error e => exact hdone _ (.inl rfl)
    | ok m =>
      dsimp only
      cases utilsValidateFid m.id with
      | ok _ => exact ih (by omega) _
      | error _ => exact .ite (fun _ => hdone _ (.inr (by omega))) fun _ => ih (by omega) _

theorem writeBlock_passes {l : Nat} (hl : l < numActiveDblocks cfg) (m : BlockMeta) :
    (mblockUpdateScratchBlockMeta l m).Passes (InBlock cfg) c := by
  have hle := hacc.metaEnd_le
  unfold Config.metaEnd Config.fileEntry Config.filesStart at hle
  unfold mblockUpdateScratchBlockMeta
  rw [hacc.blockOffset_eq hl.le]
  refine get_bind_within (issue_bind_within ⟨hc.scratch_lt hacc, ?_⟩ fun _ _ => passes_pure ())
  rw [BlockMeta.encode_length]
  omega

theorem writeFile_passes {i : Nat} (hi : i < cfg.maxNumFiles) (m : FileMeta) :
    (flashFsMblockUpdateScratchFileMeta cfg i m).Passes (InBlock cfg) c := by
  have hle : cfg.fileEntry i + 32 ≤ cfg.blockSize :=
    le_trans (hacc.fileEntry_le (Nat.succ_le_of_lt hi)) hacc.metaEnd_le
  unfold flashFsMblockUpdateScratchFileMeta
  rw [hacc.fileOffset_eq hi.le]
  refine get_bind_within (issue_bind_within ⟨hc.scratch_lt hacc, ?_⟩ fun _ _ => passes_pure ())
  rw [FileMeta.encode_length]
  exact hle

theorem cpFileMeta_passes {lo hi : Nat} (hlo : lo ≤ hi) (hhi : hi ≤ cfg.maxNumFiles) :
    (flashFsMblockCpFileMeta cfg lo hi).Passes (InBlock cfg) c := by
  have hle : cfg.fileEntry hi ≤ cfg.blockSize :=
    le_trans (hacc.fileEntry_le hhi) hacc.metaEnd_le
  have hlohi : cfg.fileEntry lo ≤ cfg.fileEntry hi := hacc.fileEntry_le hlo
  unfold flashFsMblockCpFileMeta
  rw [hacc.fileOffset_eq (hlo.trans hhi), hacc.fileOffset_eq hhi]
  dsimp only
  rw [sub32_eq (hle.trans_lt cfg.blockSize_lt) hlohi]
  refine get_bind_within (move_passes (hc.scratch_lt hacc) (hc.active_lt hacc) ?_ ?_) <;> omega

/-- The block entries from `l` on are copied. -/
theorem moveBlocks_passes {lo hi : Nat} (hlo : lo ≤ hi) (hhi : hi ≤ numActiveDblocks cfg) :
    (flashFsBlockToBlockMove c.scratchMetablock (8 + 12 * lo) c.activeMetablock (8 + 12 * lo)
      (12 * (hi - lo))).Passes (InBlock cfg) c := by
  have hle := hacc.metaEnd_le
  unfold Config.metaEnd Config.fileEntry Config.filesStart at hle
  refine move_passes (hc.scratch_lt hacc) (hc.active_lt hacc) ?_ ?_ <;> omega

theorem copyRemaining_stays (hval : cfg.validateMetadata = true) {l : Nat}
    (hl : l < numActiveDblocks cfg) :
    (mblockCopyRemainingBlockMeta cfg l).Stays (InBlock cfg) c := by
  have hlast := moveBlocks_passes hacc hc (show l + 1 ≤ numActiveDblocks cfg from hl) le_rfl
  have hfiles : mblockFileMetaOffset cfg 0 = 8 + 12 * numActiveDblocks cfg := by
    rw [hacc.fileOffset_eq (Nat.zero_le _)]
    unfold Config.fileEntry Config.filesStart
    omega
  have hlt := hacc.numActive_lt
  have hend : sub32 (8 + 12 * numActiveDblocks cfg) (8 + 12 * (l + 1)) =
      12 * (numActiveDblocks cfg - (l + 1)) := by
    rw [sub32_eq (by omega) (by omega)]
    omega
  unfold mblockCopyRemainingBlockMeta
  rw [hacc.blockOffset_eq hl.le, hacc.blockOffset_eq (show l + 1 ≤ _ from hl), hfiles]
  dsimp only
  rw [hend]
  refine get_bind_within (Within.ite (fun h0 => ?_) fun _ => hlast.stays)
  have hread : (flashFsMblockReadBlockMetadata cfg logicalDblock0).Stays (InBlock cfg) c :=
    (readBlock_within hacc hc hval hacc.numActive_pos).mono fun _ _ h => h.1
  refine Stays.bind hread.failAs (fun blockMeta => ?_) fun _ => rfl
  refine Passes.bind (writeBlock_passes hacc hc hacc.numActive_pos _).failAs fun _ => ?_
  have hone : mblockBlockMetaOffset (logicalDblock0 + 1) = 8 + 12 * 1 :=
    hacc.blockOffset_eq (show 1 ≤ _ from hacc.numActive_pos)
  have hpos : sub32 (8 + 12 * l) (8 + 12 * 1) = 12 * (l - 1) := by
    unfold logicalDblock0 at h0
    rw [sub32_eq (by omega) (by omega)]
    omega
  rw [hone, hpos]
  exact Passes.ite_bind (fun hl1 => moveBlocks_passes hacc hc hl1.le hl.le) hlast.stays

theorem updateScratchBlockMeta_stays (hval : cfg.validateMetadata = true) {l : Nat}
    (hl : l < numActiveDblocks cfg) (m : BlockMeta) :
    (flashFsMblockUpdateScratchBlockMeta cfg l m).Stays (InBlock cfg) c :=
  get_bind_within <| Passes.bind (writeBlock_passes hacc hc hl _).failAs fun _ =>
    copyRemaining_stays hacc hc hval hl

/-! ## The scratch blocks -/

theorem Ctx.Placed.scratchId_lt {l : Nat} (hl : l < numActiveDblocks cfg) :
    c.scratchId l < cfg.numBlocks := by
  unfold Ctx.scratchId
  split_ifs with h0
  · exact hc.scratch_lt hacc
  · exact hc.dblock_lt (numBlocks_ne_two hacc h0 hl)

omit hacc in
theorem Ctx.Placed.withScratch {phyId : Nat} (h : phyId < cfg.numBlocks) (l : Nat) :
    (c.withScratch l phyId).Placed cfg where
  active_le := (c.withScratch_active l phyId).symm ▸ hc.active_le
  scratch := by
    rw [c.withScratch_scratch, c.withScratch_active]
    exact hc.scratch
  dblock_lt h2 := by
    rw [c.withScratch_dblock]
    split_ifs
    · exact hc.dblock_lt h2
    · exact h

omit hacc hc in
theorem curDataScratchId_bind_within {α : Type} {A : Op → Prop} {l : Nat} {k : Nat → FsM α}
    {Q : Except Status α → Ctx → Prop} (h : (k (c.scratchId l)).Within A c Q) :
    (flashFsMblockCurDataScratchId l >>= k).Within A c Q := h

omit hacc hc in
theorem setDataScratch_within {A : Op → Prop} {phyId l : Nat} :
    (flashFsMblockSetDataScratch phyId l).Within A c
      fun r c' => r = .ok () ∧ c' = c.withScratch l phyId := by
  have hset := setDataScratch_bind phyId l (fun _ => (pure () : FsM Unit)) c
  rw [bind_pure] at hset
  unfold Within
  rw [hset]
  exact .pure ⟨rfl, rfl⟩

omit hacc hc in
theorem setDataScratch_bind_within {α : Type} {A : Op → Prop} {phyId l : Nat} {k : Unit → FsM α}
    {Q : Except Status α → Ctx → Prop} (h : (k ()).Within A (c.withScratch l phyId) Q) :
    (flashFsMblockSetDataScratch phyId l >>= k).Within A c Q := by
  unfold Within
  rw [setDataScratch_bind]
  exact h

theorem eraseScratchBlocks_passes : (mblockEraseScratchBlocks cfg).Passes (InBlock cfg) c := by
  unfold mblockEraseScratchBlocks
  refine get_bind_within (issue_bind_within (hc.scratch_lt hacc) fun _ _ => ?_)
  refine .ite (fun h2 => ?_) fun _ => passes_pure ()
  refine get_bind_within (issue_bind_within ?_ fun _ _ => passes_pure ())
  exact hc.dblock_lt (by omega)

/-! ## The commit -/

omit hc hacc in
theorem xorEntries_passes {b size : Nat} {pos : Nat → Nat} (hb : b < cfg.numBlocks) {n i : Nat}
    (hpos : ∀ j, i ≤ j → j < i + n → pos j + size ≤ cfg.blockSize) (x : UInt8) :
    (mblockXorEntries b size pos n i x).Passes (InBlock cfg) c := by
  induction n generalizing i x with
  | zero => exact passes_pure x
  | succ n ih =>
    unfold mblockXorEntries
    refine issue_bind_within ⟨hb, hpos i le_rfl (by omega)⟩ fun _ _ => ?_
    exact ih (fun j h₁ h₂ => hpos j (by omega) (by omega)) _

omit hc in
theorem calculateMetadataXor_passes {b : Nat} (hb : b ≤ 1) :
    (mblockCalculateMetadataXor cfg b).Passes (InBlock cfg) c := by
  have hlt : b < cfg.numBlocks := hb.trans_lt hacc.two_le_numBlocks
  have hle := hacc.metaEnd_le
  have hn : ¬ (b ≠ metadataBlock0 ∧ b ≠ metadataBlock1) := by
    unfold metadataBlock0 metadataBlock1
    omega
  unfold mblockCalculateMetadataXor failIf
  rw [if_neg hn]
  refine Passes.bind (passes_pure ()) fun _ => ?_
  refine Passes.bind (xorEntries_passes hlt (fun j _ hj => ?_) 0) fun x => ?_
  · rw [hacc.blockOffset_eq (by omega)]
    unfold Config.metaEnd Config.fileEntry Config.filesStart at hle
    unfold blockMetadataSize
    omega
  · refine xorEntries_passes hlt (fun j _ hj => ?_) x
    rw [hacc.fileOffset_eq (by omega)]
    exact le_trans (hacc.fileEntry_le (Nat.succ_le_of_lt (by omega))) hle

omit hacc in
theorem Ctx.Placed.header {hMeta : MetadataBlockHeader}
    (h : hMeta.scratchDblock = c.metaBlockHeader.scratchDblock) :
    Ctx.Placed cfg { c with metaBlockHeader := hMeta } where
  active_le := hc.active_le
  scratch := hc.scratch
  dblock_lt h2 := h ▸ hc.dblock_lt h2

theorem writeScratchMetaHeader_within (hval : cfg.validateMetadata = true) :
    (mblockWriteScratchMetaHeader cfg).Within (InBlock cfg) c fun _ c' => c'.Placed cfg := by
  unfold mblockWriteScratchMetaHeader
  refine modify_bind_within_of (P := Ctx.Placed cfg) (hc.header rfl) fun c₁ h₁ => ?_
  refine modify_bind_within_of (P := Ctx.Placed cfg) ?_ fun c₂ h₂ => get_bind_within ?_
  · cases mblockValidateSwapCount cfg c₁.metaBlockHeader.activeSwapCount with
    | ok _ => exact h₁
    | error _ => exact h₁.header rfl
  rw [if_pos hval]
  have hs : c₂.scratchMetablock ≤ 1 := h₂.scratch ▸ otherMetaBlock_le _
  refine Passes.bind (calculateMetadataXor_passes hacc hs) fun xorValue => ?_
  refine modify_bind_within_of (P := Ctx.Placed cfg) (h₂.header rfl) fun c₃ h₃ => ?_
  refine get_bind_within (issue_bind_within ⟨h₃.scratch_lt hacc, ?_⟩ fun _ _ => within_pure h₃)
  rw [MetadataBlockHeader.encode_length]
  exact (Nat.zero_add 8).trans_le ((metaEnd_ge cfg).trans hacc.metaEnd_le)

/-- The commit of an update swaps the metadata blocks, and erases the scratch blocks. -/
theorem metaUpdateFinalize_within (hval : cfg.validateMetadata = true) :
    (flashFsMblockMetaUpdateFinalize cfg).Within (InBlock cfg) c fun _ c' => c'.Placed cfg := by
  unfold flashFsMblockMetaUpdateFinalize mblockSwapMetablocks
  refine Within.bind (writeScratchMetaHeader_within hacc hc hval) (fun _ c₁ h₁ => ?_) fun _ _ => id
  refine get_bind_within (issue_bind_within (h₁.scratch_lt hacc) fun _ _ => ?_)
  refine modify_bind_within_of (P := Ctx.Placed cfg) ?_ fun c₂ h₂ =>
    (eraseScratchBlocks_passes hacc h₂).within fun _ => h₂
  refine ⟨h₁.scratch ▸ otherMetaBlock_le _, ?_, h₁.dblock_lt⟩
  show c₁.activeMetablock = otherMetaBlock c₁.scratchMetablock
  rw [h₁.scratch, otherMetaBlock_other h₁.active_le]

end

end Etss
